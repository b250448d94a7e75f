import Fileblock.Crypt.Rotation
import Fileblock.Interaction.Simulation

/-! A device of which `prepare` can make a filesystem stays one at every moment of a call,
and a call that fails leaves the mapping closed. -/
namespace Fileblock.Crypt
open Go Interaction Prog

variable {A : Device → Cmd → Choice → Prop} {k : Keys} {f : Format} {dev name : String}
  {d d' : Device} {α : Type}

/-- Well formed, with a header that records a sector size, and blank or opened by one of
the keys. -/
structure Device.Usable (d : Device) (k : Keys) : Prop where
  sound : d.Sound
  ready : d.Ready k
  sector : ∀ h, d.header = some h → h.sectorSize ≠ 0

theorem Device.Usable.setMapped (h : d.Usable k) (b : Bool) : { d with mapped := b }.Usable k :=
  ⟨h.sound, h.ready, h.sector⟩

theorem Step.usable (hs : Step k f d d') (h : d.Usable k) : d'.Usable k := by
  refine ⟨hs.sound h.sound, hs.ready h.ready, ?_⟩
  cases hs with
  | stay | «open» | close | mkfs => exact h.sector
  | format hb =>
    rw [d.formatted_blank hb.1]
    intro h' he
    rw [← Option.some.inj he]
    exact Nat.succ_ne_zero _
  | addKey hh | removeKey hh | relabel hh =>
    have hsector := h.sector _ hh
    intro h' he
    rw [← Option.some.inj he]
    exact hsector

theorem wp_mapped {p : Run α} (hall : p.All (·.remaps = false)) (b : Bool) (hm : d.mapped = b) :
    p.wp ⟨exec, A, fun _ _ _ => True⟩ (fun _ d' => d'.mapped = b) d := by
  refine wp_of_all (I := fun d : Device => d.mapped = b) (fun d c o hc _ hm => ⟨trivial, ?_⟩)
    hall hm
  unfold exec
  cases o.fault with
  | some e => exact hm
  | none => exact (execOk_mapped hc _ d).trans hm

theorem wp_ensureFilesystemOrClose_closed (hclose : ∀ d o, A d .close o → o.fault = none)
    (hm : d.mapped = true) :
    (ensureFilesystemOrClose dev name).run.wp ⟨exec, A, fun _ _ _ => True⟩
      (fun r d' => r.isOk = false → d'.mapped = false) d := by
  unfold ensureFilesystemOrClose
  rw [ExceptT.run_mk, wp_bind]
  refine wp_mono (fun r d hm => ?_) (wp_mapped (ensureFilesystem_stays dev _) true hm)
  cases r with
  | ok u =>
    intro h
    cases h
  | error e =>
    show ((close name).run >>= _).wp ⟨exec, A, _⟩ _ d
    unfold close
    rw [ExceptT.run_mk, wp_bind, wp_bind, wp_issue]
    intro o ho
    refine ⟨trivial, ?_⟩
    rw [exec_calm (hclose d o ho)]
    simp only [execOk, hm, if_true]
    exact fun _ => rfl

theorem wp_prepare_closed (hclose : ∀ d o, A d .close o → o.fault = none) (hm : d.mapped = false) :
    (prepare dev name k f).run.wp ⟨exec, A, fun _ _ _ => True⟩
      (fun r d' => r.isOk = false → d'.mapped = false) d := by
  unfold prepare
  rw [wp_run_bind]
  refine wp_mono (fun r d hm => ?_) (wp_mapped (formatIfBlank_stays dev k f) false hm)
  cases r with
  | error e => exact fun _ => hm
  | ok outcome =>
    dsimp only
    rw [wp_run_bind]
    refine wp_mono (fun r d hm => ?_) (wp_mapped (rotate_stays dev k) false hm)
    cases r with
    | error e => exact fun _ => hm
    | ok moved =>
      dsimp only
      rw [wp_run_bind, subcommand, wp_attempt, wp_issue]
      intro o _
      refine ⟨trivial, ?_⟩
      have hopen : (∃ e, (exec o (.open k.current) d).1 = .error e) ∧
            (exec o (.open k.current) d).2.mapped = false ∨
          (exec o (.open k.current) d).1 = .ok () ∧
            (exec o (.open k.current) d).2.mapped = true := by
        unfold exec
        cases o.fault with
        | some e => exact Or.inl ⟨⟨e, rfl⟩, hm⟩
        | none =>
          cases hh : d.header with
          | none =>
            simp only [execOk, hh]
            exact Or.inl ⟨⟨_, rfl⟩, hm⟩
          | some h =>
            by_cases hk : k.current ∈ h.slots
            · rw [execOk_open _ hh hk hm]
              exact Or.inr ⟨rfl, rfl⟩
            · simp only [execOk, hh, hk, not_false_eq_true, if_true]
              exact Or.inl ⟨⟨_, rfl⟩, hm⟩
      rcases hopen with ⟨⟨e, he⟩, hm⟩ | ⟨hok, hm⟩
      · rw [he]
        exact fun _ => hm
      · rw [hok]
        dsimp only [Except.mapError]
        rw [wp_run_bind]
        refine wp_mono (fun r d h => ?_) (wp_ensureFilesystemOrClose_closed hclose hm)
        cases r with
        | error e => exact h
        | ok u =>
          intro h
          cases h

/-- A call on a device whose mapping is closed, as a whole. -/
theorem prepare_spec (dev name : String) (k : Keys) (f : Format)
    (hA : ∀ d c o, A d c o → Genuine d c o) (hclose : ∀ d o, A d .close o → o.fault = none)
    (hm : d.mapped = false) :
    (prepare dev name k f).run.wp ⟨exec, A,
      fun d' c o => Lawful k f d' c o ∧ (d.Usable k → d'.Usable k)⟩
      (fun r d' => (d.Usable k → d'.Usable k) ∧
        ((∃ e, r = .error e) ∧ d'.mapped = false ∧ (Faulty A ∨ ¬ d.Ready k) ∨
          (∃ out, r = .ok (mapperPath name, out)) ∧ d.Ready k ∧ d' = d.prepared k f)) d := by
  have hsteps : (prepare dev name k f).run.wp ⟨exec, A, Lawful k f⟩ (fun r d' =>
      (∃ e, r = .error e) ∧ (Faulty A ∨ ¬ d.Ready k) ∨
        (∃ out, r = .ok (mapperPath name, out)) ∧ d.Ready k ∧ d' = d.prepared k f) d := by
    refine wp_prepare hA (fun hf e d' => Or.inl ⟨⟨e, rfl⟩, Or.inl hf⟩) hm ?_ ?_ ?_
    · intro hn hb
      refine Or.inl ⟨⟨_, rfl⟩, Or.inr ?_⟩
      rintro (hb' | ⟨h, hh, -⟩ | ⟨-, h, hh, -⟩)
      · exact hb hb'
      · exact absurd (hn.symm.trans hh) (by simp)
      · exact absurd (hn.symm.trans hh) (by simp)
    · intro h hh hc hp
      refine Or.inl ⟨⟨_, rfl⟩, Or.inr ?_⟩
      rintro (hb | ⟨h', hh', hk⟩ | ⟨hn, h', hh', hk⟩)
      · exact absurd (hb.1.symm.trans hh) (by simp)
      · cases hh.symm.trans hh'
        exact hc hk
      · cases hh.symm.trans hh'
        exact hp hn hk
    · exact fun hr out => Or.inr ⟨⟨out, rfl⟩, hr, rfl⟩
  have hkept := wp_invariant (I := fun d' => d.Usable k → d'.Usable k)
    (fun _ _ _ _ hl h hu => hl.step.usable (h hu)) hsteps fun h => h
  have hclosed : (prepare dev name k f).run.wp ⟨exec, A, fun _ _ _ => True⟩
      (fun r d' => r.isOk = false → d'.mapped = false) d := wp_prepare_closed hclose hm
  refine wp_mono ?_ (wp_both (fun _ _ _ hl _ => hl.1) hkept hclosed)
  rintro r d' ⟨⟨hr, hu⟩, hc⟩
  refine ⟨hu, ?_⟩
  rcases hr with ⟨⟨e, rfl⟩, hr⟩ | hr
  · exact Or.inl ⟨⟨e, rfl⟩, hc rfl, hr⟩
  · exact Or.inr hr

end Fileblock.Crypt
