import Fileblock.Crypt.Target

/-! One rule for each function under `prepare`: what it issues and what it leaves
behind, under any admissible failures whose exit statuses are genuine. -/
namespace Fileblock.Crypt
open Go Interaction Prog

/-- Some admissible choice makes a command fail. -/
def Faulty (A : Device → Cmd → Choice → Prop) : Prop := ∃ d c o, A d c o ∧ o.fault ≠ none

theorem not_faulty_calm : ¬ Faulty Calm := fun ⟨_, _, _, hA, hf⟩ => hf hA

theorem exec_fault {o : Choice} {e : ExecError} (h : o.fault = some e) (c : Cmd) (d : Device) :
    exec o c d = (failed e c, d) := by
  simp [exec, h]

theorem exec_calm {o : Choice} (h : o.fault = none) (c : Cmd) (d : Device) :
    exec o c d = execOk o.pick c d := by
  simp [exec, h]

theorem execOk_open (n : ℕ) {d : Device} {h : Header} {key : Key} (hh : d.header = some h)
    (hk : key ∈ h.slots) (hm : d.mapped = false) :
    execOk n (.open key) d = (.ok (), { d with mapped := true }) := by
  simp [execOk, hh, hk, hm]

/-- The bytes `isBlank` has still to look at after `done` of them. -/
def unread (d : Device) (done : ℕ) : List UInt8 := (d.bytes.drop done).take (blankCheckBytes - done)

theorem unread_eq_append {d : Device} {done : ℕ} {buf : List UInt8} (h : buf <+: unread d done) :
    unread d done = buf ++ unread d (done + buf.length) := by
  have hl := h.length_le
  have hb := List.prefix_iff_eq_take.mp h
  unfold unread at *
  rw [List.length_take] at hl
  rw [← List.drop_drop]
  conv_lhs => rw [show blankCheckBytes - done = buf.length + (blankCheckBytes - (done + buf.length))
    by omega, List.take_add]
  rw [List.take_take, min_eq_left (by omega)] at hb
  rw [← hb]

/-- A read that is not made to fail is at the end exactly when nothing is left,
and otherwise returns a non-empty beginning of it. -/
theorem execOk_read (n : ℕ) (d : Device) {done len : ℕ} (hlen : 0 < len)
    (hmax : len ≤ blankCheckBytes - done) :
    (unread d done = [] ∧ execOk n (.read done len) d = (([], some .eof), d)) ∨
      ∃ buf, buf ≠ [] ∧ buf <+: unread d done ∧ execOk n (.read done len) d = ((buf, none), d) := by
  have hpre : (d.bytes.drop done).take len <+: unread d done := by
    unfold unread
    rw [← min_eq_left hmax, ← List.take_take]
    exact List.take_prefix _ _
  by_cases he : (d.bytes.drop done).take len = []
  · left
    have hd : d.bytes.drop done = [] := by
      rcases List.take_eq_nil_iff.mp he with h | h
      · omega
      · exact h
    exact ⟨by simp [unread, hd], by simp [execOk, he]⟩
  · right
    simp only [execOk, he, if_false]
    split_ifs with hp
    · exact ⟨_, he, hpre, rfl⟩
    · exact ⟨_, by simpa [hp] using he, (List.take_prefix _ _).trans hpre, rfl⟩

section Rules
variable {A : Device → Cmd → Choice → Prop} {k : Keys} {f : Format} {dev name path : String}
  {d : Device} (hA : ∀ d c o, A d c o → Genuine d c o)
include hA

theorem wp_issue_cases {c : Cmd} {Q : Resp c → Device → Prop} (hG : ∀ o, Lawful k f d c o)
    (herr : Faulty A → ∀ e : ExecError, ¬ Answers c e.exitCode → Q (failed e c) d)
    (hok : ∀ n, Q (execOk n c d).1 (execOk n c d).2) : (issue c).wp ⟨exec, A, Lawful k f⟩ Q d := by
  rw [wp_issue]
  intro o ho
  refine ⟨hG o, ?_⟩
  cases hf : o.fault with
  | some e =>
    rw [exec_fault hf]
    exact herr ⟨_, _, o, ho, by simp [hf]⟩ e (hA _ _ _ ho e hf)
  | none =>
    rw [exec_calm hf]
    exact hok o.pick

theorem wp_isLuks {Q : Except Err Bool → Device → Prop}
    (herr : Faulty A → ∀ e, Q (.error e) d) (hok : Q (.ok d.header.isSome) d) :
    (isLuks dev).run.wp ⟨exec, A, Lawful k f⟩ Q d := by
  unfold isLuks
  rw [ExceptT.run_mk, wp_bind]
  refine wp_issue_cases hA (fun _ => trivial) (fun hf e he => ?_) fun n => ?_
  · have hne : e.exitCode ≠ 1 := he
    simp only [failed, if_neg hne]
    exact herr hf _
  · cases hh : d.header with
    | none => simpa [execOk, hh, exit] using hok
    | some h => simpa [execOk, hh] using hok

theorem wp_opens {key : Key} {Q : Except Err Bool → Device → Prop} {h : Header}
    (herr : Faulty A → ∀ e, Q (.error e) d) (hh : d.header = some h)
    (hok : Q (.ok (decide (key ∈ h.slots))) d) :
    (opens dev key).run.wp ⟨exec, A, Lawful k f⟩ Q d := by
  unfold opens
  rw [ExceptT.run_mk, wp_bind]
  refine wp_issue_cases hA (fun _ => trivial) (fun hf e he => ?_) fun n => ?_
  · have hne : e.exitCode ≠ 2 := he
    simp only [failed, if_neg hne]
    exact herr hf _
  · by_cases hk : key ∈ h.slots
    · simpa [execOk, hh, hk] using hok
    · simpa [execOk, hh, hk, exit] using hok

theorem wp_isBlankFrom {Q : Except Err Bool → Device → Prop}
    (herr : Faulty A → ∀ e, Q (.error e) d) (fuel done : ℕ)
    (hfuel : blankCheckBytes ≤ done + fuel)
    (hok : Q (.ok (decide (∀ b ∈ unread d done, b = 0))) d) :
    (isBlankFrom dev fuel done).wp ⟨exec, A, Lawful k f⟩ Q d := by
  induction fuel generalizing done with
  | zero =>
    have hd : blankCheckBytes - done = 0 := by omega
    simpa [isBlankFrom, unread, hd] using hok
  | succ fuel ih =>
    unfold isBlankFrom
    split_ifs with hd
    · rw [wp_bind]
      refine wp_issue_cases hA (fun _ => trivial) (fun hf e _ => herr hf _) fun n => ?_
      have hlen : 0 < min 1048576 (blankCheckBytes - done) := by omega
      obtain ⟨hu, he⟩ | ⟨buf, hne, hpre, he⟩ := execOk_read n d hlen (Nat.min_le_right _ _)
      · rw [he]
        simpa [hu] using hok
      · rw [he]
        have hsplit := unread_eq_append hpre
        by_cases hz : buf.any (· ≠ 0)
        · have hn : ¬ ∀ b ∈ unread d done, b = 0 := by
            obtain ⟨b, hb, hb0⟩ := List.any_eq_true.mp hz
            intro hall
            exact absurd (hall b (hpre.subset hb)) (by simpa using hb0)
          rw [decide_eq_false hn] at hok
          simpa only [hz, if_true, wp_pure] using hok
        · simp only [hz, Bool.false_eq_true, if_false]
          have hlen : 0 < buf.length := List.length_pos_of_ne_nil hne
          refine ih _ (by omega) ?_
          have hb : ∀ b ∈ buf, b = 0 := by
            simpa using hz
          have hiff : (∀ b ∈ unread d done, b = 0) ↔
              ∀ b ∈ unread d (done + buf.length), b = 0 := by
            rw [hsplit]
            simp only [List.mem_append, or_imp, forall_and]
            exact ⟨fun h => h.2, fun h => ⟨hb, h⟩⟩
          rwa [← decide_eq_decide.mpr hiff]
    · have hd : blankCheckBytes - done = 0 := by omega
      simpa [unread, hd] using hok

theorem wp_isBlank {Q : Except Err Bool → Device → Prop}
    (herr : Faulty A → ∀ e, Q (.error e) d) (hh : d.header = none)
    (hok : Q (.ok (decide d.Blank)) d) :
    (isBlank dev).run.wp ⟨exec, A, Lawful k f⟩ Q d := by
  unfold isBlank
  rw [wp_run_bind, wp_attempt]
  refine wp_issue_cases hA (fun _ => trivial) (fun hf e _ => herr hf _) fun n => ?_
  refine wp_isBlankFrom hA herr blankCheckBytes 0 (by omega) ?_
  have hb : (∀ b ∈ unread d 0, b = 0) ↔ d.Blank := by
    simp [unread, Device.bytes, hh, Device.Blank]
  rwa [decide_eq_decide.mpr hb]

theorem wp_formatIfBlank {Q : Except Err Outcome → Device → Prop}
    (herr : Faulty A → ∀ e d', Q (.error e) d')
    (hnot : d.header = none → ¬ d.Blank → Q (.error (.wrap dev .notBlank)) d)
    (hok : d.header ≠ none ∨ d.Blank → ∀ out, Q (.ok out) (d.formatted k f)) :
    (formatIfBlank dev k f).run.wp ⟨exec, A, Lawful k f⟩ Q d := by
  unfold formatIfBlank
  rw [wp_run_bind]
  refine wp_isLuks hA (fun hf e => herr hf e d) ?_
  cases hh : d.header with
  | some h =>
    have hd : d.formatted k f = d := by simp [Device.formatted, hh]
    simp only [Option.isSome_some, if_true, wp_run_pure]
    exact hd ▸ hok (Or.inl (by simp [hh])) _
  | none =>
    simp only [Option.isSome_none, Bool.false_eq_true, if_false]
    rw [wp_run_bind]
    refine wp_isBlank hA (fun hf e => herr hf e d) hh ?_
    by_cases hb : d.Blank
    · have hd : d.formatted k f = { d with
          header := some ⟨labelUnformatted, [k.current], f, defaultBlockSize⟩, fs := false } := by
        simp [Device.formatted, hh]
      simp only [hb, decide_true, if_true]
      rw [wp_run_bind, subcommand, wp_attempt]
      refine wp_issue_cases hA (fun _ => ⟨hb, rfl, rfl, rfl, rfl⟩) (fun hf e _ => herr hf _ d)
        fun n => ?_
      rw [hd] at hok
      exact hok (Or.inr hb) _
    · simp only [hb, decide_false, Bool.false_eq_true, if_false, wp_run_throw]
      exact hnot hh hb

theorem wp_rotate {Q : Except Err Outcome → Device → Prop} {h : Header}
    (herr : Faulty A → ∀ e d', Q (.error e) d') (hh : d.header = some h)
    (hwrong : k.current ∉ h.slots → (k.previous ≠ [] → k.previous ∉ h.slots) →
      Q (.error (.wrap dev .wrongKey)) d)
    (hok : (k.current ∈ h.slots ∨ (k.previous ≠ [] ∧ k.previous ∈ h.slots)) →
      ∀ out, Q (.ok out) (d.rotated k)) :
    (rotate dev k).run.wp ⟨exec, A, Lawful k f⟩ Q d := by
  unfold rotate
  rw [wp_run_bind]
  refine wp_opens hA (fun hf e => herr hf e d) hh ?_
  by_cases hp : k.previous = [] ∨ k.previous = k.current
  · have hd : d.rotated k = d := d.rotated_self hh (if_neg (by tauto))
    simp only [hp, if_true]
    by_cases hc : k.current ∈ h.slots
    · simp only [hc, decide_true, if_true, wp_run_pure]
      exact hd ▸ hok (Or.inl hc) _
    · simp only [hc, decide_false, Bool.false_eq_true, if_false, wp_run_throw]
      refine hwrong hc fun hne => ?_
      rcases hp with hp | hp
      · exact absurd hp hne
      · rwa [hp]
  · simp only [hp, if_false]
    push Not at hp
    rw [wp_run_bind]
    refine wp_opens hA (fun hf e => herr hf e d) hh ?_
    by_cases hprev : k.previous ∈ h.slots
    · by_cases hc : k.current ∈ h.slots
      · simp only [hc, hprev, decide_true, Bool.not_true, Bool.false_and, Bool.false_eq_true,
          if_false]
        have hd : rotatedSlots k h.slots = h.slots.erase k.previous := by
          simp [rotatedSlots, hp, hprev, hc]
        rw [wp_run_bind, subcommand, wp_attempt]
        refine wp_issue_cases hA (fun _ => ⟨rfl, hp.1, hp.2, ⟨h, hh, hprev⟩, h, hh, hc⟩)
          (fun hf e _ => herr hf _ d) fun n => ?_
        simp only [execOk, hh, hprev, if_true]
        rw [← hd, ← Device.rotated_eq hh]
        exact hok (Or.inl hc) _
      · simp only [hc, hprev, decide_true, decide_false, Bool.not_true, Bool.not_false,
          Bool.and_false, Bool.false_eq_true, if_false, if_true]
        rw [wp_run_bind, subcommand, wp_attempt]
        refine wp_issue_cases hA
          (fun _ => ⟨rfl, rfl, hp.1, hp.2, ⟨h, hh, hprev⟩, by simpa [Device.Opens, hh] using hc⟩)
          (fun hf e _ => herr hf _ d) fun n => ?_
        simp only [execOk, hh, hprev, if_true]
        show wp _ _ _ _
        rw [wp_run_bind, subcommand, wp_attempt]
        refine wp_issue_cases hA (fun _ => ⟨rfl, hp.1, hp.2,
          ⟨_, rfl, List.mem_cons_of_mem _ hprev⟩, _, rfl, List.mem_cons_self⟩)
          (fun hf e _ => herr hf _ _) fun n => ?_
        have hd : rotatedSlots k h.slots = (k.current :: h.slots).erase k.previous := by
          simp [rotatedSlots, hp, hprev, hc]
        simp only [execOk, List.mem_cons, hprev, or_true, if_true]
        rw [← hd]
        have := hok (Or.inr ⟨hp.1, hprev⟩) Outcome.rotated
        rw [Device.rotated_eq hh] at this
        exact this
    · by_cases hc : k.current ∈ h.slots
      · simp only [hc, hprev, decide_true, decide_false, Bool.not_true, Bool.not_false,
          Bool.false_and, Bool.false_eq_true, if_false, if_true, wp_run_pure]
        have hd : d.rotated k = d := d.rotated_self hh (by simp [rotatedSlots, hprev])
        exact hd ▸ hok (Or.inl hc) _
      · simp only [hc, hprev, decide_false, Bool.not_false, Bool.and_self, if_true, wp_run_throw]
        exact hwrong hc fun _ => hprev

theorem wp_ensureFilesystem {Q : Except Err Unit → Device → Prop} {h : Header}
    (herr : Faulty A → ∀ e d', Q (.error e) d')
    (hh : d.header = some h) (hc : k.current ∈ h.slots) (hm : d.mapped = true)
    (hok : Q (.ok ()) d.made) :
    (ensureFilesystem dev path).run.wp ⟨exec, A, Lawful k f⟩ Q d := by
  unfold ensureFilesystem
  rw [wp_run_bind, subcommand, wp_attempt]
  refine wp_issue_cases hA (fun _ => trivial) (fun hf e _ => herr hf _ d) fun n => ?_
  simp only [execOk, hh, Except.mapError, luksLabel_eq_unformatted_iff]
  by_cases hl : h.label = labelUnformatted
  · rw [Device.made_eq hh hl] at hok
    rw [if_pos hl, wp_run_bind, subcommand, wp_attempt]
    refine wp_issue_cases hA (fun _ => ⟨h, hh, hl, hc⟩) (fun hf e _ => herr hf _ d) fun n => ?_
    simp only [execOk, hm, if_true, Except.mapError]
    rw [subcommand, wp_attempt]
    refine wp_issue_cases hA (fun _ => ⟨rfl, rfl, h, hh, hl, hc⟩) (fun hf e _ => herr hf _ _) fun n => ?_
    simp only [execOk, hh]
    rw [hm] at hok
    exact hok
  · rw [Device.made_self hh hl] at hok
    rw [if_neg hl]
    exact hok

theorem wp_close_of_error {Q : Except Err Unit → Device → Prop} (hQ : ∀ r d', Q r d') :
    (close name).run.wp ⟨exec, A, Lawful k f⟩ Q d := by
  unfold close
  rw [ExceptT.run_mk, wp_bind]
  refine wp_issue_cases hA (fun _ => trivial) (fun hf e _ => ?_) fun n => ?_
  · simp only [failed]
    split_ifs <;> exact hQ _ _
  · simp only [execOk]
    split_ifs <;> exact hQ _ _

theorem wp_ensureFilesystemOrClose {Q : Except Err Unit → Device → Prop} {h : Header}
    (herr : Faulty A → ∀ e d', Q (.error e) d')
    (hh : d.header = some h) (hc : k.current ∈ h.slots) (hm : d.mapped = true)
    (hok : Q (.ok ()) d.made) :
    (ensureFilesystemOrClose dev name).run.wp ⟨exec, A, Lawful k f⟩ Q d := by
  unfold ensureFilesystemOrClose
  rw [ExceptT.run_mk, wp_bind]
  refine wp_ensureFilesystem hA (fun hf e d' => ?_) hh hc hm hok
  rw [wp_bind]
  refine wp_close_of_error hA ?_
  rintro (e' | _) d'' <;> exact herr hf _ _

/-- `prepare` on a device whose mapping is closed: it ends in `Device.prepared`,
or refuses a device that is not blank or that neither key opens. -/
theorem wp_prepare {Q : Except Err (String × Outcome) → Device → Prop}
    (herr : Faulty A → ∀ e d', Q (.error e) d') (hm : d.mapped = false)
    (hnot : d.header = none → ¬ d.Blank → Q (.error (.wrap dev .notBlank)) d)
    (hwrong : ∀ h, d.header = some h → k.current ∉ h.slots →
      (k.previous ≠ [] → k.previous ∉ h.slots) → Q (.error (.wrap dev .wrongKey)) d)
    (hok : d.Ready k → ∀ out, Q (.ok (mapperPath name, out)) (d.prepared k f)) :
    (prepare dev name k f).run.wp ⟨exec, A, Lawful k f⟩ Q d := by
  unfold prepare
  rw [wp_run_bind]
  refine wp_formatIfBlank hA herr hnot fun hd out => ?_
  dsimp only
  obtain ⟨h, hh⟩ := d.formatted_header k f
  have hm' : (d.formatted k f).mapped = false := by rw [d.formatted_mapped, hm]
  rw [wp_run_bind]
  refine wp_rotate hA herr hh (fun hc hp => ?_) fun hk moved => ?_
  · obtain ⟨he, hs⟩ := d.formatted_of_unopened hh hc
    exact he.symm ▸ hwrong h hs hc hp
  dsimp only
  have hr : ((d.formatted k f).rotated k).header = some { h with slots := rotatedSlots k h.slots } := by
    rw [Device.rotated_eq hh]
  have hcur : k.current ∈ rotatedSlots k h.slots := current_mem_rotatedSlots hk
  rw [wp_run_bind, subcommand, wp_attempt]
  have hmr : ((d.formatted k f).rotated k).mapped = false := by rw [Device.rotated_mapped, hm']
  refine wp_issue_cases hA (fun _ => ⟨rfl, hmr⟩) (fun hf e _ => herr hf _ _) fun n => ?_
  rw [execOk_open n hr hcur hmr]
  dsimp only [Except.mapError]
  rw [wp_run_bind]
  refine wp_ensureFilesystemOrClose hA herr hr hcur rfl ?_
  exact hok (d.ready_of_formatted hd hh hk) _

end Rules
end Fileblock.Crypt
