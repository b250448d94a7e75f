import Fileblock.Node.Setting

/-! What the driver's wrappers tell an operation that holds the lock of a volume. -/
namespace Fileblock.Node
open Go Store Interaction

variable {S : Site} {ι : Type} {V : Volumes S ι} {v : ι} {E : Setting V v} {b : Bool}
  {P : World → Prop} {w : World}

theorem step_exact {path : Str} {o : Choice} (hg : Genuine S w (.findmntExact path) o)
    (h : ((step S o (.findmntExact path) w).1.any fun line => trimSpace line = path) = true) :
    w.mountedAt (S.resolve path) = true := by
  obtain ⟨line, hl, ht⟩ := List.any_eq_true.mp h
  unfold step at hl
  cases hf : o.fault with
  | some e =>
    rw [hf] at hl
    exact hg e hf line hl (of_decide_eq_true ht)
  | none =>
    rw [hf] at hl
    obtain ⟨m, hm, -⟩ := List.mem_map.mp hl
    exact World.mountedAt_iff.mpr ⟨m, List.mem_of_mem_filter hm, by simpa using List.of_mem_filter hm⟩

namespace Setting

/-- A path reported as a mount point is one; a report to the contrary may be a
failed lookup. -/
theorem wp_isMountPoint {path : Str} {Q : Except Err Bool → World → Prop} (hP : Steady V v P)
    (hi : E.Inv b w) (hp : P w) (herr : ∀ e w, E.Inv b w → P w → Q (.error e) w)
    (hno : ∀ w, E.Inv b w → P w → Q (.ok false) w)
    (hyes : ∀ w, E.Inv b w → P w → w.mountedAt (S.resolve path) = true → Q (.ok true) w) :
    (isMountPoint path).run.wp E.regime Q w := by
  unfold isMountPoint
  rw [ExceptT.run_mk, Prog.wp_bind]
  refine wp_see rfl hP hi hp (fun _ _ _ => trivial) fun w o hi hp _ => ?_
  cases (step S o (.stat path) w).1 with
  | error e => exact herr _ w hi hp
  | ok found =>
    cases found with
    | false => exact hno w hi hp
    | true =>
      dsimp only
      rw [Prog.wp_bind]
      refine wp_see rfl hP hi hp (fun _ _ _ => trivial) fun w o hi hp _ => ?_
      cases (step S o (.findmntTarget path) w).1 with
      | error e =>
        dsimp only
        split_ifs
        · exact hno w hi hp
        · exact herr _ w hi hp
      | ok u =>
        dsimp only
        rw [Prog.wp_bind]
        refine wp_see rfl hP hi hp (fun _ _ _ => trivial) fun w o hi hp hg => ?_
        rw [Prog.wp_pure]
        cases hr : (step S o (.findmntExact path) w).1.any fun line => trimSpace line = path with
        | false => exact hno w hi hp
        | true => exact hyes w hi hp (step_exact hg hr)

/-- A device reported as mounted nowhere is mounted nowhere, unless it was the
check of the host's mounts that said so. -/
theorem wp_sourceMounted {src : Source} {host : Bool} {Q : Except Err Bool → World → Prop}
    (hP : Steady V v P) (hi : E.Inv b w) (hp : P w)
    (herr : ∀ e w, E.Inv b w → P w → Q (.error e) w)
    (hyes : ∀ w, E.Inv b w → P w → Q (.ok true) w)
    (hno : ∀ w, E.Inv b w → P w → (host = false → w.mounted src = false) → Q (.ok false) w) :
    (sourceMounted src host).run.wp E.regime Q w := by
  unfold sourceMounted
  rw [ExceptT.run_mk, Prog.wp_bind]
  refine wp_see rfl hP hi hp (fun _ _ _ => trivial) fun w o hi hp hg => ?_
  unfold step
  cases hf : o.fault with
  | some e =>
    show Prog.wp E.regime (if e.exitCode = 1 then pure (.ok false) else _) Q w
    split_ifs with he
    · exact hno w hi hp fun hh => absurd he (hg e hf hh)
    · exact herr _ w hi hp
  | none =>
    dsimp only [execOk, rowsOr]
    cases hm : w.mounted src with
    | true =>
      obtain ⟨m, hmem, hs⟩ := World.mounted_iff.mp hm
      have hne : ((w.mounts.filter (·.source = src)).map Mount.target).reverse.isEmpty = false := by
        simpa using ⟨m, hmem, hs⟩
      rw [hne, if_neg Bool.false_ne_true]
      show Q (.ok !_) w
      rw [hne]
      exact hyes w hi hp
    | false =>
      have hnil : ((w.mounts.filter (·.source = src)).map Mount.target).reverse.isEmpty = true := by
        simpa using World.mounted_false.mp hm
      rw [hnil, if_pos rfl]
      exact hno w hi hp fun _ => hm

theorem wp_loopBusy {dev : ℕ} {Q : Except Err Bool → World → Prop} (hP : Steady V v P)
    (hi : E.Inv b w) (hp : P w) (ho : ∀ w, P w → V.Owns w v (.loop dev))
    (herr : ∀ e w, E.Inv b w → P w → Q (.error e) w)
    (hyes : ∀ w, E.Inv b w → P w → Q (.ok true) w)
    (hno : ∀ w, E.Inv b w → P w → w.busy dev = false → Q (.ok false) w) :
    (loopBusy dev).run.wp E.regime Q w := by
  unfold loopBusy
  rw [Prog.wp_run_bind]
  refine wp_sourceMounted hP hi hp herr hyes fun w hi hp hm => ?_
  have hP' : Steady V v fun w => P w ∧ w.mounted (.loop dev) = false := by
    intro w w' ht ht' hf ⟨hp, hm⟩
    exact ⟨hP w w' ht ht' hf hp, hf.unmounted (ho w hp) hm⟩
  have hlast : ∀ w, E.Inv b w → P w ∧ w.mounted (.loop dev) = false →
      Prog.wp E.regime (do
        let holders ← attempt (issue (.holders dev)) sysErr
        pure (!holders.isEmpty) : ExceptT Err Run Bool).run Q w := by
    intro w hi hp
    rw [Prog.wp_run_bind, Prog.wp_attempt]
    refine wp_see rfl hP' hi hp (fun _ _ _ => trivial) fun w o hi hp _ => ?_
    unfold step
    cases o.fault with
    | some e => exact herr _ w hi hp.1
    | none =>
      show Q (.ok _) w
      cases hh : w.held dev with
      | true =>
        have hne : ((w.dm.filter (·.2 = dev)).map Prod.fst).isEmpty = false := by
          obtain ⟨x, hx⟩ := World.held_iff.mp hh
          simpa using ⟨x, hx⟩
        rw [hne]
        exact hyes w hi hp.1
      | false =>
        have hnil : ((w.dm.filter (·.2 = dev)).map Prod.fst).isEmpty = true := by
          simp only [List.isEmpty_iff, List.map_eq_nil_iff, List.filter_eq_nil_iff]
          rintro ⟨x, n⟩ hx hn
          exact World.held_false.mp hh x (by simpa [← show n = dev by simpa using hn] using hx)
        rw [hnil]
        exact hno w hi hp.1 (World.busy_false.mpr ⟨hp.2, hh⟩)
  dsimp only
  rw [if_neg Bool.false_ne_true, Prog.wp_run_bind, Prog.wp_always, orFalse, Prog.wp_bind]
  refine wp_sourceMounted hP' hi ⟨hp, hm rfl⟩ ?_ ?_ ?_
  · exact fun e w hi hp => hlast w hi hp
  · exact fun w hi hp => hyes w hi hp.1
  · exact fun w hi hp _ => hlast w hi hp

theorem wp_findLoops {found : Attachment → Bool} {Q : Except Err (List ℕ) → World → Prop}
    (hP : Steady V v P) (hi : E.Inv b w) (hp : P w)
    (herr : ∀ e w, E.Inv b w → P w → Q (.error e) w)
    (hq : ∀ w, E.Inv b w → P w →
      Q (.ok (((w.attachments S).filter found).map Attachment.device)) w) :
    (findLoops found).run.wp E.regime Q w := by
  unfold findLoops listLoops shell
  rw [Prog.wp_run_bind, Prog.wp_attempt]
  refine wp_see rfl hP hi hp (fun _ _ _ => trivial) fun w o hi hp _ => ?_
  unfold step
  cases o.fault with
  | some e => exact herr _ w hi hp
  | none => exact hq w hi hp

theorem wp_detachLoop {dev : ℕ} {Q : Except Err Unit → World → Prop} (hP : Steady V v P)
    (hi : E.Inv b w) (hp : P w)
    (ht : ∀ w, E.Inv b w → P w → Tended V v E.careful w (.losetupDetach dev))
    (herr : ∀ e w, E.Inv b w → P w → Q (.error e) w)
    (hfree : ∀ w, E.Inv b w → P w → (∀ l ∈ w.loops, l.dev ≠ dev) → Q (.ok ()) w)
    (hok : ∀ w, E.Inv b w → P w → E.Inv b (w.detach dev) → Q (.ok ()) (w.detach dev)) :
    (detachLoop dev).run.wp E.regime Q w := by
  unfold detachLoop
  rw [ExceptT.run_mk, Prog.wp_bind]
  refine wp_do hP hi hp ht (by simp) (by simp [Cmd.releases]) fun w o hi hp hg hi' => ?_
  unfold step at hi' ⊢
  cases hf : o.fault with
  | some e =>
    show Prog.wp E.regime (if _ then _ else _) Q w
    have hno : contains (toLower e.output) "no such device" = false := hg e hf
    rw [if_neg (Bool.eq_false_iff.mp hno)]
    exact herr _ w hi hp
  | none =>
    rw [hf] at hi'
    dsimp only [execOk] at hi' ⊢
    cases hl : w.loop? dev with
    | none =>
      show Prog.wp E.regime (if _ then _ else _) Q w
      rw [if_pos (by decide)]
      exact hfree w hi hp (World.loop?_none.mp hl)
    | some l =>
      rw [hl] at hi'
      exact hok w hi hp hi'

theorem wp_closeCrypt {Q : Except Err Unit → World → Prop} (hP : Steady V v P)
    (hi : E.Inv true w) (hp : P w) (herr : ∀ e w, E.Inv true w → P w → Q (.error e) w)
    (hfree : ∀ w, E.Inv true w → P w → w.isOpen (V.mapper v) = false → Q (.ok ()) w)
    (hok : ∀ w, E.Inv true w → P w →
      E.Inv true (World.reap { w with dm := w.dm.filter (·.1 ≠ V.mapper v) }) →
      Q (.ok ()) (World.reap { w with dm := w.dm.filter (·.1 ≠ V.mapper v) })) :
    (closeCrypt (V.mapper v)).run.wp E.regime Q w := by
  unfold closeCrypt
  rw [ExceptT.run_mk, Prog.wp_bind]
  refine wp_do hP hi hp (fun _ _ _ => rfl) (by simp) (fun _ => rfl) fun w o hi hp hg hi' => ?_
  unfold step at hi' ⊢
  cases hf : o.fault with
  | some e =>
    show Prog.wp E.regime (if _ then _ else _) Q w
    rw [if_neg (hg e hf)]
    exact herr _ w hi hp
  | none =>
    rw [hf] at hi'
    dsimp only [execOk, World.closeMapping] at hi' ⊢
    split_ifs at hi' ⊢ with h1 h2
    · exact hfree w hi hp (by simpa using h1)
    · exact herr _ w hi hp
    · exact hok w hi hp hi'

theorem wp_attachLoop {sectorSize : ℕ} {Q : Except Err ℕ → World → Prop} (hP : Steady V v P)
    (hi : E.Inv false w) (hp : P w)
    (hn : ∀ w, P w → (w.images (V.image v)).present = true → w.loopsOf (V.image v) = [])
    (herr : ∀ e w, E.Inv false w → P w → Q (.error e) w)
    (hok : ∀ (w : World) dev, E.Inv true (w.attach (V.image v) dev) →
      Q (.ok dev) (w.attach (V.image v) dev)) :
    (attachLoop (V.image v) sectorSize).run.wp E.regime Q w := by
  unfold attachLoop
  rw [Prog.wp_attempt]
  refine wp_issue hP hi hp fun w o hi hp hadm => ?_
  have ht : Tended V v E.careful w (.losetupAttach (V.image v) sectorSize) := ⟨rfl, hn w hp⟩
  refine ⟨⟨ht, by simp [Cmd.releases], by simp, E.ctx_held hi.ctx⟩, fun hi' hp' => ?_⟩
  have hd := w.disturb_disturbed o
  unfold step
  cases hf : o.fault with
  | some e => exact herr _ _ hi' hp'
  | none =>
    dsimp only [execOk]
    cases hpres : ((w.disturb o).images (V.image v)).present with
    | false => exact herr _ _ hi' hp'
    | true =>
      have hnil := hn _ hp' hpres
      have hfree : E.Inv true (w.disturb o) :=
        ⟨hi'.sane, E.free hadm hi'.ctx ((hd.loopsOf _).symm.trans hnil)⟩
      have hi'' := hfree.step (c := .losetupAttach (V.image v) sectorSize) (o := o)
        ⟨rfl, hn _ hp'⟩ (fun _ => rfl) (by simp)
      unfold step at hi''
      rw [hf] at hi''
      dsimp only [execOk] at hi''
      rw [hpres, if_pos rfl] at hi''
      exact hok _ _ hi''

theorem wp_mountDevice {src : Source} {path : Str} {options : List String}
    {Q : Except Err Unit → World → Prop} (hpath : path ∈ V.paths v)
    (hP : Steady V v P) (hi : E.Inv true w) (hp : P w) (ho : ∀ w, P w → V.Owns w v src)
    (herr : ∀ e w, E.Inv true w → P w → Q (.error e) w)
    (hok : ∀ w ro, E.Inv true w → P w → E.Inv true (w.addMount ⟨S.resolve path, src, ro⟩) →
      Q (.ok ()) (w.addMount ⟨S.resolve path, src, ro⟩)) :
    (mountDevice src path options).run.wp E.regime Q w := by
  unfold mountDevice shell
  rw [Prog.wp_attempt]
  refine wp_do hP hi hp (fun w _ hp => ⟨hpath, ho w hp⟩) (by simp) (fun _ => rfl) ?_
  intro w o hi hp _ hi'
  unfold step at hi' ⊢
  cases hf : o.fault with
  | some e => exact herr _ w hi hp
  | none =>
    rw [hf] at hi'
    dsimp only [execOk, okIf] at hi' ⊢
    split_ifs at hi' ⊢ with h
    · exact hok w _ hi hp hi'
    · exact herr _ w hi hp

theorem wp_unmount {path : Str} {Q : Except Err Unit → World → Prop} (hpath : path ∈ V.paths v)
    (hP : Steady V v P) (hi : E.Inv true w) (hp : P w) (hstay : ∀ r w, E.Inv true w → P w → Q r w)
    (hok : ∀ w, E.Inv true w → P w → E.Inv true (w.unmount (S.resolve path)) →
      Q (.ok ()) (w.unmount (S.resolve path))) :
    (unmount path).run.wp E.regime Q w := by
  unfold unmount
  rw [Prog.wp_run_bind]
  refine wp_isMountPoint hP hi hp (fun e w hi hp => hstay _ w hi hp)
    (fun w hi hp => hstay _ w hi hp) fun w hi hp hm => ?_
  dsimp only
  rw [if_pos rfl, shell, Prog.wp_attempt]
  refine wp_do hP hi hp (fun _ _ _ => hpath) (by simp) (fun _ => rfl) ?_
  intro w o hi hp _ hi'
  unfold step at hi' ⊢
  cases hf : o.fault with
  | some e => exact hstay _ w hi hp
  | none =>
    rw [hf] at hi'
    dsimp only [execOk, okIf] at hi' ⊢
    split_ifs at hi' ⊢ with h
    · exact hok w hi hp hi'
    · exact hstay _ w hi hp

end Setting
end Fileblock.Node
