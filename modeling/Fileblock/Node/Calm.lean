import Fileblock.Node.StageRules
import Fileblock.Node.Unstage

/-! Operations to which nothing unexpected happens: no command is made to fail and
nothing changes around the plugin, so each answer is what the tables say. -/
namespace Fileblock.Node
open Go Store Interaction

variable {S : Site} {w w' : World} {c : Cmd} {o : Choice} {ε δ α β : Type}

/-- No command fails, and nothing happens around the plugin. -/
structure Choice.Quiet (o : Choice) : Prop where
  fault : o.fault = none
  marks : o.marks = []
  breaks : o.breaks = []
  unlinks : o.unlinks = []

theorem exec_quiet (h : o.Quiet) : exec S o c w = execOk S o c w := by
  have hd : w.disturb o = w := by
    unfold World.disturb
    rw [h.marks, h.breaks, h.unlinks]
    rfl
  unfold exec step
  rw [hd, h.fault]

/-- The machine when nothing unexpected happens. -/
def calm (S : Site) : Regime Cmd Resp Choice World :=
  ⟨exec S, fun _ _ o => o.Quiet, fun _ _ _ => True⟩

theorem calm_issue {Q : Resp c → World → Prop}
    (h : ∀ o, o.Quiet → Q (execOk S o c w).1 (execOk S o c w).2) : (issue c).wp (calm S) Q w := by
  intro o ho
  refine ⟨trivial, ?_⟩
  rw [exec_quiet ho]
  exact h o ho

section Tools
variable {path : Str} {dev : ℕ} {name : String}

theorem calm_isMountPoint {Q : Except Err Bool → World → Prop} (hpath : Printed S path)
    (hdir : w.mountedAt path = true → path ∈ w.dirs) (h : Q (.ok (w.mountedAt path)) w) :
    (isMountPoint path).run.wp (calm S) Q w := by
  unfold isMountPoint
  rw [ExceptT.run_mk, Prog.wp_bind]
  refine calm_issue fun o _ => ?_
  dsimp only [execOk]
  rw [hpath.canonical]
  by_cases hp : path ∈ w.dirs
  · rw [List.contains_iff_mem.mpr hp]
    dsimp only
    rw [Prog.wp_bind]
    refine calm_issue fun o _ => ?_
    dsimp only [execOk, okIf]
    rw [hpath.canonical, List.contains_iff_mem.mpr hp, if_pos rfl]
    dsimp only
    rw [Prog.wp_bind]
    refine calm_issue fun o _ => ?_
    rw [Prog.wp_pure]
    have hrows : (((w.stack path).map Mount.target).any fun line => trimSpace line = path) =
        w.mountedAt path := by
      unfold World.mountedAt World.stack
      rw [Bool.eq_iff_iff]
      simp only [List.any_map, List.any_eq_true, List.mem_filter, Function.comp_apply,
        decide_eq_true_eq]
      constructor
      · rintro ⟨m, ⟨hm, ht⟩, -⟩
        exact ⟨m, hm, ht⟩
      · rintro ⟨m, hm, ht⟩
        exact ⟨m, ⟨hm, ht⟩, by rw [ht, hpath.trimmed]⟩
    show Q (.ok _) w
    dsimp only [execOk]
    rw [hpath.canonical, hrows]
    exact h
  · rw [Bool.eq_false_iff.mpr (mt List.contains_iff_mem.mp hp)]
    have hm : w.mountedAt path = false := by
      by_contra hc
      exact hp (hdir (by simpa using hc))
    rw [hm] at h
    exact h

theorem calm_unmount {Q : Except Err Unit → World → Prop} (hpath : Printed S path)
    (hdir : w.mountedAt path = true → path ∈ w.dirs)
    (hno : w.mountedAt path = false → Q (.ok ()) w)
    (hyes : w.mountedAt path = true → Q (.ok ()) (w.unmount path)) :
    (unmount path).run.wp (calm S) Q w := by
  unfold unmount
  rw [Prog.wp_run_bind]
  refine calm_isMountPoint hpath hdir ?_
  dsimp only
  cases hm : w.mountedAt path with
  | false => exact hno hm
  | true =>
    rw [if_pos rfl, shell, Prog.wp_attempt]
    refine calm_issue fun o _ => ?_
    dsimp only [execOk, okIf]
    rw [hpath.canonical, hm, if_pos rfl]
    exact hyes hm

/-- Popping a path: what an unmount keeps is kept, and success means that nothing is
mounted there any more. -/
theorem calm_popMounts {I : World → Prop} {Q : Except Status Unit → World → Prop}
    (hpath : Printed S path) (hdir : ∀ w, I w → w.mountedAt path = true → path ∈ w.dirs)
    (hpop : ∀ w, I w → w.mountedAt path = true → I (w.unmount path)) (herr : ∀ e w, I w → Q (.error e) w)
    (hok : ∀ w, I w → w.mountedAt path = false → Q (.ok ()) w) (left : ℕ) (hi : I w) :
    (popMounts path left).run.wp (calm S) Q w := by
  induction left generalizing w with
  | zero =>
    unfold popMounts
    rw [Prog.wp_run_bind, wp_orStatus]
    refine calm_isMountPoint hpath (hdir w hi) ?_
    cases hm : w.mountedAt path with
    | false => exact hok w hi hm
    | true => exact herr _ w hi
  | succ left ih =>
    unfold popMounts
    rw [Prog.wp_run_bind, wp_orStatus]
    refine calm_isMountPoint hpath (hdir w hi) ?_
    cases hm : w.mountedAt path with
    | false => exact hok w hi hm
    | true =>
      show Prog.wp (calm S) (orStatus .internal "umount stage: " (unmount path) >>= fun _ =>
        popMounts path left).run Q w
      rw [Prog.wp_run_bind, wp_orStatus]
      refine calm_unmount hpath (hdir w hi) (fun hf => ?_) fun _ => ih (hpop w hi hm)
      rw [hm] at hf
      cases hf

theorem calm_closeCrypt {Q : Except Err Unit → World → Prop}
    (hfree : w.isOpen name = false → Q (.ok ()) w)
    (hbusy : w.isOpen name = true → w.mounted (.mapper name) = true → ∀ e, Q (.error e) w)
    (hok : w.isOpen name = true → w.mounted (.mapper name) = false →
      Q (.ok ()) (World.reap { w with dm := w.dm.filter (·.1 ≠ name) })) :
    (closeCrypt name).run.wp (calm S) Q w := by
  unfold closeCrypt
  rw [ExceptT.run_mk, Prog.wp_bind]
  refine calm_issue fun o _ => ?_
  dsimp only [execOk, World.closeMapping]
  cases hopen : w.isOpen name with
  | false => exact hfree hopen
  | true =>
    cases hm : w.mounted (.mapper name) with
    | true => exact hbusy hopen hm _
    | false => exact hok hopen hm

theorem calm_detachLoop {Q : Except Err Unit → World → Prop}
    (hfree : (∀ l ∈ w.loops, l.dev ≠ dev) → Q (.ok ()) w)
    (hok : ∀ l ∈ w.loops, l.dev = dev → Q (.ok ()) (w.detach dev)) :
    (detachLoop dev).run.wp (calm S) Q w := by
  unfold detachLoop
  rw [ExceptT.run_mk, Prog.wp_bind]
  refine calm_issue fun o _ => ?_
  dsimp only [execOk]
  cases hl : w.loop? dev with
  | none =>
    show Prog.wp (calm S) (if _ then _ else _) Q w
    rw [if_pos (by decide)]
    exact hfree (World.loop?_none.mp hl)
  | some l =>
    obtain ⟨hmem, hd⟩ := World.loop?_some hl
    exact hok l hmem hd

theorem calm_findLoops {found : Attachment → Bool} {Q : Except Err (List ℕ) → World → Prop}
    (h : Q (.ok (((w.attachments S).filter found).map Attachment.device)) w) :
    (findLoops found).run.wp (calm S) Q w := by
  unfold findLoops listLoops shell
  rw [Prog.wp_run_bind, Prog.wp_attempt]
  exact calm_issue fun o _ => h

theorem calm_sourceMounted {src : Source} {host : Bool} {Q : Except Err Bool → World → Prop}
    (h : Q (.ok (w.mounted src)) w) : (sourceMounted src host).run.wp (calm S) Q w := by
  unfold sourceMounted
  rw [ExceptT.run_mk, Prog.wp_bind]
  refine calm_issue fun o _ => ?_
  dsimp only [execOk, rowsOr]
  cases hm : w.mounted src with
  | true =>
    obtain ⟨m, hmem, hs⟩ := World.mounted_iff.mp hm
    have hne : ((w.mounts.filter (·.source = src)).map Mount.target).reverse.isEmpty = false := by
      simpa using ⟨m, hmem, hs⟩
    rw [hne, if_neg Bool.false_ne_true]
    show Q (.ok !_) w
    rw [hne]
    rw [hm] at h
    exact h
  | false =>
    have hnil : ((w.mounts.filter (·.source = src)).map Mount.target).reverse.isEmpty = true := by
      simpa using World.mounted_false.mp hm
    rw [hnil, if_pos rfl]
    rw [hm] at h
    exact h

theorem World.holders_isEmpty : ((w.dm.filter (·.2 = dev)).map Prod.fst).isEmpty = !w.held dev := by
  unfold World.held
  rw [Bool.eq_iff_iff]
  simp

theorem calm_loopBusy {Q : Except Err Bool → World → Prop} (h : Q (.ok (w.busy dev)) w) :
    (loopBusy dev).run.wp (calm S) Q w := by
  unfold loopBusy
  rw [Prog.wp_run_bind]
  refine calm_sourceMounted ?_
  unfold World.busy at h
  cases hm : w.mounted (.loop dev) with
  | true =>
    rw [hm] at h
    exact h
  | false =>
    rw [hm, Bool.false_or] at h
    dsimp only
    rw [if_neg Bool.false_ne_true, Prog.wp_run_bind, Prog.wp_always, orFalse, Prog.wp_bind]
    refine calm_sourceMounted ?_
    rw [hm]
    show Prog.wp (calm S) (do
        let holders ← attempt (issue (.holders dev)) sysErr
        pure (!holders.isEmpty) : ExceptT Err Run Bool).run Q w
    rw [Prog.wp_run_bind, Prog.wp_attempt]
    refine calm_issue fun o _ => ?_
    show Q (.ok !_) w
    rw [World.holders_isEmpty, Bool.not_not]
    exact h

theorem calm_withLock {id : VolumeID} {x : Rpc α} {Q : Except Status α → World → Prop}
    (h : ∀ locks, x.run.wp (calm S) (fun r w => ∀ locks', Q r { w with locks := locks' })
      { w with locks }) : (withLock id x).run.wp (calm S) Q w := by
  unfold withLock
  rw [ExceptT.run_mk, Prog.wp_bind]
  refine calm_issue fun o _ => ?_
  rw [Prog.wp_bind]
  refine Prog.wp_mono (fun r w hq => ?_) (h _)
  rw [Prog.wp_bind]
  exact calm_issue fun o _ => hq _

end Tools
end Fileblock.Node
