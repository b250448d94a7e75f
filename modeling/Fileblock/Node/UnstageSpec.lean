import Fileblock.Node.StageSpec
import Fileblock.Node.Unstage

/-! `unstageLocked` keeps to its volume, whatever fails. -/
namespace Fileblock.Node
open Go Store Interaction

variable {S : Site} {ι : Type} {V : Volumes S ι} {v : ι} {w : World}

/-- A deleted image's loop that the entry names is the volume's own. -/
def SillyMine (V : Volumes S ι) (v : ι) (w : World) : Prop :=
  ∀ m, Mapping.get w.state (V.id v) = some m → ∀ l ∈ w.loops, m.loopDev = some l.dev →
    l.silly ≠ none → l.file = V.image v

namespace Setting
variable {E : Setting V v} {b : Bool} {loops : List ℕ} {P : World → Prop}

theorem wp_popMounts {path : Str} (hpath : path ∈ V.paths v) (hP : Steady V v P)
    (hpop : ∀ w, P w → P (w.unmount (S.resolve path))) (left : ℕ) (h : E.Inv true w ∧ P w) :
    (popMounts path left).run.wp E.regime (fun _ w => E.Inv true w ∧ P w) w := by
  induction left generalizing w with
  | zero =>
    unfold popMounts
    rw [Prog.wp_run_bind, wp_orStatus]
    refine wp_isMountPoint hP h.1 h.2 (fun _ w hi hp => ⟨hi, hp⟩) ?_ ?_
    · exact fun w hi hp => ⟨hi, hp⟩
    · exact fun w hi hp _ => ⟨hi, hp⟩
  | succ left ih =>
    unfold popMounts
    rw [Prog.wp_run_bind, wp_orStatus]
    refine wp_isMountPoint hP h.1 h.2 (fun _ w hi hp => ⟨hi, hp⟩) ?_ ?_
    · exact fun w hi hp => ⟨hi, hp⟩
    · intro w hi hp _
      refine Prog.wp_seq (x := orStatus .internal "umount stage: " (unmount path))
        ?_ (fun _ _ h => h) fun _ w h => ih h
      rw [wp_orStatus]
      refine wp_unmount hpath hP hi hp (fun _ w hi hp => ⟨hi, hp⟩) ?_
      exact fun w _ hp hi => ⟨hi, hpop w hp⟩

theorem wp_detachMine (hi : E.Inv b w) (hn : loops.Nodup)
    (hp : E.careful → ∀ n ∈ loops, V.Owns w v (.loop n)) :
    (detachEach loops).run.wp E.regime (fun _ w => E.Inv b w) w := by
  induction loops generalizing w with
  | nil => exact hi
  | cons dev loops ih =>
    have hP : Steady V v fun w => E.careful → ∀ n ∈ dev :: loops, V.Owns w v (.loop n) :=
      fun w w' _ _ hf hp hc n hn => hf.owns.mpr (hp hc n hn)
    unfold detachEach
    rw [Prog.wp_run_bind, wp_orStatus]
    obtain ⟨hnot, hn⟩ := List.nodup_cons.mp hn
    have honly : ∀ w, E.Inv b w → (E.careful → ∀ n ∈ dev :: loops, V.Owns w v (.loop n)) →
        E.careful → loops = [] := by
      intro w hi hp hc
      refine List.eq_nil_iff_forall_not_mem.mpr fun n hmem => ?_
      obtain ⟨l, hl, hd, hf⟩ := hp hc dev List.mem_cons_self
      obtain ⟨l', hl', hd', hf'⟩ := hp hc n (List.mem_cons_of_mem _ hmem)
      have he := hi.sane.file_unique hl hl' (hf.trans hf'.symm)
      exact hnot (by rwa [← hd, he, hd'])
    refine wp_detachLoop hP hi hp ?_ (fun _ w hi _ => hi) ?_ ?_
    · intro w hi hp hc l hl hd
      obtain ⟨l', hl', hd', hf⟩ := hp hc dev List.mem_cons_self
      rw [hi.sane.loop_unique hl hl' (hd.trans hd'.symm)]
      exact hf
    · intro w hi hp _
      refine ih hi hn fun hc n hmem => ?_
      rw [honly w hi hp hc] at hmem
      exact absurd hmem List.not_mem_nil
    · intro w hi hp hi'
      refine ih hi' hn fun hc n hmem => ?_
      rw [honly w hi hp hc] at hmem
      exact absurd hmem List.not_mem_nil

theorem wp_closeRecorded {entry : Option Mapping}
    (he : ∀ m, entry = some m → m.Records V v) (hP : Steady V v P)
    (hclose : ∀ w, P w → P (World.reap { w with dm := w.dm.filter (·.1 ≠ V.mapper v) }))
    (h : E.Inv true w ∧ P w) :
    (closeRecorded S (V.id v) entry).run.wp E.regime (fun _ w => E.Inv true w ∧ P w) w := by
  have hcl : (closeCrypt (V.mapper v)).run.wp E.regime (fun _ w => E.Inv true w ∧ P w) w :=
    wp_closeCrypt hP h.1 h.2 (fun _ w hi hp => ⟨hi, hp⟩) (fun w hi hp _ => ⟨hi, hp⟩)
      fun w _ hp hi => ⟨hi, hclose w hp⟩
  cases entry with
  | none =>
    unfold closeRecorded
    rw [Prog.wp_always, Prog.wp_ignore]
    exact hcl
  | some m =>
    dsimp only [closeRecorded]
    cases hc : m.cryptDev with
    | none => exact h
    | some name =>
      rw [(he m rfl).cryptDev name hc]
      dsimp only
      rw [wp_orStatus]
      exact hcl

theorem mem_stagedLoops (hs : Sane V w) {m : Option Mapping} {n : ℕ}
    (hn : n ∈ ((w.attachments S).filter (stagedLoop (V.id v) m)).map Attachment.device) :
    ∃ l ∈ w.loops, l.dev = n ∧ (l.file = V.image v ∧ l.silly = none ∨
      l.silly ≠ none ∧ ∃ e, m = some e ∧ e.loopDev = some l.dev) := by
  obtain ⟨l, hl, hd, hf⟩ := mem_findLoops.mp hn
  obtain ⟨u, hu⟩ := hs.owned l hl
  refine ⟨l, hl, hd, ?_⟩
  unfold stagedLoop at hf
  rw [Bool.or_eq_true, Bool.and_eq_true, decide_eq_true_eq] at hf
  rcases hf with hf | ⟨he, hr⟩
  · left
    rw [hu, V.base_reported, V.fileName_eq_iff] at hf
    exact ⟨hf.1 ▸ hu, hf.2⟩
  · right
    rw [hu, V.sillyRenamed_reported] at hr
    refine ⟨hr, ?_⟩
    cases m with
    | none => simp at he
    | some e => exact ⟨e, rfl, by simpa using he⟩

theorem wp_unstageLocked {path : Str} {Q : Except Status Unit → World → Prop}
    (hpath : path ∈ V.paths v) (hleave : E.leaving) (hi : E.Inv true w)
    (hmine : E.careful → ∀ w o, E.adm w .losetupList o → SillyMine V v (w.disturb o))
    (hq : ∀ r w, E.Over w → Q r w) :
    (unstageLocked S (V.id v) path).run.wp E.regime Q w := by
  unfold unstageLocked popStageMounts
  refine Prog.wp_seq (wp_popMounts hpath (steady_true V v) (fun _ _ => trivial) _ ⟨hi, trivial⟩)
    (fun _ w h => hq _ w h.1.over) fun _ w h => ?_
  rw [Prog.wp_run_bind, Prog.wp_always]
  refine wp_do (steady_true V v) h.1 trivial (fun _ _ _ => hpath) (by simp) (by simp) ?_
  intro w o _ _ _ hi
  revert hi
  generalize (Node.step S o (.remove path) w).2 = w
  intro hi
  dsimp only
  rw [Prog.wp_run_bind, Prog.wp_always]
  refine wp_see rfl (steady_true V v) hi trivial (fun _ _ _ => trivial) fun w o hi _ _ => ?_
  dsimp only
  have hentry : (step S o (.stateGet (V.id v)) w).1 = Mapping.get w.state (V.id v) := by
    unfold step
    cases o.fault <;> rfl
  rw [hentry]
  generalize hget : Mapping.get w.state (V.id v) = entry
  have hrec : ∀ m, entry = some m → m.Records V v :=
    fun m hm => hi.sane.records (hget.trans hm)
  have hP : Steady V v fun w => Mapping.get w.state (V.id v) = entry :=
    fun w w' _ _ hf hp => hf.entry.trans hp
  refine Prog.wp_seq (wp_closeRecorded hrec hP (fun _ hp => hp) ⟨hi, hget⟩)
    (fun _ w h => hq _ w h.1.over) fun _ w h => ?_
  rw [Prog.wp_run_bind, wp_orStatus, findLoops, listLoops, shell, Prog.wp_run_bind, Prog.wp_attempt]
  refine wp_issue hP h.1 h.2 fun w o hi hp hadm => ⟨⟨trivial, by simp [Cmd.releases],
    by simp, E.ctx_held hi.ctx⟩, fun hi hp => ?_⟩
  rw [step_observes rfl]
  have hdone : ∀ w, E.Inv true w → Prog.wp E.regime (do
      always (issue (.keysDelete (V.id v)))
      always (dropEntry (V.id v) entry)
      always (issue (.failedClear (V.id v))) : Rpc Unit).run Q w := by
    intro w hi
    refine Prog.wp_seq (I := fun w => E.Inv true w ∧ True) ?_ (fun _ w h => hq _ w h.1.over)
      fun _ w h => ?_
    · rw [Prog.wp_always]
      exact wp_remember (c := .keysDelete _) rfl (by simp) (steady_true V v) (fun _ _ _ h => h) hi
        trivial (fun _ => rfl) fun _ w hi hp => ⟨hi, hp⟩
    refine Prog.wp_seq (I := fun w => E.Inv true w ∧ True) ?_ (fun _ w h => hq _ w h.1.over)
      fun _ w h => ?_
    · rw [Prog.wp_always]
      unfold dropEntry
      split_ifs
      · rw [Prog.wp_bind]
        exact wp_remember (c := .stateDelete _) rfl (by simp) (steady_true V v) (fun _ _ _ h => h)
          h.1 trivial (fun _ => rfl) fun _ w hi hp => ⟨hi, hp⟩
      · exact h
    · rw [Prog.wp_always]
      refine wp_clear (steady_true V v) h.1 trivial (fun _ _ => Or.inr hleave) ?_
      exact fun w failed hs hh _ => hq _ _ ⟨hs, hh⟩
  unfold step
  cases o.fault with
  | some e => exact hq _ _ hi.over
  | none =>
    refine Prog.wp_seq (I := fun w => E.Inv true w) (wp_detachMine hi ?_ ?_)
      (fun _ w h => hq _ w h.over) fun _ w h => hdone w h
    · have hd : ((w.disturb o).attachments S).map Attachment.device =
          (w.disturb o).loops.map Loop.dev := by
        simp [World.attachments, Function.comp_def]
      exact (hd ▸ hi.sane.devs).sublist (List.filter_sublist.map _)
    · intro hc n hn
      obtain ⟨l, hl, hd, ⟨hf, -⟩ | ⟨hs, e, he, hdev⟩⟩ := mem_stagedLoops hi.sane hn
      · exact ⟨l, hl, hd, hf⟩
      · exact ⟨l, hl, hd, hmine hc w o hadm e (hp.trans he) l hl hdev hs⟩

end Setting
end Fileblock.Node
