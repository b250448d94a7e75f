import Fileblock.Node.Footprint
import Fileblock.Node.Runs

/-! One publish target: `NodePublishVolume` and `NodeUnpublishVolume` calls on it, one
after the other, with commands failing anywhere. -/
namespace Fileblock.Node
open Go Store Interaction

/-- The commands that mount or unmount something at the place. -/
def Cmd.touches (S : Site) (place : Str) : Cmd → Bool
  | .mount _ p _ | .bind _ p | .remountReadOnly p | .umount p => decide (S.resolve p = place)
  | _ => false

/-- A command that has nothing to do with the place. -/
structure Untouched (S : Site) (place : Str) (c : Cmd) : Prop where
  mounts : c.touches S place = false
  entries : ∀ m, c = .statePut m → S.resolve m.stagePath ≠ place

/-- No state entry has a staging path that leads to the place. -/
def Apart (S : Site) (place : Str) (w : World) : Prop :=
  ∀ m ∈ w.state, S.resolve m.stagePath ≠ place

section Target
variable {S : Site} {place target : Str} {w w' : World} {c : Cmd} {o : Choice} {id : VolumeID}

theorem Stages.untouched {path : Str} (h : Stages id path c) (hp : S.resolve path ≠ place) :
    Untouched S place c := by
  constructor
  · cases c with
    | mount | umount =>
      obtain rfl := h
      exact decide_eq_false hp
    | bind | remountReadOnly => exact h.elim
    | _ => rfl
  · rintro m rfl
    rw [h.2]
    exact hp

theorem untouched_of_observes (h : c.observes = true) : Untouched S place c := by
  constructor
  · cases c <;> first | rfl | cases h
  · rintro m rfl
    cases h

theorem filter_eraseP_ne {p q : Mount → Bool} (h : ∀ m, p m = true → q m = false)
    (l : List Mount) : (l.eraseP p).filter q = l.filter q := by
  induction l with
  | nil => rfl
  | cons m l ih =>
    by_cases hm : p m = true
    · simp [hm, h m hm]
    · simp [hm, List.filter_cons, ih]

theorem World.remountReadOnly_stack (path : Str) : (w.remountReadOnly path).stack place =
    if path = place then (w.stack place).modify 0 fun m => { m with readOnly := true }
    else w.stack place := by
  unfold World.remountReadOnly World.stack
  dsimp only
  induction w.mounts with
  | nil => simp
  | cons m l ih =>
    by_cases hm : m.target = path
    · have hidx : (m :: l).findIdx (fun m => decide (m.target = path)) = 0 := by
        simp [List.findIdx_cons, hm]
      rw [hidx, List.modify_zero_cons]
      by_cases ht : path = place
      · subst ht
        simp [hm]
      · simp [hm, ht]
    · have hidx : (m :: l).findIdx (fun m => decide (m.target = path)) =
          l.findIdx (fun m => decide (m.target = path)) + 1 := by
        simp [List.findIdx_cons, hm]
      rw [hidx, List.modify_succ_cons, List.filter_cons, List.filter_cons, ih]
      by_cases ht : path = place
      · subst ht
        simp [hm]
      · simp only [if_neg ht]

theorem Move.stack (h : Move S w c w') (hc : c.touches S place = false) :
    w'.stack place = w.stack place := by
  cases h with
  | none hs => rw [World.stack, hs.mounts, World.stack]
  | mount device path options =>
    have hp : S.resolve path ≠ place := by simpa [Cmd.touches] using hc
    simp [World.stack, World.addMount, hp]
  | bind source path =>
    have hp : S.resolve path ≠ place := by simpa [Cmd.touches] using hc
    simp [World.stack, World.addMount, World.bound_target, hp]
  | readOnly path =>
    have hp : S.resolve path ≠ place := by simpa [Cmd.touches] using hc
    rw [World.remountReadOnly_stack, if_neg hp]
  | umount path =>
    have hp : S.resolve path ≠ place := by simpa [Cmd.touches] using hc
    refine filter_eraseP_ne (fun m hm => ?_) _
    have hm' : m.target = S.resolve path := by simpa using hm
    simpa [hm'] using hp
  | mkdir | rmdir | attach | detach | «open» | close => rfl

theorem exec_stack (hc : c.touches S place = false) :
    (exec S o c w).2.stack place = w.stack place := by
  unfold exec
  rw [(step_move S o c _).stack hc, World.stack, (w.disturb_disturbed o).mounts]
  rfl

theorem Apart.exec (h : Apart S place w) (hc : Untouched S place c) :
    Apart S place (Node.exec S o c w).2 := by
  intro m hm
  rcases step_entries hm with hput | hm
  · exact hc.entries m hput
  · rw [(w.disturb_disturbed o).state] at hm
    exact h m hm

section Restage
variable {σ : Type} {ex : Choice → (c : Cmd) → σ → Resp c × σ} {A G : σ → Cmd → Choice → Prop}
  {I : σ → Prop} {x : σ}

/-- What every command away from the place keeps is kept by a re-stage, as long as the
entries of the state are away from it. -/
theorem wp_restageFailed (hI : ∀ x c o, Untouched S place c → I x → G x c o ∧ I (ex o c x).2)
    (hget : ∀ x o, I x → ∀ m, (ex o (.stateGet id) x).1 = some m → S.resolve m.stagePath ≠ place)
    (hx : I x) : (restageFailed S id).run.wp ⟨ex, A, G⟩ (fun _ x => I x) x := by
  have hmarked : ∀ x, I x → (restageMarked S id).run.wp ⟨ex, A, G⟩ (fun _ x => I x) x := by
    intro x hx
    unfold restageMarked
    rw [Prog.wp_run_bind, Prog.wp_always]
    intro o _
    obtain ⟨hg, hx'⟩ := hI x (.stateGet id) o (untouched_of_observes rfl) hx
    refine ⟨hg, ?_⟩
    cases hm : (ex o (.stateGet id) x).1 with
    | none => exact hx'
    | some m =>
      have hall := (restageEntry_stages S m).mono fun _ h => h.untouched (hget x o hx m hm)
      exact Prog.wp_of_all (I := I) (fun x c o hc _ hx => hI x c o hc hx) hall hx'
  unfold restageFailed withLock
  refine (Prog.wp_bind _ _ _ _).mpr fun o _ => ?_
  obtain ⟨hg, hx'⟩ := hI x (.lock id) o ⟨rfl, fun _ he => by cases he⟩ hx
  refine ⟨hg, (Prog.wp_bind _ _ _ _).mpr (Prog.wp_mono (Q := fun _ x => I x) ?_ ?_)⟩
  · intro r x hx
    refine (Prog.wp_bind _ _ _ _).mpr fun o _ => ?_
    exact hI x (.unlock id) o ⟨rfl, fun _ he => by cases he⟩ hx
  · unfold restageLocked
    rw [Prog.wp_run_bind, Prog.wp_always]
    intro o _
    obtain ⟨hg, hx''⟩ := hI _ (.failedGet id) o (untouched_of_observes rfl) hx'
    refine ⟨hg, ?_⟩
    rw [Prog.wp_ret]
    dsimp only
    split_ifs
    · exact hmarked _ hx''
    · exact hx''

/-- A publish is a re-stage, if it comes to that, and the binding of the target. -/
theorem wp_nodePublishVolume {req : PublishRequest} {Q : Except Status Unit → σ → Prop}
    (hI : ∀ x c o, Untouched S place c → I x → G x c o ∧ I (ex o c x).2)
    (hget : ∀ x o, I x → ∀ m, (ex o (.stateGet req.volumeID) x).1 = some m →
      S.resolve m.stagePath ≠ place)
    (hbind : ∀ x, I x → (bindTarget req).run.wp ⟨ex, A, G⟩ Q x)
    (hfail : ∀ e x, I x → Q (.error e) x) (hx : I x) :
    (nodePublishVolume S req).run.wp ⟨ex, A, G⟩ Q x := by
  unfold nodePublishVolume
  split_ifs
  · exact hfail _ x hx
  refine (Prog.wp_run_bind _ _ _ _).mpr ?_
  rw [Prog.wp_known]
  cases validateCapability req.capability with
  | error e => exact hfail e x hx
  | ok _ =>
    refine (Prog.wp_run_bind _ _ _ _).mpr ((Prog.wp_always _ _ _).mpr fun o _ => ?_)
    obtain ⟨hg, hx'⟩ := hI x (.failedGet req.volumeID) o (untouched_of_observes rfl) hx
    refine ⟨hg, (Prog.wp_run_bind _ _ _ _).mpr ?_⟩
    unfold restageIf
    split_ifs
    · refine Prog.wp_mono ?_ (wp_restageFailed hI hget hx')
      intro r x hx
      cases r with
      | error e => exact hfail e x hx
      | ok _ => exact hbind x hx
    · exact hbind _ hx'

theorem wp_bindTarget {req : PublishRequest} {Q : Except Status Unit → σ → Prop}
    (hI : ∀ x c o, Untouched S place c → I x → G x c o ∧ I (ex o c x).2)
    (hfail : ∀ e x, I x → Q (.error e) x)
    (hcheck : ∀ x, I x → (isMountPoint req.targetPath).run.wp ⟨ex, A, G⟩ (fun r x =>
      if r = .ok true then Q (.ok ()) x
      else (bindMount req.stagingTargetPath req.targetPath req.readonly).run.wp ⟨ex, A, G⟩ (fun r x =>
        Q (r.mapError fun e => ⟨.internal, "bind mount: " ++ e.text⟩) x) x) x)
    (hx : I x) : (bindTarget req).run.wp ⟨ex, A, G⟩ Q x := by
  unfold bindTarget orStatus
  rw [Prog.wp_run_bind, Prog.wp_attempt, Prog.wp_attempt]
  intro o _
  obtain ⟨hg, hx'⟩ := hI x (.mkdirAll req.targetPath) o ⟨rfl, fun _ he => by cases he⟩ hx
  refine ⟨hg, ?_⟩
  cases (ex o (.mkdirAll req.targetPath) x).1 with
  | error e => exact hfail _ _ hx'
  | ok _ =>
    refine (Prog.wp_run_bind _ _ _ _).mpr ((Prog.wp_always _ _ _).mpr ?_)
    refine (Prog.wp_bind _ _ _ _).mpr (Prog.wp_mono ?_ (hcheck _ hx'))
    rintro (e | b | b) x h
    · exact (Prog.wp_attempt _ _ _ _).mpr h
    · exact (Prog.wp_attempt _ _ _ _).mpr h
    · exact h

end Restage

/-- No check of the target fails while something is mounted there. -/
def ChecksWork (target : Str) (w : World) (c : Cmd) (o : Choice) : Prop :=
  w.mountedAt target = true → c = .stat target ∨ c = .findmntTarget target ∨
    c = .findmntExact target → o.fault = none

/-- At most one mount is on the target. -/
structure Single (S : Site) (target : Str) (w : World) : Prop where
  depth : (w.stack target).length ≤ 1
  dir : w.mountedAt target = true → target ∈ w.dirs
  apart : Apart S target w

theorem exec_mountedAt (hc : c.touches S target = false) :
    (exec S o c w).2.mountedAt target = w.mountedAt target := by
  rw [Bool.eq_iff_iff, World.mountedAt_iff_stack, World.mountedAt_iff_stack, exec_stack hc]

theorem exec_dir (hm : w.mountedAt target = true) (hd : target ∈ w.dirs) :
    target ∈ (exec S o c w).2.dirs := by
  have hdist := w.disturb_disturbed o
  have hd' : target ∈ (w.disturb o).dirs := hdist.dirs ▸ hd
  have hm' : (w.disturb o).mountedAt target = true := by
    rw [World.mountedAt, hdist.mounts]
    exact hm
  have hmove := step_move S o c (w.disturb o)
  unfold exec
  generalize (step S o c (w.disturb o)).2 = w' at hmove ⊢
  cases hmove with
  | none hs => exact hs.dirs ▸ hd'
  | mkdir path => exact List.mem_cons_of_mem _ hd'
  | rmdir path hp =>
    refine List.mem_filter.mpr ⟨hd', ?_⟩
    have hne : target ≠ S.resolve path := by
      rintro rfl
      rw [hm'] at hp
      cases hp
    simpa using hne
  | mount | bind | readOnly | umount | attach | detach | «open» | close => exact hd'

theorem Single.exec (h : Single S target w) (hc : Untouched S target c) :
    Single S target (Node.exec S o c w).2 := by
  refine ⟨by rw [exec_stack hc.mounts]; exact h.depth, ?_, h.apart.exec hc⟩
  intro hm
  rw [exec_mountedAt hc.mounts] at hm
  exact exec_dir hm (h.dir hm)

/-- The weakest precondition of a program whose checks of the target work, with at most one
mount there at every command. -/
abbrev kwp (S : Site) (target : Str) {α : Type} (p : Run α) (Q : α → World → Prop) (w : World) : Prop :=
  p.wp ⟨exec S, ChecksWork target, fun w _ _ => (w.stack target).length ≤ 1⟩ Q w

theorem kwp_issue {Q : Resp c → World → Prop} (h : Single S target w) (hc : Untouched S target c)
    (hq : ∀ o, ChecksWork target w c o → Single S target (exec S o c w).2 →
      Q (exec S o c w).1 (exec S o c w).2) : kwp S target (issue c) Q w :=
  fun o ho => ⟨h.depth, hq o ho (h.exec hc)⟩

theorem any_trimSpace_rows (htrim : trimSpace target = target) (w : World) :
    (((w.stack target).map Mount.target).any fun line => decide (trimSpace line = target)) =
      w.mountedAt target := by
  rw [Bool.eq_iff_iff, List.any_eq_true, World.mountedAt_iff]
  constructor
  · rintro ⟨l, hl, -⟩
    obtain ⟨m, hm, rfl⟩ := List.mem_map.mp hl
    obtain ⟨hm, ht⟩ := List.mem_filter.mp hm
    exact ⟨m, hm, of_decide_eq_true ht⟩
  · rintro ⟨m, hm, ht⟩
    refine ⟨m.target, List.mem_map_of_mem (List.mem_filter.mpr ⟨hm, decide_eq_true ht⟩), ?_⟩
    rw [ht]
    exact decide_eq_true htrim

theorem exec_of_fault_none (h : o.fault = none) :
    exec S o c w = execOk S o c (w.disturb o) := by
  unfold exec step
  rw [h]

theorem kwp_isMountPoint (hpath : Printed S target) (h : Single S target w) :
    kwp S target (isMountPoint target).run
      (fun r w => Single S target w ∧ (w.mountedAt target = true → r = .ok true)) w := by
  cases hm : w.mountedAt target with
  | false =>
    refine Prog.wp_mono (Q := fun _ w => Single S target w ∧ w.mountedAt target = false) ?_ ?_
    · rintro r w ⟨h, hm⟩
      exact ⟨h, fun hm' => by rw [hm] at hm'; cases hm'⟩
    · refine Prog.wp_of_all (P := Untouched S target)
        (I := fun w => Single S target w ∧ w.mountedAt target = false) ?_ ?_ ⟨h, hm⟩
      · rintro w c o hc - ⟨h, hm⟩
        exact ⟨h.depth, h.exec hc, (exec_mountedAt hc.mounts).trans hm⟩
      · exact isMountPoint_all (untouched_of_observes rfl) (untouched_of_observes rfl)
          (untouched_of_observes rfl)
  | true =>
    unfold isMountPoint
    refine (Prog.wp_bind _ _ _ _).mpr (kwp_issue h (untouched_of_observes rfl) fun o ho h1 => ?_)
    have hd := h.dir hm
    have hm1 := (exec_mountedAt (S := S) (o := o) (c := .stat target) rfl).trans hm
    have hr : (exec S o (.stat target) w).1 = .ok true := by
      rw [exec_of_fault_none (ho hm (Or.inl rfl))]
      simp [execOk, hpath.canonical, (w.disturb_disturbed o).dirs, hd]
    rw [hr]
    generalize (exec S o (.stat target) w).2 = w1 at h1 hm1
    refine (Prog.wp_bind _ _ _ _).mpr (kwp_issue h1 (untouched_of_observes rfl) fun o ho h2 => ?_)
    have hd1 := h1.dir hm1
    have hm2 := (exec_mountedAt (S := S) (o := o) (c := .findmntTarget target) rfl).trans hm1
    have hr : (exec S o (.findmntTarget target) w1).1 = .ok () := by
      rw [exec_of_fault_none (ho hm1 (Or.inr (Or.inl rfl)))]
      simp [execOk, okIf, hpath.canonical, (w1.disturb_disturbed o).dirs, hd1]
    rw [hr]
    generalize (exec S o (.findmntTarget target) w1).2 = w2 at h2 hm2
    refine (Prog.wp_bind _ _ _ _).mpr (kwp_issue h2 (untouched_of_observes rfl) fun o ho h3 => ?_)
    have hr : ((exec S o (.findmntExact target) w2).1.any fun line =>
        decide (trimSpace line = target)) = true := by
      rw [exec_of_fault_none (ho hm2 (Or.inr (Or.inr rfl)))]
      dsimp only [execOk]
      rw [hpath.canonical, any_trimSpace_rows hpath.trimmed, World.mountedAt, (w2.disturb_disturbed o).mounts]
      exact hm2
    rw [hr]
    exact ⟨h3, fun _ => rfl⟩

theorem World.stack_eq_nil : w.stack target = [] ↔ w.mountedAt target = false := by
  rw [← Bool.not_eq_true, World.mountedAt_iff_stack, not_not]

theorem exec_bind (S : Site) (o : Choice) (source target : Str) (w : World) :
    (∃ e, exec S o (.bind source target) w = (.error e, w.disturb o)) ∨
      S.resolve target ∈ w.dirs ∧ exec S o (.bind source target) w = (.ok (), (w.disturb o).addMount
        ((w.disturb o).bound (S.resolve source) (S.resolve target))) := by
  have hd := (w.disturb_disturbed o).dirs
  unfold exec step
  cases o.fault with
  | some e => exact Or.inl ⟨e, rfl⟩
  | none =>
    simp only [execOk, okIf, hd]
    split_ifs with h
    · exact Or.inr ⟨by simpa using (Bool.and_eq_true_iff.mp h).2, rfl⟩
    · exact Or.inl ⟨_, rfl⟩

theorem exec_remountReadOnly (S : Site) (o : Choice) (target : Str) (w : World) :
    (∃ e, exec S o (.remountReadOnly target) w = (.error e, w.disturb o) ∧
        (o.fault = none → w.mountedAt (S.resolve target) = false)) ∨
      exec S o (.remountReadOnly target) w =
        (.ok (), (w.disturb o).remountReadOnly (S.resolve target)) := by
  have hm : (w.disturb o).mountedAt (S.resolve target) = w.mountedAt (S.resolve target) := by
    rw [World.mountedAt, (w.disturb_disturbed o).mounts, World.mountedAt]
  unfold exec step
  cases o.fault with
  | some e => exact Or.inl ⟨e, rfl, fun h => by cases h⟩
  | none =>
    simp only [execOk, okIf, hm]
    split_ifs with h
    · exact Or.inr rfl
    · exact Or.inl ⟨_, rfl, fun _ => by simpa using h⟩

theorem exec_umount (S : Site) (o : Choice) (target : Str) (w : World) :
    (∃ e, exec S o (.umount target) w = (.error e, w.disturb o)) ∨
      w.mountedAt (S.resolve target) = true ∧
        exec S o (.umount target) w = (.ok (), (w.disturb o).unmount (S.resolve target)) := by
  have hm : (w.disturb o).mountedAt (S.resolve target) = w.mountedAt (S.resolve target) := by
    rw [World.mountedAt, (w.disturb_disturbed o).mounts, World.mountedAt]
  unfold exec step
  cases o.fault with
  | some e => exact Or.inl ⟨e, rfl⟩
  | none =>
    simp only [execOk, okIf, hm]
    split_ifs with h
    · exact Or.inr ⟨h, rfl⟩
    · exact Or.inl ⟨_, rfl⟩

theorem World.disturb_stack (w : World) (o : Choice) (target : Str) :
    (w.disturb o).stack target = w.stack target := by
  rw [World.stack, (w.disturb_disturbed o).mounts, World.stack]

theorem World.addMount_stack (w : World) {m : Mount} (hm : m.target = target) :
    (w.addMount m).stack target = m :: w.stack target := by
  simp [World.stack, World.addMount, hm]

theorem World.unmount_stack (w : World) (target : Str) :
    (w.unmount target).stack target = (w.stack target).tail := by
  change (w.mounts.eraseP _).filter _ = (w.mounts.filter _).tail
  induction w.mounts with
  | nil => rfl
  | cons m l ih =>
    by_cases hm : m.target = target
    · simp [hm]
    · simp [hm, ih]

theorem Apart.of_state (h : Apart S target w) (hs : w'.state = w.state) : Apart S target w' := by
  intro m hm
  exact h m (hs ▸ hm)

theorem Single.disturb (h : Single S target w) (o : Choice) : Single S target (w.disturb o) := by
  have hd := w.disturb_disturbed o
  refine ⟨by rw [World.disturb_stack]; exact h.depth, ?_, h.apart.of_state hd.state⟩
  intro hm
  rw [World.mountedAt, hd.mounts] at hm
  exact hd.dirs ▸ h.dir hm

theorem Single.bind (h : Single S target w) (hpath : Printed S target)
    (hm : w.mountedAt target = false) (source : Str) (o : Choice) :
    Single S target (Node.exec S o (.bind source target) w).2 := by
  rcases exec_bind S o source target w with ⟨e, he⟩ | ⟨hdir, he⟩
  · rw [he]
    exact h.disturb o
  · rw [hpath.canonical] at hdir he
    rw [he]
    have hd := w.disturb_disturbed o
    refine ⟨?_, fun _ => hd.dirs ▸ hdir, h.apart.of_state hd.state⟩
    rw [World.addMount_stack _ (World.bound_target ..), World.disturb_stack,
      World.stack_eq_nil.mpr hm]
    rfl

theorem Single.remountReadOnly (h : Single S target w) (hpath : Printed S target) (o : Choice) :
    Single S target (Node.exec S o (.remountReadOnly target) w).2 := by
  have h' := h.disturb o
  rcases exec_remountReadOnly S o target w with ⟨e, he, -⟩ | he
  · rw [he]
    exact h'
  · rw [he, hpath.canonical]
    have hlen : ((w.disturb o).remountReadOnly target).stack target =
        ((w.disturb o).stack target).modify 0 fun m => { m with readOnly := true } := by
      rw [World.remountReadOnly_stack, if_pos rfl]
    refine ⟨by rw [hlen, List.length_modify]; exact h'.depth, ?_, h'.apart⟩
    intro hm
    apply h'.dir
    rw [World.mountedAt_iff_stack] at hm ⊢
    intro hnil
    rw [hlen, hnil] at hm
    exact hm rfl

theorem Single.umount (h : Single S target w) (hpath : Printed S target) (o : Choice) :
    (∃ e, (Node.exec S o (.umount target) w).1 = .error e) ∧
        Single S target (Node.exec S o (.umount target) w).2 ∨
      Single S target (Node.exec S o (.umount target) w).2 ∧
        (Node.exec S o (.umount target) w).2.mountedAt target = false := by
  have h' := h.disturb o
  rcases exec_umount S o target w with ⟨e, he⟩ | ⟨-, he⟩
  · rw [he]
    exact Or.inl ⟨⟨e, rfl⟩, h'⟩
  · rw [he, hpath.canonical]
    have hnil : ((w.disturb o).unmount target).stack target = [] := by
      rw [World.unmount_stack]
      have := h'.depth
      cases hs : (w.disturb o).stack target with
      | nil => rfl
      | cons m l =>
        rw [hs] at this
        simpa using this
    have hm := World.stack_eq_nil.mp hnil
    refine Or.inr ⟨⟨by simp [hnil], fun hm' => ?_, h'.apart⟩, hm⟩
    rw [hm] at hm'
    cases hm'

/-- The calls that are made for one target. -/
inductive TargetCall
  | publish (req : PublishRequest)
  | unpublish (id : VolumeID)

def TargetCall.run (S : Site) (target : Str) : TargetCall → Run (Except Status Unit)
  | .publish req => (nodePublishVolume S { req with targetPath := target }).run
  | .unpublish id => (nodeUnpublishVolume id target).run

theorem Apart.get (h : Apart S target w) {m : Mapping}
    (hm : (Node.exec S o (.stateGet id) w).1 = some m) : S.resolve m.stagePath ≠ target := by
  have hget : (Node.exec S o (.stateGet id) w).1 = Mapping.get (w.disturb o).state id := by
    unfold Node.exec step
    cases o.fault <;> rfl
  rw [hget, (w.disturb_disturbed o).state] at hm
  exact h m (List.mem_of_find?_eq_some hm)

theorem kwp_publish (hpath : Printed S target) (h : Single S target w)
    (req : PublishRequest) :
    kwp S target (TargetCall.run S target (.publish req)) (fun _ w => Single S target w) w := by
  have hI : ∀ w c o, Untouched S target c → Single S target w →
      (w.stack target).length ≤ 1 ∧ Single S target (exec S o c w).2 :=
    fun w c o hc h => ⟨h.depth, h.exec hc⟩
  refine wp_nodePublishVolume hI (fun w o h m hm => h.apart.get hm) ?_ (fun _ _ h => h) h
  intro w h
  refine wp_bindTarget hI (fun _ _ h => h) (fun w h => ?_) h
  refine Prog.wp_mono ?_ (kwp_isMountPoint hpath h)
  rintro r w ⟨h, hr⟩
  split_ifs with hok
  · exact h
  · have hm : w.mountedAt target = false := by
      rw [← Bool.not_eq_true]
      exact fun hm => hok (hr hm)
    unfold bindMount shell
    refine (Prog.wp_run_bind _ _ _ _).mpr ((Prog.wp_attempt _ _ _ _).mpr fun o _ => ⟨h.depth, ?_⟩)
    have h' := h.bind hpath hm req.stagingTargetPath o
    generalize exec S o (.bind req.stagingTargetPath target) w = rw at h' ⊢
    rcases rw with ⟨e | _, w⟩
    · exact h'
    · dsimp only [Except.mapError]
      split_ifs
      · exact (Prog.wp_attempt _ _ _ _).mpr fun o _ => ⟨h'.depth, h'.remountReadOnly hpath o⟩
      · exact h'

theorem kwp_unpublish (hpath : Printed S target) (h : Single S target w) (id : VolumeID) :
    kwp S target (TargetCall.run S target (.unpublish id))
      (fun r w => Single S target w ∧ (r = .ok () → w.mountedAt target = false)) w := by
  have herr : ∀ (e : Status) w, Single S target w →
      Single S target w ∧ (Except.error e = .ok () → w.mountedAt target = false) :=
    fun e w h => ⟨h, fun he => by cases he⟩
  -- removing the directory changes nothing about what is mounted there
  have hremove : ∀ w, Single S target w → w.mountedAt target = false →
      kwp S target (issue (.remove target)) (fun _ w => Single S target w ∧
        ((.ok () : Except Status Unit) = .ok () → w.mountedAt target = false)) w := by
    intro w h hm
    refine kwp_issue h ⟨rfl, fun _ he => by cases he⟩ fun o _ h' => ⟨h', fun _ => ?_⟩
    exact (exec_mountedAt rfl).trans hm
  unfold TargetCall.run nodeUnpublishVolume
  dsimp only
  split_ifs
  · exact herr _ _ h
  unfold unmount orStatus
  refine (Prog.wp_run_bind _ _ _ _).mpr ((Prog.wp_attempt _ _ _ _).mpr ?_)
  refine (Prog.wp_run_bind _ _ _ _).mpr (Prog.wp_mono ?_ (kwp_isMountPoint hpath h))
  rintro (e | b | b) w ⟨h, hr⟩
  · exact herr _ _ h
  · have hm : w.mountedAt target = false := by
      rw [← Bool.not_eq_true]
      exact fun hm => by cases hr hm
    exact (Prog.wp_run_bind _ _ _ _).mpr ((Prog.wp_always _ _ _).mpr (hremove w h hm))
  · refine (Prog.wp_attempt _ _ _ _).mpr fun o _ => ⟨h.depth, ?_⟩
    have h' := h.umount hpath o
    generalize exec S o (.umount target) w = rw at h' ⊢
    rcases rw with ⟨e | _, w⟩
    · exact herr _ _ (h'.elim (·.2) (·.1))
    · rcases h' with ⟨⟨e, he⟩, -⟩ | ⟨h', hm⟩
      · cases he
      · exact (Prog.wp_run_bind _ _ _ _).mpr ((Prog.wp_always _ _ _).mpr (hremove w h' hm))

/-- Calls on a target that was not mounted, and whose checks work while something is: they
never stack two mounts, and an unpublish that succeeds leaves none. -/
theorem unpublish_leaves_nothing (hpath : Printed S target)
    (h : Prog.Runs (exec S) (ChecksWork target) (fun p => ∃ call, p = TargetCall.run S target call)
      (fun w => w.mountedAt target = false ∧ Apart S target w) w)
    (call : TargetCall) {o : ℕ → Choice}
    (ho : (call.run S target).Admissible (exec S) (ChecksWork target) o w) :
    (∀ e ∈ (call.run S target).events (exec S) o w, (e.before.stack target).length ≤ 1) ∧
      (((call.run S target).eval (exec S) o w).2.stack target).length ≤ 1 ∧
      ∀ id, call = .unpublish id → ((call.run S target).eval (exec S) o w).1 = .ok () →
        ((call.run S target).eval (exec S) o w).2.mountedAt target = false := by
  have hcall : ∀ (call : TargetCall) w, Single S target w → kwp S target (call.run S target)
      (fun r w => Single S target w ∧
        ∀ id, call = .unpublish id → r = .ok () → w.mountedAt target = false) w := by
    intro call w h
    cases call with
    | publish req =>
      refine Prog.wp_mono ?_ (kwp_publish hpath h req)
      exact fun r w h => ⟨h, fun id he => by cases he⟩
    | unpublish id =>
      refine Prog.wp_mono ?_ (kwp_unpublish hpath h id)
      exact fun r w h => ⟨h.1, fun _ _ => h.2⟩
  have hw : Single S target w := by
    refine Prog.Runs.inv (G := fun w _ _ => (w.stack target).length ≤ 1) ?_ ?_ h
    · rintro w ⟨hm, ha⟩
      refine ⟨by simp [World.stack_eq_nil.mpr hm], fun hm' => ?_, ha⟩
      rw [hm] at hm'
      cases hm'
    · rintro p w ⟨call, rfl⟩ h
      exact Prog.wp_mono (fun _ _ h => h.1) (hcall call w h)
  obtain ⟨⟨h', hun⟩, hev⟩ := Prog.wp_eval (hcall call w hw) ho
  exact ⟨hev, h'.depth, hun⟩

end Target

/-- The first volume of `demo`, staged. -/
def stagedWorld : World :=
  { demoWorld with
    loops := [⟨0, demo.image false, true, none, false, 0⟩]
    attaches := 1
    mounts := [⟨"/s/a", .loop 0, false⟩]
    dirs := ["/s/a"]
    state := [⟨demo.id false, some 0, demo.image false, "/s/a", none, some (demo.context false), []⟩]
    stateFile := [⟨demo.id false, some 0, demo.image false, "/s/a", none, some (demo.context false), []⟩] }

def podTarget : Str := "/p/mount"

def podRequest (readonly : Bool) : PublishRequest :=
  ⟨demo.id false, "/s/a", podTarget, demoCapability, readonly⟩

/-- The commands of a call succeed, except for one. -/
def failAt (n i : ℕ) : Choice :=
  if i = n then { Choice.calm with fault := some (Crypt.exit 1) } else .calm

theorem ChecksWork.calm {target : Str} {w : World} {p : Run (Except Status Unit)} :
    p.Admissible (exec demoSite) (ChecksWork target) (fun _ => .calm) w := by
  intro e he _ _
  obtain ⟨i, hi⟩ := Prog.events_choice he
  rw [hi]
  rfl

theorem stagedWorld_apart : Apart demoSite podTarget stagedWorld := by
  intro m hm
  rw [List.mem_singleton.mp hm]
  decide

theorem unpublish_leaves_nothing_published :
    let r := ((TargetCall.publish (podRequest true)).run demoSite podTarget).eval (exec demoSite)
      (fun _ => .calm) stagedWorld
    let r' := ((TargetCall.unpublish (demo.id false)).run demoSite podTarget).eval (exec demoSite)
      (fun _ => .calm) r.2
    r.2.mountedAt podTarget = true ∧ r'.1 = .ok () ∧ r'.2.mountedAt podTarget = false := by
  intro r r'
  have hr : r'.1 = .ok () := by decide +kernel
  refine ⟨by decide +kernel, hr, ?_⟩
  have hrun : Prog.Runs (exec demoSite) (ChecksWork podTarget)
      (fun p => ∃ call, p = TargetCall.run demoSite podTarget call)
      (fun w => w.mountedAt podTarget = false ∧ Apart demoSite podTarget w) r.2 :=
    .run _ _ (.init ⟨by decide, stagedWorld_apart⟩) ⟨.publish (podRequest true), rfl⟩ .calm
  exact (unpublish_leaves_nothing ⟨by decide, by decide⟩ hrun (.unpublish (demo.id false)) .calm).2.2 _ rfl hr

/-- A check that fails passes for a target that is not mounted: the bind is stacked on the
first, and the unpublish takes one away. -/
theorem unpublish_leaves_mount :
    let publish := (TargetCall.publish (podRequest false)).run demoSite podTarget
    let unpublish := (TargetCall.unpublish (demo.id false)).run demoSite podTarget
    let r1 := publish.eval (exec demoSite) (fun _ => .calm) stagedWorld
    let r2 := publish.eval (exec demoSite) (failAt 4) r1.2
    let r3 := unpublish.eval (exec demoSite) (fun _ => .calm) r2.2
    stagedWorld.mountedAt podTarget = false ∧ r1.1 = .ok () ∧ r2.1 = .ok () ∧
      (r2.2.stack podTarget).length = 2 ∧ r3.1 = .ok () ∧ r3.2.mountedAt podTarget = true := by
  decide +kernel

/-- `findmnt` prints no target with a slash at its end, so no check finds one mounted: without
any failure a second publish binds over the first, and an unpublish leaves both. -/
theorem unpublish_leaves_both :
    let publish := (TargetCall.publish (podRequest false)).run demoSite "/p/mount/"
    let unpublish := (TargetCall.unpublish (demo.id false)).run demoSite "/p/mount/"
    let r1 := publish.eval (exec demoSite) (fun _ => .calm) stagedWorld
    let r2 := publish.eval (exec demoSite) (fun _ => .calm) r1.2
    let r3 := unpublish.eval (exec demoSite) (fun _ => .calm) r2.2
    stagedWorld.mountedAt podTarget = false ∧ r1.1 = .ok () ∧ r2.1 = .ok () ∧ r3.1 = .ok () ∧
      (r3.2.stack podTarget).length = 2 := by
  decide +kernel

end Fileblock.Node
