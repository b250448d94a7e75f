import Fileblock.Monitor.Tick

/-! How often the monitor deletes: over any number of passes, the deletes for a volume
are a hold-off apart, and only deletes start one. -/
namespace Fileblock.Monitor
open Go Interaction
open Node (MountInfo Mapping lastAt)

/-- The time of a delete attempted for the volume. -/
def Event.attempt (id : Str) (e : Event) : Option ℕ :=
  match e.cmd with
  | .deletePod id' t _ => if id' = id then some t else none
  | _ => none

/-- The end of a hold-off started for the volume. -/
def Event.holdTime (id : Str) (e : Event) : Option ℕ :=
  match e.cmd with
  | .hold id' t => if id' = id then some t else none
  | _ => none

/-- A reading of the clock. -/
def Event.reading (e : Event) : Option ℕ :=
  match e with
  | ⟨_, .now, t⟩ => some t
  | _ => none

def State.heldAt (s : State) (id : Str) : ℕ := (s.held.lookup id).getD 0

/-- Commands that neither delete nor hold. -/
def Cmd.quiet : Cmd → Bool
  | .deletePod .. | .hold .. => false
  | _ => true

section Machine
variable {o : Choice} {c : Cmd} {s : State}

theorem foldl_clear (ids : List Str) (s : State) :
    (ids.foldl State.clear s).held = s.held ∧ (ids.foldl State.clear s).passes = s.passes ∧
      (ids.foldl State.clear s).log = s.log := by
  induction ids generalizing s with
  | nil => exact ⟨rfl, rfl, rfl⟩
  | cons id ids ih => exact ih (s.clear id)

@[simp] theorem disturb_held (s : State) (o : Choice) : (s.disturb o).held = s.held :=
  (foldl_clear o.clears s).1

@[simp] theorem disturb_passes (s : State) (o : Choice) : (s.disturb o).passes = s.passes :=
  (foldl_clear o.clears s).2.1

@[simp] theorem disturb_log (s : State) (o : Choice) : (s.disturb o).log = s.log :=
  (foldl_clear o.clears s).2.2

theorem act_frame (o : Choice) (c : Cmd) (s : State) :
    (act o c s).2.passes = s.passes ∧ (act o c s).2.log = s.log := by
  cases c with
  | mark id t => cases h : (s.failed.lookup id).isSome <;> simp [act, h]
  | _ => exact ⟨rfl, rfl⟩

theorem exec_passes (o : Choice) (c : Cmd) (s : State) : (exec o c s).2.passes = s.passes := by
  change (act o c (s.disturb o)).2.passes = _
  rw [(act_frame o c _).1, disturb_passes]

theorem exec_log (o : Choice) (c : Cmd) (s : State) :
    (exec o c s).2.log = ⟨s.passes, c, (exec o c s).1⟩ :: s.log := by
  change (⟨s.passes, c, (act o c (s.disturb o)).1⟩ : Event) :: (act o c (s.disturb o)).2.log = _
  rw [(act_frame o c _).2, disturb_log]
  rfl

theorem mem_log_exec {e : Event} (he : e ∈ s.log) : e ∈ (exec o c s).2.log := by
  rw [exec_log]
  exact List.mem_cons_of_mem _ he

theorem exec_held (hc : c.quiet = true) : (exec o c s).2.held = s.held := by
  change (act o c (s.disturb o)).2.held = _
  rw [← disturb_held s o]
  cases c with
  | deletePod => rfl
  | hold => cases hc
  | mark id t => cases h : ((s.disturb o).failed.lookup id).isSome <;> simp [act, h]
  | _ => rfl

end Machine

/-- Newest first: two deletes for a volume belong to one pass and one reading of the
clock, or are a hold-off apart. -/
def Spaced (new old : Event) : Prop :=
  old.pass ≤ new.pass ∧ ∀ id t t', old.attempt id = some t → new.attempt id = some t' →
    old.pass = new.pass ∧ t = t' ∨ t + remediationHold ≤ t'

/-- What holds of the log and the hold-offs. While the pods of a volume are gone
through, the deletes that `amid` tells of have not started their hold-off yet. -/
structure Paced (allowed : Bool) (amid : Option (Str × ℕ)) (s : State) : Prop where
  order : s.log.Pairwise Spaced
  past : ∀ e ∈ s.log, e.pass ≤ s.passes
  bound : ∀ e ∈ s.log, ∀ id t, e.attempt id = some t →
    t + remediationHold ≤ s.heldAt id ∨ amid = some (id, t) ∧ e.pass = s.passes
  holds : ∀ e ∈ s.log, ∀ id u, e.holdTime id = some u → ∃ t, u = t + remediationHold ∧
    ∃ e' ∈ s.log, e'.pass = e.pass ∧ e'.attempt id = some t
  held : ∀ e ∈ s.log, ∀ id t, e.attempt id = some t →
    (∃ e' ∈ s.log, e'.pass = e.pass ∧ e'.holdTime id = some (t + remediationHold)) ∨
      amid = some (id, t) ∧ e.pass = s.passes
  inForce : ∀ id, s.held.lookup id = s.log.findSome? (Event.holdTime id)
  timed : ∀ e ∈ s.log, ∀ id t, e.attempt id = some t →
    ∃ e' ∈ s.log, e'.pass = e.pass ∧ e'.reading = some t
  allowed : ∀ e ∈ s.log, ∀ id t, e.attempt id = some t → allowed = true

namespace Paced
variable {allowed : Bool} {amid : Option (Str × ℕ)} {o : Choice} {c : Cmd} {s : State}

theorem quiet (h : Paced allowed amid s) (hc : c.quiet = true) :
    Paced allowed amid (exec o c s).2 := by
  have hheldAt : (exec o c s).2.heldAt = s.heldAt := by
    funext id
    rw [State.heldAt, State.heldAt, exec_held hc]
  have hmem : ∀ {e : Event}, e ∈ (exec o c s).2.log →
      (∀ id, e.attempt id = none ∧ e.holdTime id = none) ∧ e.pass = s.passes ∨ e ∈ s.log := by
    intro e he
    rw [exec_log] at he
    rcases List.mem_cons.mp he with rfl | he
    · refine Or.inl ⟨fun id => ?_, rfl⟩
      cases c <;> first | exact ⟨rfl, rfl⟩ | cases hc
    · exact Or.inr he
  have hattempt : ∀ {e : Event}, e ∈ (exec o c s).2.log → ∀ {id t}, e.attempt id = some t →
      e ∈ s.log := by
    intro e he id t ht
    rcases hmem he with ⟨hn, -⟩ | he
    · rw [(hn id).1] at ht
      cases ht
    · exact he
  refine ⟨?_, ?_, ?_, ?_, ?_, ?_, ?_, ?_⟩
  · rw [exec_log]
    refine List.pairwise_cons.mpr ⟨fun e he => ⟨h.past e he, fun id t t' _ hn => ?_⟩, h.order⟩
    cases c <;> first | cases hn | cases hc
  · intro e he
    rw [exec_passes]
    rcases hmem he with ⟨-, hp⟩ | he
    · exact hp.le
    · exact h.past e he
  · intro e he id t ht
    rw [exec_passes, hheldAt]
    exact h.bound e (hattempt he ht) id t ht
  · intro e he id u hu
    rcases hmem he with ⟨hn, -⟩ | he
    · rw [(hn id).2] at hu
      cases hu
    · obtain ⟨t, rfl, e', he', hp, ha⟩ := h.holds e he id u hu
      exact ⟨t, rfl, e', mem_log_exec he', hp, ha⟩
  · intro e he id t ht
    rw [exec_passes]
    rcases h.held e (hattempt he ht) id t ht with ⟨e', he', hp, hu⟩ | ham
    · exact Or.inl ⟨e', mem_log_exec he', hp, hu⟩
    · exact Or.inr ham
  · intro id
    rw [exec_held hc, h.inForce, exec_log, List.findSome?_cons]
    cases c <;> first | rfl | cases hc
  · intro e he id t ht
    obtain ⟨e', he', hp, hr⟩ := h.timed e (hattempt he ht) id t ht
    exact ⟨e', mem_log_exec he', hp, hr⟩
  · intro e he id t ht
    exact h.allowed e (hattempt he ht) id t ht

theorem delete (h : Paced allowed amid s) {id : Str} {now : ℕ}
    (hamid : amid = none ∨ amid = some (id, now)) (hfree : s.heldAt id ≤ now)
    (hread : ∃ e ∈ s.log, e.pass = s.passes ∧ e.reading = some now) (hallow : allowed = true)
    (p : Pod) : Paced allowed (some (id, now)) (exec o (.deletePod id now p) s).2 := by
  have hheldAt : (exec o (.deletePod id now p) s).2.held = s.held := disturb_held s o
  have hnew : ∀ id' t, (⟨s.passes, .deletePod id now p, (exec o (.deletePod id now p) s).1⟩ :
      Event).attempt id' = some t ↔ some (id, now) = some (id', t) := by
    intro id' t
    simp only [Event.attempt, Option.some.injEq, Prod.mk.injEq]
    by_cases hid : id = id'
    · simp [hid]
    · simp [hid]
  have hamid' : ∀ {x}, amid = some x → some (id, now) = some x := by
    intro x hx
    rcases hamid with ha | ha
    · rw [ha] at hx
      cases hx
    · exact ha.symm.trans hx
  refine ⟨?_, ?_, ?_, ?_, ?_, ?_, ?_, ?_⟩
  · rw [exec_log]
    refine List.pairwise_cons.mpr ⟨fun e he => ⟨h.past e he, fun id' t t' ht ht' => ?_⟩, h.order⟩
    obtain ⟨rfl, rfl⟩ := Prod.mk.inj (Option.some.inj ((hnew id' t').mp ht'))
    rcases h.bound e he id t ht with hb | ⟨ha, hp⟩
    · exact Or.inr (hb.trans hfree)
    · have := hamid' ha
      simp only [Option.some.injEq, Prod.mk.injEq, true_and] at this
      exact Or.inl ⟨hp, this.symm⟩
  · intro e he
    rw [exec_passes]
    rw [exec_log] at he
    rcases List.mem_cons.mp he with rfl | he
    · exact le_rfl
    · exact h.past e he
  · intro e he id' t ht
    rw [exec_passes, State.heldAt, hheldAt]
    rw [exec_log] at he
    rcases List.mem_cons.mp he with rfl | he
    · exact Or.inr ⟨(hnew id' t).mp ht, rfl⟩
    · rcases h.bound e he id' t ht with hb | ⟨ha, hp⟩
      · exact Or.inl hb
      · exact Or.inr ⟨hamid' ha, hp⟩
  · intro e he id' u hu
    rw [exec_log] at he
    rcases List.mem_cons.mp he with rfl | he
    · cases hu
    · obtain ⟨t, rfl, e', he', hp, ha⟩ := h.holds e he id' u hu
      exact ⟨t, rfl, e', mem_log_exec he', hp, ha⟩
  · intro e he id' t ht
    rw [exec_passes]
    rw [exec_log] at he
    rcases List.mem_cons.mp he with rfl | he
    · exact Or.inr ⟨(hnew id' t).mp ht, rfl⟩
    · rcases h.held e he id' t ht with ⟨e', he', hp, hu⟩ | ⟨ha, hp⟩
      · exact Or.inl ⟨e', mem_log_exec he', hp, hu⟩
      · exact Or.inr ⟨hamid' ha, hp⟩
  · intro id'
    rw [hheldAt, h.inForce, exec_log, List.findSome?_cons]
    rfl
  · intro e he id' t ht
    rw [exec_log] at he
    rcases List.mem_cons.mp he with rfl | he
    · obtain ⟨rfl, rfl⟩ := Prod.mk.inj (Option.some.inj ((hnew id' t).mp ht))
      obtain ⟨e', he', hp, hr⟩ := hread
      exact ⟨e', mem_log_exec he', hp, hr⟩
    · obtain ⟨e', he', hp, hr⟩ := h.timed e he id' t ht
      exact ⟨e', mem_log_exec he', hp, hr⟩
  · intro _ _ _ _ _
    exact hallow

theorem hold {id : Str} {now : ℕ} (h : Paced allowed (some (id, now)) s)
    (hfree : s.heldAt id ≤ now)
    (hdone : ∃ e ∈ s.log, e.pass = s.passes ∧ e.attempt id = some now) :
    Paced allowed none (exec o (.hold id (now + remediationHold)) s).2 := by
  have hheld : (exec o (.hold id (now + remediationHold)) s).2.held =
      s.held.insert id (now + remediationHold) := by
    change ((s.disturb o).held.insert id _) = _
    rw [disturb_held]
  have hattempt : ∀ {e : Event}, e ∈ (exec o (.hold id (now + remediationHold)) s).2.log →
      ∀ {id' t}, e.attempt id' = some t → e ∈ s.log := by
    intro e he id' t ht
    rw [exec_log] at he
    rcases List.mem_cons.mp he with rfl | he
    · cases ht
    · exact he
  refine ⟨?_, ?_, ?_, ?_, ?_, ?_, ?_, ?_⟩
  · rw [exec_log]
    refine List.pairwise_cons.mpr ⟨fun e he => ⟨h.past e he, fun id' t t' _ hn => ?_⟩, h.order⟩
    cases hn
  · intro e he
    rw [exec_passes]
    rw [exec_log] at he
    rcases List.mem_cons.mp he with rfl | he
    · exact le_rfl
    · exact h.past e he
  · intro e he id' t ht
    left
    rw [State.heldAt, hheld]
    have hb := h.bound e (hattempt he ht) id' t ht
    by_cases hid : id' = id
    · subst hid
      rw [AList.lookup_insert, Option.getD_some]
      rcases hb with hb | ⟨ha, -⟩
      · omega
      · simp only [Option.some.injEq, Prod.mk.injEq, true_and] at ha
        omega
    · rw [AList.lookup_insert_ne hid]
      rcases hb with hb | ⟨ha, -⟩
      · exact hb
      · exact absurd (Prod.mk.inj (Option.some.inj ha)).1.symm hid
  · intro e he id' u hu
    rw [exec_log] at he
    rcases List.mem_cons.mp he with rfl | he
    · simp only [Event.holdTime] at hu
      split_ifs at hu with hid
      subst hid
      obtain ⟨e', he', hp, ha⟩ := hdone
      exact ⟨now, (Option.some.inj hu).symm, e', mem_log_exec he', hp, ha⟩
    · obtain ⟨t, rfl, e', he', hp, ha⟩ := h.holds e he id' u hu
      exact ⟨t, rfl, e', mem_log_exec he', hp, ha⟩
  · intro e he id' t ht
    left
    rcases h.held e (hattempt he ht) id' t ht with ⟨e', he', hp, hu⟩ | ⟨ha, hp⟩
    · exact ⟨e', mem_log_exec he', hp, hu⟩
    · obtain ⟨rfl, rfl⟩ := Prod.mk.inj (Option.some.inj ha)
      refine ⟨⟨s.passes, .hold id (now + remediationHold), ()⟩, ?_, hp.symm, ?_⟩
      · rw [exec_log]
        exact List.mem_cons_self
      · simp [Event.holdTime]
  · intro id'
    rw [hheld, exec_log, List.findSome?_cons]
    by_cases hid : id' = id
    · subst hid
      simp [Event.holdTime]
    · rw [AList.lookup_insert_ne hid, h.inForce]
      simp [Event.holdTime, Ne.symm hid]
  · intro e he id' t ht
    obtain ⟨e', he', hp, hr⟩ := h.timed e (hattempt he ht) id' t ht
    exact ⟨e', mem_log_exec he', hp, hr⟩
  · intro e he id' t ht
    exact h.allowed e (hattempt he ht) id' t ht

theorem next (h : Paced allowed none s) : Paced allowed none { s with passes := s.passes + 1 } := by
  refine ⟨h.order, fun e he => (h.past e he).trans (Nat.le_succ _), ?_, h.holds, ?_, h.inForce,
    h.timed, h.allowed⟩
  · intro e he id t ht
    rcases h.bound e he id t ht with hb | ⟨ha, -⟩
    · exact Or.inl hb
    · cases ha
  · intro e he id t ht
    rcases h.held e he id t ht with hu | ⟨ha, -⟩
    · exact Or.inl hu
    · cases ha

end Paced

section Passes
variable {kube auto allowed : Bool} {s : State} {β : Type}

/-- The weakest precondition over any choices. -/
abbrev mwp (p : Run β) (Q : β → State → Prop) (s : State) : Prop :=
  p.wp ⟨exec, fun _ _ _ => True, fun _ _ _ => True⟩ Q s

theorem mwp_issue {c : Cmd} {Q : Resp c → State → Prop}
    (h : ∀ o, Q (exec o c s).1 (exec o c s).2) : mwp (issue c) Q s :=
  fun o _ => ⟨trivial, h o⟩

/-- The pods of a volume are being gone through, at a time when it is not held. -/
structure Going (id : Str) (now : ℕ) (attempted : Bool) (s : State) : Prop where
  paced : Paced true (if attempted then some (id, now) else none) s
  free : s.heldAt id ≤ now
  read : ∃ e ∈ s.log, e.pass = s.passes ∧ e.reading = some now
  done : attempted = true → ∃ e ∈ s.log, e.pass = s.passes ∧ e.attempt id = some now

theorem Going.quiet {id : Str} {now : ℕ} {attempted : Bool} (h : Going id now attempted s)
    {c : Cmd} (hc : c.quiet = true) (o : Choice) : Going id now attempted (exec o c s).2 := by
  refine ⟨h.paced.quiet hc, ?_, ?_, ?_⟩
  · rw [State.heldAt, exec_held hc]
    exact h.free
  · obtain ⟨e, he, hp, hr⟩ := h.read
    exact ⟨e, mem_log_exec he, hp.trans (exec_passes ..).symm, hr⟩
  · intro ha
    obtain ⟨e, he, hp, hr⟩ := h.done ha
    exact ⟨e, mem_log_exec he, hp.trans (exec_passes ..).symm, hr⟩

theorem Going.delete {id : Str} {now : ℕ} {attempted : Bool} (h : Going id now attempted s)
    (o : Choice) (p : Pod) : Going id now true (exec o (.deletePod id now p) s).2 := by
  refine ⟨h.paced.delete ?_ h.free h.read rfl p, ?_, ?_, ?_⟩
  · cases attempted with
    | true => exact Or.inr rfl
    | false => exact Or.inl rfl
  · rw [State.heldAt, show (exec o (.deletePod id now p) s).2.held = s.held from disturb_held s o]
    exact h.free
  · obtain ⟨e, he, hp, hr⟩ := h.read
    exact ⟨e, mem_log_exec he, hp.trans (exec_passes ..).symm, hr⟩
  · intro _
    refine ⟨⟨s.passes, .deletePod id now p, (exec o (.deletePod id now p) s).1⟩, ?_, ?_, ?_⟩
    · rw [exec_log]
      exact List.mem_cons_self
    · exact (exec_passes ..).symm
    · simp [Event.attempt]

theorem mwp_quiet {p : Run β} {I : State → Prop}
    (hI : ∀ s c o, c.quiet = true → I s → I (exec o c s).2) (hp : p.All (·.quiet = true))
    (h : I s) : mwp p (fun _ s => I s) s :=
  Prog.wp_of_all (fun s c o hc _ hs => ⟨trivial, hI s c o hc hs⟩) hp h

theorem mwp_deletes {id : Str} {now failedAt : ℕ} (users : List Pod) {attempted : Bool}
    (h : Going id now attempted s) :
    mwp (deletes id now failedAt users attempted) (fun a s => Going id now a s) s := by
  induction users generalizing attempted s with
  | nil => exact h
  | cons p ps ih =>
    unfold deletes mwp
    cases skipReason p failedAt with
    | some reason =>
      dsimp only
      rw [Prog.wp_bind]
      exact Prog.wp_mono (fun _ s hs => ih hs)
        (mwp_quiet (fun _ _ o hc hs => hs.quiet hc o)
          (skip_all (P := (·.quiet)) rfl (fun _ => rfl) reason) h)
    | none =>
      dsimp only
      rw [Prog.wp_bind]
      exact mwp_issue fun o => ih (h.delete o p)

/-- The clock has been read in this pass. -/
structure Ready (allowed : Bool) (now : ℕ) (s : State) : Prop where
  paced : Paced allowed none s
  read : ∃ e ∈ s.log, e.pass = s.passes ∧ e.reading = some now

theorem Ready.quiet {now : ℕ} (h : Ready allowed now s) {c : Cmd} (hc : c.quiet = true)
    (o : Choice) : Ready allowed now (exec o c s).2 := by
  obtain ⟨e, he, hp, hr⟩ := h.read
  exact ⟨h.paced.quiet hc, e, mem_log_exec he, hp.trans (exec_passes ..).symm, hr⟩

theorem mwp_remediate {id : Str} {now failedAt : ℕ} (users : List Pod) (h : Ready true now s) :
    mwp (remediate id now failedAt users) (fun _ s => Paced true none s) s := by
  unfold remediate mwp
  rw [Prog.wp_bind]
  refine mwp_issue fun o => ?_
  have hq := h.quiet (c := .heldUntil id) rfl o
  have hr : (exec o (.heldUntil id) s).1 = (exec o (.heldUntil id) s).2.heldAt id := rfl
  split_ifs with hlt
  · exact hq.paced
  · have hg : Going id now false (exec o (.heldUntil id) s).2 :=
      ⟨hq.paced, hr ▸ not_lt.mp hlt, hq.read, by simp⟩
    rw [Prog.wp_bind]
    refine Prog.wp_mono ?_ (mwp_deletes users hg)
    intro attempted s hg
    cases attempted with
    | true => exact mwp_issue fun o => hg.paced.hold hg.free (hg.done rfl)
    | false => exact hg.paced

theorem mwp_withPods {vol : Mapping} {e : MountInfo} {entries : List MountInfo} {now failedAt : ℕ}
    (h : Ready auto now s) : mwp (withPods auto vol e entries now failedAt)
      (fun _ s => Paced auto none s) s := by
  unfold withPods mwp
  rw [Prog.wp_bind]
  refine mwp_issue fun o => ?_
  rw [Prog.wp_bind]
  refine Prog.wp_mono ?_ (mwp_quiet (fun _ _ o hc hs => hs.quiet hc o) (needPods_all (P := (·.quiet)) rfl ..)
    (h.quiet rfl o))
  intro need s h
  cases need with
  | false => exact h.paced
  | true =>
    rw [if_pos rfl, Prog.wp_bind]
    refine mwp_issue fun o => ?_
    have h := h.quiet (c := .listPods) rfl o
    cases (exec o .listPods s).1 with
    | error e => exact h.paced
    | ok pods =>
      dsimp only
      rw [Prog.wp_bind]
      refine Prog.wp_mono ?_ (mwp_quiet (fun _ _ o hc hs => hs.quiet hc o)
        (notify_all (P := (·.quiet)) rfl (fun _ _ => rfl) ..) h)
      intro _ s h
      cases auto with
      | true => exact mwp_remediate _ h
      | false => exact mwp_issue fun o => (h.quiet rfl o).paced

theorem mwp_handleFailed {vol : Mapping} {e : MountInfo} {entries : List MountInfo}
    (h : Paced (kube && auto) none s) : mwp (handleFailed kube auto vol e entries)
      (fun _ s => Paced (kube && auto) none s) s := by
  unfold handleFailed mwp
  rw [Prog.wp_bind]
  refine mwp_issue fun o => ?_
  have hready : Ready (kube && auto) (exec o .now s).1 (exec o .now s).2 := by
    refine ⟨h.quiet rfl, ⟨s.passes, .now, (exec o .now s).1⟩, ?_, (exec_passes ..).symm, rfl⟩
    rw [exec_log]
    exact List.mem_cons_self
  rw [Prog.wp_bind]
  refine mwp_issue fun o' => ?_
  rw [Prog.wp_bind]
  refine mwp_issue fun o'' => ?_
  rw [Prog.wp_bind]
  refine Prog.wp_mono ?_ (mwp_quiet (fun _ _ o hc hs => hs.quiet hc o) (forgetIf_all (P := (·.quiet)) rfl _)
    ((hready.quiet rfl o').quiet rfl o''))
  intro _ s h
  cases kube with
  | true => exact mwp_withPods h
  | false => exact h.paced

theorem mwp_tick (h : Paced (kube && auto) none s) :
    mwp (tick kube auto) (fun _ s => Paced (kube && auto) none s) s := by
  unfold tick mwp
  rw [Prog.wp_bind]
  refine mwp_issue fun o => ?_
  have h := h.quiet (c := .mountInfo) (o := o) rfl
  cases (exec o .mountInfo s).1 with
  | error e => exact h
  | ok entries =>
    dsimp only
    rw [Prog.wp_bind]
    refine mwp_issue fun o' => ?_
    have h := h.quiet (c := .stateAll) (o := o') rfl
    refine Prog.wp_each (I := fun _ s => Paced (kube && auto) none s) ?_ (fun _ hs => hs) h
    intro vol vols s h
    unfold tickVolume
    cases lastAt entries vol.stagePath with
    | none => exact mwp_issue fun o => h.quiet rfl
    | some e =>
      dsimp only
      split_ifs
      · exact mwp_handleFailed h
      · rw [Prog.wp_bind]
        exact mwp_issue fun o => mwp_issue fun o' => (h.quiet rfl).quiet rfl

theorem paced_tick (h : Paced (kube && auto) none s) (o : ℕ → Choice) :
    Paced (kube && auto) none (s.tick kube auto o) :=
  (Prog.wp_eval (mwp_tick h.next) fun _ _ => trivial).1

theorem paced_ticks (clock : ℕ) (os : List (ℕ → Choice)) :
    Paced (kube && auto) none ((fresh clock).ticks kube auto os) := by
  refine List.foldlRecOn (motive := Paced (kube && auto) none) os _ ?_ fun s h o _ => paced_tick h o
  refine ⟨List.Pairwise.nil, ?_, ?_, ?_, ?_, fun _ => rfl, ?_, ?_⟩ <;>
  · intro e he
    cases he

/-- Two passes that delete for a volume are a hold-off apart. -/
theorem Paced.apart (h : Paced allowed none s) {e e' : Event} (he : e ∈ s.log) (he' : e' ∈ s.log)
    {id : Str} {t t' : ℕ} (ht : e.attempt id = some t) (ht' : e'.attempt id = some t')
    (hlt : e.pass < e'.pass) : t + remediationHold ≤ t' := by
  obtain ⟨i, hi, rfl⟩ := List.mem_iff_getElem.mp he
  obtain ⟨j, hj, rfl⟩ := List.mem_iff_getElem.mp he'
  have hpair := List.pairwise_iff_getElem.mp h.order
  rcases lt_trichotomy i j with hij | hij | hij
  · exact absurd (hpair i j hi hj hij).1 (not_le.mpr hlt)
  · subst hij
    exact absurd hlt (lt_irrefl _)
  · rcases (hpair j i hj hi hij).2 id t t' ht ht' with ⟨hp, -⟩ | hle
    · exact absurd hp hlt.ne
    · exact hle

end Passes

/-- Over any passes of one process, whatever they see and hear, whatever marks the
requests clear in between, and with a clock that does not go back: two passes that
attempt deletes for a volume are at least the hold-off apart, in the readings of the
clock that they act on; a pass starts hold-offs for a volume exactly when it attempts
deletes for it, each until the hold-off after that reading; the hold-off in force is the
last one started; and without automatic deletion there are no deletes. -/
theorem deletes_held_off (kube auto : Bool) (clock : ℕ) (os : List (ℕ → Choice)) :
    (∀ e ∈ ((fresh clock).ticks kube auto os).log, ∀ e' ∈ ((fresh clock).ticks kube auto os).log,
      ∀ id t t', e.attempt id = some t → e'.attempt id = some t' → e.pass < e'.pass →
        t + remediationHold ≤ t') ∧
    (∀ n id u, (∃ e ∈ ((fresh clock).ticks kube auto os).log, e.pass = n ∧ e.holdTime id = some u) ↔
      ∃ t, u = t + remediationHold ∧
        ∃ e ∈ ((fresh clock).ticks kube auto os).log, e.pass = n ∧ e.attempt id = some t) ∧
    (∀ id, ((fresh clock).ticks kube auto os).held.lookup id =
      ((fresh clock).ticks kube auto os).log.findSome? (Event.holdTime id)) ∧
    (∀ e ∈ ((fresh clock).ticks kube auto os).log, ∀ id t, e.attempt id = some t →
      (∃ e' ∈ ((fresh clock).ticks kube auto os).log, e'.pass = e.pass ∧ e'.reading = some t) ∧
        kube = true ∧ auto = true) := by
  have h := @paced_ticks kube auto clock os
  refine ⟨fun e he e' he' id t t' => h.apart he he', ?_, h.inForce, ?_⟩
  · intro n id u
    constructor
    · rintro ⟨e, he, rfl, hu⟩
      exact h.holds e he id u hu
    · rintro ⟨t, rfl, e, he, rfl, ht⟩
      rcases h.held e he id t ht with hu | ⟨ha, -⟩
      · exact hu
      · cases ha
  · intro e he id t ht
    refine ⟨h.timed e he id t ht, ?_⟩
    simpa using h.allowed e he id t ht

end Fileblock.Monitor
