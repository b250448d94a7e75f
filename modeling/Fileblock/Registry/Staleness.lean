import Fileblock.Registry.Runs

/-! The check of a cached mount: one at a time, acted on only by the call that started
it, and never in the way of the next one for good. -/
namespace Fileblock.Registry
open Go Store Interaction

section Protocol
variable {W : Setup} {K : Set Config} {answers : State → Str → ℕ → CheckRes → Prop}
  {loses : Str → Prop} {P : Calls} {m : Str}

theorem running_unique (h : Reachable W K answers loses P) {ch ch' : ℕ}
    (hr : (P.state.chan m ch).running = true) (hr' : (P.state.chan m ch').running = true) :
    ch = ch' := by
  have hslot := h.safe.1.slot m
  exact Option.some.inj ((hslot.running ch hr).1.symm.trans (hslot.running ch' hr').1)

theorem idle_of_start (h : Reachable W K answers loses P) {t : Caller} {ch : ℕ} {path : Str}
    {k : Unit → Run (Except Err Str)} (hp : P.prog t = some (.call (.start m ch path) k))
    (ch' : ℕ) : (P.state.chan m ch').running = false := by
  obtain ⟨-, -, -, hslot, hnew, -⟩ := h.issues hp (by simp) ⟨⟨none, false⟩, trivial⟩
  rw [← Bool.not_eq_true]
  intro hr
  have hch := ((h.safe.1.slot m).running ch' hr).1
  rw [hslot, Option.some.injEq] at hch
  rw [← hch, hnew.1] at hr
  cases hr

/-- In every run, with any checker: a check is started only when none is running, so
at most one is; a cached mount is evicted, and mounted again, only by a call that holds
the lock and whose own check, started under that lock, answered it that nothing is
mounted; and between two calls, and whenever one gets to the slot, the slot is in order:
it is free, or its check is running, or the answer is waiting; it is free when the last
call there found an answer that had been sent; and a call that finds it free starts a
check on a channel that no check has used. -/
theorem check_protocol (h : Reachable W K answers loses P) (m : Str) :
    (∀ ch ch', (P.state.chan m ch).running = true → (P.state.chan m ch').running = true →
      ch = ch') ∧
    (∀ t ch path k, P.prog t = some (.call (.start m ch path) k) →
      ∀ ch', (P.state.chan m ch').running = false) ∧
    (∀ t path k, P.prog t = some (.call (.evict m path) k) →
      t.mountID = m ∧ P.state.holder m = some t.num ∧ Refuted t P.state.log) ∧
    (∀ t target cfg k, P.prog t = some (.call (.mount target cfg) k) → t.mountID = m →
      P.state.holder m = some t.num ∧ P.state.mounted.lookup m = none ∧
        Uncached t P.state.log) ∧
    (P.state.holder m = none → Tidy P.state m) ∧
    ∀ t k, P.prog t = some (.call (.openSlot m) k) → Tidy P.state m ∧
      (P.state.checking m = none → ∀ o, ∃ ch,
        (exec t o (.openSlot m) P.state).1 = (ch, false) ∧ Unused m ch P.state) := by
  have hslot := h.safe.1.slot m
  refine ⟨?_, ?_, ?_, ?_, hslot.idle, ?_⟩
  · intro ch ch'
    exact running_unique h
  · intro t ch path k hp
    exact idle_of_start h hp
  · intro t path k hp
    obtain ⟨-, hheld, rfl, -, hno⟩ := h.issues hp (by simp) ⟨⟨none, false⟩, trivial⟩
    exact ⟨rfl, hheld, hno⟩
  · rintro t target cfg k hp rfl
    obtain ⟨-, hheld, -, -, -, hnone, hunc⟩ := h.issues hp (by simp) ⟨⟨none, false⟩, trivial⟩
    exact ⟨hheld, hnone, hunc⟩
  · intro t k hp
    obtain ⟨-, -, rfl, htidy⟩ := h.issues hp (by simp) ⟨⟨none, false⟩, trivial⟩
    refine ⟨htidy, ?_⟩
    intro hfree o
    obtain ⟨hidle, -, hnew⟩ := hslot.fresh (P.state.made t.mountID) le_rfl
    exact ⟨P.state.made t.mountID, by simp [exec, act, hfree], hidle, hnew⟩

end Protocol

/-- The check of the second call is given up and answers late; the third call takes
the answer out, and the fourth gets to the slot. -/
def abandoning : List Move :=
  calls 0 9 ++ (calls 1 4 ++ .go (caller 1) ⟨none, true⟩ :: goes 1 3) ++
    .answer zeros 0 (.ok false) :: (calls 2 8 ++ calls 3 2)

theorem abandoning_allowed {mv : Move} (h : mv ∈ abandoning) :
    mv.Allowed smallSite {team} fun _ _ _ _ => True := by
  simp only [abandoning, List.mem_append, List.mem_cons] at h
  rcases h with (h | h | rfl | h) | rfl | h | h
  · exact calls_allowed h
  · exact calls_allowed h
  · trivial
  · exact calls_allowed (List.mem_cons_of_mem _ h)
  · exact fun _ => trivial
  · exact calls_allowed h
  · exact calls_allowed h

theorem check_protocol_abandoned : ∃ P : Calls,
    Reachable smallSite {team} (fun _ _ _ _ => True) (fun _ => False) P ∧
    .answered zeros 0 (.ok false) ∈ P.state.log ∧
    (∃ k, P.prog (caller 3) = some (.call (.openSlot zeros) k)) ∧
    ∀ o, ∃ ch, (exec (caller 3) o (.openSlot zeros) P.state).1 = (ch, false) ∧
      Unused zeros ch P.state := by
  have hP := @reachable_of_schedule smallSite {team} (fun _ _ _ _ => True) (fun _ => False)
    abandoning [] (fun _ => .ok true) (fun _ => false) (fun mv h => abandoning_allowed h) rfl
  obtain ⟨-, -, -, -, -, hopen⟩ := check_protocol hP zeros
  refine ⟨_, hP, ?_, ⟨_, rfl⟩, (hopen (caller 3) _ rfl).2 rfl⟩
  exact List.mem_of_getElem? (i := 10) rfl

end Fileblock.Registry
