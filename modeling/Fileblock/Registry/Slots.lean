import Fileblock.Registry.Invariant

/-! The slot that keeps at most one check of a mount running. -/
namespace Fileblock.Registry
open Go Store Interaction

/-- A slot that is taken has its check running or the answer waiting; an answer that
was sent is still there. -/
def SlotOk (s : State) (m : Str) : Prop :=
  ∀ ch, s.checking m = some ch →
    ((s.chan m ch).running = true ∨ (s.chan m ch).answer ≠ none) ∧
    ∀ r, .answered m ch r ∈ s.log → (s.chan m ch).answer ≠ none

/-- When the last `Get` at the slot found a check in flight whose answer had been
sent, it has freed the slot. -/
def Drained (s : State) (m : Str) : Prop :=
  ∀ t ch b r, s.log.dropWhile (fun e => !e.opens m) = .did t (.openSlot m) (ch, true) :: b →
    .answered m ch r ∈ b → s.checking m = none

/-- When the last `Get` at the slot found it free, it has started a check. -/
def Started (s : State) (m : Str) : Prop :=
  ∀ t ch b, s.log.dropWhile (fun e => !e.opens m) = .did t (.openSlot m) (ch, false) :: b →
    ∃ path, .did t (.start m ch path) () ∈ since (Event.opens m) s.log

/-- The slot is in order: whoever was there last has seen to it. -/
structure Tidy (s : State) (m : Str) : Prop where
  ok : SlotOk s m
  drained : Drained s m
  started : Started s m

structure Slot (s : State) (m : Str) : Prop where
  fresh : ∀ ch, s.made m ≤ ch → (s.chan m ch).running = false ∧ (s.chan m ch).answer = none ∧
    ∀ r, .answered m ch r ∉ s.log
  made : ∀ ch, s.checking m = some ch → ch < s.made m
  running : ∀ ch, (s.chan m ch).running = true →
    s.checking m = some ch ∧ (s.chan m ch).answer = none ∧ ∀ r, .answered m ch r ∉ s.log
  answer : ∀ ch r, (s.chan m ch).answer = some r → .answered m ch r ∈ s.log
  idle : s.holder m = none → Tidy s m

/-- The parts of the state that concern the slot of `m` are the same, and no check
of it has answered. -/
structure SameSlot (s s' : State) (m : Str) : Prop where
  checking : s'.checking m = s.checking m
  made : s'.made m = s.made m
  chan : s'.chan m = s.chan m
  log : ∃ e, s'.log = e :: s.log ∧ ∀ ch r, e ≠ .answered m ch r

theorem answered_mem_iff {s s' : State} {m : Str} {e : Event} (hl : s'.log = e :: s.log)
    (he : ∀ ch r, e ≠ .answered m ch r) {ch : ℕ} {r : CheckRes} :
    .answered m ch r ∈ s'.log ↔ .answered m ch r ∈ s.log := by
  simp [hl, (he ch r).symm]

namespace SameSlot
variable {s s' : State} {m : Str}

theorem answered_iff (h : SameSlot s s' m) {ch : ℕ} {r : CheckRes} :
    .answered m ch r ∈ s'.log ↔ .answered m ch r ∈ s.log := by
  obtain ⟨e, hl, hn⟩ := h.log
  exact answered_mem_iff hl hn

theorem slotOk (h : SameSlot s s' m) (hs : SlotOk s m) : SlotOk s' m := by
  intro ch hch
  rw [h.checking] at hch
  obtain ⟨h1, h2⟩ := hs ch hch
  rw [h.chan]
  exact ⟨h1, fun r hr => h2 r (h.answered_iff.mp hr)⟩

theorem slot (h : SameSlot s s' m) (hi : Slot s m)
    (hidle : s'.holder m = none → Tidy s' m) : Slot s' m := by
  refine ⟨?_, ?_, ?_, ?_, hidle⟩
  · intro ch hch
    rw [h.made] at hch
    obtain ⟨h1, h2, h3⟩ := hi.fresh ch hch
    rw [h.chan]
    exact ⟨h1, h2, fun r hr => h3 r (h.answered_iff.mp hr)⟩
  · intro ch hch
    rw [h.checking] at hch
    rw [h.made]
    exact hi.made ch hch
  · intro ch hch
    rw [h.chan] at hch
    obtain ⟨h1, h2, h3⟩ := hi.running ch hch
    rw [h.chan, h.checking]
    exact ⟨h1, h2, fun r hr => h3 r (h.answered_iff.mp hr)⟩
  · intro ch r hr
    rw [h.chan] at hr
    exact h.answered_iff.mpr (hi.answer ch r hr)

end SameSlot

theorem Drained.cons {s s' : State} {m : Str} (h : Drained s m) {e : Event}
    (hl : s'.log = e :: s.log) (he : e.opens m = false) (hc : s'.checking m = s.checking m) :
    Drained s' m := by
  intro t ch b r hd hr
  rw [hl, List.dropWhile_cons, he] at hd
  rw [hc]
  exact h t ch b r hd hr

theorem Started.cons {s s' : State} {m : Str} (h : Started s m) {e : Event}
    (hl : s'.log = e :: s.log) (he : e.opens m = false) : Started s' m := by
  intro t ch b hd
  rw [hl, List.dropWhile_cons, he] at hd
  obtain ⟨path, hp⟩ := h t ch b hd
  rw [hl]
  exact ⟨path, mem_since_cons he hp⟩

theorem Tidy.cons {s s' : State} {m : Str} (h : Tidy s m) (hs : SameSlot s s' m) {e : Event}
    (hl : s'.log = e :: s.log) (he : e.opens m = false) : Tidy s' m :=
  ⟨hs.slotOk h.ok, h.drained.cons hl he hs.checking, h.started.cons hl he⟩

namespace Slot
variable {s s' : State} {m : Str} {ch : ℕ}

theorem take (h : Slot s m) (hfree : s.checking m = none)
    (hchecking : s'.checking m = some (s.made m)) (hmade : s'.made m = s.made m + 1)
    (hchan : s'.chan m = s.chan m) {e : Event} (hl : s'.log = e :: s.log)
    (he : ∀ ch r, e ≠ .answered m ch r) (hheld : s'.holder m ≠ none) : Slot s' m := by
  refine ⟨?_, ?_, ?_, ?_, fun hn => absurd hn hheld⟩
  · intro ch hch
    rw [hmade] at hch
    obtain ⟨h1, h2, h3⟩ := h.fresh ch (by omega)
    rw [hchan]
    exact ⟨h1, h2, fun r hr => h3 r ((answered_mem_iff hl he).mp hr)⟩
  · intro ch hch
    rw [hchecking, Option.some.injEq] at hch
    omega
  · intro ch hch
    rw [hchan] at hch
    have := (h.running ch hch).1
    rw [hfree] at this
    cases this
  · intro ch r hr
    rw [hchan] at hr
    exact (answered_mem_iff hl he).mpr (h.answer ch r hr)

theorem receive (h : Slot s m) (ch : ℕ) (hchecking : s'.checking m = s.checking m)
    (hmade : s'.made m = s.made m)
    (hchan : s'.chan m = Function.update (s.chan m) ch { s.chan m ch with answer := none })
    {e : Event} (hl : s'.log = e :: s.log) (he : ∀ ch r, e ≠ .answered m ch r)
    (hheld : s'.holder m ≠ none) : Slot s' m := by
  have hrun : ∀ ch', (s'.chan m ch').running = (s.chan m ch').running := by
    intro ch'
    by_cases hc : ch' = ch
    · simp [hchan, hc]
    · simp [hchan, hc]
  have hans : ∀ ch', (s'.chan m ch').answer = none ∨
      (s'.chan m ch').answer = (s.chan m ch').answer := by
    intro ch'
    by_cases hc : ch' = ch
    · exact Or.inl (by simp [hchan, hc])
    · exact Or.inr (by simp [hchan, hc])
  refine ⟨?_, ?_, ?_, ?_, fun hn => absurd hn hheld⟩
  · intro ch' hch
    rw [hmade] at hch
    obtain ⟨h1, h2, h3⟩ := h.fresh ch' hch
    refine ⟨(hrun ch').trans h1, ?_, fun r hr => h3 r ((answered_mem_iff hl he).mp hr)⟩
    rcases hans ch' with ha | ha
    · exact ha
    · exact ha.trans h2
  · intro ch' hch
    rw [hchecking] at hch
    rw [hmade]
    exact h.made ch' hch
  · intro ch' hch
    rw [hrun] at hch
    obtain ⟨h1, h2, h3⟩ := h.running ch' hch
    refine ⟨hchecking.trans h1, ?_, fun r hr => h3 r ((answered_mem_iff hl he).mp hr)⟩
    rcases hans ch' with ha | ha
    · exact ha
    · exact ha.trans h2
  · intro ch' r hr
    rcases hans ch' with ha | ha
    · rw [ha] at hr
      cases hr
    · rw [ha] at hr
      exact (answered_mem_iff hl he).mpr (h.answer ch' r hr)

theorem start (h : Slot s m) (hslot : s.checking m = some ch)
    (hnew : ∀ r, .answered m ch r ∉ s.log) (path : Str) (hchecking : s'.checking m = s.checking m)
    (hmade : s'.made m = s.made m)
    (hchan : s'.chan m = Function.update (s.chan m) ch ⟨path, true, none⟩) {e : Event}
    (hl : s'.log = e :: s.log) (he : ∀ ch r, e ≠ .answered m ch r)
    (hheld : s'.holder m ≠ none) : Slot s' m := by
  refine ⟨?_, ?_, ?_, ?_, fun hn => absurd hn hheld⟩
  · intro ch' hch
    rw [hmade] at hch
    have hlt := h.made ch hslot
    obtain ⟨h1, h2, h3⟩ := h.fresh ch' hch
    have hne : ch' ≠ ch := by omega
    rw [hchan, Function.update_of_ne hne]
    exact ⟨h1, h2, fun r hr => h3 r ((answered_mem_iff hl he).mp hr)⟩
  · intro ch' hch
    rw [hchecking] at hch
    rw [hmade]
    exact h.made ch' hch
  · intro ch' hch
    by_cases hne : ch' = ch
    · subst hne
      refine ⟨hchecking.trans hslot, by simp [hchan], fun r hr => hnew r ((answered_mem_iff hl he).mp hr)⟩
    · rw [hchan, Function.update_of_ne hne] at hch
      have := (h.running ch' hch).1
      rw [hslot, Option.some.injEq] at this
      exact absurd this.symm hne
  · intro ch' r hr
    by_cases hne : ch' = ch
    · simp [hchan, hne] at hr
    · rw [hchan, Function.update_of_ne hne] at hr
      exact (answered_mem_iff hl he).mpr (h.answer ch' r hr)

theorem clear (h : Slot s m) (hover : ∀ ch, s.checking m = some ch → (s.chan m ch).running = false)
    (hchecking : s'.checking m = none) (hmade : s'.made m = s.made m)
    (hchan : s'.chan m = s.chan m) {e : Event} (hl : s'.log = e :: s.log)
    (he : ∀ ch r, e ≠ .answered m ch r) (hheld : s'.holder m ≠ none) : Slot s' m := by
  refine ⟨?_, ?_, ?_, ?_, fun hn => absurd hn hheld⟩
  · intro ch hch
    rw [hmade] at hch
    obtain ⟨h1, h2, h3⟩ := h.fresh ch hch
    rw [hchan]
    exact ⟨h1, h2, fun r hr => h3 r ((answered_mem_iff hl he).mp hr)⟩
  · intro ch hch
    rw [hchecking] at hch
    cases hch
  · intro ch hch
    rw [hchan] at hch
    have hslot := (h.running ch hch).1
    rw [hover ch hslot] at hch
    cases hch
  · intro ch r hr
    rw [hchan] at hr
    exact (answered_mem_iff hl he).mpr (h.answer ch r hr)

end Slot
end Fileblock.Registry
