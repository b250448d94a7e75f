import Fileblock.Controller.Serve

/-! The size that `alignedCapacity` picks in a range, and the sizes for which its rounding
wraps. -/
namespace Fileblock.Controller
open Image (alignUp defaultBlockSize)

structure Fits (required limit n : ℤ) : Prop where
  positive : 0 < n
  aligned : 4096 ∣ n
  int64 : n < 2 ^ 63
  required : required ≤ n
  limit : 0 < limit → n ≤ limit

/-- The right answer for a range: the least size it allows, the greatest when only the limit
is given, and the default when nothing is. -/
structure Picks (required limit : ℤ) (r : Except Status ℤ) : Prop where
  fails : 0 < required ∨ 0 < limit →
    ((∃ e, r = .error e ∧ e.code = .outOfRange) ↔ ∀ n, ¬Fits required limit n)
  code : ∀ e, r = .error e → e.code = .outOfRange
  fits : ∀ size, r = .ok size → Fits required limit size
  least : ∀ size, r = .ok size → 0 < required → ∀ n, Fits required limit n → size ≤ n
  greatest : ∀ size, r = .ok size → required ≤ 0 → 0 < limit →
    ∀ n, Fits required limit n → n ≤ size
  default : required ≤ 0 → limit ≤ 0 → r = .ok (2 ^ 30)

theorem Picks.ok {required limit size : ℤ} (hfits : Fits required limit size)
    (hleast : 0 < required → ∀ n, Fits required limit n → size ≤ n)
    (hgreatest : required ≤ 0 → 0 < limit → ∀ n, Fits required limit n → n ≤ size)
    (hdefault : required ≤ 0 → limit ≤ 0 → size = 2 ^ 30) :
    Picks required limit (.ok size) := by
  constructor
  · intro _
    constructor
    · rintro ⟨e, he, -⟩
      cases he
    · intro hnone
      exact absurd hfits (hnone size)
  · intro e he
    cases he
  · intro n hn
    exact Except.ok.inj hn ▸ hfits
  · intro n hn
    exact Except.ok.inj hn ▸ hleast
  · intro n hn
    exact Except.ok.inj hn ▸ hgreatest
  · intro hr hl
    rw [hdefault hr hl]

theorem Picks.error {required limit : ℤ} {message : String} (hlimit : 0 < limit)
    (hnone : ∀ n, ¬Fits required limit n) :
    Picks required limit (.error ⟨.outOfRange, message⟩) := by
  constructor
  · intro _
    exact ⟨fun _ => hnone, fun _ => ⟨_, rfl, rfl⟩⟩
  · intro e he
    cases he
    rfl
  · intro size hs
    cases hs
  · intro size hs
    cases hs
  · intro size hs
    cases hs
  · intro _ hl
    omega

/-- What is rounded: the required size, else the limit, else the default. -/
def wanted (required limit : ℤ) : ℤ :=
  if 0 < required then required else if 0 < limit then limit else defaultCapacityBytes

theorem alignedCapacity_eq (required limit : ℤ) :
    alignedCapacity (some ⟨required, limit⟩) =
      if 0 < limit ∧ limit < alignUp (wanted required limit) then
        if limit.tdiv defaultBlockSize * defaultBlockSize = 0 ∨
            limit.tdiv defaultBlockSize * defaultBlockSize < required then
          .error ⟨.outOfRange, "no multiple of " ++ toString defaultBlockSize ++
            " bytes lies between required " ++ toString required ++ " and limit " ++
            toString limit⟩
        else .ok (limit.tdiv defaultBlockSize * defaultBlockSize)
      else .ok (alignUp (wanted required limit)) :=
  rfl

theorem picks_of_wanted_le {required limit : ℤ} (h : wanted required limit ≤ 2 ^ 63 - 4096) :
    Picks required limit (alignedCapacity (some ⟨required, limit⟩)) := by
  have hcases : (0 < required ∧ wanted required limit = required) ∨
      (required ≤ 0 ∧ 0 < limit ∧ wanted required limit = limit) ∨
      (required ≤ 0 ∧ limit ≤ 0 ∧ wanted required limit = 2 ^ 30) := by
    unfold wanted defaultCapacityBytes
    split_ifs <;> omega
  have hup : alignUp (wanted required limit) = (wanted required limit + 4095) / 4096 * 4096 :=
    Image.alignUp_eq (by omega) (by omega)
  rw [alignedCapacity_eq, hup]
  by_cases hpast : 0 < limit ∧ limit < (wanted required limit + 4095) / 4096 * 4096
  · have hdown : limit.tdiv defaultBlockSize = limit / 4096 :=
      Int.tdiv_eq_ediv_of_nonneg hpast.1.le
    rw [if_pos hpast, hdown, defaultBlockSize]
    by_cases hnone : limit / 4096 * 4096 = 0 ∨ limit / 4096 * 4096 < required
    · rw [if_pos hnone]
      apply Picks.error hpast.1
      intro n hn
      have hn1 := hn.positive
      have hn2 := hn.aligned
      have hn3 := hn.required
      have hn4 := hn.limit hpast.1
      omega
    · rw [if_neg hnone]
      -- what was passed is the limit itself: nothing else lies between a size and its rounding
      apply Picks.ok
      · constructor <;> omega
      · omega
      · intro _ _ n hn
        have hn2 := hn.aligned
        have hn4 := hn.limit hpast.1
        omega
      · omega
  · rw [if_neg hpast]
    apply Picks.ok
    · constructor <;> omega
    · intro _ n hn
      have hn2 := hn.aligned
      have hn3 := hn.required
      omega
    · intro _ hl n hn
      have hn4 := hn.limit hl
      omega
    · omega

/-- A range is answered right exactly when what is rounded does not lie in the last block of
the `int64`s. -/
theorem alignedCapacity_exact_iff {required limit : ℤ} (hr : required < 2 ^ 63)
    (hl : limit < 2 ^ 63) :
    Picks required limit (alignedCapacity (some ⟨required, limit⟩)) ↔
      (0 < required → required ≤ 2 ^ 63 - 4096) ∧ (required ≤ 0 → limit ≤ 2 ^ 63 - 4096) := by
  constructor
  · intro h
    by_contra hbig
    have hwanted : 2 ^ 63 - 4096 < wanted required limit ∧ wanted required limit < 2 ^ 63 := by
      unfold wanted
      split_ifs <;> omega
    have hwrap : alignUp (wanted required limit) < 0 := Image.alignUp_neg hwanted.1 hwanted.2
    have hanswer : alignedCapacity (some ⟨required, limit⟩) =
        .ok (alignUp (wanted required limit)) := by
      rw [alignedCapacity_eq]
      exact if_neg (by omega)
    have hpos := (h.fits _ hanswer).positive
    omega
  · rintro ⟨h1, h2⟩
    apply picks_of_wanted_le
    unfold wanted defaultCapacityBytes
    split_ifs <;> omega

/-- A request without a range is one with an empty range. -/
example : alignedCapacity none = alignedCapacity (some ⟨0, 0⟩) := rfl

theorem alignedCapacity_exact_rounded :
    Picks 5000 8192 (alignedCapacity (some ⟨5000, 8192⟩)) ∧
      alignedCapacity (some ⟨5000, 8192⟩) = .ok 8192 :=
  ⟨(alignedCapacity_exact_iff (by decide) (by decide)).mpr ⟨by decide, by decide⟩, rfl⟩

/-- The largest size that can be asked for is answered with a negative one. -/
theorem alignedCapacity_negative :
    alignedCapacity (some ⟨2 ^ 63 - 1, 0⟩) = .ok (-(2 ^ 63 - 4096)) ∧
      (∀ n, ¬Fits (2 ^ 63 - 1) 0 n) ∧
      ¬Picks (2 ^ 63 - 1) 0 (alignedCapacity (some ⟨2 ^ 63 - 1, 0⟩)) := by
  have hanswer : alignedCapacity (some ⟨2 ^ 63 - 1, 0⟩) = .ok (-(2 ^ 63 - 4096)) := rfl
  refine ⟨hanswer, ?_, ?_⟩
  · intro n hn
    have h1 := hn.aligned
    have h2 := hn.int64
    have h3 := hn.required
    omega
  · intro h
    have hpos := (h.fits _ hanswer).positive
    omega

end Fileblock.Controller
