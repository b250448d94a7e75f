import Fileblock.Node.Tools

/-! The sector size of a loop device: the largest one that fits the image. -/
namespace Fileblock.Node

section Halving
variable {imageSize k fuel : ℕ}

variable (imageSize) in
/-- The loop stops at the first power that divides the size, at 512 at the latest. -/
theorem halveSector_pow (hk : 9 ≤ k) (hfuel : k ≤ fuel + 9) :
    ∃ j, halveSector imageSize fuel (2 ^ k) = 2 ^ j ∧ 9 ≤ j ∧ j ≤ k ∧
      (j = 9 ∨ 2 ^ j ∣ imageSize) ∧ ∀ i, j < i → i ≤ k → ¬2 ^ i ∣ imageSize := by
  induction fuel generalizing k with
  | zero =>
    obtain rfl : k = 9 := by omega
    refine ⟨9, rfl, le_rfl, le_rfl, Or.inl rfl, ?_⟩
    intro i hlt hle
    omega
  | succ fuel ih =>
    unfold halveSector
    by_cases hgo : 512 < 2 ^ k ∧ imageSize % 2 ^ k ≠ 0
    · have hlt : 9 < k := by
        have h512 : 2 ^ 9 < 2 ^ k := hgo.1
        exact (Nat.pow_lt_pow_iff_right (by decide)).mp h512
      have hhalf : 2 ^ k / 2 = 2 ^ (k - 1) := by
        rw [← Nat.pow_div (by omega) (by decide), Nat.pow_one]
      obtain ⟨j, hj, h9, hle, hstop, hmax⟩ := ih (k := k - 1) (by omega) (by omega)
      rw [if_pos hgo, hhalf]
      refine ⟨j, hj, h9, by omega, hstop, ?_⟩
      intro i hji hik hdvd
      rcases Nat.lt_or_eq_of_le hik with hik | rfl
      · exact hmax i hji (by omega) hdvd
      · exact hgo.2 (Nat.mod_eq_zero_of_dvd hdvd)
    · rw [if_neg hgo]
      refine ⟨k, rfl, hk, le_rfl, ?_, ?_⟩
      · rcases Nat.eq_or_lt_of_le hk with h9 | hlt
        · exact Or.inl h9.symm
        · right
          apply Nat.dvd_of_mod_eq_zero
          by_contra hne
          have h512 : 2 ^ 9 < 2 ^ k := Nat.pow_lt_pow_right (by decide) hlt
          exact hgo ⟨h512, hne⟩
      · intro i hlt hle
        omega

end Halving

/-- The block sizes that an image can record: none, that of an ext4, or that of a LUKS2
header. -/
def Recorded (recorded : ℕ) : Prop :=
  recorded = 0 ∨ (∃ n ≤ 6, recorded = 1024 * 2 ^ n) ∨ recorded ∈ [512, 1024, 2048, 4096]

/-- The bound that what is recorded puts on the sectors. -/
def recordedBound (recorded : ℕ) : ℕ := if recorded = 0 then Crypt.defaultBlockSize else recorded

/-- The largest sector size that a loop device of an image can have. -/
structure Suits (pageSize recorded imageSize s : ℕ) : Prop where
  ended : ¬(512 < s ∧ imageSize % s ≠ 0)
  power : ∃ k, s = 2 ^ k
  least : 512 ≤ s
  page : s ≤ pageSize
  bound : s ≤ recordedBound recorded
  divides : s ∣ imageSize
  largest : ∀ k, 512 ≤ 2 ^ k → 2 ^ k ≤ pageSize → 2 ^ k ≤ recordedBound recorded →
    2 ^ k ∣ imageSize → 2 ^ k ≤ s

theorem Recorded.bound {recorded : ℕ} (h : Recorded recorded) :
    ∃ a, 9 ≤ a ∧ recordedBound recorded = 2 ^ a := by
  rcases h with rfl | ⟨n, -, rfl⟩ | h
  · exact ⟨12, by decide, rfl⟩
  · refine ⟨n + 10, by omega, ?_⟩
    have hpos : 1024 * 2 ^ n ≠ 0 := by positivity
    unfold recordedBound
    rw [if_neg hpos, Nat.pow_add, Nat.mul_comm]
  · fin_cases h
    · exact ⟨9, le_rfl, rfl⟩
    · exact ⟨10, by decide, rfl⟩
    · exact ⟨11, by decide, rfl⟩
    · exact ⟨12, by decide, rfl⟩

/-- `SectorSizeFor` keeps its promises exactly for images of whole 512-byte sectors. -/
theorem sectorSizeFor_suits_iff {pageSize recorded imageSize : ℕ} (hpow : ∃ p, pageSize = 2 ^ p)
    (hpage : 4096 ≤ pageSize) (hrec : Recorded recorded) :
    Suits pageSize recorded imageSize (sectorSizeFor pageSize recorded imageSize) ↔
      512 ∣ imageSize := by
  obtain ⟨page, rfl⟩ := hpow
  obtain ⟨a, ha, hbound⟩ := hrec.bound
  have hp : 12 ≤ page := (Nat.pow_le_pow_iff_right (a := 2) (by decide)).mp hpage
  have hmin : min (2 ^ a) (2 ^ page) = 2 ^ min a page :=
    (Monotone.map_min (pow_right_mono₀ (by decide : 1 ≤ 2))).symm
  have hs : sectorSizeFor (2 ^ page) recorded imageSize =
      halveSector imageSize (2 ^ min a page) (2 ^ min a page) := by
    change halveSector imageSize (min (recordedBound recorded) (2 ^ page))
      (min (recordedBound recorded) (2 ^ page)) = _
    rw [hbound, hmin]
  have hfuel : min a page ≤ 2 ^ min a page + 9 := by
    have hlt := Nat.lt_two_pow_self (n := min a page)
    omega
  obtain ⟨j, hj, h9, hle, hstop, hmax⟩ :=
    halveSector_pow imageSize (k := min a page) (by omega) hfuel
  rw [hs, hj]
  have h512 : 2 ^ 9 ∣ 2 ^ j := Nat.pow_dvd_pow 2 h9
  constructor
  · intro h
    exact h512.trans h.divides
  · intro h
    have hdvd : 2 ^ j ∣ imageSize := by
      rcases hstop with rfl | hdvd
      · exact h
      · exact hdvd
    constructor
    · rintro ⟨-, hne⟩
      exact hne (Nat.mod_eq_zero_of_dvd hdvd)
    · exact ⟨j, rfl⟩
    · exact Nat.le_of_dvd (by positivity) h512
    · exact Nat.pow_le_pow_right (by decide) (by omega)
    · rw [hbound]
      exact Nat.pow_le_pow_right (by decide) (by omega)
    · exact hdvd
    · intro k _ hkp hkb hkd
      rw [hbound] at hkb
      have hka := (Nat.pow_le_pow_iff_right (a := 2) (by decide)).mp hkb
      have hkp' := (Nat.pow_le_pow_iff_right (a := 2) (by decide)).mp hkp
      by_contra hlt
      have hjk : j < k := by
        by_contra hkj
        exact hlt (Nat.pow_le_pow_right (by decide) (by omega))
      exact hmax k hjk (by omega) hkd

/-- An image of 4608 bytes with blocks of 1024 gets sectors of 512. -/
theorem sectorSizeFor_suits_halved :
    Suits 4096 1024 4608 (sectorSizeFor 4096 1024 4608) ∧ sectorSizeFor 4096 1024 4608 = 512 :=
  ⟨(sectorSizeFor_suits_iff ⟨12, rfl⟩ (by decide) (Or.inr (Or.inl ⟨0, by decide, rfl⟩))).mpr
    (by decide), by decide⟩

/-- An image of 1000 bytes gets sectors that do not divide its size. -/
theorem sectorSizeFor_not_dvd :
    Recorded 1024 ∧ sectorSizeFor 4096 1024 1000 = 512 ∧ ¬sectorSizeFor 4096 1024 1000 ∣ 1000 ∧
      ¬Suits 4096 1024 1000 (sectorSizeFor 4096 1024 1000) := by
  have hnot : ¬sectorSizeFor 4096 1024 1000 ∣ 1000 := by decide
  exact ⟨Or.inr (Or.inl ⟨0, by decide, rfl⟩), by decide, hnot, fun h => hnot h.divides⟩

end Fileblock.Node
