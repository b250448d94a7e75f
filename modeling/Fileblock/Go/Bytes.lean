import Fileblock.Go.Strings

/-! Go strings as bytes: reading at an index, numbers, and the runes that `strings.Fields`
splits at. -/
namespace Go

abbrev Bytes := List UInt8

/-- What a loop over a string can run into: a read outside of it, or no end. -/
inductive Fault where
  | bounds
  | running
  deriving DecidableEq

/-- `s[i]`. -/
def byteAt (s : Bytes) (i : ℕ) : Except Fault UInt8 :=
  match s[i]? with
  | some b => .ok b
  | none => .error .bounds

/-- `s[i:j]`. -/
def slice (s : Bytes) (i j : ℕ) : Except Fault Bytes :=
  if i ≤ j ∧ j ≤ s.length then .ok ((s.drop i).take (j - i)) else .error .bounds

/-- The digit that a byte is to `strconv`. -/
def digitOf (c : UInt8) : Option ℕ :=
  if 48 ≤ c ∧ c ≤ 57 then some (c.toNat - 48)
  else if 97 ≤ c ||| 32 ∧ c ||| 32 ≤ 122 then some ((c ||| 32).toNat - 87)
  else none

/-- `strconv.ParseUint` for an explicit base; `none` is an error. -/
def parseUint (s : Bytes) (base bitSize : ℕ) : Option ℕ :=
  if s = [] then none
  else s.foldlM (fun n c => do
    let d ← digitOf c
    if d < base ∧ n * base + d < 2 ^ bitSize then some (n * base + d) else none) 0

section Slices
variable {s : Bytes} {i j : ℕ}

theorem byteAt_of_drop {b : UInt8} {t : Bytes} (h : s.drop i = b :: t) : byteAt s i = .ok b := by
  have hget : s[i]? = some b := by
    rw [← List.head?_drop, h]
    rfl
  unfold byteAt
  rw [hget]

theorem slice_of_le (hij : i ≤ j) (hj : j ≤ s.length) :
    slice s i j = .ok ((s.drop i).take (j - i)) :=
  if_pos ⟨hij, hj⟩

end Slices
end Go
