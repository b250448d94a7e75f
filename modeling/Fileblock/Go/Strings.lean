import Mathlib

/-! The functions of Go's `strings` package that the driver uses, on strings as
lists of characters. -/
namespace Go

abbrev Str := List Char

instance : Coe String Str := ⟨String.toList⟩

/-- `unicode.IsSpace`. -/
def isSpace (c : Char) : Bool :=
  c.toNat ∈ [0x09, 0x0a, 0x0b, 0x0c, 0x0d, 0x20, 0x85, 0xa0, 0x1680, 0x2028, 0x2029, 0x202f,
    0x205f, 0x3000] || (0x2000 ≤ c.toNat && c.toNat ≤ 0x200a)

def trimSpace (s : Str) : Str := (s.dropWhile isSpace).rdropWhile isSpace

def hasPrefix (s p : Str) : Bool := p.isPrefixOf s

def hasSuffix (s p : Str) : Bool := p.isSuffixOf s

def trimSuffix (s p : Str) : Str := if hasSuffix s p then s.take (s.length - p.length) else s

def contains (s t : Str) : Bool := decide (t <:+: s)

/-- `unicode.ToLower`, as far as it answers with an ASCII letter: the dotted İ and the Kelvin
sign are the only characters from outside ASCII that it takes there. -/
def toLowerChar (c : Char) : Char :=
  if c.toNat = 0x130 then 'i' else if c.toNat = 0x212a then 'k' else c.toLower

def toLower (s : Str) : Str := s.map toLowerChar

/-- What follows the given beginning, if `s` has it. -/
def cutPrefix (s p : Str) : Option Str := if hasPrefix s p then some (s.drop p.length) else none

/-- `strings.Split` at a one-character separator. -/
def split (s : Str) (sep : Char) : List Str := s.splitOn sep

/-- `strings.Index`. -/
def index (s t : Str) : Option ℕ := s.tails.findIdx? (t.isPrefixOf ·)

/-- `strings.ReplaceAll` for a non-empty `old`; `skip` counts the characters of a
match still to pass over. -/
def replaceAllFrom (old new : Str) : ℕ → Str → Str
  | _, [] => []
  | skip + 1, _ :: s => replaceAllFrom old new skip s
  | 0, c :: s =>
    if old.isPrefixOf (c :: s) then new ++ replaceAllFrom old new (old.length - 1) s
    else c :: replaceAllFrom old new 0 s

def replaceAll (s old new : Str) : Str := replaceAllFrom old new 0 s

@[simp] theorem hasPrefix_iff (s p : Str) : hasPrefix s p = true ↔ p <+: s := by
  simp [hasPrefix]

@[simp] theorem hasSuffix_iff (s p : Str) : hasSuffix s p = true ↔ p <:+ s := by
  simp [hasSuffix]

theorem cutPrefix_append (p s : Str) : cutPrefix (p ++ s) p = some s := by
  simp [cutPrefix]

theorem trimSuffix_of_not (s p : Str) (h : ¬ p <:+ s) : trimSuffix s p = s := by
  simp [trimSuffix, h]

theorem trimSpace_append (a s : Str) (ha : ∀ c ∈ a, isSpace c = true) :
    trimSpace (a ++ s) = trimSpace s := by
  unfold trimSpace
  rw [List.dropWhile_append_of_pos ha]

theorem not_mem_of_mem_split {s l : Str} {sep : Char} (hl : l ∈ split s sep) : sep ∉ l := by
  unfold split at hl
  induction s generalizing l with
  | nil =>
    rw [List.splitOn_nil, List.mem_singleton] at hl
    simp [hl]
  | cons c s ih =>
    rw [List.splitOn_cons_eq_if_modifyHead] at hl
    split_ifs at hl with hc
    · rcases List.mem_cons.mp hl with rfl | hl
      · simp
      · exact ih hl
    · obtain ⟨x, xs, hx⟩ := List.exists_cons_of_ne_nil (List.splitOn_ne_nil sep s)
      rw [hx, List.modifyHead_cons] at hl
      have hne : sep ≠ c := fun h => hc (by simp [h])
      rcases List.mem_cons.mp hl with rfl | hl
      · simpa [hne] using ih (hx ▸ List.mem_cons_self)
      · exact ih (hx ▸ List.mem_cons_of_mem _ hl)

theorem mem_intercalate {sep c : Char} {l : List Str} (h : c ∈ [sep].intercalate l) :
    c = sep ∨ ∃ e ∈ l, c ∈ e := by
  cases l with
  | nil => cases h
  | cons e l =>
    induction l generalizing e with
    | nil => exact Or.inr ⟨e, List.mem_singleton_self e, by simpa using h⟩
    | cons e' l ih =>
      rw [List.intercalate_cons_cons, List.append_assoc, List.mem_append, List.mem_append,
        List.mem_singleton] at h
      rcases h with h | h | h
      · exact Or.inr ⟨e, List.mem_cons_self, h⟩
      · exact Or.inl h
      · rcases ih e' h with h | ⟨x, hx, h⟩
        · exact Or.inl h
        · exact Or.inr ⟨x, List.mem_cons_of_mem _ hx, h⟩

theorem mem_intercalate_of_mem {sep c : Char} {l : List Str} {e : Str} (he : e ∈ l) (hc : c ∈ e) :
    c ∈ [sep].intercalate l := by
  induction l with
  | nil => cases he
  | cons e' l ih =>
    cases l with
    | nil =>
      rw [List.intercalate_singleton]
      exact List.mem_singleton.mp he ▸ hc
    | cons e'' l =>
      rw [List.intercalate_cons_cons]
      rcases List.mem_cons.mp he with rfl | he
      · exact List.mem_append_left _ (List.mem_append_left _ hc)
      · exact List.mem_append_right _ (ih he)

end Go
