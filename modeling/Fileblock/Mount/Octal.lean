import Fileblock.Go.Bytes

/-! The octal escapes of mountinfo, and the loop that undoes them. -/
namespace Fileblock.Mount
open Go

def backslash : UInt8 := 92

/-- The loop of `unescapeOctal`: the byte to read next and what has been written. An escape
that is cut off or not a byte is copied. -/
def unescapeFrom (s : Bytes) : (fuel i : ℕ) → (b : Bytes) → Except Fault Bytes
  | 0, i, b => if i < s.length then .error .running else .ok b
  | fuel + 1, i, b =>
    if i < s.length then do
      let c ← byteAt s i
      if c = backslash ∧ i + 4 ≤ s.length then
        let digits ← slice s (i + 1) (i + 4)
        match parseUint digits 8 8 with
        | some v => unescapeFrom s fuel (i + 4) (b ++ [UInt8.ofNat v])
        | none => unescapeFrom s fuel (i + 1) (b ++ [c])
      else unescapeFrom s fuel (i + 1) (b ++ [c])
    else .ok b

def unescapeOctal (s : Bytes) : Except Fault Bytes :=
  if backslash ∈ s then unescapeFrom s s.length 0 [] else .ok s

/-- A backslash and the three octal digits of a byte. -/
def octal (b : UInt8) : Bytes := [backslash, 48 + b / 64, 48 + b / 8 % 8, 48 + b % 8]

/-- A string with every byte of `E` written in octal. -/
def escape (E : Finset UInt8) (s : Bytes) : Bytes :=
  s.flatMap fun b => if b ∈ E then octal b else [b]

theorem parseUint_octal (b : UInt8) :
    parseUint [48 + b / 64, 48 + b / 8 % 8, 48 + b % 8] 8 8 = some b.toNat := by
  revert b
  decide +kernel

section Loop
variable {s t u b : Bytes} {c : UInt8} {i fuel : ℕ} {E : Finset UInt8}

theorem unescapeFrom_cons (h : s.drop i = c :: t) :
    unescapeFrom s (fuel + 1) i b =
      if c = backslash ∧ 3 ≤ t.length then
        match parseUint (t.take 3) 8 8 with
        | some v => unescapeFrom s fuel (i + 4) (b ++ [UInt8.ofNat v])
        | none => unescapeFrom s fuel (i + 1) (b ++ [c])
      else unescapeFrom s fuel (i + 1) (b ++ [c]) := by
  have hlen : s.length - i = t.length + 1 := by
    rw [← List.length_drop, h, List.length_cons]
  have hguard : i + 4 ≤ s.length ↔ 3 ≤ t.length := by omega
  have htail : s.drop (i + 1) = t := by
    rw [← List.drop_drop, h, List.drop_one, List.tail_cons]
  conv_lhs => unfold unescapeFrom
  rw [if_pos (by omega), byteAt_of_drop h]
  simp only [hguard]
  by_cases hesc : c = backslash ∧ 3 ≤ t.length
  · have hslice : slice s (i + 1) (i + 4) = .ok (t.take 3) := by
      rw [slice_of_le (by omega) (by omega), htail]
      congr 2
      omega
    simp only [bind, Except.bind, if_pos hesc, hslice]
  · simp only [bind, Except.bind, if_neg hesc]

theorem unescapeFrom_nil (h : s.drop i = []) : unescapeFrom s fuel i b = .ok b := by
  have hlen : ¬i < s.length := by
    have hle := List.drop_eq_nil_iff.mp h
    omega
  cases fuel with
  | zero => exact if_neg hlen
  | succ fuel => exact if_neg hlen

/-- The loop ends, reads inside the string only, and writes at most what it has read. -/
theorem unescapeFrom_ends (hfuel : s.length ≤ i + fuel) :
    ∃ out, unescapeFrom s fuel i b = .ok (b ++ out) ∧ out.length ≤ s.length - i := by
  induction fuel generalizing i b with
  | zero =>
    refine ⟨[], ?_, Nat.zero_le _⟩
    rw [List.append_nil]
    exact unescapeFrom_nil (List.drop_eq_nil_iff.mpr hfuel)
  | succ fuel ih =>
    cases h : s.drop i with
    | nil =>
      refine ⟨[], ?_, Nat.zero_le _⟩
      rw [List.append_nil]
      exact unescapeFrom_nil h
    | cons c t =>
      have hlen : s.length - i = t.length + 1 := by
        rw [← List.length_drop, h, List.length_cons]
      have hnext : ∀ k d, 1 ≤ k → k ≤ t.length + 1 → ∃ out,
          unescapeFrom s fuel (i + k) (b ++ [d]) = .ok (b ++ out) ∧ out.length ≤ s.length - i := by
        intro k d hk hkt
        obtain ⟨out, hout, hle⟩ := ih (i := i + k) (b := b ++ [d]) (by omega)
        refine ⟨d :: out, ?_, ?_⟩
        · rw [hout, List.append_assoc, List.singleton_append]
        · rw [List.length_cons]
          omega
      rw [unescapeFrom_cons h]
      split_ifs with hesc
      · cases parseUint (t.take 3) 8 8 with
        | some v => exact hnext 4 _ (by omega) (by omega)
        | none => exact hnext 1 _ le_rfl (by omega)
      · exact hnext 1 _ le_rfl (by omega)

theorem unescapeFrom_escape (hE : backslash ∈ E) (h : s.drop i = escape E u)
    (hfuel : s.length ≤ i + fuel) : unescapeFrom s fuel i b = .ok (b ++ u) := by
  induction u generalizing i b fuel with
  | nil =>
    rw [List.append_nil]
    exact unescapeFrom_nil h
  | cons c u ih =>
    have hne : s.drop i ≠ [] := by
      rw [h, escape, List.flatMap_cons]
      split_ifs <;> simp [octal]
    obtain ⟨fuel, rfl⟩ : ∃ k, fuel = k + 1 := by
      have hlt : i < s.length := by
        by_contra hge
        exact hne (List.drop_eq_nil_iff.mpr (by omega))
      exact ⟨fuel - 1, by omega⟩
    by_cases hc : c ∈ E
    · have hcons : s.drop i =
          backslash :: ([48 + c / 64, 48 + c / 8 % 8, 48 + c % 8] ++ escape E u) := by
        rw [h, escape, List.flatMap_cons, if_pos hc]
        rfl
      have hdigits : ([48 + c / 64, 48 + c / 8 % 8, 48 + c % 8] ++ escape E u).take 3 =
          [48 + c / 64, 48 + c / 8 % 8, 48 + c % 8] := rfl
      have hrest : s.drop (i + 4) = escape E u := by
        rw [← List.drop_drop, hcons]
        rfl
      rw [unescapeFrom_cons hcons, if_pos ⟨rfl, by simp⟩, hdigits, parseUint_octal]
      dsimp only
      rw [UInt8.ofNat_toNat, ih hrest (by omega), List.append_assoc, List.singleton_append]
    · have hcons : s.drop i = c :: escape E u := by
        rw [h, escape, List.flatMap_cons, if_neg hc]
        rfl
      have hrest : s.drop (i + 1) = escape E u := by
        rw [← List.drop_drop, hcons]
        rfl
      have hback : ¬(c = backslash ∧ 3 ≤ (escape E u).length) := by
        rintro ⟨rfl, -⟩
        exact hc hE
      rw [unescapeFrom_cons hcons, if_neg hback, ih hrest (by omega), List.append_assoc,
        List.singleton_append]

end Loop

theorem unescapeOctal_escape {E : Finset UInt8} (hE : backslash ∈ E) (s : Bytes) :
    unescapeOctal (escape E s) = .ok s := by
  unfold unescapeOctal
  by_cases hmem : backslash ∈ escape E s
  · rw [if_pos hmem]
    exact unescapeFrom_escape hE rfl (by omega)
  · -- nothing was escaped
    have hnone : ∀ c ∈ s, c ∉ E := by
      intro c hc hcE
      apply hmem
      apply List.mem_flatMap.mpr
      refine ⟨c, hc, ?_⟩
      rw [if_pos hcE]
      exact List.mem_cons_self
    have hsame : escape E s = s := by
      unfold escape
      rw [List.flatMap_congr fun c hc => if_neg (hnone c hc)]
      exact List.flatMap_singleton' s
    rw [if_neg hmem, hsame]

/-- `unescapeOctal` undoes octal escaping, and on any string it ends without reading outside
and gives one that is no longer. -/
theorem unescapeOctal_undoes :
    (∀ (E : Finset UInt8) (s : Bytes), backslash ∈ E → unescapeOctal (escape E s) = .ok s) ∧
      ∀ t : Bytes, ∃ out, unescapeOctal t = .ok out ∧ out.length ≤ t.length := by
  constructor
  · intro E s hE
    exact unescapeOctal_escape hE s
  · intro t
    unfold unescapeOctal
    split_ifs with hmem
    · exact unescapeFrom_ends (by omega)
    · exact ⟨t, rfl, le_rfl⟩

theorem unescapeOctal_undoes_space :
    backslash ∈ ({32, backslash} : Finset UInt8) ∧
      escape {32, backslash} [97, 32, 92, 48] = [97, 92, 48, 52, 48, 92, 49, 51, 52, 48] ∧
      unescapeOctal (escape {32, backslash} [97, 32, 92, 48]) = .ok [97, 32, 92, 48] :=
  ⟨by decide, by decide, unescapeOctal_undoes.1 {32, backslash} [97, 32, 92, 48] (by decide)⟩

end Fileblock.Mount
