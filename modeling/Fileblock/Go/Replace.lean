import Fileblock.Go.Fields
import Fileblock.Go.Join

/-! Replacement in a text of separated pieces, and cleaning of a relative path. -/
namespace Go
variable {s old new : Str} {sep : Char}

theorem replaceAllFrom_of_skip : ∀ {k : ℕ} {s : Str}, s.length ≤ k → replaceAllFrom old new k s = []
  | _, [], _ => by simp [replaceAllFrom]
  | 0, _ :: _, h => by simp at h
  | k + 1, _ :: s, h => by
    have hs : s.length ≤ k := by simpa using h
    simpa [replaceAllFrom] using replaceAllFrom_of_skip hs

theorem replaceAll_self (hold : old ≠ []) : replaceAll old old new = new := by
  unfold replaceAll
  cases old with
  | nil => exact absurd rfl hold
  | cons c t =>
    have hrest : replaceAllFrom (c :: t) new t.length t = [] := replaceAllFrom_of_skip le_rfl
    simp [replaceAllFrom, hrest]

/-- A text with an occurrence comes to hold the replacement. -/
theorem infix_replaceAll (hold : old ≠ []) (h : old <:+: s) : new <:+: replaceAll s old new := by
  unfold replaceAll
  induction s with
  | nil => exact absurd (List.infix_nil.mp h) hold
  | cons c t ih =>
    by_cases hp : old <+: c :: t
    · have hp' : old.isPrefixOf (c :: t) = true := List.isPrefixOf_iff_prefix.mpr hp
      simp only [replaceAllFrom, hp', if_true]
      exact (List.prefix_append _ _).isInfix
    · have hp' : ¬ old.isPrefixOf (c :: t) = true := fun h => hp (List.isPrefixOf_iff_prefix.mp h)
      simp only [replaceAllFrom, hp']
      have ht : old <:+: t := (List.infix_cons_iff.mp h).resolve_left hp
      exact (ih ht).trans (List.suffix_cons _ _).isInfix

/-- An occurrence of a text without the separator lies before it. -/
theorem prefix_append_sep_iff {e t : Str} (hsep : sep ∉ old) :
    old <+: e ++ sep :: t ↔ old <+: e := by
  constructor
  · intro h
    induction e generalizing old with
    | nil =>
      cases old with
      | nil => exact List.nil_prefix
      | cons c o =>
        have hc : c = sep := (List.cons_prefix_cons.mp h).1
        exact absurd (hc ▸ List.mem_cons_self) hsep
    | cons d e ih =>
      cases old with
      | nil => exact List.nil_prefix
      | cons c o =>
        obtain ⟨hc, ho⟩ := List.cons_prefix_cons.mp h
        have ho' : sep ∉ o := fun hm => hsep (List.mem_cons_of_mem _ hm)
        exact List.cons_prefix_cons.mpr ⟨hc, ih ho' ho⟩
  · intro h
    exact h.trans (List.prefix_append _ _)

/-- Replacement goes piece by piece. -/
theorem replaceAllFrom_append_sep (hold : old ≠ []) (hsep : sep ∉ old) {k : ℕ} {e t : Str}
    (hk : k ≤ e.length) : replaceAllFrom old new k (e ++ sep :: t) =
      replaceAllFrom old new k e ++ sep :: replaceAllFrom old new 0 t := by
  induction e generalizing k with
  | nil =>
    have hk0 : k = 0 := by simpa using hk
    subst hk0
    have hp : ¬ old.isPrefixOf (sep :: t) = true := by
      intro h
      have hnil : old <+: [] := (prefix_append_sep_iff (e := []) hsep).mp
        (List.isPrefixOf_iff_prefix.mp h)
      exact hold (List.prefix_nil.mp hnil)
    simp [replaceAllFrom, hp]
  | cons c e ih =>
    cases k with
    | succ k =>
      have hk' : k ≤ e.length := by simpa using hk
      simpa [replaceAllFrom] using ih hk'
    | zero =>
      by_cases hp : old <+: c :: e
      · have hlen : old.length - 1 ≤ e.length := by
          have := hp.length_le
          rw [List.length_cons] at this
          omega
        have hp' : old <+: c :: e ++ sep :: t := (prefix_append_sep_iff hsep).mpr hp
        rw [List.cons_append] at hp' ⊢
        simp only [replaceAllFrom, List.isPrefixOf_iff_prefix.mpr hp,
          List.isPrefixOf_iff_prefix.mpr hp', if_true, ih hlen, List.append_assoc]
      · have hp' : ¬ old <+: c :: e ++ sep :: t := fun h => hp ((prefix_append_sep_iff hsep).mp h)
        rw [List.cons_append] at hp' ⊢
        rw [replaceAllFrom, if_neg (by simpa using hp'), ih (Nat.zero_le _), replaceAllFrom,
          if_neg (by simpa using hp)]
        rfl

theorem notMem_replaceAllFrom (hnew : sep ∉ new) {k : ℕ} (hs : sep ∉ s) :
    sep ∉ replaceAllFrom old new k s := by
  induction s generalizing k with
  | nil => simp [replaceAllFrom]
  | cons c s ih =>
    have hc : sep ≠ c := fun h => hs (h ▸ List.mem_cons_self)
    have hs' : sep ∉ s := fun h => hs (List.mem_cons_of_mem _ h)
    cases k with
    | succ k => exact ih hs'
    | zero =>
      rw [replaceAllFrom]
      split_ifs
      · intro h
        rcases List.mem_append.mp h with h | h
        · exact hnew h
        · exact ih hs' h
      · intro h
        rcases List.mem_cons.mp h with h | h
        · exact hc h
        · exact ih hs' h

theorem split_replaceAll (hold : old ≠ []) (hsep : sep ∉ old) (hnew : sep ∉ new) (s : Str) :
    split (replaceAll s old new) sep = (split s sep).map (replaceAll · old new) := by
  induction hn : s.length using Nat.strong_induction_on generalizing s with
  | _ n ih =>
    by_cases hs : sep ∈ s
    · obtain ⟨e, t, rfl, he⟩ := List.eq_append_cons_of_mem hs
      have ht : t.length < n := by
        rw [← hn, List.length_append, List.length_cons]
        omega
      have hrepl : replaceAll (e ++ sep :: t) old new =
          replaceAll e old new ++ sep :: replaceAll t old new :=
        replaceAllFrom_append_sep hold hsep (Nat.zero_le _)
      have hfirst : sep ∉ replaceAll e old new := notMem_replaceAllFrom hnew he
      rw [hrepl, split_append, split_append, ih _ ht t rfl, List.map_append, split_of_notMem he,
        split_of_notMem hfirst]
      rfl
    · have hs' : sep ∉ replaceAll s old new := notMem_replaceAllFrom hnew hs
      rw [split_of_notMem hs, split_of_notMem hs']
      rfl

theorem mem_split_of_mem {s : Str} (sep : Char) {c : Char} (h : c ∈ s) :
    c = sep ∨ ∃ e ∈ split s sep, c ∈ e := by
  unfold split
  induction s with
  | nil => cases h
  | cons d s ih =>
    rw [List.splitOn_cons_eq_if_modifyHead]
    by_cases hd : d = sep
    · rw [if_pos (by simpa using hd)]
      rcases List.mem_cons.mp h with rfl | h
      · exact Or.inl hd
      · rcases ih h with hc | ⟨e, he, hc⟩
        · exact Or.inl hc
        · exact Or.inr ⟨e, List.mem_cons_of_mem _ he, hc⟩
    · rw [if_neg (by simpa using hd)]
      obtain ⟨x, xs, hx⟩ := List.exists_cons_of_ne_nil (List.splitOn_ne_nil sep s)
      rw [hx, List.modifyHead_cons]
      rcases List.mem_cons.mp h with rfl | h
      · exact Or.inr ⟨c :: x, List.mem_cons_self, List.mem_cons_self⟩
      · rcases ih h with hc | ⟨e, he, hc⟩
        · exact Or.inl hc
        · rw [hx] at he
          rcases List.mem_cons.mp he with rfl | he
          · exact Or.inr ⟨d :: e, List.mem_cons_self, List.mem_cons_of_mem _ hc⟩
          · exact Or.inr ⟨e, List.mem_cons_of_mem _ he, hc⟩

/-- The elements that `Clean` keeps of a path without "..". -/
def elems (p : Str) : List Str := (split p '/').filter fun e => e ≠ [] ∧ e ≠ ['.']

theorem foldl_cleanStep_noDots (rooted : Bool) {es : List Str} (h : ['.', '.'] ∉ es)
    (stack : List Str) : es.foldl (cleanStep rooted) stack =
      (es.filter fun e => e ≠ [] ∧ e ≠ ['.']).reverse ++ stack := by
  induction es generalizing stack with
  | nil => rfl
  | cons e es ih =>
    have he : e ≠ ['.', '.'] := fun he => h (he ▸ List.mem_cons_self)
    have hes : ['.', '.'] ∉ es := fun hm => h (List.mem_cons_of_mem _ hm)
    rw [List.foldl_cons, ih hes]
    by_cases hskip : e = [] ∨ e = ['.']
    · have hfilter : ¬ (e ≠ [] ∧ e ≠ ['.']) := by
        rw [not_and_or, not_not, not_not]
        exact hskip
      have hstep : cleanStep rooted stack e = stack := if_pos hskip
      rw [hstep, List.filter_cons_of_neg (by simpa using hfilter)]
    · have hfilter : e ≠ [] ∧ e ≠ ['.'] := not_or.mp hskip
      have hstep : cleanStep rooted stack e = e :: stack := by
        unfold cleanStep
        rw [if_neg hskip, if_neg he]
      rw [hstep, List.filter_cons_of_pos (by simpa using hfilter), List.reverse_cons,
        List.append_assoc]
      rfl

theorem clean_of_relative {p : Str} (hrel : isAbs p = false) (hdots : ['.', '.'] ∉ split p '/')
    (hne : elems p ≠ []) : clean p = ['/'].intercalate (elems p) := by
  have hkept : kept p = (elems p).reverse := by
    unfold kept
    rw [foldl_cleanStep_noDots _ hdots, List.append_nil]
    rfl
  have hkept' : kept p ≠ [] := by
    rw [hkept]
    exact List.reverse_ne_nil_iff.mpr hne
  rw [clean_eq_fromElems hkept', hkept, List.reverse_reverse, fromElems, hrel]
  rfl

theorem clean_of_elems_nil {p : Str} (hrel : isAbs p = false) (hdots : ['.', '.'] ∉ split p '/')
    (hnil : elems p = []) : clean p = ['.'] := by
  have hkept : (split p '/').foldl (cleanStep (isAbs p)) [] = [] := by
    rw [foldl_cleanStep_noDots _ hdots, List.append_nil]
    exact List.reverse_eq_nil_iff.mpr hnil
  unfold clean
  rw [hkept, hrel]
  rfl

end Go
