import Fileblock.Go.Strings

/-! Texts made of fields: joined at a separator, split again, sorted, searched. -/
namespace Go

theorem mem_of_mem_trimSpace {s : Str} {c : Char} (h : c ∈ trimSpace s) : c ∈ s :=
  (List.dropWhile_sublist _).subset ((List.rdropWhile_prefix _ _).subset h)

theorem append_sep_inj {sep : Char} {a a' b b' : Str} (h : a ++ sep :: b = a' ++ sep :: b')
    (hc : a.count sep = a'.count sep) : a = a' ∧ b = b' := by
  induction a generalizing a' with
  | nil =>
    cases a' with
    | nil => simpa using h
    | cons x a' =>
      obtain ⟨rfl, -⟩ := List.cons.inj h
      simp at hc
  | cons x a ih =>
    cases a' with
    | nil =>
      obtain ⟨rfl, -⟩ := List.cons.inj h
      simp at hc
    | cons y a' =>
      obtain ⟨rfl, ht⟩ := List.cons.inj h
      rw [List.count_cons, List.count_cons] at hc
      obtain ⟨rfl, rfl⟩ := ih ht (Nat.add_right_cancel hc)
      exact ⟨rfl, rfl⟩

/-- Joined fields can be told apart once the separators inside each are counted. -/
theorem intercalate_inj {sep : Char} {l l' : List Str}
    (h : [sep].intercalate l = [sep].intercalate l')
    (hc : l.map (List.count sep) = l'.map (List.count sep)) : l = l' := by
  induction l generalizing l' with
  | nil => simpa using hc.symm
  | cons e l ih =>
    cases l' with
    | nil => simp at hc
    | cons e' l' =>
      obtain ⟨he, ht⟩ := List.cons.inj hc
      cases l with
      | nil =>
        cases l' with
        | nil => simpa using h
        | cons => simp at ht
      | cons d l =>
        cases l' with
        | nil => simp at ht
        | cons d' l' =>
          rw [List.intercalate_cons_cons, List.intercalate_cons_cons, List.append_assoc,
            List.append_assoc] at h
          obtain ⟨rfl, hr⟩ := append_sep_inj h he
          rw [ih hr ht]

theorem filter_split_intercalate {sep : Char} {l : List Str} (hn : ∀ e ∈ l, e ≠ [])
    (hs : ∀ e ∈ l, sep ∉ e) : (split ([sep].intercalate l) sep).filter (· ≠ []) = l := by
  cases l with
  | nil => simp [split]
  | cons e l =>
    unfold split
    rw [List.splitOn_intercalate sep hs (List.cons_ne_nil _ _), List.filter_eq_self]
    intro x hx
    simpa using hn x hx

theorem pairwise_mergeSort (l : List Str) :
    (l.mergeSort fun a b => decide (a ≤ b)).Pairwise (· ≤ ·) := by
  have htrans : ∀ a b c : Str, decide (a ≤ b) = true → decide (b ≤ c) = true →
      decide (a ≤ c) = true := by
    intro a b c hab hbc
    simp only [decide_eq_true_eq] at *
    exact le_trans hab hbc
  simpa using List.pairwise_mergeSort htrans (fun a b => by simpa using le_total a b) l

theorem mergeSort_eq_of_perm {l l' : List Str} (h : l.Perm l') :
    l.mergeSort (fun a b => decide (a ≤ b)) = l'.mergeSort (fun a b => decide (a ≤ b)) := by
  apply List.Perm.eq_of_pairwise (fun a b _ _ => le_antisymm) (pairwise_mergeSort l)
    (pairwise_mergeSort l')
  exact (List.mergeSort_perm _ _).trans (h.trans (List.mergeSort_perm _ _).symm)

theorem index_eq_none_iff (s t : Str) : index s t = none ↔ ¬ t <:+: s := by
  unfold index
  rw [List.findIdx?_eq_none_iff]
  constructor
  · intro h hi
    obtain ⟨u, hu, hs⟩ := List.infix_iff_prefix_suffix.mp hi
    have hno := h u ((List.mem_tails _ _).mpr hs)
    rw [List.isPrefixOf_iff_prefix.mpr hu] at hno
    cases hno
  · intro h u hu
    by_contra hp
    refine h (List.infix_iff_prefix_suffix.mpr ⟨u, ?_, (List.mem_tails _ _).mp hu⟩)
    simpa using hp

theorem replaceAll_eq_self {s old : Str} (new : Str) (h : ¬ old <:+: s) :
    replaceAll s old new = s := by
  unfold replaceAll
  induction s with
  | nil => rfl
  | cons c s ih =>
    have hp : ¬ old <+: c :: s := fun hp => h hp.isInfix
    have hi : ¬ old <:+: s := fun hi => h (List.infix_cons hi)
    rw [replaceAllFrom, if_neg (by simpa using hp), ih hi]

theorem infix_intercalate_of_mem {sep e : Str} {l : List Str} (he : e ∈ l) :
    e <:+: sep.intercalate l := by
  induction l with
  | nil => simp at he
  | cons d l ih =>
    cases l with
    | nil =>
      obtain rfl : e = d := by simpa using he
      simp
    | cons d' l =>
      rw [List.intercalate_cons_cons]
      rcases List.mem_cons.mp he with rfl | he
      · rw [List.append_assoc]
        exact (List.prefix_append _ _).isInfix
      · exact (ih he).trans (List.suffix_append _ _).isInfix

theorem infix_of_mem_split {s e : Str} {sep : Char} (he : e ∈ split s sep) : e <:+: s := by
  have h := @infix_intercalate_of_mem [sep] _ _ he
  unfold split at h
  rwa [List.intercalate_splitOn] at h

/-- A text without the separator lies within one of the joined fields. -/
theorem infix_of_infix_intercalate {t : Str} {sep : Char} (ht : t ≠ []) (hs : sep ∉ t)
    {l : List Str} (h : t <:+: [sep].intercalate l) : ∃ e ∈ l, t <:+: e := by
  induction l with
  | nil => exact absurd (by simpa using h) ht
  | cons e l ih =>
    cases l with
    | nil => exact ⟨e, by simp, by simpa using h⟩
    | cons e' l =>
      have hhead : ∀ u rest : Str, u ≠ [] → u <+: sep :: rest → sep ∈ u := by
        rintro (_ | ⟨c, u⟩) rest hu hp
        · exact absurd rfl hu
        · simp [(List.cons_prefix_cons.mp hp).1]
      rw [List.intercalate_cons_cons, List.append_assoc, List.singleton_append,
        List.infix_append_iff_ne_nil, List.infix_cons_iff] at h
      rcases h with h | (h | h) | ⟨u, v, -, hv, rfl, -, hp⟩
      · exact ⟨e, by simp, h⟩
      · exact absurd (hhead _ _ ht h) hs
      · obtain ⟨d, hd, hi⟩ := ih h
        exact ⟨d, List.mem_cons_of_mem _ hd, hi⟩
      · exact absurd (List.mem_append_right _ (hhead _ _ hv hp)) hs

end Go
