import Fileblock.Store.Identity

/-! `canonicalOptions` as a canonical form of the options: its loop over the array it filters,
and what reading the result back gives. -/
namespace Fileblock.Store
open Go

section InPlace

/-- The loop of `canonicalOptions`: `n` items are left to range over, the first of them at `i`,
and `k` have been kept, at the start of the same array. -/
def cleanFrom : (n i k : ℕ) → (array : List Str) → List Str
  | 0, _, k, array => array.take k
  | n + 1, i, k, array =>
    let p := trimSpace (array.getD i [])
    if p = [] then cleanFrom n (i + 1) k array
    else cleanFrom n (i + 1) (k + 1) (array.set k p)

def cleanInPlace (parts : List Str) : List Str := cleanFrom parts.length 0 0 parts

/-- What is kept never passes what is read, so every item is read as it was. -/
theorem cleanFrom_eq {n i k : ℕ} {array : List Str} (hk : k ≤ i) (hn : array.length = i + n) :
    cleanFrom n i k array =
      array.take k ++ ((array.drop i).map trimSpace).filter (· ≠ []) := by
  induction n generalizing i k array with
  | zero =>
    have hdrop : array.drop i = [] := List.drop_eq_nil_iff.mpr (by omega)
    rw [hdrop]
    exact (List.append_nil _).symm
  | succ n ih =>
    have hi : i < array.length := by omega
    have hget : array.getD i [] = array[i] := List.getD_eq_getElem _ _ hi
    have hdrop : array.drop i = array[i] :: array.drop (i + 1) := List.drop_eq_getElem_cons hi
    unfold cleanFrom
    dsimp only
    rw [hget, hdrop, List.map_cons]
    by_cases hp : trimSpace array[i] = []
    · rw [if_pos hp, ih (by omega) (by omega), List.filter_cons_of_neg (by simpa using hp)]
    · have htake : (array.set k (trimSpace array[i])).take (k + 1) =
          array.take k ++ [trimSpace array[i]] := by
        rw [List.take_succ_eq_append_getElem (by rw [List.length_set]; omega), List.getElem_set_self,
          List.take_set_of_le le_rfl]
      have hrest : (array.set k (trimSpace array[i])).drop (i + 1) = array.drop (i + 1) :=
        List.drop_set_of_lt (by omega)
      rw [if_neg hp, ih (by omega) (by rw [List.length_set]; omega), htake, hrest,
        List.filter_cons_of_pos (by simpa using hp), List.append_assoc, List.singleton_append]

theorem cleanInPlace_split (opts : Str) : cleanInPlace (split opts ',') = cleanOptions opts := by
  unfold cleanInPlace
  rw [cleanFrom_eq le_rfl (by omega)]
  rfl

end InPlace

section ReadBack

theorem trimSpace_trimSpace (s : Str) : trimSpace (trimSpace s) = trimSpace s := by
  unfold trimSpace
  generalize hx : s.dropWhile isSpace = x
  -- what is left of `x` starts as `x` does, and `x` does not start with a space
  have hhead : (x.rdropWhile isSpace).dropWhile isSpace = x.rdropWhile isSpace := by
    rw [List.dropWhile_eq_self_iff]
    intro hlen
    have hpre : x.rdropWhile isSpace <+: x := List.rdropWhile_prefix _ _
    have hxlen : 0 < x.length := lt_of_lt_of_le hlen hpre.length_le
    rw [hpre.getElem hlen]
    subst hx
    exact List.dropWhile_get_zero_not _ _ hxlen
  rw [hhead, List.rdropWhile_idempotent]

theorem trimSpace_of_mem_cleanOptions {opts o : Str} (h : o ∈ cleanOptions opts) :
    trimSpace o = o := by
  obtain ⟨hm, -⟩ := List.mem_filter.mp h
  obtain ⟨p, -, rfl⟩ := List.mem_map.mp hm
  exact trimSpace_trimSpace p

theorem cleanOptions_intercalate {l : List Str} (hne : ∀ o ∈ l, o ≠ []) (hcomma : ∀ o ∈ l, ',' ∉ o)
    (htrim : ∀ o ∈ l, trimSpace o = o) : cleanOptions ([','].intercalate l) = l := by
  cases l with
  | nil => rfl
  | cons o l =>
    have hsplit : split ([','].intercalate (o :: l)) ',' = o :: l :=
      List.splitOn_intercalate ',' hcomma (List.cons_ne_nil _ _)
    have hmap : (o :: l).map trimSpace = o :: l := by
      rw [List.map_congr_left htrim]
      exact List.map_id' _
    unfold cleanOptions
    rw [hsplit, hmap, List.filter_eq_self]
    intro x hx
    simpa using hne x hx

theorem cleanOptions_canonicalOptions (opts : Str) :
    cleanOptions (canonicalOptions opts) =
      (cleanOptions opts).mergeSort fun a b => decide (a ≤ b) := by
  have hmem : ∀ o ∈ (cleanOptions opts).mergeSort (fun a b => decide (a ≤ b)),
      o ∈ cleanOptions opts := fun o ho => (List.mergeSort_perm _ _).mem_iff.mp ho
  change cleanOptions ([','].intercalate ((cleanOptions opts).mergeSort _)) = _
  apply cleanOptions_intercalate
  · intro o ho
    exact (mem_cleanOptions (hmem o ho)).1
  · intro o ho
    exact (mem_cleanOptions (hmem o ho)).2
  · intro o ho
    exact trimSpace_of_mem_cleanOptions (hmem o ho)

end ReadBack

/-- `canonicalOptions` tells exactly the multisets of options apart, is its own canonical
form, and is sorted; its loop filters the array in place as if it were a copy. -/
theorem canonicalOptions_complete :
    (∀ a b : Str, canonicalOptions a = canonicalOptions b ↔
      (cleanOptions a : Multiset Str) = (cleanOptions b : Multiset Str)) ∧
    (∀ a : Str, canonicalOptions (canonicalOptions a) = canonicalOptions a) ∧
    (∀ a : Str, (cleanOptions (canonicalOptions a)).Pairwise (· ≤ ·)) ∧
    (∀ a : Str, cleanInPlace (split a ',') = cleanOptions a ∧ canonicalOptions a =
      [','].intercalate ((cleanInPlace (split a ',')).mergeSort fun a b => decide (a ≤ b))) := by
  refine ⟨canonicalOptions_eq_iff, ?_, ?_, ?_⟩
  · intro a
    apply (canonicalOptions_eq_iff _ _).mpr
    rw [cleanOptions_canonicalOptions, Multiset.coe_eq_coe]
    exact List.mergeSort_perm _ _
  · intro a
    rw [cleanOptions_canonicalOptions]
    exact pairwise_mergeSort _
  · intro a
    rw [cleanInPlace_split]
    exact ⟨rfl, rfl⟩

end Fileblock.Store
