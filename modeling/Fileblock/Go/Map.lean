import Fileblock.Go.Strings

/-! Go maps: what they hold under a key, and the order they are ranged over in. -/
namespace Go

/-- A Go map from strings. -/
abbrev StrMap (β : Type) := AList fun _ : Str => β

/-- A Go map is ranged over in any order. -/
def anyOrder {α : Type} (l : List α) (pick : ℕ) : List α :=
  (l.permutations[pick % l.permutations.length]?).getD l

theorem anyOrder_perm {α : Type} (l : List α) (pick : ℕ) : (anyOrder l pick).Perm l := by
  unfold anyOrder
  cases h : l.permutations[pick % l.permutations.length]? with
  | none => exact List.Perm.refl l
  | some l' => exact List.mem_permutations.mp (List.mem_of_getElem? h)

namespace StrMap
variable {α β : Type}

/-- Drop the entries whose value satisfies `f`. -/
def dropWhere (f : β → Bool) (s : StrMap β) : StrMap β :=
  ⟨s.entries.filter fun e => !f e.2, s.nodupKeys.sublist List.filter_sublist⟩

theorem lookup_dropWhere (f : β → Bool) (s : StrMap β) (a : Str) :
    (s.dropWhere f).lookup a = (s.lookup a).filter fun b => !f b := by
  ext b
  rw [Option.filter_eq_some_iff, ← Option.mem_def, ← Option.mem_def, AList.mem_lookup_iff,
    AList.mem_lookup_iff]
  exact List.mem_filter

/-- Change every value. -/
def mapValues {γ : Type} (f : β → γ) (s : StrMap β) : StrMap γ :=
  ⟨s.entries.map fun e => ⟨e.1, f e.2⟩, by
    have hk : (s.entries.map fun e => (⟨e.1, f e.2⟩ : Sigma fun _ : Str => γ)).keys =
        s.entries.keys := by simp [List.keys]
    unfold List.NodupKeys
    rw [hk]
    exact s.nodupKeys⟩

theorem lookup_mapValues {γ : Type} (f : β → γ) (s : StrMap β) (a : Str) :
    (s.mapValues f).lookup a = (s.lookup a).map f := by
  ext c
  rw [Option.map_eq_some_iff, ← Option.mem_def, AList.mem_lookup_iff]
  simp only [← Option.mem_def, AList.mem_lookup_iff]
  unfold mapValues
  rw [List.mem_map]
  constructor
  · rintro ⟨⟨a', b⟩, he, h⟩
    obtain ⟨rfl, rfl⟩ : a' = a ∧ f b = c := by simpa using h
    exact ⟨b, he, rfl⟩
  · rintro ⟨b, hb, rfl⟩
    exact ⟨⟨a, b⟩, hb, rfl⟩

/-- The values of a map, in the order of its entries. -/
def values (s : StrMap β) : List β := s.entries.map (·.2)

theorem mem_values (s : StrMap β) (b : β) : b ∈ s.values ↔ ∃ a, s.lookup a = some b := by
  unfold values
  rw [List.mem_map]
  constructor
  · rintro ⟨⟨a, b⟩, he, rfl⟩
    exact ⟨a, AList.mem_lookup_iff.mpr he⟩
  · rintro ⟨a, ha⟩
    exact ⟨⟨a, b⟩, AList.mem_lookup_iff.mp ha, rfl⟩

/-- A map filled from a list: a later element replaces an earlier one with its key. -/
def fill (key : α → Str) (val : α → β) (l : List α) : StrMap β :=
  l.foldl (fun m a => m.insert (key a) (val a)) ∅

theorem lookup_fill (key : α → Str) (val : α → β) (l : List α) (k : Str) :
    (fill key val l).lookup k = ((l.filter (key · = k)).getLast?).map val := by
  induction l using List.reverseRecOn with
  | nil => rfl
  | append_singleton l a ih =>
    unfold fill at ih ⊢
    rw [List.foldl_append, List.foldl_cons, List.foldl_nil, List.filter_append]
    by_cases hk : key a = k
    · simp [hk]
    · rw [AList.lookup_insert_ne (Ne.symm hk), ih]
      simp [hk]

theorem mem_keys_fill (key : α → Str) (val : α → β) (l : List α) (k : Str) :
    k ∈ (fill key val l).keys ↔ ∃ a ∈ l, key a = k := by
  rw [← AList.mem_keys, ← AList.lookup_isSome, lookup_fill, Option.isSome_map, List.getLast?_isSome]
  simp

end StrMap
end Go
