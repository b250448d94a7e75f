import Fileblock.Store.Context
import Fileblock.Store.Isolation

/-! Which subDirs are accepted, and the one form that every directory below the export has. -/
namespace Fileblock.Store
open Go

/-- What `resolveSubDir` refuses, once the templates have been replaced. -/
def Refused (s : Str) : Prop :=
  templateStart <:+: s ∨ Char.ofNat 0 ∈ s ∨ ['/'] <+: s ∨ ['.', '.'] ∈ split s '/' ∨
    ∀ e ∈ split s '/', e = [] ∨ e = ['.']

/-- One step of a walk through directories. -/
def walk (dir : List Str) (e : Str) : List Str :=
  if e = [] ∨ e = ['.'] then dir else if e = ['.', '.'] then dir.dropLast else dir ++ [e]

/-- The directory below the export that a relative path leads to. -/
def directory (s : Str) : List Str := (split s '/').foldl walk []

section Checks
variable {raw s : Str} {params : Params}

theorem elems_eq_nil_iff (s : Str) : elems s = [] ↔ ∀ e ∈ split s '/', e = [] ∨ e = ['.'] := by
  unfold elems
  rw [List.filter_eq_nil_iff]
  apply forall₂_congr
  intro e _
  rw [decide_eq_true_eq, not_and_or, not_not, not_not]

theorem isAbs_eq_false_iff (s : Str) : isAbs s = false ↔ ¬['/'] <+: s := by
  rw [← Bool.not_eq_true, isAbs, hasPrefix_iff]
  rfl

theorem resolveSubDir_eq (hraw : raw ≠ []) :
    resolveSubDir raw params =
      match unresolvedTemplate (resolved params raw) with
      | some (token, renamed) => .error (.unresolved token renamed)
      | none =>
        if Char.ofNat 0 ∈ resolved params raw then .error .nul
        else if isAbs (resolved params raw) then .error (.absolute (resolved params raw))
        else if ['.', '.'] ∈ split (resolved params raw) '/' then
          .error (.traversal (resolved params raw))
        else if clean (resolved params raw) = ['.'] then .error (.exportRoot (resolved params raw))
        else .ok (clean (resolved params raw)) :=
  if_neg hraw

theorem resolveSubDir_refused (hraw : raw ≠ []) (h : Refused (resolved params raw)) :
    ∃ e, resolveSubDir raw params = .error e := by
  rw [resolveSubDir_eq hraw]
  cases ht : unresolvedTemplate (resolved params raw) with
  | some t => exact ⟨_, rfl⟩
  | none =>
    have htemplate := (unresolvedTemplate_eq_none_iff _).mp ht
    dsimp only
    split_ifs with hnul habs hdots hroot
    · exact ⟨_, rfl⟩
    · exact ⟨_, rfl⟩
    · exact ⟨_, rfl⟩
    · exact ⟨_, rfl⟩
    · have hrel : isAbs (resolved params raw) = false := by simpa using habs
      rcases h with h | h | h | h | h
      · exact absurd h htemplate
      · exact absurd h hnul
      · exact absurd h ((isAbs_eq_false_iff _).mp hrel)
      · exact absurd h hdots
      · exact absurd (clean_of_elems_nil hrel hdots ((elems_eq_nil_iff _).mpr h)) hroot

theorem resolveSubDir_accepted (hraw : raw ≠ []) (h : ¬Refused (resolved params raw)) :
    resolveSubDir raw params = .ok (['/'].intercalate (elems (resolved params raw))) := by
  unfold Refused at h
  rw [not_or, not_or, not_or, not_or] at h
  obtain ⟨htemplate, hnul, habs, hdots, hroot⟩ := h
  have hrel := (isAbs_eq_false_iff _).mpr habs
  have hne : elems (resolved params raw) ≠ [] := fun hnil => hroot ((elems_eq_nil_iff _).mp hnil)
  have hclean := clean_of_relative hrel hdots hne
  have hdot : clean (resolved params raw) ≠ ['.'] := by
    intro hdot
    -- the only element would be "."
    have hsplit := split_intercalate_elems hne
    rw [← hclean, hdot] at hsplit
    have hmem : ['.'] ∈ elems (resolved params raw) := by
      rw [← hsplit]
      decide
    have hkept : ['.'] ≠ [] ∧ ['.'] ≠ ['.'] := by simpa [elems] using List.of_mem_filter hmem
    exact hkept.2 rfl
  rw [resolveSubDir_eq hraw, (unresolvedTemplate_eq_none_iff _).mpr htemplate]
  dsimp only
  rw [if_neg hnul, if_neg (by simp [hrel]), if_neg hdots, if_neg hdot, hclean]

theorem resolveSubDir_error_iff (raw : Str) (params : Params) :
    (∃ e, resolveSubDir raw params = .error e) ↔ raw ≠ [] ∧ Refused (resolved params raw) := by
  constructor
  · rintro ⟨e, he⟩
    have hraw : raw ≠ [] := by
      rintro rfl
      cases he
    refine ⟨hraw, ?_⟩
    by_contra h
    rw [resolveSubDir_accepted hraw h] at he
    cases he
  · rintro ⟨hraw, h⟩
    exact resolveSubDir_refused hraw h

end Checks

section Directory
variable {raw raw' sub sub' s : Str} {params params' : Params}

theorem foldl_walk {es : List Str} (h : ['.', '.'] ∉ es) (dir : List Str) :
    es.foldl walk dir = dir ++ es.filter fun e => e ≠ [] ∧ e ≠ ['.'] := by
  induction es generalizing dir with
  | nil => exact (List.append_nil _).symm
  | cons e es ih =>
    have he : e ≠ ['.', '.'] := fun he => h (he ▸ List.mem_cons_self)
    have hes : ['.', '.'] ∉ es := fun hm => h (List.mem_cons_of_mem _ hm)
    rw [List.foldl_cons, ih hes]
    by_cases hskip : e = [] ∨ e = ['.']
    · have hfilter : ¬(e ≠ [] ∧ e ≠ ['.']) := by
        rw [not_and_or, not_not, not_not]
        exact hskip
      have hstep : walk dir e = dir := if_pos hskip
      rw [hstep, List.filter_cons_of_neg (by simpa using hfilter)]
    · have hstep : walk dir e = dir ++ [e] := by
        unfold walk
        rw [if_neg hskip, if_neg he]
      rw [hstep, List.filter_cons_of_pos (by simpa using not_or.mp hskip), List.append_assoc,
        List.singleton_append]

theorem resolved_nil (params : Params) : resolved params [] = [] := by
  have hnil : ∀ template key, substitute params [] template key = [] := by
    intro template key
    unfold substitute
    split_ifs <;> rfl
  unfold resolved
  rw [hnil, hnil, hnil]

/-- What is accepted is the path of the directory it names. -/
theorem resolveSubDir_directory (h : resolveSubDir raw params = .ok sub) :
    sub = ['/'].intercalate (directory (resolved params raw)) ∧
      ∀ e ∈ directory (resolved params raw), Proper e := by
  by_cases hraw : raw = []
  · subst hraw
    rw [resolved_nil]
    cases h
    exact ⟨rfl, fun e he => absurd he (by simp [directory, walk, split])⟩
  · have hok : ¬Refused (resolved params raw) := by
      intro hr
      obtain ⟨e, he⟩ := resolveSubDir_refused hraw hr
      rw [h] at he
      cases he
    have hdots : ['.', '.'] ∉ split (resolved params raw) '/' :=
      fun hd => hok (Or.inr (Or.inr (Or.inr (Or.inl hd))))
    have hdir : directory (resolved params raw) = elems (resolved params raw) := by
      unfold directory
      rw [foldl_walk hdots, List.nil_append]
      rfl
    rw [hdir]
    constructor
    · exact Except.ok.inj (h.symm.trans (resolveSubDir_accepted hraw hok))
    · intro e he
      obtain ⟨hmem, hkept⟩ := List.mem_filter.mp he
      have hkept' : e ≠ [] ∧ e ≠ ['.'] := by simpa using hkept
      exact ⟨hkept'.1, hkept'.2, fun hd => hdots (hd ▸ hmem), not_mem_of_mem_split hmem⟩

theorem resolveSubDir_eq_iff (h : resolveSubDir raw params = .ok sub)
    (h' : resolveSubDir raw' params' = .ok sub') :
    sub = sub' ↔ directory (resolved params raw) = directory (resolved params' raw') := by
  obtain ⟨rfl, hproper⟩ := resolveSubDir_directory h
  obtain ⟨rfl, hproper'⟩ := resolveSubDir_directory h'
  constructor
  · intro heq
    rw [← filter_split_intercalate (fun e he => (hproper e he).ne_nil)
      fun e he => (hproper e he).noSlash, heq]
    exact filter_split_intercalate (fun e he => (hproper' e he).ne_nil)
      fun e he => (hproper' e he).noSlash
  · intro heq
    rw [heq]

/-- What is accepted is relative, without empty, "." and ".." elements, and accepted again as
it is. -/
theorem resolveSubDir_canonical (h : resolveSubDir raw params = .ok sub) :
    isAbs sub = false ∧ (raw ≠ [] → ∀ e ∈ split sub '/', Proper e) ∧
      ∀ params', resolveSubDir sub params' = .ok sub := by
  by_cases hraw : raw = []
  · subst hraw
    cases h
    exact ⟨rfl, fun hne => absurd rfl hne, fun _ => rfl⟩
  · have hne := resolveSubDir_ne_nil hraw h
    have hres := resolveSubDir_resolved h hne
    refine ⟨hres.relative, ?_, hres.resolve⟩
    intro _ e he
    obtain ⟨rfl, hproper⟩ := resolveSubDir_directory h
    have hdir : directory (resolved params raw) ≠ [] := by
      intro hnil
      rw [hnil] at hne
      exact hne rfl
    rw [(clean_intercalate hproper hdir).2.1] at he
    exact hproper e he

end Directory

/-- `resolveSubDir` accepts exactly the safe relative paths, and gives each directory below
the export one name. -/
theorem resolveSubDir_exact :
    (∀ raw params, (∃ e, resolveSubDir raw params = .error e) ↔
      raw ≠ [] ∧ Refused (resolved params raw)) ∧
    (∀ raw params, raw ≠ [] → ¬Refused (resolved params raw) →
      resolveSubDir raw params = .ok (['/'].intercalate (elems (resolved params raw)))) ∧
    (∀ raw params sub, resolveSubDir raw params = .ok sub →
      isAbs sub = false ∧ (raw ≠ [] → ∀ e ∈ split sub '/', Proper e) ∧
        ∀ params', resolveSubDir sub params' = .ok sub) ∧
    (∀ raw params sub raw' params' sub', resolveSubDir raw params = .ok sub →
      resolveSubDir raw' params' = .ok sub' →
        (sub = sub' ↔ directory (resolved params raw) = directory (resolved params' raw'))) := by
  refine ⟨resolveSubDir_error_iff, ?_, ?_, ?_⟩
  · intro raw params hraw h
    exact resolveSubDir_accepted hraw h
  · intro raw params sub h
    exact resolveSubDir_canonical h
  · intro raw params sub raw' params' sub' h h'
    exact resolveSubDir_eq_iff h h'

/-- Two spellings of one directory. -/
theorem resolveSubDir_exact_spellings :
    resolveSubDir "a//./b" [] = .ok "a/b" ∧ resolveSubDir "a/b/" [] = .ok "a/b" ∧
      directory "a//./b" = directory "a/b/" := by
  have h : resolveSubDir "a//./b" [] = .ok "a/b" := by decide +kernel
  have h' : resolveSubDir "a/b/" [] = .ok "a/b" := by decide +kernel
  exact ⟨h, h', (resolveSubDir_exact.2.2.2 _ _ _ _ _ _ h h').mp rfl⟩

end Fileblock.Store
