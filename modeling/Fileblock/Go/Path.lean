import Fileblock.Go.Strings

/-! Go's `path` and `path/filepath` on Unix: `Clean`, `Join` and `Base`, and what
they do to paths whose elements are all proper names. -/
namespace Go

def isAbs (p : Str) : Bool := hasPrefix p "/"

/-- `Clean` on the next element; `stack` holds the elements kept so far, last first. -/
def cleanStep (rooted : Bool) (stack : List Str) (elem : Str) : List Str :=
  if elem = [] ∨ elem = ['.'] then stack
  else if elem = ['.', '.'] then
    match stack with
    | [] => if rooted then [] else [elem]
    | top :: rest => if top = ['.', '.'] then elem :: stack else rest
  else elem :: stack

def clean (p : Str) : Str :=
  let body := ['/'].intercalate ((split p '/').foldl (cleanStep (isAbs p)) []).reverse
  if isAbs p then '/' :: body else if body = [] then ['.'] else body

/-- `Join` of two elements; leading empty elements are ignored. -/
def join (a b : Str) : Str :=
  if a = [] then if b = [] then [] else clean b else clean (a ++ '/' :: b)

def base (p : Str) : Str :=
  if p = [] then ['.']
  else
    let last := (p.rdropWhile (· = '/')).rtakeWhile (· ≠ '/')
    if last = [] then ['/'] else last

/-- A name that stands for itself in a path. -/
structure Proper (e : Str) : Prop where
  ne_nil : e ≠ []
  ne_dot : e ≠ ['.']
  ne_dots : e ≠ ['.', '.']
  noSlash : '/' ∉ e

/-- The absolute path of the given elements. -/
def absPath (es : List Str) : Str := es.flatMap fun e => '/' :: e

@[simp] theorem absPath_nil : absPath [] = [] := rfl

@[simp] theorem absPath_cons (e : Str) (es : List Str) :
    absPath (e :: es) = '/' :: (e ++ absPath es) := by
  simp [absPath]

@[simp] theorem absPath_append (es es' : List Str) :
    absPath (es ++ es') = absPath es ++ absPath es' := by
  simp [absPath]

theorem intercalate_slash (e : Str) (es : List Str) :
    ['/'].intercalate (e :: es) = e ++ absPath es := by
  induction es generalizing e with
  | nil => simp [absPath]
  | cons e' es ih =>
    rw [List.intercalate_cons_cons, ih, absPath_cons]
    simp

theorem split_absPath {es : List Str} (h : ∀ e ∈ es, Proper e) :
    split (absPath es) '/' = [] :: es := by
  rw [← List.nil_append (absPath es), ← intercalate_slash]
  refine List.splitOn_intercalate '/' ?_ (List.cons_ne_nil _ _)
  intro e he
  rcases List.mem_cons.mp he with rfl | he
  · simp
  · exact (h e he).noSlash

theorem foldl_cleanStep {rooted : Bool} {es : List Str} (h : ∀ e ∈ es, Proper e)
    (stack : List Str) : es.foldl (cleanStep rooted) stack = es.reverse ++ stack := by
  induction es generalizing stack with
  | nil => rfl
  | cons e es ih =>
    have he := h e List.mem_cons_self
    have hs : cleanStep rooted stack e = e :: stack := by
      simp [cleanStep, he.ne_nil, he.ne_dot, he.ne_dots]
    rw [List.foldl_cons, hs, ih fun x hx => h x (List.mem_cons_of_mem _ hx)]
    simp

theorem clean_absPath {es : List Str} (h : ∀ e ∈ es, Proper e) (hn : es ≠ []) :
    clean (absPath es) = absPath es := by
  obtain ⟨e, es, rfl⟩ := List.exists_cons_of_ne_nil hn
  have ha : isAbs (absPath (e :: es)) = true := by simp [isAbs]
  have hf : (split (absPath (e :: es)) '/').foldl (cleanStep true) [] = (e :: es).reverse := by
    rw [split_absPath h, List.foldl_cons]
    have h0 : cleanStep true [] [] = [] := by simp [cleanStep]
    rw [h0, foldl_cleanStep h, List.append_nil]
  unfold clean
  rw [ha, hf, List.reverse_reverse, intercalate_slash]
  simp

/-- `Join` puts proper elements one below the other. -/
theorem join_absPath {es fs : List Str} (he : ∀ e ∈ es, Proper e) (hf : ∀ e ∈ fs, Proper e)
    (hne : es ≠ []) (hnf : fs ≠ []) :
    join (absPath es) (['/'].intercalate fs) = absPath (es ++ fs) := by
  obtain ⟨f, fs, rfl⟩ := List.exists_cons_of_ne_nil hnf
  have hn : absPath es ≠ [] := by
    obtain ⟨e, es, rfl⟩ := List.exists_cons_of_ne_nil hne
    simp
  have hc : absPath es ++ '/' :: ['/'].intercalate (f :: fs) = absPath (es ++ f :: fs) := by
    rw [intercalate_slash, absPath_append, absPath_cons]
  unfold join
  rw [if_neg hn, hc, clean_absPath _ (by simp)]
  intro e hm
  rcases List.mem_append.mp hm with hm | hm
  · exact he e hm
  · exact hf e hm

theorem mem_cleanStep {rooted : Bool} {stack : List Str} {e x : Str}
    (h : x ∈ cleanStep rooted stack e) : x = e ∨ x ∈ stack := by
  unfold cleanStep at h
  cases stack with
  | nil =>
    dsimp only at h
    split_ifs at h
    · cases h
    · cases h
    · exact Or.inl (List.mem_singleton.mp h)
    · exact Or.inl (List.mem_singleton.mp h)
  | cons top rest =>
    dsimp only at h
    split_ifs at h
    · exact Or.inr h
    · exact List.mem_cons.mp h
    · exact Or.inr (List.mem_cons_of_mem _ h)
    · exact List.mem_cons.mp h

theorem mem_foldl_cleanStep {rooted : Bool} {es stack : List Str} {x : Str}
    (h : x ∈ es.foldl (cleanStep rooted) stack) : x ∈ es ∨ x ∈ stack := by
  induction es generalizing stack with
  | nil => exact Or.inr h
  | cons e es ih =>
    rcases ih h with h | h
    · exact Or.inl (List.mem_cons_of_mem _ h)
    · rcases mem_cleanStep h with rfl | h
      · exact Or.inl List.mem_cons_self
      · exact Or.inr h

/-- `Clean` brings in nothing but slashes and dots. -/
theorem mem_clean {c : Char} {p : Str} (h : c ∈ clean p) : c ∈ p ∨ c = '/' ∨ c = '.' := by
  have hp : ['/'].intercalate (split p '/') = p := List.intercalate_splitOn '/'
  have hbody : c ∈ ['/'].intercalate ((split p '/').foldl (cleanStep (isAbs p)) []).reverse →
      c ∈ p ∨ c = '/' ∨ c = '.' := by
    intro hc
    rcases mem_intercalate hc with hc | ⟨e, he, hc⟩
    · exact Or.inr (Or.inl hc)
    · rcases mem_foldl_cleanStep (List.mem_reverse.mp he) with he | he
      · left
        rw [← hp]
        exact mem_intercalate_of_mem he hc
      · cases he
  unfold clean at h
  dsimp only at h
  split_ifs at h
  · rcases List.mem_cons.mp h with h | h
    · exact Or.inr (Or.inl h)
    · exact hbody h
  · exact Or.inr (Or.inr (List.mem_singleton.mp h))
  · exact hbody h

theorem mem_join {c : Char} {a b : Str} (h : c ∈ join a b) :
    c ∈ a ∨ c ∈ b ∨ c = '/' ∨ c = '.' := by
  unfold join at h
  split_ifs at h
  · cases h
  · exact Or.inr (mem_clean h)
  · rcases mem_clean h with h | h
    · rcases List.mem_append.mp h with h | h
      · exact Or.inl h
      · rcases List.mem_cons.mp h with h | h
        · exact Or.inr (Or.inr (Or.inl h))
        · exact Or.inr (Or.inl h)
    · exact Or.inr (Or.inr h)

theorem rdropWhile_ne_slash (p : Str) {e : Str} (hs : '/' ∉ e) :
    (p ++ '/' :: e).rdropWhile (· ≠ '/') = p ++ ['/'] := by
  have hall : ∀ c ∈ e.reverse, decide (c ≠ '/') = true := by
    intro c hc
    simp only [decide_eq_true_eq]
    rintro rfl
    exact hs (List.mem_reverse.mp hc)
  unfold List.rdropWhile
  rw [List.reverse_append, List.reverse_cons, List.append_assoc,
    List.dropWhile_append_of_pos hall]
  simp

theorem base_of_append (p : Str) {e : Str} (hn : e ≠ []) (hs : '/' ∉ e) :
    base (p ++ '/' :: e) = e := by
  have hne : p ++ '/' :: e ≠ [] := by simp
  have hlast : (p ++ '/' :: e).rdropWhile (· = '/') = p ++ '/' :: e := by
    rw [List.rdropWhile_eq_self_iff]
    intro hl
    rw [List.getLast_append_of_ne_nil hl (by simp), List.getLast_cons hn]
    have hm := List.getLast_mem hn
    simp only [decide_eq_true_eq]
    intro h
    exact hs (h ▸ hm)
  have htake : (p ++ '/' :: e).rtakeWhile (· ≠ '/') = e := by
    unfold List.rtakeWhile
    have hall : ∀ c ∈ e.reverse, decide (c ≠ '/') = true := by
      intro c hc
      simp only [decide_eq_true_eq]
      rintro rfl
      exact hs (List.mem_reverse.mp hc)
    rw [List.reverse_append, List.reverse_cons, List.append_assoc,
      List.takeWhile_append_of_pos hall]
    simp
  unfold base
  rw [if_neg hne, hlast, htake, if_neg hn]

end Go
