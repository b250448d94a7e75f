import Fileblock.Go.Path

/-! `Join` below any directory, clean or not: proper names are put below it one after
the other, and what is put there can be told apart again. -/
namespace Go

theorem split_append (s t : Str) (sep : Char) : split (s ++ sep :: t) sep = split s sep ++ split t sep := by
  unfold split
  induction s with
  | nil => simp [List.splitOn_cons_eq_if_modifyHead]
  | cons c s ih =>
    rw [List.cons_append, List.splitOn_cons_eq_if_modifyHead, List.splitOn_cons_eq_if_modifyHead, ih]
    split_ifs
    · rfl
    · obtain ⟨x, xs, hx⟩ := List.exists_cons_of_ne_nil (List.splitOn_ne_nil sep s)
      simp [hx]

theorem split_of_notMem {s : Str} {sep : Char} (h : sep ∉ s) : split s sep = [s] := by
  have hone : ∀ e ∈ [s], sep ∉ e := by simpa using h
  simpa [split] using List.splitOn_intercalate sep hone (by simp)

/-- A stack of elements that `Clean` leaves as it is. -/
structure Settled (rooted : Bool) (stack : List Str) : Prop where
  refold : stack.reverse.foldl (cleanStep rooted) [] = stack
  plain : ∀ e ∈ stack, e ≠ [] ∧ e ≠ ['.'] ∧ '/' ∉ e

theorem Settled.nil (rooted : Bool) : Settled rooted [] := ⟨rfl, by simp⟩

theorem Settled.push {rooted : Bool} {stack : List Str} {e : Str} (h : Settled rooted stack)
    (he : e ≠ [] ∧ e ≠ ['.'] ∧ '/' ∉ e) (hs : cleanStep rooted stack e = e :: stack) :
    Settled rooted (e :: stack) := by
  constructor
  · rw [List.reverse_cons, List.foldl_append, h.refold]
    exact hs
  · intro x hx
    rcases List.mem_cons.mp hx with rfl | hx
    · exact he
    · exact h.plain x hx

theorem Settled.pop {rooted : Bool} {stack : List Str} {top : Str}
    (h : Settled rooted (top :: stack)) (ht : top ≠ ['.', '.']) : Settled rooted stack := by
  obtain ⟨hne, hdot, -⟩ := h.plain top List.mem_cons_self
  constructor
  · have hr := h.refold
    rw [List.reverse_cons, List.foldl_append] at hr
    simpa [cleanStep, hne, hdot, ht] using hr
  · exact fun e he => h.plain e (List.mem_cons_of_mem _ he)

theorem Settled.cleanStep {rooted : Bool} {stack : List Str} (h : Settled rooted stack) {e : Str}
    (he : '/' ∉ e) : Settled rooted (cleanStep rooted stack e) := by
  by_cases hskip : e = [] ∨ e = ['.']
  · simpa [Go.cleanStep, hskip] using h
  · obtain ⟨hne, hdot⟩ := not_or.mp hskip
    by_cases hdots : e = ['.', '.']
    · subst hdots
      cases stack with
      | nil =>
        cases rooted with
        | true => exact Settled.nil true
        | false => exact (Settled.nil false).push ⟨by simp, by simp, he⟩ rfl
      | cons top rest =>
        by_cases htop : top = ['.', '.']
        · have hs : Go.cleanStep rooted (top :: rest) ['.', '.'] = ['.', '.'] :: top :: rest := by
            simp [Go.cleanStep, htop]
          rw [hs]
          exact h.push ⟨by simp, by simp, he⟩ hs
        · have hs : Go.cleanStep rooted (top :: rest) ['.', '.'] = rest := by
            simp [Go.cleanStep, htop]
          rw [hs]
          exact h.pop htop
    · have hs : Go.cleanStep rooted stack e = e :: stack := by
        simp [Go.cleanStep, hskip, hdots]
      rw [hs]
      exact h.push ⟨hne, hdot, he⟩ hs

theorem Settled.foldl {rooted : Bool} {es stack : List Str} (h : Settled rooted stack)
    (hes : ∀ e ∈ es, '/' ∉ e) : Settled rooted (es.foldl (Go.cleanStep rooted) stack) := by
  induction es generalizing stack with
  | nil => exact h
  | cons e es ih =>
    exact ih (h.cleanStep (hes e List.mem_cons_self)) fun x hx => hes x (List.mem_cons_of_mem _ hx)

/-- A path by its elements: from the root or not, and not empty. -/
def fromElems (rooted : Bool) (es : List Str) : Str :=
  if rooted then '/' :: ['/'].intercalate es else ['/'].intercalate es

theorem intercalate_append {es fs : List Str} (he : es ≠ []) (hf : fs ≠ []) (sep : Str) :
    sep.intercalate (es ++ fs) = sep.intercalate es ++ sep ++ sep.intercalate fs := by
  obtain ⟨f, fs, rfl⟩ := List.exists_cons_of_ne_nil hf
  induction es with
  | nil => exact absurd rfl he
  | cons e es ih =>
    cases es with
    | nil => simp [List.intercalate_cons_cons]
    | cons e' es =>
      rw [List.cons_append, List.cons_append, List.intercalate_cons_cons, ← List.cons_append,
        ih (List.cons_ne_nil _ _), List.intercalate_cons_cons]
      simp

theorem fromElems_append (rooted : Bool) {es fs : List Str} (he : es ≠ []) (hf : fs ≠ []) :
    fromElems rooted (es ++ fs) = fromElems rooted es ++ '/' :: ['/'].intercalate fs := by
  unfold fromElems
  cases rooted <;> simp [intercalate_append he hf]

theorem isAbs_append {p : Str} (hp : p ≠ []) (s : Str) : isAbs (p ++ s) = isAbs p := by
  obtain ⟨c, p, rfl⟩ := List.exists_cons_of_ne_nil hp
  simp [isAbs, hasPrefix, List.isPrefixOf]

theorem intercalate_ne_nil {e : Str} (he : e ≠ []) (es : List Str) :
    ['/'].intercalate (e :: es) ≠ [] := by
  rw [intercalate_slash]
  simp [he]

/-- The elements `Clean` keeps of a path, last first. -/
def kept (p : Str) : List Str := (split p '/').foldl (cleanStep (isAbs p)) []

theorem settled_kept (p : Str) : Settled (isAbs p) (kept p) :=
  (Settled.nil _).foldl fun _ he => not_mem_of_mem_split he

theorem clean_eq_fromElems {p : Str} (hp : kept p ≠ []) :
    clean p = fromElems (isAbs p) (kept p).reverse := by
  have hset := settled_kept p
  have hbody : ['/'].intercalate (kept p).reverse ≠ [] := by
    obtain ⟨e, es, hes⟩ := List.exists_cons_of_ne_nil (List.reverse_ne_nil_iff.mpr hp)
    have he : e ∈ kept p := List.mem_reverse.mp (hes ▸ List.mem_cons_self)
    rw [hes]
    exact intercalate_ne_nil (hset.plain e he).1 es
  unfold clean fromElems
  rw [← kept]
  simp only [if_neg hbody]

theorem kept_append {p : Str} (hp : p ≠ []) {fs : List Str} (hf : ∀ e ∈ fs, Proper e)
    (hn : fs ≠ []) : kept (p ++ '/' :: ['/'].intercalate fs) = fs.reverse ++ kept p := by
  have hsplit : split (['/'].intercalate fs) '/' = fs :=
    List.splitOn_intercalate '/' (fun e he => (hf e he).noSlash) hn
  unfold kept
  rw [isAbs_append hp, split_append, hsplit, List.foldl_append, foldl_cleanStep hf]

/-- What `Join` makes of a directory and a path of proper names. -/
theorem join_eq {p : Str} (hp : p ≠ []) {fs : List Str} (hf : ∀ e ∈ fs, Proper e) (hn : fs ≠ []) :
    join p (['/'].intercalate fs) = fromElems (isAbs p) ((kept p).reverse ++ fs) := by
  have hk := kept_append hp hf hn
  unfold join
  rw [if_neg hp, clean_eq_fromElems (by simp [hk, hn]), isAbs_append hp, hk]
  simp

theorem isAbs_fromElems (rooted : Bool) {e : Str} (he : e ≠ []) (hs : '/' ∉ e) (es : List Str) :
    isAbs (fromElems rooted (e :: es)) = rooted := by
  cases rooted with
  | true => simp [fromElems, isAbs]
  | false =>
    obtain ⟨c, e, rfl⟩ := List.exists_cons_of_ne_nil he
    have hc : '/' ≠ c := fun hc => hs (hc ▸ List.mem_cons_self)
    simp [fromElems, isAbs, hasPrefix, intercalate_slash, List.isPrefixOf, hc]

theorem kept_fromElems {rooted : Bool} {stack : List Str} (h : Settled rooted stack)
    (hn : stack ≠ []) : isAbs (fromElems rooted stack.reverse) = rooted ∧
      kept (fromElems rooted stack.reverse) = stack := by
  obtain ⟨e, es, hes⟩ := List.exists_cons_of_ne_nil (List.reverse_ne_nil_iff.mpr hn)
  have hplain : ∀ x ∈ e :: es, x ≠ [] ∧ x ≠ ['.'] ∧ '/' ∉ x := by
    intro x hx
    exact h.plain x (List.mem_reverse.mp (hes ▸ hx))
  have he := hplain e List.mem_cons_self
  have habs := isAbs_fromElems rooted he.1 he.2.2 es
  have hsplit : split (['/'].intercalate (e :: es)) '/' = e :: es :=
    List.splitOn_intercalate '/' (fun x hx => (hplain x hx).2.2) (List.cons_ne_nil _ _)
  have hfold := h.refold
  rw [hes] at hfold ⊢
  refine ⟨habs, ?_⟩
  unfold kept
  rw [habs]
  cases rooted with
  | false => simpa [fromElems, hsplit] using hfold
  | true =>
    have hroot : split ('/' :: ['/'].intercalate (e :: es)) '/' = [] :: e :: es := by
      have h := split_append [] (['/'].intercalate (e :: es)) '/'
      rw [hsplit] at h
      simpa [split] using h
    simpa [fromElems, hroot, cleanStep] using hfold

/-- What stands before a name that is put below a directory. -/
def dirPrefix (root : Str) : Str :=
  if root = [] then []
  else (if isAbs root then ['/'] else []) ++
    (if kept root = [] then [] else ['/'].intercalate (kept root).reverse ++ ['/'])

theorem fromElems_concat (rooted : Bool) (es : List Str) (e : Str) :
    fromElems rooted (es ++ [e]) = (if rooted then ['/'] else []) ++
      (if es = [] then [] else ['/'].intercalate es ++ ['/']) ++ e := by
  by_cases hn : es = []
  · cases rooted <;> simp [hn, fromElems]
  · cases rooted <;> simp [hn, fromElems, intercalate_append hn (List.cons_ne_nil e [])]

theorem clean_proper {e : Str} (he : Proper e) : clean e = e := by
  have hrel : isAbs e = false := by
    have := isAbs_fromElems false he.ne_nil he.noSlash []
    simpa [fromElems] using this
  have hk : kept e = [e] := by
    unfold kept
    rw [split_of_notMem he.noSlash]
    simp [cleanStep, he.ne_nil, he.ne_dot, he.ne_dots]
  rw [clean_eq_fromElems (by simp [hk]), hk, hrel]
  simp [fromElems]

theorem join_proper (root : Str) {e : Str} (he : Proper e) : join root e = dirPrefix root ++ e := by
  unfold dirPrefix
  by_cases hr : root = []
  · simp [join, hr, he.ne_nil, clean_proper he]
  · have h := @join_eq root hr [e] (by simpa using he) (by simp)
    rw [List.intercalate_singleton] at h
    rw [h, if_neg hr, fromElems_concat]
    simp

/-- A path below a directory below `root` is written after it. -/
theorem join_join (root : Str) {e : Str} (he : Proper e) {fs : List Str} (hf : ∀ x ∈ fs, Proper x)
    (hn : fs ≠ []) : join (join root e) (['/'].intercalate fs) =
      join root e ++ '/' :: ['/'].intercalate fs := by
  have hset : ∃ rooted stack, Settled rooted (e :: stack) ∧
      join root e = fromElems rooted (e :: stack).reverse := by
    by_cases hr : root = []
    · refine ⟨false, [], ?_, ?_⟩
      · refine (Settled.nil false).push ⟨he.ne_nil, he.ne_dot, he.noSlash⟩ ?_
        simp [cleanStep, he.ne_nil, he.ne_dot, he.ne_dots]
      · simp [join, hr, he.ne_nil, clean_proper he, fromElems]
    · refine ⟨isAbs root, kept root, ?_, ?_⟩
      · refine (settled_kept root).push ⟨he.ne_nil, he.ne_dot, he.noSlash⟩ ?_
        simp [cleanStep, he.ne_nil, he.ne_dot, he.ne_dots]
      · have h := @join_eq root hr [e] (by simpa using he) (by simp)
        rw [List.intercalate_singleton] at h
        rw [h, List.reverse_cons]
  obtain ⟨rooted, stack, hset, heq⟩ := hset
  obtain ⟨habs, hk⟩ := kept_fromElems hset (List.cons_ne_nil _ _)
  have hne : fromElems rooted (e :: stack).reverse ≠ [] := by
    intro h0
    rw [h0] at hk
    simp [kept, split, cleanStep] at hk
  rw [heq, join_eq hne hf hn, habs, hk, fromElems_append rooted (by simp) hn]

end Go
