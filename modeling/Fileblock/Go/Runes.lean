import Fileblock.Go.Bytes

/-! The runes in a string, and `strings.Fields`, which splits at those that are spaces. On
the encoding of a list of characters this is splitting the list. -/
namespace Go

/-- The bytes of a text. -/
def utf8 (s : Str) : Bytes := s.flatMap String.utf8EncodeChar

/-- The rune that a string starts with and its width; what is not UTF-8 is passed over byte
by byte. -/
def decodeRune (s : Bytes) : Option Char × ℕ :=
  match s.toByteArray.utf8DecodeChar? 0 with
  | some c => (some c, c.utf8Size)
  | none => (none, 1)

/-- A word that has ended, unless it is empty. -/
def flush {α : Type} [DecidableEq α] (word : List α) : List (List α) :=
  if word = [] then [] else [word]

/-- The loop of `strings.Fields`, over the runes of what is left. -/
def fieldsFrom : (fuel : ℕ) → (word s : Bytes) → List Bytes
  | 0, word, _ => flush word
  | _ + 1, word, [] => flush word
  | fuel + 1, word, b :: s =>
    let (rune, width) := decodeRune (b :: s)
    if rune.any isSpace then flush word ++ fieldsFrom fuel [] ((b :: s).drop width)
    else fieldsFrom fuel (word ++ (b :: s).take width) ((b :: s).drop width)

def fields (s : Bytes) : List Bytes := fieldsFrom s.length [] s

section Utf8
variable {s t : Str} {c : Char} {b : UInt8}

@[simp] theorem utf8_nil : utf8 [] = [] := rfl

@[simp] theorem utf8_cons (c : Char) (s : Str) :
    utf8 (c :: s) = String.utf8EncodeChar c ++ utf8 s := List.flatMap_cons

@[simp] theorem utf8_append (s t : Str) : utf8 (s ++ t) = utf8 s ++ utf8 t := List.flatMap_append

theorem utf8_eq_nil_iff : utf8 s = [] ↔ s = [] := by
  cases s with
  | nil => simp
  | cons c s => simp [String.utf8EncodeChar_ne_nil]

theorem decodeRune_utf8 (c : Char) (t : Bytes) :
    decodeRune (String.utf8EncodeChar c ++ t) = (some c, (String.utf8EncodeChar c).length) := by
  unfold decodeRune
  rw [List.toByteArray_append, ByteArray.utf8DecodeChar?_utf8EncodeChar_append,
    String.length_utf8EncodeChar]

theorem utf8_injective : Function.Injective utf8 := by
  intro s
  induction s with
  | nil =>
    intro t h
    exact (utf8_eq_nil_iff.mp h.symm).symm
  | cons c s ih =>
    intro t h
    cases t with
    | nil => exact utf8_eq_nil_iff.mp h
    | cons c' t =>
      rw [utf8_cons, utf8_cons] at h
      have hdecode := congrArg decodeRune h
      rw [decodeRune_utf8, decodeRune_utf8] at hdecode
      obtain rfl := Option.some.inj (Prod.mk.inj hdecode).1
      rw [ih (List.append_cancel_left h)]

theorem eq_ofNat_iff {n : ℕ} (hn : n < 256) : b = UInt8.ofNat n ↔ b.toNat = n := by
  rw [← UInt8.toNat_inj, UInt8.toNat_ofNat']
  rw [Nat.mod_eq_of_lt (by simpa using hn)]

/-- An ASCII byte is the encoding of a character of its own, and part of no other. -/
theorem mem_utf8EncodeChar (hb : b.toNat < 128) :
    b ∈ String.utf8EncodeChar c ↔ c.toNat = b.toNat := by
  have hval : c.val.toNat = c.toNat := rfl
  unfold String.utf8EncodeChar
  dsimp only
  rw [hval]
  split_ifs with h1 h2 h3
  · rw [List.mem_singleton, eq_ofNat_iff (by omega)]
    exact eq_comm
  · simp only [List.mem_cons, List.not_mem_nil, or_false]
    rw [eq_ofNat_iff (by omega), eq_ofNat_iff (by omega)]
    omega
  · simp only [List.mem_cons, List.not_mem_nil, or_false]
    rw [eq_ofNat_iff (by omega), eq_ofNat_iff (by omega), eq_ofNat_iff (by omega)]
    omega
  · simp only [List.mem_cons, List.not_mem_nil, or_false]
    rw [eq_ofNat_iff (by omega), eq_ofNat_iff (by omega), eq_ofNat_iff (by omega),
      eq_ofNat_iff (by omega)]
    omega

theorem mem_utf8 (hb : b.toNat < 128) : b ∈ utf8 s ↔ ∃ c ∈ s, c.toNat = b.toNat := by
  unfold utf8
  rw [List.mem_flatMap]
  apply exists_congr
  intro c
  rw [mem_utf8EncodeChar hb]

theorem utf8_intercalate (sep : Char) (l : List Str) :
    utf8 ([sep].intercalate l) = (String.utf8EncodeChar sep).intercalate (l.map utf8) := by
  cases l with
  | nil => rfl
  | cons e l =>
    induction l generalizing e with
    | nil => simp
    | cons e' l ih =>
      have hsep : utf8 [sep] = String.utf8EncodeChar sep := by simp
      have hmap : (e :: e' :: l).map utf8 = utf8 e :: utf8 e' :: l.map utf8 := rfl
      rw [List.intercalate_cons_cons, utf8_append, utf8_append, ih, hmap,
        List.intercalate_cons_cons, hsep]
      rfl

end Utf8

section Words
variable {p : Char → Bool} {word s t : Str} {c : Char}

/-- The words of a text, split where `p` holds. -/
def wordsFrom (p : Char → Bool) : (word s : Str) → List Str
  | word, [] => flush word
  | word, c :: s => if p c then flush word ++ wordsFrom p [] s else wordsFrom p (word ++ [c]) s

def words (p : Char → Bool) (s : Str) : List Str := wordsFrom p [] s

/-- `strings.Fields` on a text that is UTF-8. -/
theorem fieldsFrom_utf8 (word : Str) {fuel : ℕ} (hfuel : (utf8 s).length ≤ fuel) :
    fieldsFrom fuel (utf8 word) (utf8 s) = (wordsFrom isSpace word s).map utf8 := by
  have hflush : ∀ word : Str, flush (utf8 word) = (flush word).map utf8 := by
    intro word
    unfold flush
    by_cases hw : word = []
    · rw [if_pos hw, if_pos (utf8_eq_nil_iff.mpr hw)]
      rfl
    · rw [if_neg hw, if_neg (mt utf8_eq_nil_iff.mp hw)]
      rfl
  induction s generalizing word fuel with
  | nil =>
    cases fuel with
    | zero => exact hflush word
    | succ fuel => exact hflush word
  | cons c s ih =>
    obtain ⟨b, t, hbt⟩ := List.exists_cons_of_ne_nil (String.utf8EncodeChar_ne_nil (c := c))
    rw [utf8_cons, List.length_append] at hfuel
    have hpos : 0 < (String.utf8EncodeChar c).length := by
      rw [hbt]
      exact Nat.succ_pos _
    obtain ⟨fuel, rfl⟩ : ∃ k, fuel = k + 1 := ⟨fuel - 1, by omega⟩
    have hdecode := decodeRune_utf8 c (utf8 s)
    have hcons : utf8 (c :: s) = b :: (t ++ utf8 s) := by
      rw [utf8_cons, hbt]
      rfl
    have hcons' : b :: (t ++ utf8 s) = String.utf8EncodeChar c ++ utf8 s := by
      rw [hbt]
      rfl
    rw [hcons]
    unfold fieldsFrom
    rw [hcons', hdecode]
    dsimp only
    rw [List.drop_left, List.take_left, Option.any_some, wordsFrom]
    by_cases hsp : isSpace c = true
    · rw [if_pos hsp, if_pos hsp, List.map_append, hflush]
      congr 1
      exact ih [] (by omega)
    · have hword : utf8 word ++ String.utf8EncodeChar c = utf8 (word ++ [c]) := by simp
      rw [if_neg hsp, if_neg hsp, hword]
      exact ih _ (by omega)

theorem fields_utf8 (s : Str) : fields (utf8 s) = (words isSpace s).map utf8 :=
  fieldsFrom_utf8 [] le_rfl

/-- What is passed over between two words. -/
theorem wordsFrom_append (hc : p c = true) (s t : Str) :
    wordsFrom p word (s ++ c :: t) = wordsFrom p word s ++ words p t := by
  induction s generalizing word with
  | nil => exact if_pos hc
  | cons d s ih =>
    rw [List.cons_append, wordsFrom, wordsFrom]
    split_ifs
    · rw [ih, List.append_assoc]
    · exact ih

theorem words_intercalate (hc : p c = true) (l : List Str) :
    words p ([c].intercalate l) = l.flatMap (words p) := by
  cases l with
  | nil => rfl
  | cons e l =>
    induction l generalizing e with
    | nil => simp
    | cons e' l ih =>
      rw [List.intercalate_cons_cons, List.append_assoc, List.singleton_append]
      unfold words at ih ⊢
      rw [wordsFrom_append hc, List.flatMap_cons]
      congr 1
      exact ih e'

/-- What is split nowhere belongs to the word. -/
theorem wordsFrom_push (hs : ∀ d ∈ s, p d = false) (t : Str) :
    wordsFrom p word (s ++ t) = wordsFrom p (word ++ s) t := by
  induction s generalizing word with
  | nil => rw [List.append_nil, List.nil_append]
  | cons d s ih =>
    have hd : ¬p d = true := by
      rw [hs d List.mem_cons_self]
      decide
    rw [List.cons_append, wordsFrom, if_neg hd, ih fun x hx => hs x (List.mem_cons_of_mem _ hx),
      List.append_assoc, List.singleton_append]

theorem words_of_not (hs : ∀ d ∈ s, p d = false) (hne : s ≠ []) : words p s = [s] := by
  have hpush : wordsFrom p [] (s ++ []) = _ := wordsFrom_push hs []
  rw [List.append_nil, List.nil_append] at hpush
  exact hpush.trans (if_neg hne)

/-- The words are not empty and not split any further. -/
theorem mem_wordsFrom (hword : ∀ d ∈ word, p d = false) {w : Str} (hw : w ∈ wordsFrom p word s) :
    w ≠ [] ∧ ∀ d ∈ w, p d = false := by
  have hflush : ∀ {word : Str}, (∀ d ∈ word, p d = false) → w ∈ flush word →
      w ≠ [] ∧ ∀ d ∈ w, p d = false := by
    intro word hword hw
    unfold flush at hw
    split_ifs at hw with hne
    · cases hw
    · obtain rfl := List.mem_singleton.mp hw
      exact ⟨hne, hword⟩
  induction s generalizing word with
  | nil => exact hflush hword hw
  | cons d s ih =>
    rw [wordsFrom] at hw
    split_ifs at hw with hd
    · rcases List.mem_append.mp hw with hw | hw
      · exact hflush hword hw
      · exact ih (fun _ hx => absurd hx List.not_mem_nil) hw
    · apply ih _ hw
      intro x hx
      rcases List.mem_append.mp hx with hx | hx
      · exact hword x hx
      · rw [List.mem_singleton.mp hx]
        exact Bool.eq_false_iff.mpr hd

theorem mem_words {w : Str} (hw : w ∈ words p s) : w ≠ [] ∧ ∀ d ∈ w, p d = false :=
  mem_wordsFrom (fun _ hx => absurd hx List.not_mem_nil) hw

end Words
end Go
