import Fileblock.Mount.Info

/-! Mount records as the kernel prints them: fields separated by single spaces, with those
inside a path escaped. The lines of such a file, and the words of a line for a parser that
splits at everything that Unicode calls a space. -/
namespace Fileblock.Mount
open Go

section Escapes
variable {word s t : Str} {c : Char}

/-- What the kernel writes in octal. -/
def escaped : List Char := [' ', '\t', '\n', '\\']

def escapeChar (c : Char) : Str :=
  if c = ' ' then ['\\', '0', '4', '0'] else if c = '\t' then ['\\', '0', '1', '1']
  else if c = '\n' then ['\\', '0', '1', '2'] else if c = '\\' then ['\\', '1', '3', '4'] else [c]

def escapeText (s : Str) : Str := s.flatMap escapeChar

/-- The spaces that the kernel does not escape. -/
def rawSpace (c : Char) : Bool := isSpace c && !escaped.contains c

def kernelEscapes : Finset UInt8 := {32, 9, 10, backslash}

theorem escapeChar_of_mem (hc : c ∈ escaped) :
    rawSpace c = false ∧ (∀ d ∈ escapeChar c, isSpace d = false) ∧
      utf8 (escapeChar c) = escape kernelEscapes (String.utf8EncodeChar c) := by
  have hsolid : escaped.all (fun c => (escapeChar c).all fun d => !isSpace d) = true := by
    decide +kernel
  refine ⟨?_, ?_, ?_⟩
  · fin_cases hc <;> decide
  · intro d hd
    simpa using List.all_eq_true.mp (List.all_eq_true.mp hsolid c hc) d hd
  · fin_cases hc <;> decide +kernel

theorem escapeChar_of_not_mem (hc : c ∉ escaped) :
    rawSpace c = isSpace c ∧ escapeChar c = [c] ∧
      utf8 (escapeChar c) = escape kernelEscapes (String.utf8EncodeChar c) := by
  have hne : c ≠ ' ' ∧ c ≠ '\t' ∧ c ≠ '\n' ∧ c ≠ '\\' := by simpa [escaped] using hc
  have hchar : escapeChar c = [c] := by
    unfold escapeChar
    rw [if_neg hne.1, if_neg hne.2.1, if_neg hne.2.2.1, if_neg hne.2.2.2]
  have hbytes : ∀ b ∈ String.utf8EncodeChar c, b ∉ kernelEscapes := by
    intro b hb hmem
    have hlt : b.toNat < 128 := by
      revert hmem
      unfold kernelEscapes
      simp only [Finset.mem_insert, Finset.mem_singleton]
      rintro (rfl | rfl | rfl | rfl) <;> decide
    have hnat := (mem_utf8EncodeChar hlt).mp hb
    have hof : c = Char.ofNat b.toNat := by
      rw [← hnat]
      exact (Char.ofNat_toNat c).symm
    revert hmem
    unfold kernelEscapes
    simp only [Finset.mem_insert, Finset.mem_singleton]
    rintro (rfl | rfl | rfl | rfl)
    · exact hne.1 hof
    · exact hne.2.1 hof
    · exact hne.2.2.1 hof
    · exact hne.2.2.2 hof
  refine ⟨?_, hchar, ?_⟩
  · simp [rawSpace, hc]
  · have hsame : escape kernelEscapes (String.utf8EncodeChar c) = String.utf8EncodeChar c := by
      unfold escape
      rw [List.flatMap_congr fun b hb => if_neg (hbytes b hb)]
      exact List.flatMap_singleton' _
    rw [hchar, hsame]
    simp

theorem utf8_escapeText (s : Str) : utf8 (escapeText s) = escape kernelEscapes (utf8 s) := by
  have hchar : ∀ c, utf8 (escapeChar c) = escape kernelEscapes (String.utf8EncodeChar c) := by
    intro c
    by_cases hc : c ∈ escaped
    · exact (escapeChar_of_mem hc).2.2
    · exact (escapeChar_of_not_mem hc).2.2
  induction s with
  | nil => rfl
  | cons c s ih =>
    have hescape : escape kernelEscapes (String.utf8EncodeChar c ++ utf8 s) =
        escape kernelEscapes (String.utf8EncodeChar c) ++ escape kernelEscapes (utf8 s) :=
      List.flatMap_append
    rw [escapeText, List.flatMap_cons, utf8_append, utf8_cons, hescape, hchar]
    congr 1

theorem unescapeOctal_escapeText (s : Str) : unescapeOctal (utf8 (escapeText s)) = .ok (utf8 s) := by
  rw [utf8_escapeText]
  exact unescapeOctal_escape (by decide) _

theorem escapeText_injective : Function.Injective escapeText := by
  intro s t h
  have hs := unescapeOctal_escapeText s
  rw [h, unescapeOctal_escapeText t] at hs
  exact (utf8_injective (Except.ok.inj hs)).symm

/-- The words of an escaped text are the escaped words, split at the raw spaces only. -/
theorem wordsFrom_escapeText (word s : Str) :
    wordsFrom isSpace (escapeText word) (escapeText s) =
      (wordsFrom rawSpace word s).map escapeText := by
  have hflush : ∀ word : Str, flush (escapeText word) = (flush word).map escapeText := by
    intro word
    unfold flush
    by_cases hw : word = []
    · subst hw
      rfl
    · have hne : escapeText word ≠ [] := fun h => hw (escapeText_injective h)
      rw [if_neg hw, if_neg hne]
      rfl
  induction s generalizing word with
  | nil => exact hflush word
  | cons c s ih =>
    have hword : escapeText (word ++ [c]) = escapeText word ++ escapeChar c := by
      simp [escapeText]
    have hcons : escapeText (c :: s) = escapeChar c ++ escapeText s := List.flatMap_cons
    rw [hcons, wordsFrom]
    by_cases hc : c ∈ escaped
    · obtain ⟨hraw, hsolid, -⟩ := escapeChar_of_mem hc
      rw [wordsFrom_push hsolid, ← hword, ih, hraw]
      rfl
    · obtain ⟨hraw, hchar, -⟩ := escapeChar_of_not_mem hc
      rw [hchar] at hword ⊢
      rw [List.singleton_append, wordsFrom, hraw, ← hword]
      by_cases hsp : isSpace c = true
      · rw [if_pos hsp, if_pos hsp, List.map_append, hflush]
        congr 1
        exact ih []
      · rw [if_neg hsp, if_neg hsp, ih]

theorem words_escapeText (s : Str) :
    words isSpace (escapeText s) = (words rawSpace s).map escapeText :=
  wordsFrom_escapeText [] s

end Escapes

structure Word (s : Str) : Prop where
  ne_nil : s ≠ []
  solid : ∀ c ∈ s, isSpace c = false

theorem word_iff {s : Str} : Word s ↔ (!s.isEmpty && s.all fun c => !isSpace c) = true := by
  constructor
  · intro h
    simpa using And.intro h.ne_nil h.solid
  · intro h
    have h' : s ≠ [] ∧ ∀ c ∈ s, isSpace c = false := by simpa using h
    exact ⟨h'.1, h'.2⟩

instance : DecidablePred Word := fun _ => decidable_of_iff _ word_iff.symm

/-- The texts of a mount record that are not words by nature. -/
structure Texts where
  root : Str
  mountPoint : Str
  source : Str

/-- A mount as the kernel knows it. -/
structure Record where
  mountID : Str
  parentID : Str
  device : Str
  texts : Texts
  options : List Str
  optional : List Str
  fsType : Str
  superOptions : List Str

namespace Record

def fields (r : Record) : List Str :=
  [r.mountID, r.parentID, r.device, escapeText r.texts.root, escapeText r.texts.mountPoint,
    [','].intercalate r.options] ++ r.optional ++
  [['-'], r.fsType, escapeText r.texts.source, [','].intercalate r.superOptions]

def line (r : Record) : Str := [' '].intercalate r.fields

/-- What the parser keeps of a record. -/
def info (r : Record) : MountInfo where
  majorMinor := utf8 r.device
  mountPoint := utf8 r.texts.mountPoint
  mountOptions := r.options.map utf8
  fsType := utf8 r.fsType
  source := utf8 r.texts.source
  superOptions := r.superOptions.map utf8

/-- Options as they stand in a field: the kernel prints no blank in one. -/
structure Options (options : List Str) : Prop where
  ne_nil : options ≠ []
  nonempty : ∀ o ∈ options, o ≠ []
  comma : ∀ o ∈ options, ',' ∉ o
  blank : ∀ o ∈ options, ∀ c ∈ o, c ≠ ' ' ∧ c ≠ '\t' ∧ c ≠ '\n'

theorem options_iff {options : List Str} : Options options ↔
    (!options.isEmpty && options.all fun o => !o.isEmpty &&
      o.all fun c => c != ',' && c != ' ' && c != '\t' && c != '\n') = true := by
  constructor
  · intro h
    have hall : ∀ o ∈ options, o ≠ [] ∧ ∀ c ∈ o, ((c ≠ ',' ∧ c ≠ ' ') ∧ c ≠ '\t') ∧ c ≠ '\n' := by
      intro o ho
      refine ⟨h.nonempty o ho, ?_⟩
      intro c hc
      have hblank := h.blank o ho c hc
      have hcomma : c ≠ ',' := fun heq => h.comma o ho (heq ▸ hc)
      exact ⟨⟨⟨hcomma, hblank.1⟩, hblank.2.1⟩, hblank.2.2⟩
    simpa using And.intro h.ne_nil hall
  · intro h
    have h' : options ≠ [] ∧ ∀ o ∈ options, o ≠ [] ∧
        ∀ c ∈ o, ((c ≠ ',' ∧ c ≠ ' ') ∧ c ≠ '\t') ∧ c ≠ '\n' := by
      simpa using h
    constructor
    · exact h'.1
    · exact fun o ho => (h'.2 o ho).1
    · exact fun o ho hc => ((h'.2 o ho).2 _ hc).1.1.1 rfl
    · intro o ho c hc
      have hc' := (h'.2 o ho).2 c hc
      exact ⟨hc'.1.1.2, hc'.1.2, hc'.2⟩

instance : DecidablePred Options := fun _ => decidable_of_iff _ options_iff.symm

/-- The numbers and names of a record are words, and the line is not too long. -/
structure Printable (r : Record) : Prop where
  mountID : Word r.mountID ∧ r.mountID ≠ ['-']
  parentID : Word r.parentID ∧ r.parentID ≠ ['-']
  device : Word r.device ∧ r.device ≠ ['-']
  options : Options r.options
  optional : ∀ f ∈ r.optional, Word f ∧ f ≠ ['-']
  fsType : Word r.fsType
  superOptions : Options r.superOptions
  short : (utf8 r.line).length < maxTokenSize

/-- Options that stay one field: without spaces of any kind, and no separator. -/
structure Plain (r : Record) : Prop where
  options : ∀ o ∈ r.options, Word o
  dash : r.options ≠ [['-']]
  superOptions : ∀ o ∈ r.superOptions, Word o

end Record

def printed (rs : List Record) : Bytes := rs.flatMap fun r => utf8 (r.line ++ ['\n'])

section Lines
variable {r : Record} {rs : List Record} {options : List Str}

theorem Word.words {f : Str} (h : Word f) : words isSpace f = [f] := words_of_not h.solid h.ne_nil

theorem Record.Options.join_ne_nil (h : Options options) : [','].intercalate options ≠ [] := by
  obtain ⟨o, os, rfl⟩ := List.exists_cons_of_ne_nil h.ne_nil
  have ho := h.nonempty o List.mem_cons_self
  cases os with
  | nil => simpa using ho
  | cons o' os => simp [List.intercalate_cons_cons, ho]

theorem Record.Options.join_word (h : Options options) (hw : ∀ o ∈ options, Word o) :
    Word ([','].intercalate options) := by
  constructor
  · exact h.join_ne_nil
  · intro c hc
    rcases mem_intercalate hc with rfl | ⟨o, ho, hc⟩
    · decide
    · exact (hw o ho).solid c hc

theorem Record.Options.words_of_join (h : Options options)
    (hw : Word ([','].intercalate options)) : ∀ o ∈ options, Word o := by
  intro o ho
  constructor
  · exact h.nonempty o ho
  · intro c hc
    exact hw.solid c (mem_intercalate_of_mem ho hc)

theorem Record.Options.split (h : Options options) :
    (utf8 ([','].intercalate options)).splitOn 44 = options.map utf8 := by
  have hcomma : String.utf8EncodeChar ',' = [44] := rfl
  rw [utf8_intercalate, hcomma]
  apply List.splitOn_intercalate
  · intro l hl hmem
    obtain ⟨o, ho, rfl⟩ := List.mem_map.mp hl
    obtain ⟨c, hc, hnat⟩ := (mem_utf8 (by decide)).mp hmem
    have hof : c = ',' := by
      rw [← Char.ofNat_toNat c, hnat]
      rfl
    exact h.comma o ho (hof ▸ hc)
  · exact mt List.map_eq_nil_iff.mp h.ne_nil

theorem Record.Options.split_iff (h : Options options) {f : Str} :
    (utf8 f).splitOn 44 = options.map utf8 ↔ f = [','].intercalate options := by
  constructor
  · intro hsplit
    apply utf8_injective
    have hjoin : [44].intercalate ((utf8 f).splitOn 44) = utf8 f := List.intercalate_splitOn 44
    rw [← hjoin, hsplit, utf8_intercalate]
    rfl
  · rintro rfl
    exact h.split

def textWords (s : Str) : List Str := (words rawSpace s).map escapeText

def Record.lead (r : Record) : List Str :=
  [r.mountID, r.parentID, r.device] ++ textWords r.texts.root ++ textWords r.texts.mountPoint

def Record.tokens (r : Record) : List Str :=
  r.lead ++ words isSpace ([','].intercalate r.options) ++ r.optional ++ [['-'], r.fsType] ++
    textWords r.texts.source ++ words isSpace ([','].intercalate r.superOptions)

theorem Record.Printable.words_line (h : r.Printable) : words isSpace r.line = r.tokens := by
  have hoptional : r.optional.flatMap (words isSpace) = r.optional := by
    rw [List.flatMap_congr fun f hf => (h.optional f hf).1.words]
    exact List.flatMap_singleton' _
  have hdash : words isSpace ['-'] = [['-']] := rfl
  unfold line fields tokens lead textWords
  rw [words_intercalate (by decide)]
  simp only [List.flatMap_append, List.flatMap_cons, List.flatMap_nil, hoptional, hdash,
    h.mountID.1.words, h.parentID.1.words, h.device.1.words, h.fsType.words, words_escapeText,
    List.append_nil, List.append_assoc, List.cons_append, List.nil_append]

theorem Record.Printable.newline (h : r.Printable) : '\n' ∉ r.line := by
  intro hmem
  have hword : ∀ {f : Str}, Word f → '\n' ∉ f := by
    intro f hf hn
    exact absurd (hf.solid _ hn) (by decide)
  have hescaped : ∀ s : Str, '\n' ∉ escapeText s := by
    intro s hn
    obtain ⟨c, -, hc⟩ := List.mem_flatMap.mp hn
    by_cases hesc : c ∈ escaped
    · exact absurd ((escapeChar_of_mem hesc).2.1 _ hc) (by decide)
    · rw [(escapeChar_of_not_mem hesc).2.1] at hc
      rw [← List.mem_singleton.mp hc] at hesc
      exact hesc (by decide)
  have hoptions : ∀ {options : List Str}, Options options →
      '\n' ∉ [','].intercalate options := by
    intro options ho hn
    rcases mem_intercalate hn with hcomma | ⟨o, hmem, hc⟩
    · exact absurd hcomma (by decide)
    · exact (ho.blank o hmem _ hc).2.2 rfl
  rcases mem_intercalate hmem with hsep | ⟨f, hf, hn⟩
  · exact absurd hsep (by decide)
  · unfold fields at hf
    simp only [List.mem_append, List.mem_cons, List.not_mem_nil, or_false] at hf
    rcases hf with ((rfl | rfl | rfl | rfl | rfl | rfl) | hf) | rfl | rfl | rfl | rfl
    · exact hword h.mountID.1 hn
    · exact hword h.parentID.1 hn
    · exact hword h.device.1 hn
    · exact hescaped _ hn
    · exact hescaped _ hn
    · exact hoptions h.options hn
    · exact hword (h.optional f hf).1 hn
    · exact absurd hn (by decide)
    · exact hword h.fsType hn
    · exact hescaped _ hn
    · exact hoptions h.superOptions hn

/-- A carriage return at the end of a line separates no fields. -/
theorem fields_dropCR (s : Str) : Go.fields (dropCR (utf8 s)) = Go.fields (utf8 s) := by
  rcases s.eq_nil_or_concat with rfl | ⟨t, c, rfl⟩
  · rfl
  rw [List.concat_eq_append, utf8_append]
  by_cases hc : c = '\r'
  · subst hc
    have hcr : utf8 ['\r'] = [13] := rfl
    have hdrop : dropCR (utf8 t ++ [13]) = utf8 t := by simp [dropCR]
    have hwords : wordsFrom isSpace [] (t ++ ['\r']) = _ := wordsFrom_append (by decide) t []
    have hnil : words isSpace [] = [] := rfl
    rw [hcr, hdrop, ← hcr, ← utf8_append, fields_utf8, fields_utf8]
    unfold words at hwords ⊢
    rw [hwords]
    simp [wordsFrom, flush]
  · have hlast : (utf8 t ++ utf8 [c]).getLast? ≠ some 13 := by
      intro hlast
      have hne : utf8 [c] ≠ [] := mt utf8_eq_nil_iff.mp (List.cons_ne_nil c [])
      rw [List.getLast?_append_of_ne_nil _ hne] at hlast
      have hmem := List.mem_of_getLast? hlast
      obtain ⟨d, hd, hnat⟩ := (mem_utf8 (by decide)).mp hmem
      rw [List.mem_singleton.mp hd] at hnat
      apply hc
      rw [← Char.ofNat_toNat c, hnat]
      rfl
    unfold dropCR
    rw [if_neg hlast]

/-- The scanner finds the lines that were printed. -/
theorem rawLines_printed (h : ∀ r ∈ rs, r.Printable) :
    rawLines (printed rs) = rs.map fun r => utf8 r.line := by
  have hsplit : (printed rs).splitOn 10 = (rs.map fun r => utf8 r.line) ++ [[]] := by
    induction rs with
    | nil => rfl
    | cons r rs ih =>
      have hnl : ∀ b ∈ utf8 r.line, (b == 10) = false := by
        intro b hb
        apply Bool.eq_false_iff.mpr
        intro heq
        rw [beq_iff_eq.mp heq] at hb
        obtain ⟨c, hc, hnat⟩ := (mem_utf8 (by decide)).mp hb
        have hof : c = '\n' := by
          rw [← Char.ofNat_toNat c, hnat]
          rfl
        exact (h r List.mem_cons_self).newline (hof ▸ hc)
      have hcons : printed (r :: rs) = utf8 r.line ++ 10 :: printed rs := by
        unfold printed
        rw [List.flatMap_cons, utf8_append, List.append_assoc]
        rfl
      rw [hcons, List.splitOn_append_cons_of_forall_mem_beq_eq_false hnl 10 rfl, List.map_cons,
        List.cons_append]
      congr 1
      exact ih fun r hr => h r (List.mem_cons_of_mem _ hr)
  unfold rawLines
  dsimp only
  rw [hsplit, if_pos List.getLast?_concat, List.dropLast_concat]

end Lines
end Fileblock.Mount
