import Fileblock.Mount.Printed

/-! Which mount records `ParseMountInfo` reads back from the file that lists them. -/
namespace Fileblock.Mount
open Go

/-- Texts that stay one field each: without raw spaces, apart from those around the root,
which is not kept; neither empty nor, before the separator, a separator themselves. -/
structure Texts.Readable (t : Texts) : Prop where
  root : ∃ w, words rawSpace t.root = [w] ∧ w ≠ ['-']
  mountPoint : words rawSpace t.mountPoint = [t.mountPoint] ∧ t.mountPoint ≠ ['-']
  source : words rawSpace t.source = [t.source]

section Inverse
variable {r : Record} {rs : List Record}

/-- The fields stand where the parser looks for them. -/
structure Record.Aligned (r : Record) (f : List Str) : Prop where
  before : 6 ≤ f.idxOf ['-']
  after : f.idxOf ['-'] + 4 ≤ f.length
  device : f.getD 2 [] = r.device
  mountPoint : unescapeOctal (utf8 (f.getD 4 [])) = .ok (utf8 r.texts.mountPoint)
  options : f.getD 5 [] = [','].intercalate r.options
  fsType : f.getD (f.idxOf ['-'] + 1) [] = r.fsType
  source : unescapeOctal (utf8 (f.getD (f.idxOf ['-'] + 2) [])) = .ok (utf8 r.texts.source)
  superOptions : f.getD (f.idxOf ['-'] + 3) [] = [','].intercalate r.superOptions

theorem getD_map_utf8 (f : List Str) (n : ℕ) : (f.map utf8).getD n [] = utf8 (f.getD n []) :=
  List.getD_map f [] utf8

theorem idxOf_map_utf8 (f : List Str) : (f.map utf8).idxOf [45] = f.idxOf ['-'] := by
  have hdash : utf8 ['-'] = [45] := rfl
  induction f with
  | nil => rfl
  | cons w f ih =>
    rw [List.map_cons]
    by_cases hw : w = ['-']
    · rw [hw, hdash, List.idxOf_cons_self, List.idxOf_cons_self]
    · have hne : utf8 w ≠ [45] := fun h => hw (utf8_injective (h.trans hdash.symm))
      rw [List.idxOf_cons_ne _ hne, List.idxOf_cons_ne _ hw, ih]

theorem parseFields_ok_iff (h : r.Printable) {l : Bytes} {f : List Str} :
    parseFields l (f.map utf8) = .ok r.info ↔ r.Aligned f := by
  unfold parseFields
  simp only [idxOf_map_utf8, List.length_map, getD_map_utf8]
  constructor
  · intro hok
    split at hok
    · cases hok
    · rename_i hsep
      cases hmp : unescapeOctal (utf8 (f.getD 4 [])) with
      | error e => rw [hmp] at hok; cases hok
      | ok mountPoint =>
        cases hsrc : unescapeOctal (utf8 (f.getD (f.idxOf ['-'] + 2) [])) with
        | error e => rw [hmp, hsrc] at hok; cases hok
        | ok source =>
          rw [hmp, hsrc] at hok
          have hinfo := Except.ok.inj hok
          simp only [Record.info, MountInfo.mk.injEq] at hinfo
          obtain ⟨hdevice, rfl, hoptions, hfs, rfl, hsuper⟩ := hinfo
          exact ⟨by omega, by omega, utf8_injective hdevice, hmp, h.options.split_iff.mp hoptions,
            utf8_injective hfs, hsrc, h.superOptions.split_iff.mp hsuper⟩
  · intro ha
    have hlt := ha.after
    have hge := ha.before
    rw [if_neg (by omega), ha.mountPoint, ha.source, ha.device, ha.options, ha.fsType,
      ha.superOptions, h.options.split, h.superOptions.split]
    rfl

theorem parseLines_line (h : r.Printable) (out : List MountInfo) (lines : List Bytes) :
    parseLines out (utf8 r.line :: lines) =
      match parseFields (dropCR (utf8 r.line)) (r.tokens.map utf8) with
      | .error e => ([], some e)
      | .ok info => parseLines (out ++ [info]) lines := by
  have hfields : Go.fields (dropCR (utf8 r.line)) = r.tokens.map utf8 := by
    rw [fields_dropCR, fields_utf8, h.words_line]
  have hne : r.tokens.map utf8 ≠ [] := by simp [Record.tokens, Record.lead]
  rw [parseLines, if_neg (Nat.not_le.mpr h.short)]
  dsimp only
  rw [hfields]
  apply (if_neg hne).trans
  cases parseFields (dropCR (utf8 r.line)) (r.tokens.map utf8) <;> rfl

theorem parseMountInfo_of_aligned (h : ∀ r ∈ rs, r.Printable ∧ r.Aligned r.tokens) :
    parseMountInfo (printed rs) = (rs.map Record.info, none) := by
  have hlines : ∀ out, parseLines out (rs.map fun r => utf8 r.line) =
      (out ++ rs.map Record.info, none) := by
    induction rs with
    | nil =>
      intro out
      rw [List.map_nil, List.map_nil, List.append_nil]
      rfl
    | cons r rs ih =>
      intro out
      obtain ⟨hprintable, haligned⟩ := h r List.mem_cons_self
      rw [List.map_cons, parseLines_line hprintable, (parseFields_ok_iff hprintable).mpr haligned]
      dsimp only
      rw [ih fun r hr => h r (List.mem_cons_of_mem _ hr), List.map_cons, List.append_assoc]
      rfl
  unfold parseMountInfo
  rw [rawLines_printed fun r hr => (h r hr).1, hlines]
  rfl

theorem aligned_of_parseMountInfo (h : r.Printable)
    (hparse : parseMountInfo (printed [r]) = ([r.info], none)) : r.Aligned r.tokens := by
  unfold parseMountInfo at hparse
  rw [rawLines_printed (by simpa using h), List.map_singleton, parseLines_line h] at hparse
  apply (parseFields_ok_iff h (l := dropCR (utf8 r.line))).mp
  cases hf : parseFields (dropCR (utf8 r.line)) (r.tokens.map utf8) with
  | error e => simp [hf] at hparse
  | ok info =>
    rw [hf] at hparse
    have hinfo : [] ++ [info] = [r.info] := congrArg Prod.fst hparse
    rw [List.singleton_inj.mp hinfo]

theorem idxOf_dash_le {f : List Str} {n : ℕ} (hn : n < f.length) (h : f.getD n [] = ['-']) :
    f.idxOf ['-'] ≤ n := by
  by_contra hlt
  have hne := List.not_of_lt_findIdx (Nat.not_le.mp hlt)
  rw [List.getD_eq_getElem _ _ hn] at h
  simp [h] at hne

theorem Record.Printable.token (h : r.Printable) {f : Str} (hf : f ∈ r.tokens) : Word f := by
  rw [← h.words_line] at hf
  exact ⟨(mem_words hf).1, (mem_words hf).2⟩

theorem Record.Aligned.plain (h : r.Printable) (ha : r.Aligned r.tokens) : r.Plain := by
  have hword : ∀ n < r.tokens.length, Word (r.tokens.getD n []) := by
    intro n hn
    rw [List.getD_eq_getElem _ _ hn]
    exact h.token (List.getElem_mem hn)
  have hbefore := ha.before
  have hafter := ha.after
  constructor
  · apply h.options.words_of_join
    rw [← ha.options]
    exact hword 5 (by omega)
  · intro hdash
    have hfive : r.tokens.getD 5 [] = ['-'] := by
      rw [ha.options, hdash]
      rfl
    have hidx := idxOf_dash_le (by omega) hfive
    omega
  · apply h.superOptions.words_of_join
    rw [← ha.superOptions]
    exact hword _ (by omega)

theorem Record.Printable.aligned (h : r.Printable) (hplain : r.Plain) (hr : r.texts.Readable) :
    r.Aligned r.tokens := by
  obtain ⟨w, hroot, hw⟩ := hr.root
  have hdash : ∀ {s : Str}, s ≠ ['-'] → escapeText s ≠ ['-'] := by
    intro s hs heq
    exact hs (escapeText_injective (heq.trans rfl))
  have hoptions : [','].intercalate r.options ≠ ['-'] := by
    intro heq
    apply hplain.dash
    have hsplit := h.options.split
    rw [heq] at hsplit
    have hmap : [['-']].map utf8 = r.options.map utf8 := hsplit
    exact (List.map_injective_iff.mpr utf8_injective hmap).symm
  have htokens : r.tokens = ([r.mountID, r.parentID, r.device, escapeText w,
      escapeText r.texts.mountPoint, [','].intercalate r.options] ++ r.optional) ++
      [['-'], r.fsType, escapeText r.texts.source, [','].intercalate r.superOptions] := by
    unfold tokens lead textWords
    rw [hroot, hr.mountPoint.1, hr.source, (h.options.join_word hplain.options).words,
      (h.superOptions.join_word hplain.superOptions).words]
    simp
  have hbefore : ['-'] ∉ [r.mountID, r.parentID, r.device, escapeText w,
      escapeText r.texts.mountPoint, [','].intercalate r.options] ++ r.optional := by
    simp only [List.mem_append, List.mem_cons, List.not_mem_nil, or_false]
    rintro ((heq | heq | heq | heq | heq | heq) | hmem)
    · exact h.mountID.2 heq.symm
    · exact h.parentID.2 heq.symm
    · exact h.device.2 heq.symm
    · exact hdash hw heq.symm
    · exact hdash hr.mountPoint.2 heq.symm
    · exact hoptions heq.symm
    · exact (h.optional _ hmem).2 rfl
  have hidx : r.tokens.idxOf ['-'] = 6 + r.optional.length := by
    rw [htokens, List.idxOf_append_of_notMem hbefore, List.idxOf_cons_self]
    simp
    omega
  have hrest : ∀ n, r.tokens.getD (6 + r.optional.length + n) [] =
      [['-'], r.fsType, escapeText r.texts.source, [','].intercalate r.superOptions].getD n [] := by
    intro n
    rw [htokens, List.getD_append_right]
    · congr 1
      simp
      omega
    · simp
      omega
  constructor
  · omega
  · rw [hidx, htokens]
    simp
    omega
  · rw [htokens]
    rfl
  · rw [htokens]
    exact unescapeOctal_escapeText _
  · rw [htokens]
    rfl
  · rw [hidx, hrest 1]
    rfl
  · rw [hidx, hrest 2]
    exact unescapeOctal_escapeText _
  · rw [hidx, hrest 3]
    rfl

/-- The same mount with one option on each side. -/
def Record.withOptions (r : Record) (a b : Char) : Record :=
  { r with options := [[a]], optional := [], superOptions := [[b]] }

theorem length_utf8_join {l : List Str} (hl : l ≠ []) :
    (utf8 ([' '].intercalate l)).length + 1 = (l.map fun f => (utf8 f).length + 1).sum := by
  cases l with
  | nil => exact absurd rfl hl
  | cons f l =>
    induction l generalizing f with
    | nil => simp
    | cons f' l ih =>
      have hspace : (String.utf8EncodeChar ' ').length = 1 := rfl
      have hrest := ih f' (List.cons_ne_nil _ _)
      rw [List.intercalate_cons_cons, List.map_cons, List.sum_cons, ← hrest]
      simp only [utf8_append, utf8_cons, utf8_nil, List.append_nil, List.length_append, hspace]
      omega

theorem Record.Printable.withOptions (h : r.Printable) {a b : Char} (ha : a ∈ ['x', 'y'])
    (hb : b ∈ ['x', 'y']) : (r.withOptions a b).Printable := by
  have hoption : ∀ {c : Char}, c ∈ ['x', 'y'] → Options [[c]] := by
    intro c hc
    constructor
    · simp
    · simp
    · fin_cases hc <;> decide
    · intro o ho d hd
      rw [List.mem_singleton.mp ho, List.mem_singleton] at hd
      subst hd
      fin_cases hc <;> decide
  have hone : ∀ {c : Char}, c ∈ ['x', 'y'] → (utf8 [c]).length = 1 := by
    intro c hc
    fin_cases hc <;> rfl
  have hlen : ∀ {options : List Str}, Options options →
      1 ≤ (utf8 ([','].intercalate options)).length := by
    intro options ho
    exact List.length_pos_of_ne_nil (mt utf8_eq_nil_iff.mp ho.join_ne_nil)
  refine ⟨h.mountID, h.parentID, h.device, hoption ha, ?_, h.fsType, hoption hb, ?_⟩
  · intro f hf
    cases hf
  · have hold : (utf8 r.line).length + 1 = _ := length_utf8_join (by simp [fields])
    have hnew : (utf8 (r.withOptions a b).line).length + 1 = _ :=
      length_utf8_join (by simp [fields])
    have hshort := h.short
    have ho := hlen h.options
    have hs := hlen h.superOptions
    have hfields : (r.withOptions a b).fields = [r.mountID, r.parentID, r.device,
        escapeText r.texts.root, escapeText r.texts.mountPoint, [a], ['-'], r.fsType,
        escapeText r.texts.source, [b]] := by
      simp [fields, Record.withOptions]
    rw [hfields] at hnew
    unfold fields at hold
    simp only [List.map_append, List.map_cons, List.map_nil, List.sum_append, List.sum_cons,
      List.sum_nil, hone ha, hone hb] at hold hnew
    omega

theorem Record.plain_withOptions {a b : Char} (ha : a ∈ ['x', 'y']) (hb : b ∈ ['x', 'y']) :
    (r.withOptions a b).Plain := by
  have hword : ∀ {c : Char}, c ∈ ['x', 'y'] → ∀ o ∈ [[c]], Word o := by
    intro c hc o ho
    rw [List.mem_singleton.mp ho]
    constructor
    · exact List.cons_ne_nil _ _
    · intro d hd
      rw [List.mem_singleton.mp hd]
      fin_cases hc <;> decide
  have hdash : [[a]] ≠ [['-']] := by fin_cases ha <;> decide
  exact ⟨hword ha, hdash, hword hb⟩

theorem length_of_getD {l m : List Str} {a b : Str} {n : ℕ} (hab : a ≠ b)
    (ha : (l ++ a :: m).getD n [] = a) (hb : (l ++ b :: m).getD n [] = b) : l.length = n := by
  by_contra hne
  apply hab
  rw [← ha, ← hb]
  rcases Nat.lt_or_gt_of_ne hne with hlt | hgt
  · obtain ⟨k, rfl⟩ := Nat.exists_eq_add_of_lt hlt
    rw [List.getD_append_right _ _ _ _ (by omega), List.getD_append_right _ _ _ _ (by omega)]
    have hk : l.length + k + 1 - l.length = k + 1 := by omega
    rw [hk]
    rfl
  · rw [List.getD_append _ _ _ _ hgt, List.getD_append _ _ _ _ hgt]

theorem words_of_unescape {s t u : Str} (ht : t ∈ textWords s)
    (h : unescapeOctal (utf8 t) = .ok (utf8 u)) : words rawSpace u = [u] ∧ t = escapeText u := by
  obtain ⟨w, hw, rfl⟩ := List.mem_map.mp ht
  rw [unescapeOctal_escapeText] at h
  have hwu : w = u := utf8_injective (Except.ok.inj h)
  subst hwu
  exact ⟨words_of_not (mem_words hw).2 (mem_words hw).1, rfl⟩

theorem Record.tokens_withOptions {a b : Char} (ha : a ∈ ['x', 'y']) (hb : b ∈ ['x', 'y']) :
    (r.withOptions a b).tokens =
      r.lead ++ [a] :: ['-'] :: r.fsType :: (textWords r.texts.source ++ [[b]]) := by
  have hone : ∀ {c : Char}, c ∈ ['x', 'y'] → words isSpace [c] = [[c]] := by
    intro c hc
    fin_cases hc <;> rfl
  unfold tokens Record.withOptions
  simp only [List.intercalate_singleton, hone ha, hone hb]
  simp [lead]

theorem Record.lead_of_aligned
    (h : ∀ a ∈ ['x', 'y'], ∀ b ∈ ['x', 'y'],
      (r.withOptions a b).Aligned (r.withOptions a b).tokens) :
    r.lead.length = 5 ∧ ['-'] ∉ r.lead ∧
      (r.withOptions 'x' 'x').tokens.idxOf ['-'] = 6 ∧ (textWords r.texts.source).length = 1 := by
  have hx : 'x' ∈ ['x', 'y'] := by decide
  have hy : 'y' ∈ ['x', 'y'] := by decide
  have hlead : r.lead.length = 5 := by
    have hxx := (h _ hx _ hx).options
    have hyx := (h _ hy _ hx).options
    rw [tokens_withOptions hx hx] at hxx
    rw [tokens_withOptions hy hx] at hyx
    exact length_of_getD (by decide) hxx hyx
  have hidx : ∀ b ∈ ['x', 'y'], (r.withOptions 'x' b).tokens.idxOf ['-'] = 6 := by
    intro b hb
    have hdash : (r.withOptions 'x' b).tokens.getD 6 [] = ['-'] := by
      rw [tokens_withOptions hx hb, List.getD_append_right _ _ _ _ (by omega), hlead]
      rfl
    have hge := (h _ hx _ hb).before
    have hafter := (h _ hx _ hb).after
    have hle := idxOf_dash_le (by omega) hdash
    omega
  refine ⟨hlead, ?_, hidx _ hx, ?_⟩
  · intro hmem
    have hlt := List.idxOf_lt_length_of_mem hmem
    have hge := (h _ hx _ hx).before
    rw [tokens_withOptions hx hx, List.idxOf_append_of_mem hmem] at hge
    omega
  · have hxx := (h _ hx _ hx).superOptions
    have hxy := (h _ hx _ hy).superOptions
    rw [hidx _ hx, tokens_withOptions hx hx] at hxx
    rw [hidx _ hy, tokens_withOptions hx hy] at hxy
    have hassoc : ∀ b : Str, r.lead ++ ['x'] :: ['-'] :: r.fsType ::
        (textWords r.texts.source ++ [b]) =
        (r.lead ++ ['x'] :: ['-'] :: r.fsType :: textWords r.texts.source) ++ b :: [] := by
      intro b
      simp
    rw [hassoc] at hxx hxy
    have hlen := length_of_getD (show ['x'] ≠ ['y'] by decide) hxx hxy
    simp only [List.length_append, List.length_cons] at hlen
    omega

theorem Record.readable_of_aligned
    (h : ∀ a ∈ ['x', 'y'], ∀ b ∈ ['x', 'y'],
      (r.withOptions a b).Aligned (r.withOptions a b).tokens) : r.texts.Readable := by
  obtain ⟨hlead, hdash, hidx, hsource⟩ := lead_of_aligned h
  have hx : 'x' ∈ ['x', 'y'] := by decide
  have haligned := h _ hx _ hx
  have hmountPoint : words rawSpace r.texts.mountPoint = [r.texts.mountPoint] ∧
      escapeText r.texts.mountPoint ∈ r.lead := by
    have hread := haligned.mountPoint
    have hlt : 4 < r.lead.length := by omega
    rw [tokens_withOptions hx hx, List.getD_append _ _ _ _ hlt] at hread
    have hmem : r.lead.getD 4 [] ∈ textWords r.texts.root ++ textWords r.texts.mountPoint := by
      have hdrop : r.lead.getD 4 [] =
          (textWords r.texts.root ++ textWords r.texts.mountPoint).getD 1 [] := by
        unfold lead
        rw [List.append_assoc]
        rfl
      have hlen : 1 < (textWords r.texts.root ++ textWords r.texts.mountPoint).length := by
        simp only [lead, List.length_append, List.length_cons, List.length_nil] at hlead ⊢
        omega
      rw [hdrop, List.getD_eq_getElem _ _ hlen]
      exact List.getElem_mem hlen
    have hword : words rawSpace r.texts.mountPoint = [r.texts.mountPoint] ∧
        r.lead.getD 4 [] = escapeText r.texts.mountPoint := by
      rcases List.mem_append.mp hmem with hmem | hmem
      · exact words_of_unescape hmem hread
      · exact words_of_unescape hmem hread
    refine ⟨hword.1, ?_⟩
    rw [← hword.2, List.getD_eq_getElem _ _ hlt]
    exact List.getElem_mem hlt
  have hne : ∀ {s : Str}, escapeText s ∈ r.lead → s ≠ ['-'] := by
    intro s hmem hs
    rw [hs] at hmem
    exact hdash hmem
  constructor
  · have hroot : (words rawSpace r.texts.root).length = 1 := by
      simp only [lead, textWords, hmountPoint.1, List.length_append, List.length_cons,
        List.length_nil, List.length_map] at hlead
      omega
    obtain ⟨w, hw⟩ := List.length_eq_one_iff.mp hroot
    refine ⟨w, hw, hne ?_⟩
    unfold lead textWords
    rw [hw]
    simp
  · exact ⟨hmountPoint.1, hne hmountPoint.2⟩
  · obtain ⟨w, hw⟩ := List.length_eq_one_iff.mp hsource
    have hread := haligned.source
    rw [hidx, tokens_withOptions hx hx, List.getD_append_right _ _ _ _ (by omega), hlead, hw] at hread
    exact (words_of_unescape (hw ▸ List.mem_singleton_self w) hread).1

/-- Which mounts are read back from the file that lists them. The texts are, whatever the
options, if they are readable and only then; options that are read back are plain. -/
theorem parseMountInfo_inverts_iff (P : Set Texts) :
    ((∀ rs : List Record, (∀ r ∈ rs, r.Printable ∧ r.Plain ∧ r.texts ∈ P) →
        parseMountInfo (printed rs) = (rs.map Record.info, none)) ↔
      ∀ r : Record, r.Printable → r.texts ∈ P → r.texts.Readable) ∧
    ∀ r : Record, r.Printable → parseMountInfo (printed [r]) = ([r.info], none) → r.Plain := by
  refine ⟨⟨?_, ?_⟩, ?_⟩
  · intro hparse r hr ht
    apply Record.readable_of_aligned (r := r)
    intro a ha b hb
    have hprintable := hr.withOptions ha hb
    apply aligned_of_parseMountInfo hprintable
    apply hparse
    intro r' hr'
    rw [List.mem_singleton.mp hr']
    exact ⟨hprintable, Record.plain_withOptions ha hb, ht⟩
  · intro hreadable rs hrs
    apply parseMountInfo_of_aligned
    intro r hr
    obtain ⟨hprintable, hplain, ht⟩ := hrs r hr
    exact ⟨hprintable, hprintable.aligned hplain (hreadable r hprintable ht)⟩
  · intro r hr hparse
    exact (aligned_of_parseMountInfo hr hparse).plain hr

/-- A file system without a device, mounted from an empty source on a path with a space. -/
def unnamed (source : Str) : Record where
  mountID := "36".toList
  parentID := "22".toList
  device := "0:33".toList
  texts := ⟨"/".toList, "/mnt/with space".toList, source⟩
  options := ["rw".toList, "relatime".toList]
  optional := ["shared:5".toList]
  fsType := "tmpfs".toList
  superOptions := ["rw".toList]

theorem unnamed_printable : (unnamed []).Printable ∧ (unnamed "tmpfs".toList).Printable := by
  constructor
  · constructor <;> decide +kernel
  · constructor <;> decide +kernel

theorem unnamed_plain (source : Str) : (unnamed source).Plain := by
  have hoptions : ∀ o ∈ ["rw".toList, "relatime".toList], Word o := by decide +kernel
  have hdash : ["rw".toList, "relatime".toList] ≠ [['-']] := by decide +kernel
  have hsuper : ∀ o ∈ ["rw".toList], Word o := by decide +kernel
  exact ⟨hoptions, hdash, hsuper⟩

theorem parseMountInfo_inverts_named :
    parseMountInfo (printed [unnamed "tmpfs".toList]) = ([(unnamed "tmpfs".toList).info], none) := by
  have hreadable : (unnamed "tmpfs".toList).texts.Readable := by
    constructor
    · exact ⟨['/'], by decide +kernel, by decide⟩
    · decide +kernel
    · decide +kernel
  apply (parseMountInfo_inverts_iff {(unnamed "tmpfs".toList).texts}).1.mpr
  · intro r _ ht
    rw [Set.mem_singleton_iff.mp ht]
    exact hreadable
  · intro r hr
    rw [List.mem_singleton.mp hr]
    exact ⟨unnamed_printable.2, unnamed_plain _, rfl⟩

/-- An empty field is none. -/
theorem parseMountInfo_empty_source : (unnamed []).Printable ∧ (unnamed []).Plain ∧
    parseMountInfo (printed [unnamed []]) =
      ([], some (.malformed (utf8
        "36 22 0:33 / /mnt/with\\040space rw,relatime shared:5 - tmpfs  rw".toList))) :=
  ⟨unnamed_printable.1, unnamed_plain _, by decide +kernel⟩

end Inverse
end Fileblock.Mount
