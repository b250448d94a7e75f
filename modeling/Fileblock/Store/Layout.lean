import Fileblock.Store.Config

/-! Where a node keeps things: store mounts below the stores root, one image file
a volume, and the names by which the kernel reports them back. -/
namespace Fileblock.Store
open Go

def isHex (c : Char) : Bool := c ∈ "0123456789abcdef".toList

def imageExt : Str := ".img"

/-- The digits in the name NFS gives a file unlinked while open. -/
abbrev Silly := { s : Str // s ≠ [] ∧ s.all isHex = true }

/-- A node: the stores root, an absolute clean path other than `/`, the page
size, the canonical form in which the kernel and `findmnt` know a path (no symbolic link,
no slash too many), and SHA-256 in lower-case hexadecimal. -/
structure Site where
  pageSize : ℕ
  resolve : Str → Str
  rootElems : List Str
  root_ne : rootElems ≠ []
  root_proper : ∀ e ∈ rootElems, Proper e
  sum : Str → Str
  sum_length : ∀ s, (sum s).length = 64
  sum_hex : ∀ s, ∀ c ∈ sum s, isHex c = true

namespace Site
variable (S : Site)

def root : Str := absPath S.rootElems

def hashID (key : Str) : Str := (S.sum key).take 12

def mapperName (id : Str) : String := "fbcrypt-" ++ String.ofList ((S.sum id).take 24)

def mountDir (c : Config) : Str := join S.root (S.hashID c.mountKey)

/-- The directory `Registry.Get` hands out. -/
def storePath (c : Config) : Str :=
  if c.subDir = [] then S.mountDir c else join (S.mountDir c) c.subDir

def imagePath (c : Config) (id : Str) : Str := join (S.storePath c) (id ++ imageExt)

/-- How the kernel reports a file once the store mount it was opened through is
gone: relative to that mount. -/
def below (file : Str) : Str :=
  match cutPrefix file (S.root ++ ['/']) with
  | some rest => rest.dropWhile (· ≠ '/')
  | none => file

/-- How the kernel reports the back-file of a loop attached to `file`: below the
store mount when that is gone, and under another name when it was unlinked. -/
def reported (file : Str) (fresh : Bool) (silly : Option Silly) : Str :=
  let name := match silly with
    | none => file
    | some hex => file.rdropWhile (· ≠ '/') ++ ".nfs".toList ++ hex.1
  if fresh then name else S.below name

end Site

/-- Whether a loop's back-file is the image at the given path; once the process
that attached the loop is gone, only a trailing part of the path is reported. -/
def backs (back image : Str) : Bool :=
  decide (back = image) ||
    (hasPrefix back "/" && hasSuffix image back && decide (base back = base image))

/-- The name NFS gives a file unlinked while open. -/
def sillyName (name : Str) : Bool :=
  hasPrefix name ".nfs" && decide (name.drop 4 ≠ []) && (name.drop 4).all isHex

def sillyRenamed (back : Str) : Bool := sillyName (base back)

/-- What the kernel appends to the path of an unlinked file. -/
def deletedSuffix : Str := " (deleted)"

/-- `fb-<storeID>-<name>.img`. -/
def issuedName (name : Str) : Bool :=
  hasPrefix name "fb-" && decide (((name.drop 3).take 12).length = 12) &&
    ((name.drop 3).take 12).all isHex && hasPrefix (name.drop 15) "-" &&
    hasSuffix (name.drop 16) imageExt && decide (4 < (name.drop 16).length)

/-- The back-file of an issued image whose store mount is gone. -/
def disconnectedImage (back : Str) : Bool :=
  match split back '/' with
  | [] :: es => es.dropLast.all (· ≠ []) && (es.getLast?.map issuedName).getD false
  | _ => false

theorem isHex_ne_slash {c : Char} (h : isHex c = true) : c ≠ '/' := by
  rintro rfl
  exact absurd h (by decide)

theorem Site.hashID_proper (S : Site) (key : Str) : Proper (S.hashID key) := by
  have hlen : (S.hashID key).length = 12 := by
    simp [Site.hashID, S.sum_length]
  have hhex : ∀ c ∈ S.hashID key, isHex c = true :=
    fun c hc => S.sum_hex key c (List.mem_of_mem_take hc)
  refine ⟨?_, ?_, ?_, ?_⟩
  · intro h
    simp [h] at hlen
  · intro h
    simp [h] at hlen
  · intro h
    simp [h] at hlen
  · intro h
    exact isHex_ne_slash (hhex _ h) rfl

/-- A subDir that is empty or a path of proper names. -/
def Config.Valid (c : Config) : Prop :=
  ∃ ss : List Str, (∀ e ∈ ss, Proper e) ∧ c.subDir = ['/'].intercalate ss

theorem foldl_cleanStep_proper {rooted : Bool} {es stack : List Str}
    (hes : ∀ e ∈ es, '/' ∉ e ∧ e ≠ ['.', '.']) (hst : ∀ e ∈ stack, Proper e) :
    ∀ e ∈ es.foldl (cleanStep rooted) stack, Proper e := by
  induction es generalizing stack with
  | nil => exact hst
  | cons e es ih =>
    refine ih (fun x hx => hes x (List.mem_cons_of_mem _ hx)) ?_
    have he := hes e List.mem_cons_self
    unfold cleanStep
    by_cases h1 : e = [] ∨ e = ['.']
    · rw [if_pos h1]
      exact hst
    · rw [if_neg h1, if_neg he.2]
      intro x hx
      rcases List.mem_cons.mp hx with rfl | hx
      · exact ⟨fun h => h1 (Or.inl h), fun h => h1 (Or.inr h), he.2, he.1⟩
      · exact hst x hx

theorem resolveSubDir_ok {raw sub : Str} {params : Params}
    (h : resolveSubDir raw params = .ok sub) :
    sub = [] ∨ ∃ s : Str, unresolvedTemplate s = none ∧ Char.ofNat 0 ∉ s ∧ isAbs s = false ∧
      ['.', '.'] ∉ split s '/' ∧ clean s ≠ ['.'] ∧ sub = clean s := by
  unfold resolveSubDir at h
  split_ifs at h with hraw
  · exact Or.inl (Except.ok.inj h).symm
  · generalize substitute params (substitute params (substitute params raw
      tmplPVCNamespace paramPVCNamespace) tmplPVCName paramPVCName) tmplPVName paramPVName = s at h
    cases hu : unresolvedTemplate s with
    | some t => simp [hu] at h
    | none =>
      simp only [hu] at h
      split_ifs at h with h0 habs hdots hdot
      exact Or.inr ⟨s, hu, h0, by simpa using habs, hdots, hdot, (Except.ok.inj h).symm⟩

theorem clean_relative {s : Str} (hrel : isAbs s = false) (hdot : clean s ≠ ['.']) :
    clean s = ['/'].intercalate ((split s '/').foldl (cleanStep false) []).reverse := by
  unfold clean at hdot ⊢
  rw [hrel] at hdot ⊢
  simp only [Bool.false_eq_true, if_false] at hdot ⊢
  split_ifs at hdot ⊢ with hbody
  · exact absurd rfl hdot
  · rfl

theorem resolveSubDir_valid {raw sub : Str} {params : Params}
    (h : resolveSubDir raw params = .ok sub) :
    ∃ ss : List Str, (∀ e ∈ ss, Proper e) ∧ sub = ['/'].intercalate ss := by
  rcases resolveSubDir_ok h with rfl | ⟨s, -, -, hrel, hdots, hdot, rfl⟩
  · exact ⟨[], by simp, rfl⟩
  · refine ⟨_, ?_, clean_relative hrel hdot⟩
    intro e he
    refine foldl_cleanStep_proper (fun x hx => ⟨not_mem_of_mem_split hx, ?_⟩) (by simp) e
      (List.mem_reverse.mp he)
    rintro rfl
    exact hdots hx

theorem configFromParams_valid {params : Params} {c : Config}
    (h : configFromParams params = .ok c) : c.Valid := by
  unfold configFromParams at h
  split_ifs at h
  · unfold nfsFromParams at h
    split_ifs at h
    cases hs : resolveSubDir (params.get paramNFSSubDir) params with
    | error e => simp [hs] at h
    | ok sub =>
      simp only [hs] at h
      cases h
      exact resolveSubDir_valid hs
  · unfold localFromParams at h
    split_ifs at h
    cases h
    exact ⟨[], by simp, rfl⟩

theorem imageName_proper {id : Str} (h : '/' ∉ id) : Proper (id ++ imageExt) := by
  have hlen : 4 ≤ (id ++ imageExt).length := by simp [imageExt]
  refine ⟨?_, ?_, ?_, ?_⟩
  · intro he
    simp [he] at hlen
  · intro he
    simp [he] at hlen
  · intro he
    simp [he] at hlen
  · rw [List.mem_append, not_or]
    exact ⟨h, by decide⟩

theorem Site.imagePath_of_subDir (S : Site) {c : Config} {ss : List Str} (hss : ∀ e ∈ ss, Proper e)
    (hsub : c.subDir = ['/'].intercalate ss) {id : Str} (hid : '/' ∉ id) :
    S.imagePath c id =
      absPath (S.rootElems ++ S.hashID c.mountKey :: (ss ++ [id ++ imageExt])) := by
  have hmp : ∀ e ∈ [S.hashID c.mountKey], Proper e := by
    simpa using S.hashID_proper c.mountKey
  have hnp : ∀ e ∈ [id ++ imageExt], Proper e := by
    simpa using imageName_proper hid
  have hm : S.mountDir c = absPath (S.rootElems ++ [S.hashID c.mountKey]) := by
    unfold Site.mountDir Site.root
    rw [← join_absPath S.root_proper hmp S.root_ne (by simp), List.intercalate_singleton]
  have hmount : ∀ e ∈ S.rootElems ++ [S.hashID c.mountKey], Proper e := by
    intro e he
    rcases List.mem_append.mp he with he | he
    · exact S.root_proper e he
    · exact hmp e he
  have hs : S.storePath c = absPath (S.rootElems ++ [S.hashID c.mountKey] ++ ss) := by
    unfold Site.storePath
    cases ss with
    | nil =>
      rw [if_pos (by simpa using hsub), hm, List.append_nil]
    | cons e ss =>
      have hne : c.subDir ≠ [] := by
        rw [hsub, intercalate_slash]
        simp [(hss e List.mem_cons_self).ne_nil]
      rw [if_neg hne, hm, hsub, join_absPath hmount hss (by simp) (by simp)]
  have hstore : ∀ e ∈ S.rootElems ++ [S.hashID c.mountKey] ++ ss, Proper e := by
    intro e he
    rcases List.mem_append.mp he with he | he
    · exact hmount e he
    · exact hss e he
  have hj := join_absPath hstore hnp (by simp) (by simp)
  rw [List.intercalate_singleton] at hj
  unfold Site.imagePath
  rw [hs, hj]
  simp

theorem Site.imagePath_eq (S : Site) {c : Config} (hc : c.Valid) {id : Str} (hid : '/' ∉ id) :
    ∃ ss : List Str, (∀ e ∈ ss, Proper e) ∧ S.imagePath c id =
      absPath (S.rootElems ++ S.hashID c.mountKey :: (ss ++ [id ++ imageExt])) := by
  obtain ⟨ss, hss, hsub⟩ := hc
  exact ⟨ss, hss, S.imagePath_of_subDir hss hsub hid⟩

theorem dropWhile_ne_slash {e : Str} (he : '/' ∉ e) (es : List Str) :
    (e ++ absPath es).dropWhile (· ≠ '/') = absPath es := by
  have hall : ∀ c ∈ e, decide (c ≠ '/') = true := by
    intro c hc
    simp only [decide_eq_true_eq]
    rintro rfl
    exact he hc
  rw [List.dropWhile_append_of_pos hall]
  cases es with
  | nil => rfl
  | cons e' es => simp

theorem Site.below_absPath (S : Site) {m : Str} (hm : '/' ∉ m) (es : List Str) :
    S.below (absPath (S.rootElems ++ m :: es)) = absPath es := by
  have hp : absPath (S.rootElems ++ m :: es) = (S.root ++ ['/']) ++ (m ++ absPath es) := by
    simp [Site.root]
  unfold Site.below
  rw [hp, cutPrefix_append]
  exact dropWhile_ne_slash hm es

theorem base_absPath (es : List Str) {e : Str} (he : Proper e) : base (absPath (es ++ [e])) = e := by
  rw [absPath_append]
  simpa using base_of_append (absPath es) he.ne_nil he.noSlash

end Fileblock.Store
