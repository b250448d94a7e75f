import Fileblock.Controller.Request
import Fileblock.Node.Reconcile

/-! Volume identifiers. A name is made into one in one place, and the identifier or
the image file named after it is recognised again in five others. -/
namespace Fileblock.Controller
open Go Store Node

/-- `Losetup.List`: the kernel's mark on an unlinked file is not part of its name. -/
def listed (rows : List Attachment) : List Attachment :=
  rows.map fun a => { a with backFile := trimSuffix a.backFile deletedSuffix }

/-- `Losetup.FindImage`: by name, whatever the directory. -/
def findImage (name : Str) (a : Attachment) : Bool := base a.backFile = name

/-- Characters that neither a name nor a volume ID may have. -/
def invalidChars : Str := ['/', '\\', Char.ofNat 0]

def volumeIDFromName (hash : Str → Str) (cfg : Config) (name : Str) : Except Status Str :=
  if name.any (· ∈ invalidChars) then
    .error ⟨.invalidArgument, "name \"" ++ String.ofList name ++ "\" contains invalid characters"⟩
  else .ok ("fb-".toList ++ cfg.storeID hash ++ '-' :: name)

/-- The first `n` bytes and the rest, when the cut is between two characters. -/
def cutBytes : (n : ℕ) → Str → Option (Str × Str)
  | 0, s => some ([], s)
  | _ + 1, [] => none
  | n + 1, c :: s =>
    if c.utf8Size ≤ n + 1 then
      (cutBytes (n + 1 - c.utf8Size) s).map fun (a, b) => (c :: a, b)
    else none

def parseStoreIDFromVolumeID (volumeID : Str) : Except Status Str :=
  match cutPrefix volumeID "fb-" with
  | none => .error ⟨.notFound, "volumeID \"" ++ String.ofList volumeID ++
      "\" is not in fb-<storeID>-<name> form"⟩
  | some rest => match cutBytes 12 rest with
    | some (storeID, '-' :: _) => .ok storeID
    | _ => .error ⟨.notFound, "volumeID \"" ++ String.ofList volumeID ++
        "\" has malformed storeID segment"⟩

theorem cutBytes_append {a : Str} (ha : ∀ c ∈ a, c.utf8Size = 1) (s : Str) :
    cutBytes a.length (a ++ s) = some (a, s) := by
  induction a with
  | nil => simp [cutBytes]
  | cons c a ih =>
    have hc := ha c List.mem_cons_self
    rw [List.length_cons, List.cons_append, cutBytes, hc, if_pos (by omega), Nat.add_sub_cancel,
      ih fun x hx => ha x (List.mem_cons_of_mem _ hx)]
    rfl

theorem utf8Size_of_isHex {c : Char} (h : isHex c = true) : c.utf8Size = 1 := by
  have hall : ∀ c ∈ "0123456789abcdef".toList, c.val ≤ 127 := by simp
  exact Char.utf8Size_eq_one_iff.mpr (hall c (by simpa [isHex] using h))

theorem hashID_length (S : Site) (key : Str) : (S.hashID key).length = 12 := by
  simp [Site.hashID, S.sum_length]

theorem hashID_hex (S : Site) (key : Str) : ∀ c ∈ S.hashID key, isHex c = true :=
  fun c hc => S.sum_hex key c (List.mem_of_mem_take hc)

theorem volumeIDFromName_ok {hash : Str → Str} {cfg : Config} {name v : Str}
    (h : volumeIDFromName hash cfg name = .ok v) :
    '/' ∉ name ∧ v = "fb-".toList ++ cfg.storeID hash ++ '-' :: name := by
  unfold volumeIDFromName at h
  split_ifs at h with hn
  refine ⟨?_, (Except.ok.inj h).symm⟩
  intro hs
  exact hn (List.any_eq_true.mpr ⟨'/', hs, by decide⟩)

/-- The identifier is cut at fixed positions, so hyphens in the name do no harm. -/
theorem parseStoreID_of_hex {hash : Str → Str} (hlen : ∀ key, (hash key).length = 12)
    (hhex : ∀ key, ∀ c ∈ hash key, isHex c = true) {cfg : Config} {name v : Str}
    (h : volumeIDFromName hash cfg name = .ok v) :
    parseStoreIDFromVolumeID v = .ok (cfg.storeID hash) := by
  obtain ⟨-, rfl⟩ := volumeIDFromName_ok h
  have hcut : cutBytes 12 (cfg.storeID hash ++ '-' :: name) =
      some (cfg.storeID hash, '-' :: name) := by
    have := cutBytes_append (fun c hc => utf8Size_of_isHex (hhex cfg.storeKey c hc)) ('-' :: name)
    rwa [hlen] at this
  unfold parseStoreIDFromVolumeID
  rw [List.append_assoc, cutPrefix_append]
  simp only [hcut]

theorem parseStoreID_volumeIDFromName (S : Site) {cfg : Config} {name v : Str}
    (h : volumeIDFromName S.hashID cfg name = .ok v) :
    parseStoreIDFromVolumeID v = .ok (cfg.storeID S.hashID) :=
  parseStoreID_of_hex (hashID_length S) (hashID_hex S) h

/-- A volume ID `CreateVolume` can answer with, for a config it accepts. -/
def Issued (S : Site) (cfg : Config) (v : Str) : Prop :=
  ∃ params name, configFromParams params = .ok cfg ∧ name ≠ [] ∧
    volumeIDFromName S.hashID cfg name = .ok v

/-- The path of an image relative to the mount of its store. -/
def imageBelow (cfg : Config) (v : Str) : Str :=
  if cfg.subDir = [] then '/' :: (v ++ imageExt) else '/' :: cfg.subDir ++ '/' :: (v ++ imageExt)

variable {S : Site} {cfg cfg' : Config} {v v' back : Str}

theorem Issued.noSlash (h : Issued S cfg v) : '/' ∉ v := by
  obtain ⟨params, name, -, -, hv⟩ := h
  obtain ⟨hname, rfl⟩ := volumeIDFromName_ok hv
  intro hs
  simp only [List.mem_append, List.mem_cons] at hs
  rcases hs with (hs | hs) | hs | hs
  · exact absurd hs (by decide)
  · exact isHex_ne_slash (hashID_hex S _ _ hs) rfl
  · exact absurd hs (by decide)
  · exact hname hs

theorem Issued.paths (h : Issued S cfg v) : ∃ ss : List Str, (∀ e ∈ ss, Proper e) ∧
    S.imagePath cfg v = absPath (S.rootElems ++ S.hashID cfg.mountKey :: (ss ++ [v ++ imageExt])) ∧
    imageBelow cfg v = absPath (ss ++ [v ++ imageExt]) := by
  have hs := h.noSlash
  obtain ⟨params, name, hc, -, -⟩ := h
  obtain ⟨ss, hss, hsub⟩ := configFromParams_valid hc
  refine ⟨ss, hss, S.imagePath_of_subDir hss hsub hs, ?_⟩
  unfold imageBelow
  cases ss with
  | nil => simp [hsub]
  | cons e ss =>
    have hne := (hss e List.mem_cons_self).ne_nil
    rw [hsub, intercalate_slash, if_neg (by simp [hne])]
    simp

theorem Issued.base_eq (h : Issued S cfg v) (hb : back ∈ [S.imagePath cfg v, imageBelow cfg v]) :
    base back = v ++ imageExt := by
  have hp := imageName_proper h.noSlash
  obtain ⟨ss, -, hP, hT⟩ := h.paths
  simp only [List.mem_cons, List.not_mem_nil, or_false] at hb
  rcases hb with rfl | rfl
  · rw [hP, ← List.cons_append, ← List.append_assoc]
    exact base_absPath _ hp
  · rw [hT]
    exact base_absPath _ hp

theorem Issued.backs (h : Issued S cfg v) (hb : back ∈ [S.imagePath cfg v, imageBelow cfg v]) :
    Store.backs back (S.imagePath cfg v) = true := by
  have hbase := h.base_eq hb
  have hself := h.base_eq (List.mem_cons_self : S.imagePath cfg v ∈ _)
  obtain ⟨ss, -, hP, hT⟩ := h.paths
  simp only [List.mem_cons, List.not_mem_nil, or_false] at hb
  rcases hb with rfl | rfl
  · simp [Store.backs]
  · have hpre : ['/'] <+: imageBelow cfg v := by
      rw [hT]
      cases ss <;> simp
    have hsuf : imageBelow cfg v <:+ S.imagePath cfg v := by
      rw [hT, hP]
      exact ⟨absPath (S.rootElems ++ [S.hashID cfg.mountKey]), by simp⟩
    simp [Store.backs, hpre, hsuf, hbase, hself]

theorem issuedName_image {name : Str} (hn : name ≠ []) (key : Str) :
    issuedName ("fb-".toList ++ S.hashID key ++ '-' :: name ++ imageExt) = true := by
  have hlen := hashID_length S key
  have h3 : ("fb-".toList ++ S.hashID key ++ '-' :: name ++ imageExt).drop 3 =
      S.hashID key ++ ('-' :: name ++ imageExt) := by simp
  have h15 : ("fb-".toList ++ S.hashID key ++ '-' :: name ++ imageExt).drop 15 =
      '-' :: name ++ imageExt := by
    rw [show 15 = 3 + 12 from rfl, ← List.drop_drop, h3, ← hlen, List.drop_left]
  have h16 : ("fb-".toList ++ S.hashID key ++ '-' :: name ++ imageExt).drop 16 =
      name ++ imageExt := by
    rw [show 16 = 15 + 1 from rfl, ← List.drop_drop, h15]
    rfl
  have h12 : (("fb-".toList ++ S.hashID key ++ '-' :: name ++ imageExt).drop 3).take 12 =
      S.hashID key := by
    rw [h3, ← hlen, List.take_left]
  have hname : 4 < (name ++ imageExt).length := by
    have := List.length_pos_of_ne_nil hn
    have h4 : imageExt.length = 4 := rfl
    rw [List.length_append]
    omega
  unfold issuedName
  rw [h12, h15, h16]
  simp only [Bool.and_eq_true, decide_eq_true_eq, hasPrefix_iff, hasSuffix_iff, List.all_eq_true]
  refine ⟨⟨⟨⟨⟨?_, hlen⟩, hashID_hex S key⟩, ?_⟩, List.suffix_append _ _⟩, hname⟩
  · simp
  · simp

theorem Issued.disconnected (h : Issued S cfg v) : disconnectedImage (imageBelow cfg v) = true := by
  have hp := imageName_proper h.noSlash
  obtain ⟨ss, hss, -, hT⟩ := h.paths
  obtain ⟨params, name, -, hn, hv⟩ := h
  obtain ⟨-, rfl⟩ := volumeIDFromName_ok hv
  have hall : ∀ e ∈ ss ++ ["fb-".toList ++ cfg.storeID S.hashID ++ '-' :: name ++ imageExt], Proper e := by
    intro e he
    rcases List.mem_append.mp he with he | he
    · exact hss e he
    · rw [List.mem_singleton.mp he]
      exact hp
  unfold disconnectedImage
  rw [hT, split_absPath hall]
  simp only [List.dropLast_concat, List.getLast?_concat, Option.map_some, Option.getD_some,
    Bool.and_eq_true]
  refine ⟨?_, issuedName_image hn _⟩
  rw [List.all_eq_true]
  intro e he
  simpa using (hss e he).ne_nil

theorem trimSuffix_append (s p : Str) : trimSuffix (s ++ p) p = s := by
  simp [trimSuffix]

theorem trimSuffix_image {s : Str} (hs : imageExt <:+ s) (raw : Str)
    (hraw : raw = s ∨ raw = s ++ deletedSuffix) : trimSuffix raw deletedSuffix = s := by
  rcases hraw with rfl | rfl
  · refine trimSuffix_of_not _ _ ?_
    intro hd
    obtain ⟨a, rfl⟩ := hs
    obtain ⟨b, hb⟩ := hd
    have hlast := congrArg List.getLast? hb
    rw [List.getLast?_append_of_ne_nil _ (by decide),
      List.getLast?_append_of_ne_nil _ (by decide)] at hlast
    exact absurd hlast (by decide)
  · exact trimSuffix_append _ _

theorem liveByDev_listed (rows : List Attachment) (dev : ℕ) :
    liveByDev (listed rows) dev = (liveByDev rows dev).map (trimSuffix · deletedSuffix) := by
  unfold liveByDev listed
  rw [List.filter_map, List.getLast?_map]
  simp [Option.map_map, Function.comp_def]

theorem clean_imagePath (h : Issued S cfg v) : clean (S.imagePath cfg v) = S.imagePath cfg v := by
  have hp := imageName_proper h.noSlash
  obtain ⟨ss, hss, hP, -⟩ := h.paths
  rw [hP]
  refine clean_absPath ?_ (by simp)
  intro e he
  simp only [List.mem_append, List.mem_cons, List.not_mem_nil, or_false] at he
  rcases he with he | rfl | he | rfl
  · exact S.root_proper e he
  · exact S.hashID_proper _
  · exact hss e he
  · exact hp

/-- A loop on an issued image is one of the driver's, with its store mount or
without, and also when the image has been deleted. -/
theorem Issued.ours (h : Issued S cfg v) {rows : List Attachment} {dev : ℕ} {raw : Str}
    (hb : back ∈ [S.imagePath cfg v, imageBelow cfg v])
    (hraw : raw = back ∨ raw = back ++ deletedSuffix) (hrow : liveByDev rows dev = some raw) :
    Node.ours S (listed rows) dev = true := by
  have hext : imageExt <:+ back := by
    obtain ⟨ss, -, hP, hT⟩ := h.paths
    simp only [List.mem_cons, List.not_mem_nil, or_false] at hb
    rcases hb with rfl | rfl
    · rw [hP]
      exact ⟨absPath (S.rootElems ++ S.hashID cfg.mountKey :: ss) ++ '/' :: v, by simp⟩
    · rw [hT]
      exact ⟨absPath ss ++ '/' :: v, by simp⟩
  unfold Node.ours
  rw [liveByDev_listed, hrow, Option.map_some, trimSuffix_image hext raw hraw, Option.any_some,
    Bool.or_eq_true]
  simp only [List.mem_cons, List.not_mem_nil, or_false] at hb
  rcases hb with rfl | rfl
  · left
    obtain ⟨ss, -, hP, -⟩ := h.paths
    rw [clean_imagePath h, Site.root, clean_absPath S.root_proper S.root_ne, hP,
      List.isPrefixOf_iff_prefix]
    exact ⟨S.hashID cfg.mountKey ++ absPath (ss ++ [v ++ imageExt]), by simp⟩
  · exact Or.inr h.disconnected

theorem Issued.not_sillyRenamed (h : Issued S cfg v)
    (hb : back ∈ [S.imagePath cfg v, imageBelow cfg v]) : sillyRenamed back = false := by
  unfold sillyRenamed
  rw [h.base_eq hb]
  obtain ⟨params, name, -, -, hv⟩ := h
  obtain ⟨-, rfl⟩ := volumeIDFromName_ok hv
  rfl

theorem Issued.rejects (h : Issued S cfg v) (h' : Issued S cfg' v') (hne : v' ≠ v)
    (hb : back ∈ [S.imagePath cfg' v', imageBelow cfg' v']) (dev : ℕ) (entry : Option Mapping) :
    Store.backs back (S.imagePath cfg v) = false ∧ findImage (v ++ imageExt) ⟨dev, back⟩ = false ∧
      stagedLoop v entry ⟨dev, back⟩ = false := by
  have hbase := h'.base_eq hb
  have hself := h.base_eq (List.mem_cons_self : S.imagePath cfg v ∈ _)
  have hdiff : v' ++ imageExt ≠ v ++ imageExt := fun he => hne (List.append_cancel_right he)
  refine ⟨?_, ?_, ?_⟩
  · have hpath : back ≠ S.imagePath cfg v := by
      rintro rfl
      exact hdiff (hbase.symm.trans hself)
    simp [Store.backs, hpath, hbase, hself, hdiff]
  · simp [findImage, hbase, hdiff]
  · simp [stagedLoop, hbase, hdiff, h'.not_sillyRenamed hb]

theorem volumeIDFromName_injective {name name' : Str}
    (h : volumeIDFromName S.hashID cfg name = .ok v)
    (h' : volumeIDFromName S.hashID cfg' name' = .ok v) :
    cfg.storeID S.hashID = cfg'.storeID S.hashID ∧ name = name' := by
  obtain ⟨-, rfl⟩ := volumeIDFromName_ok h
  obtain ⟨-, heq⟩ := volumeIDFromName_ok h'
  rw [List.append_assoc, List.append_assoc] at heq
  have hlen : (cfg.storeID S.hashID).length = (cfg'.storeID S.hashID).length :=
    (hashID_length S _).trans (hashID_length S _).symm
  obtain ⟨hid, hname⟩ := List.append_inj (List.append_cancel_left heq) hlen
  exact ⟨hid, (List.cons.inj hname).2⟩

/-- Every place that recognises an issued image recognises it, and as itself only. -/
theorem issued_recognised (h : Issued S cfg v) :
    parseStoreIDFromVolumeID v = .ok (cfg.storeID S.hashID) ∧
    Store.backs (S.imagePath cfg v) (S.imagePath cfg v) = true ∧
    Store.backs (imageBelow cfg v) (S.imagePath cfg v) = true ∧
    disconnectedImage (imageBelow cfg v) = true ∧
    (∀ back ∈ [S.imagePath cfg v, imageBelow cfg v], ∀ rows dev,
      (liveByDev rows dev = some back ∨ liveByDev rows dev = some (back ++ deletedSuffix)) →
        Node.ours S (listed rows) dev = true) ∧
    (∀ back ∈ [S.imagePath cfg v, imageBelow cfg v], ∀ dev entry,
      findImage (v ++ imageExt) ⟨dev, back⟩ = true ∧ stagedLoop v entry ⟨dev, back⟩ = true) ∧
    (∀ cfg' v', Issued S cfg' v' → v' ≠ v → ∀ back ∈ [S.imagePath cfg' v', imageBelow cfg' v'],
      ∀ dev entry, Store.backs back (S.imagePath cfg v) = false ∧
        findImage (v ++ imageExt) ⟨dev, back⟩ = false ∧ stagedLoop v entry ⟨dev, back⟩ = false) ∧
    ∀ cfg' name name', volumeIDFromName S.hashID cfg name = .ok v →
      volumeIDFromName S.hashID cfg' name' = .ok v →
        cfg.storeID S.hashID = cfg'.storeID S.hashID ∧ name = name' := by
  refine ⟨?_, h.backs (by simp), h.backs (by simp), h.disconnected, ?_, ?_, ?_, ?_⟩
  · obtain ⟨params, name, -, -, hv⟩ := h
    exact parseStoreID_volumeIDFromName S hv
  · rintro back hb rows dev (hrow | hrow)
    · exact h.ours hb (Or.inl rfl) hrow
    · exact h.ours hb (Or.inr rfl) hrow
  · intro back hb dev entry
    have hbase := h.base_eq hb
    exact ⟨by simp [findImage, hbase], by simp [stagedLoop, hbase]⟩
  · intro cfg' v' h' hne back hb dev entry
    exact h.rejects h' hne hb dev entry
  · intro cfg' name name' hv hv'
    exact volumeIDFromName_injective hv hv'

/-- A node for fixed inputs, where every key has the same digest. -/
def plainSite : Site where
  pageSize := 4096
  resolve := clean
  rootElems := ["stores"]
  root_ne := by simp
  root_proper := by
    intro e he
    rw [List.mem_singleton.mp he]
    constructor <;> decide
  sum _ := List.replicate 64 'a'
  sum_length _ := List.length_replicate
  sum_hex _ c hc := by
    rw [List.eq_of_mem_replicate hc]
    decide

theorem issued_recognised_subDir :
    ∃ cfg v, Issued plainSite cfg v ∧ v = "fb-aaaaaaaaaaaa-my-db".toList ∧
      Store.backs "/team/fb-aaaaaaaaaaaa-my-db.img" (plainSite.imagePath cfg v) = true := by
  have hi : Issued plainSite (.nfs "nas" "/x" "" "team") "fb-aaaaaaaaaaaa-my-db" :=
    ⟨[(paramType, "nfs"), (paramNFSServer, "nas"), (paramNFSPath, "/x"), (paramNFSSubDir, "team")],
      "my-db", by decide, by decide, by decide⟩
  exact ⟨_, _, hi, rfl, (issued_recognised hi).2.2.1⟩

end Fileblock.Controller
