import Fileblock.Go.Fields
import Fileblock.Store.Config

/-! The identifiers of a backing store. Both hash a key of `|`-joined fields, and
the operator's strings stand in those fields as they are. `hash` is `hashID`. -/
namespace Fileblock.Store
open Go

/-- The options of a mount, trimmed, without the empty ones. -/
def cleanOptions (opts : Str) : List Str := ((split opts ',').map trimSpace).filter (· ≠ [])

/-- The fields of `mountKey`. -/
def Config.mountFields : Config → List Str
  | .nfs server path options _ => ["nfs", server, path, canonicalOptions options]
  | .localDir path _ => ["local", path]

/-- The fields of `storeKey`. -/
def Config.storeFields (c : Config) : List Str :=
  if c.subDir = [] then c.mountFields else c.mountFields ++ [c.subDir]

/-- Names the mount directory. -/
def Config.mountID (hash : Str → Str) (c : Config) : Str := hash c.mountKey

/-- Names the directory images live in; part of every volume ID. -/
def Config.storeID (hash : Str → Str) (c : Config) : Str := hash c.storeKey

/-- Two configs that mount the same thing with the same options. -/
def Config.SameSource : Config → Config → Prop
  | .nfs server path options _, .nfs server' path' options' _ =>
    server = server' ∧ path = path' ∧
      (cleanOptions options : Multiset Str) = (cleanOptions options' : Multiset Str)
  | .localDir path _, .localDir path' _ => path = path'
  | _, _ => False

instance (c c' : Config) : Decidable (c.SameSource c') := by
  cases c <;> cases c' <;> unfold Config.SameSource <;> infer_instance

/-- Fields that join to one text although the separators inside them fall
elsewhere. -/
def Shifted (fields fields' : List Str) : Prop :=
  ['|'].intercalate fields = ['|'].intercalate fields' ∧
    fields.map (List.count '|') ≠ fields'.map (List.count '|')

instance (fields fields' : List Str) : Decidable (Shifted fields fields') := by
  unfold Shifted
  infer_instance

theorem mem_cleanOptions {opts o : Str} (h : o ∈ cleanOptions opts) : o ≠ [] ∧ ',' ∉ o := by
  obtain ⟨hm, hne⟩ := List.mem_filter.mp h
  obtain ⟨p, hp, rfl⟩ := List.mem_map.mp hm
  constructor
  · simpa using hne
  · intro hc
    exact not_mem_of_mem_split hp (mem_of_mem_trimSpace hc)

theorem canonicalOptions_eq_iff (opts opts' : Str) :
    canonicalOptions opts = canonicalOptions opts' ↔
      (cleanOptions opts : Multiset Str) = (cleanOptions opts' : Multiset Str) := by
  have hread : ∀ o, (split (canonicalOptions o) ',').filter (· ≠ []) =
      (cleanOptions o).mergeSort fun a b => decide (a ≤ b) := by
    intro o
    have hmem : ∀ l ∈ (cleanOptions o).mergeSort (fun a b => decide (a ≤ b)), l ≠ [] ∧ ',' ∉ l :=
      fun l hl => mem_cleanOptions ((List.mergeSort_perm _ _).mem_iff.mp hl)
    exact filter_split_intercalate (fun l hl => (hmem l hl).1) (fun l hl => (hmem l hl).2)
  have hperm : ∀ o, ((split (canonicalOptions o) ',').filter (· ≠ [])).Perm (cleanOptions o) := by
    intro o
    rw [hread]
    exact List.mergeSort_perm _ _
  rw [Multiset.coe_eq_coe]
  constructor
  · intro h
    have ho := hperm opts
    rw [h] at ho
    exact ho.symm.trans (hperm opts')
  · intro h
    change [','].intercalate ((cleanOptions opts).mergeSort fun a b => decide (a ≤ b)) =
      [','].intercalate ((cleanOptions opts').mergeSort fun a b => decide (a ≤ b))
    rw [mergeSort_eq_of_perm h]

theorem Config.mountKey_eq (c : Config) : c.mountKey = ['|'].intercalate c.mountFields := by
  cases c <;> rfl

theorem Config.storeKey_eq (c : Config) : c.storeKey = ['|'].intercalate c.storeFields := by
  cases c with
  | localDir path shared => rfl
  | nfs server path options sub =>
    by_cases hs : sub = []
    · simp [storeKey, storeFields, subDir, hs, mountKey_eq, mountFields]
    · simp [storeKey, storeFields, subDir, hs, mountKey_eq, mountFields,
        List.intercalate_cons_cons]

theorem Config.storeKey_eq_mountKey_iff (c : Config) : c.storeKey = c.mountKey ↔ c.subDir = [] := by
  cases c with
  | localDir path shared => simp [storeKey, subDir]
  | nfs server path options sub =>
    by_cases hs : sub = [] <;> simp [storeKey, subDir, hs]

theorem Config.sameSource_iff (c c' : Config) :
    c.SameSource c' ↔ c.mountFields = c'.mountFields := by
  cases c with
  | nfs server path options sub =>
    cases c' with
    | nfs => simp [SameSource, mountFields, canonicalOptions_eq_iff]
    | localDir => simp [SameSource, mountFields]
  | localDir path shared =>
    cases c' with
    | nfs => simp [SameSource, mountFields]
    | localDir => simp [SameSource, mountFields]

theorem Config.sameStore_iff (c c' : Config) :
    c.SameSource c' ∧ c.subDir = c'.subDir ↔ c.storeFields = c'.storeFields := by
  rw [sameSource_iff]
  unfold storeFields
  constructor
  · rintro ⟨hm, hs⟩
    rw [hm, hs]
  · intro h
    have hlen := congrArg List.length h
    split_ifs at h hlen with hs hs' hs'
    · exact ⟨h, hs.trans hs'.symm⟩
    · cases c <;> cases c' <;> simp_all [mountFields, subDir]
    · cases c <;> cases c' <;> simp_all [mountFields, subDir]
    · have := List.append_inj' h rfl
      exact ⟨this.1, by simpa using this.2⟩

/-- Joined fields identify what they are made of unless separators moved. -/
theorem join_identifies_iff (l l' : List Str) :
    (['|'].intercalate l = ['|'].intercalate l' ↔ l = l') ↔ ¬ Shifted l l' := by
  constructor
  · intro h hs
    exact hs.2 (by rw [h.mp hs.1])
  · intro h
    constructor
    · intro hj
      by_contra hne
      exact h ⟨hj, fun hc => hne (intercalate_inj hj hc)⟩
    · rintro rfl
      rfl

/-- Exactly when the identifiers of two configs tell their mounts and stores apart. -/
theorem ids_identify_iff (hash : Str → Str) (c c' : Config)
    (hinj : Set.InjOn hash {c.mountKey, c.storeKey, c'.mountKey, c'.storeKey}) :
    ((c.mountID hash = c'.mountID hash ↔ c.SameSource c') ∧
      (c.storeID hash = c'.storeID hash ↔ c.SameSource c' ∧ c.subDir = c'.subDir) ∧
      (c.storeID hash = c.mountID hash ↔ c.subDir = []) ∧
      (c'.storeID hash = c'.mountID hash ↔ c'.subDir = [])) ↔
    ¬ Shifted c.mountFields c'.mountFields ∧ ¬ Shifted c.storeFields c'.storeFields := by
  have hm : c.mountID hash = c'.mountID hash ↔ c.mountKey = c'.mountKey :=
    hinj.eq_iff (by simp) (by simp)
  have hs : c.storeID hash = c'.storeID hash ↔ c.storeKey = c'.storeKey :=
    hinj.eq_iff (by simp) (by simp)
  have hc : c.storeID hash = c.mountID hash ↔ c.storeKey = c.mountKey :=
    hinj.eq_iff (by simp) (by simp)
  have hc' : c'.storeID hash = c'.mountID hash ↔ c'.storeKey = c'.mountKey :=
    hinj.eq_iff (by simp) (by simp)
  have hmount : (c.mountKey = c'.mountKey ↔ c.SameSource c') ↔
      ¬ Shifted c.mountFields c'.mountFields := by
    rw [Config.mountKey_eq, Config.mountKey_eq, Config.sameSource_iff]
    exact join_identifies_iff _ _
  have hstore : (c.storeKey = c'.storeKey ↔ c.SameSource c' ∧ c.subDir = c'.subDir) ↔
      ¬ Shifted c.storeFields c'.storeFields := by
    rw [Config.storeKey_eq, Config.storeKey_eq, Config.sameStore_iff]
    exact join_identifies_iff _ _
  rw [hm, hs, hc, hc', hmount, hstore, Config.storeKey_eq_mountKey_iff,
    Config.storeKey_eq_mountKey_iff]
  simp only [and_true]

theorem canonicalOptions_nil : canonicalOptions [] = [] := by
  simp [canonicalOptions, split, trimSpace]

theorem ids_identify_subDir :
    (Config.nfs ['a'] ['b'] [] []).mountID id = (Config.nfs ['a'] ['b'] [] ['c']).mountID id ∧
      (Config.nfs ['a'] ['b'] [] []).storeID id ≠ (Config.nfs ['a'] ['b'] [] ['c']).storeID id := by
  have hid := (ids_identify_iff id (.nfs ['a'] ['b'] [] []) (.nfs ['a'] ['b'] [] ['c'])
    (Set.injOn_id _)).mpr
    (by simp [Shifted, Config.mountFields, Config.storeFields, Config.subDir, canonicalOptions_nil,
      List.intercalate_cons_cons])
  constructor
  · exact hid.1.mpr ⟨rfl, rfl, rfl⟩
  · intro h
    simpa [Config.subDir] using (hid.2.1.mp h).2

/-- The export `/x|/y` of `nas` and the export `/y` of `nas|/x` share every identifier. -/
theorem ids_collide :
    ∃ c c' : Config,
      configFromParams [(paramType, "nfs"), (paramNFSServer, "nas"), (paramNFSPath, "/x|/y")] =
        .ok c ∧
      configFromParams [(paramType, "nfs"), (paramNFSServer, "nas|/x"), (paramNFSPath, "/y")] =
        .ok c' ∧
      (∀ hash, c.mountID hash = c'.mountID hash ∧ c.storeID hash = c'.storeID hash) ∧
      ¬ c.SameSource c' := by
  refine ⟨.nfs "nas" "/x|/y" "" "", .nfs "nas|/x" "/y" "" "", by decide, by decide, ?_, by decide⟩
  have hm : (Config.nfs "nas" "/x|/y" "" "").mountKey =
      (Config.nfs "nas|/x" "/y" "" "").mountKey := rfl
  intro hash
  exact ⟨congrArg hash hm, congrArg hash hm⟩

end Fileblock.Store
