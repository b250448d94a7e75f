import Fileblock.Store.Layout
import Fileblock.Node.MountInfo

/-! The volumes of a node as the rest of the cluster presents them: what the
controller put into their identifiers and contexts, and where the kubelet stages
them. -/
namespace Fileblock.Node
open Go Store

abbrev VolumeID := Str

/-- Each volume has one identifier, one context (the one `CreateVolume` returned)
and the paths at which it is staged, which name no place of another volume or of a pod. -/
structure Volumes (S : Site) (ι : Type) where
  id : ι → VolumeID
  id_injective : Function.Injective id
  id_ne : ∀ v, id v ≠ []
  id_noSlash : ∀ v, '/' ∉ id v
  mapper_injective : Function.Injective fun v => S.mapperName (id v)
  context : ι → Params
  config : ι → Config
  parsed : ∀ v, configFromVolumeContext (context v) = .ok (config v)
  paths : ι → Set Str
  paths_apart : ∀ {u v p q}, p ∈ paths u → q ∈ paths v → S.resolve p = S.resolve q → u = v
  paths_ne : ∀ {v p}, p ∈ paths v → p ≠ []
  paths_notPod : ∀ {v p}, p ∈ paths v → podVolume (S.resolve p) = none

namespace Volumes
variable {S : Site} {ι : Type} (V : Volumes S ι)

def image (v : ι) : Str := S.imagePath (V.config v) (V.id v)

def mapper (v : ι) : String := S.mapperName (V.id v)

/-- Where the volume's staging paths lead. -/
def places (v : ι) : Set Str := S.resolve '' V.paths v

/-- The path leads to none of the staging paths. -/
def Outside (path : Str) : Prop := ∀ v, S.resolve path ∉ V.places v

/-- The volume is staged at one path only, and the mount table shows it under that path. -/
structure StagedAt (v : ι) (path : Str) : Prop where
  only : V.paths v = {path}
  canonical : S.resolve path = path

theorem mem_places {v : ι} {p : Str} (hp : p ∈ V.paths v) : S.resolve p ∈ V.places v :=
  Set.mem_image_of_mem _ hp

theorem places_apart {u v : ι} {t : Str} (hu : t ∈ V.places u) (hv : t ∈ V.places v) : u = v := by
  obtain ⟨p, hp, rfl⟩ := hu
  obtain ⟨q, hq, he⟩ := hv
  exact V.paths_apart hp hq he.symm

/-- The name of a volume's image file, silly-renamed or not. -/
def fileName (v : ι) : Option Silly → Str
  | none => V.id v ++ imageExt
  | some hex => ".nfs".toList ++ hex.1

theorem fileName_proper (v : ι) (silly : Option Silly) : Proper (V.fileName v silly) := by
  cases silly with
  | none => exact imageName_proper (V.id_noSlash v)
  | some hex =>
    have hlen : 4 ≤ (V.fileName v (some hex)).length := by simp [fileName]
    refine ⟨?_, ?_, ?_, ?_⟩
    · intro h
      simp [h] at hlen
    · intro h
      simp [h] at hlen
    · intro h
      simp [h] at hlen
    · unfold fileName
      rw [List.mem_append, not_or]
      exact ⟨by decide, fun h => isHex_ne_slash (List.all_eq_true.mp hex.2.2 _ h) rfl⟩

theorem reported_eq (v : ι) : ∃ ss : List Str, (∀ e ∈ ss, Proper e) ∧
    ∀ fresh silly, S.reported (V.image v) fresh silly =
      if fresh then
        absPath (S.rootElems ++ S.hashID (V.config v).mountKey :: (ss ++ [V.fileName v silly]))
      else absPath (ss ++ [V.fileName v silly]) := by
  obtain ⟨ss, hss, hi⟩ := S.imagePath_eq (configFromParams_valid (V.parsed v)) (V.id_noSlash v)
  have hm := (S.hashID_proper (V.config v).mountKey).noSlash
  refine ⟨ss, hss, fun fresh silly => ?_⟩
  have hname : S.reported (V.image v) true silly =
      absPath (S.rootElems ++ S.hashID (V.config v).mountKey :: (ss ++ [V.fileName v silly])) := by
    cases silly with
    | none => exact hi
    | some hex =>
      have hd : (V.image v).rdropWhile (· ≠ '/') =
          absPath (S.rootElems ++ S.hashID (V.config v).mountKey :: ss) ++ ['/'] := by
        have he : V.image v = absPath (S.rootElems ++ S.hashID (V.config v).mountKey :: ss) ++
            '/' :: (V.id v ++ imageExt) := by
          rw [image, hi]
          simp
        rw [he, rdropWhile_ne_slash _ (imageName_proper (V.id_noSlash v)).noSlash]
      simp only [Site.reported, hd, if_true, fileName]
      simp
  cases fresh with
  | true => exact hname
  | false =>
    have hb : S.reported (V.image v) false silly = S.below (S.reported (V.image v) true silly) := by
      simp [Site.reported]
    rw [hb, hname, S.below_absPath hm]
    simp

theorem base_reported (v : ι) (fresh : Bool) (silly : Option Silly) :
    base (S.reported (V.image v) fresh silly) = V.fileName v silly := by
  obtain ⟨ss, -, h⟩ := V.reported_eq v
  have hp := V.fileName_proper v silly
  rw [h]
  cases fresh with
  | true =>
    have := base_absPath (S.rootElems ++ S.hashID (V.config v).mountKey :: ss) hp
    simpa using this
  | false => exact base_absPath ss hp

theorem base_image (v : ι) : base (V.image v) = V.id v ++ imageExt := V.base_reported v true none

theorem image_injective : Function.Injective V.image := by
  intro v w h
  have hb := congrArg base h
  rw [base_image, base_image] at hb
  exact V.id_injective (List.append_cancel_right hb)

theorem fileName_eq_iff {v w : ι} {silly : Option Silly} :
    V.fileName v silly = V.id w ++ imageExt ↔ v = w ∧ silly = none := by
  cases silly with
  | none =>
    simp only [fileName, and_true]
    exact ⟨fun h => V.id_injective (List.append_cancel_right h), fun h => h ▸ rfl⟩
  | some hex =>
    simp only [reduceCtorEq, and_false, iff_false]
    intro h
    have hlast := congrArg List.getLast? h
    rw [fileName, List.getLast?_append_of_ne_nil _ hex.2.1,
      List.getLast?_append_of_ne_nil _ (by decide)] at hlast
    have hg : 'g' ∈ hex.1 := List.mem_of_getLast? hlast
    exact absurd (List.all_eq_true.mp hex.2.2 _ hg) (by decide)

/-- A name is a silly rename exactly when the image was unlinked. -/
theorem sillyRenamed_reported {v : ι} {fresh : Bool} {silly : Option Silly} :
    sillyRenamed (S.reported (V.image v) fresh silly) = true ↔ silly ≠ none := by
  unfold sillyRenamed
  rw [V.base_reported]
  cases silly with
  | none =>
    simp only [ne_eq, not_true_eq_false, iff_false, sillyName, fileName, Bool.and_eq_true, not_and]
    rintro ⟨-, hne⟩ hall
    have hlast : ((V.id v ++ imageExt).drop 4).getLast? = some 'g' := by
      rw [List.getLast?_drop, if_neg (by simpa using hne),
        List.getLast?_append_of_ne_nil _ (by decide)]
      rfl
    have hg := List.all_eq_true.mp hall _ (List.mem_of_getLast? hlast)
    exact absurd hg (by decide)
  | some hex =>
    have hd : (".nfs".toList ++ hex.1).drop 4 = hex.1 := by simp
    simp only [ne_eq, reduceCtorEq, not_false_eq_true, iff_true, sillyName, fileName,
      Bool.and_eq_true, decide_eq_true_eq, hd]
    exact ⟨⟨by simp, hex.2.1⟩, hex.2.2⟩

/-- Only a volume's own image, under its own name, backs its path. -/
theorem backs_reported {v w : ι} {fresh : Bool} {silly : Option Silly} :
    backs (S.reported (V.image v) fresh silly) (V.image w) = true ↔ v = w ∧ silly = none := by
  have hb := V.base_reported v fresh silly
  constructor
  · intro h
    rw [← V.fileName_eq_iff, ← hb, ← V.base_image]
    simp only [backs, Bool.or_eq_true, decide_eq_true_eq, Bool.and_eq_true] at h
    rcases h with h | h
    · rw [h]
    · exact h.2
  · rintro ⟨rfl, rfl⟩
    obtain ⟨ss, -, hr⟩ := V.reported_eq v
    have hi : V.image v = S.reported (V.image v) true none := rfl
    cases fresh with
    | true => simp [backs, ← hi]
    | false =>
      have hsuf : S.reported (V.image v) false none <:+ V.image v := by
        rw [hi, ← hi, hr false none]
        conv_rhs => rw [hi, hr true none]
        exact ⟨absPath (S.rootElems ++ [S.hashID (V.config v).mountKey]), by simp⟩
      have hpre : ['/'] <+: S.reported (V.image v) false none := by
        rw [hr false none]
        cases ss <;> simp
      simp [backs, hsuf, hpre, hb, V.base_image, fileName]

end Volumes
end Fileblock.Node
