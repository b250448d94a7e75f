import Fileblock.Controller.Filed

/-! `ListVolumes`: what it finds in one directory, and in all those that the registry
knows. -/
namespace Fileblock.Controller
open Go Store Interaction
open Registry (Setup Caller CheckRes)
open Image (imageFile Metadata Directory)

section Directory
variable {d : Directory}

/-- An entry of a directory as a volume, if it is an image. -/
def volumeAt (d : Directory) (e : Str × Bool) : Option Metadata :=
  if e.2 || !hasSuffix e.1 imageExt then none
  else (d.files.lookup e.1).map fun f => ⟨trimSuffix e.1 imageExt, f.size⟩

def imagesIn (d : Directory) : List Metadata :=
  d.files.keys.filterMap fun name => volumeAt d (name, false)

theorem filterMap_entries (subdirs : List Str) (d : Directory) :
    ((Image.entries subdirs d).filterMap (volumeAt d)).Perm (imagesIn d) := by
  have hsort := (List.perm_insertionSort (fun a b : Str × Bool => a.1 ≤ b.1)
    (subdirs.map (·, true) ++ d.files.keys.map (·, false))).filterMap (volumeAt d)
  have hdirs : (subdirs.map (·, true)).filterMap (volumeAt d) = [] := by
    rw [List.filterMap_map]
    apply List.filterMap_eq_nil_iff.mpr
    intro name _
    rfl
  rw [List.filterMap_append, hdirs, List.nil_append, List.filterMap_map] at hsort
  exact hsort

theorem mem_imagesIn {v : Str} {n : ℤ} : ⟨v, n⟩ ∈ imagesIn d ↔
    ∃ f, d.files.lookup (imageFile v) = some f ∧ f.size = n := by
  unfold imagesIn
  rw [List.mem_filterMap]
  constructor
  · rintro ⟨name, -, h⟩
    unfold volumeAt at h
    dsimp only at h
    split_ifs at h with hs
    obtain ⟨f, hf, he⟩ := Option.map_eq_some_iff.mp h
    have hs' : imageExt <:+ name := by simpa using hs
    obtain ⟨v', rfl⟩ := hs'
    rw [trimSuffix_append] at he
    obtain ⟨rfl, rfl⟩ := Metadata.mk.inj he
    exact ⟨f, hf, rfl⟩
  · rintro ⟨f, hf, rfl⟩
    refine ⟨imageFile v, ?_, ?_⟩
    · exact AList.mem_keys.mp (AList.lookup_isSome.mp (hf ▸ rfl))
    · have hs : hasSuffix (imageFile v) imageExt = true :=
        (hasSuffix_iff _ _).mpr (List.suffix_append _ _)
      unfold volumeAt
      dsimp only
      rw [hs, hf]
      simp [imageFile, trimSuffix_append]

theorem volumeAt_name {name : Str} {x : Metadata} (h : volumeAt d (name, false) = some x) :
    name = imageFile x.volumeID := by
  unfold volumeAt at h
  dsimp only at h
  split_ifs at h with hs
  obtain ⟨f, -, rfl⟩ := Option.map_eq_some_iff.mp h
  have hs' : imageExt <:+ name := by simpa using hs
  obtain ⟨v, rfl⟩ := hs'
  dsimp only
  rw [trimSuffix_append]
  rfl

theorem nodup_imagesIn (d : Directory) : ((imagesIn d).map Metadata.volumeID).Nodup := by
  unfold imagesIn
  rw [List.map_filterMap]
  apply List.Nodup.filterMap _ d.files.keys_nodup
  intro name name' v hv hv'
  obtain ⟨x, hx, rfl⟩ := Option.map_eq_some_iff.mp hv
  obtain ⟨x', hx', he⟩ := Option.map_eq_some_iff.mp hv'
  rw [volumeAt_name hx, volumeAt_name hx', he]

end Directory

section Listing
variable {P : Type} [DecidableEq P] {W : Setup} {place : Source → Str → P} {w : World P}

/-- No command fails, and what is listed are directories. -/
structure Smooth (o : Choice) : Prop where
  fault : o.fault = none
  isDir : o.isDir = true

/-- The weakest precondition of a listing to which nothing unexpected happens. -/
abbrev lwp (W : Setup) (place : Source → Str → P) {α : Type} (p : Run α)
    (Q : α → World P → Prop) (w : World P) : Prop :=
  p.wp ⟨exec W place, fun _ _ o => Smooth o, fun _ _ _ => True⟩ Q w

abbrev dwp (W : Setup) (place : Source → Str → P) (root : Str) {α : Type} (p : Image.Run α)
    (Q : α → World P → Prop) (w : World P) : Prop :=
  p.wp ⟨fun o c w => exec W place o (.image root c) w, fun _ _ o => Smooth o,
    fun _ _ _ => True⟩ Q w

/-- The file operations that only look. -/
def Looks : Image.Cmd → Prop
  | .statRoot | .stat _ | .readDir => True
  | _ => False

theorem exec_looks {c : Image.Cmd} (hc : Looks c) (root : Str) (o : Choice) (w : World P) :
    (exec W place o (.image root c) w).2 = w := by
  have hd : (Image.exec ⟨o.fault, o.isDir, o.subdirs⟩ c (w.files (w.dir W place root))).2 =
      w.files (w.dir W place root) := by
    cases c with
    | statRoot | stat | readDir => rfl
    | openFile | truncate | mkfs | remove => exact hc.elim
  change ({ w with files := Function.update w.files _ _ } : World P) = w
  rw [hd, Function.update_eq_self]

theorem dwp_listFrom (root : Str) (es : List (Str × Bool)) :
    dwp W place root (Image.listFrom es)
      (fun r w' => r = es.filterMap (volumeAt (w.files (w.dir W place root))) ∧ w' = w) w := by
  induction es with
  | nil => exact ⟨rfl, rfl⟩
  | cons e es ih =>
    obtain ⟨name, isDir⟩ := e
    unfold Image.listFrom
    by_cases hskip : (isDir || !hasSuffix name imageExt) = true
    · have hnone : volumeAt (w.files (w.dir W place root)) (name, isDir) = none := if_pos hskip
      rw [if_pos hskip, List.filterMap_cons_none hnone]
      exact ih
    · rw [if_neg hskip]
      apply (Prog.wp_bind _ _ _ _).mpr
      intro o ho
      refine ⟨trivial, ?_⟩
      have hst : exec W place o (.image root (.stat name)) w =
          (.ok (((w.files (w.dir W place root)).files.lookup name).map Image.File.size), w) := by
        refine Prod.ext ?_ (exec_looks (c := .stat name) trivial root o w)
        simp [exec, Image.exec, Image.answer, ho.fault]
      simp only [hst]
      apply (Prog.wp_bind _ _ _ _).mpr
      apply Prog.wp_mono _ ih
      intro r w' h
      refine ⟨?_, h.2⟩
      rw [h.1]
      have hat : volumeAt (w.files (w.dir W place root)) (name, isDir) =
          ((w.files (w.dir W place root)).files.lookup name).map
            fun f => ⟨trimSuffix name imageExt, f.size⟩ := if_neg hskip
      rw [List.filterMap_cons, hat]
      cases (w.files (w.dir W place root)).files.lookup name with
      | none => rfl
      | some f => rfl

theorem lwp_list (root : Str) :
    lwp W place (inStore root Image.list) (fun r w' => w' = w ∧ ∃ found,
      r = .ok found ∧ found.Perm (imagesIn (w.files (w.dir W place root)))) w := by
  apply (Prog.wp_lift _ _ _ _ _).mpr
  unfold Image.list
  rw [Prog.wp_run_bind, Prog.wp_attempt]
  intro o ho
  refine ⟨trivial, ?_⟩
  have hr : exec W place o (.image root .readDir) w =
      (.ok (Image.entries o.subdirs (w.files (w.dir W place root))), w) := by
    refine Prod.ext ?_ (exec_looks (c := .readDir) trivial root o w)
    simp [exec, Image.exec, Image.answer, ho.fault]
  simp only [hr]
  apply (Prog.wp_always _ _ _).mpr
  apply Prog.wp_mono _ (dwp_listFrom root _)
  rintro r w' ⟨rfl, rfl⟩
  exact ⟨rfl, _, rfl, filterMap_entries _ _⟩

theorem lwp_new (root : Str) :
    lwp W place (inStore root (Image.new root)) (fun r w' => w' = w ∧ r = .ok ()) w := by
  apply (Prog.wp_lift _ _ _ _ _).mpr
  unfold Image.new
  rw [Prog.wp_run_bind, Prog.wp_attempt]
  intro o ho
  refine ⟨trivial, ?_⟩
  have hr : exec W place o (.image root .statRoot) w = (.ok true, w) := by
    refine Prod.ext ?_ (exec_looks (c := .statRoot) trivial root o w)
    simp [exec, Image.exec, Image.answer, ho.fault, ho.isDir]
  simp only [hr]
  exact ⟨rfl, rfl⟩

/-- A listing that nothing disturbs gives the images of each path's directory. -/
theorem lwp_listPaths (paths : List Str) :
    lwp W place (listPaths paths).run (fun r w' => w' = w ∧ ∃ found, r = .ok found ∧
      found.Perm (paths.flatMap fun path => imagesIn (w.files (w.dir W place path)))) w := by
  induction paths with
  | nil => exact ⟨rfl, [], rfl, .nil⟩
  | cons path paths ih =>
    unfold listPaths
    rw [lwp, Prog.wp_run_bind, Prog.wp_always]
    apply Prog.wp_mono _ (lwp_new path)
    rintro r w' ⟨rfl, rfl⟩
    apply (Prog.wp_run_bind _ _ _ _).mpr
    apply (Prog.wp_attempt _ _ _ _).mpr
    apply Prog.wp_mono _ (lwp_list path)
    rintro r w' ⟨rfl, found, rfl, hfound⟩
    apply (Prog.wp_run_bind _ _ _ _).mpr
    apply Prog.wp_mono _ ih
    rintro r w' ⟨rfl, rest, rfl, hrest⟩
    exact ⟨rfl, found ++ rest, rfl, hfound.append hrest⟩

def Listed (w : World P) (p : Str) : Prop :=
  (∃ id, w.reg.stores.lookup id = some p) ∨ ∃ m, w.reg.mounted.lookup m = some p

variable (W place w) in
theorem lwp_listVolumes :
    lwp W place (listVolumes []).run (fun r w' => w' = w ∧
      ∃ (found : List Metadata) (paths : List Str), r = .ok found ∧ found.Perm
        (paths.flatMap fun path => imagesIn (w.files (w.dir W place path))) ∧
        paths.Nodup ∧ ∀ p, p ∈ paths ↔ Listed w p) w := by
  unfold listVolumes
  rw [if_neg (by simp), lwp, Prog.wp_run_bind, Prog.wp_always]
  intro o ho
  refine ⟨trivial, ?_⟩
  have hpaths : exec W place o .mountedPaths w =
      (Registry.mountedPaths (anyOrder w.reg.stores.values o.ranges.1)
        (anyOrder w.reg.mounted.values o.ranges.2), w) := rfl
  simp only [hpaths]
  apply Prog.wp_mono _ (lwp_listPaths _)
  rintro r w' ⟨rfl, found, rfl, hfound⟩
  refine ⟨rfl, found, _, rfl, hfound, Registry.mountedPaths_nodup _ _, ?_⟩
  intro p
  rw [Registry.mem_mountedPaths, (anyOrder_perm _ _).mem_iff, (anyOrder_perm _ _).mem_iff,
    StrMap.mem_values, StrMap.mem_values]
  rfl

end Listing

section Once
variable {P : Type} [DecidableEq P] {W : Setup} {place : Source → Str → P} {K : Set Config}
  {w : World P} {p q : Str}

omit [DecidableEq P] in
theorem Filed.listed (hK : Distinct W place K) (h : Filed W place K w) (hp : Listed w p) :
    ∃ c ∈ K, ∃ sub ∈ [[], c.subDir], w.dir W place p = .backing (place (sourceOf c) sub) ∧
      p = if sub = [] then W.target (c.mountID W.hash)
        else join (W.target (c.mountID W.hash)) sub := by
  rcases hp with ⟨id, hp⟩ | ⟨m, hp⟩
  · obtain ⟨c, hc, -, rfl, hm⟩ := h.stores id p hp
    exact ⟨c, hc, c.subDir, by simp, (h.dir hK hc hm).1, rfl⟩
  · obtain ⟨rfl, hm⟩ := h.cached m p hp
    obtain ⟨c, rest, hstack⟩ := List.exists_cons_of_ne_nil hm
    obtain ⟨hc, rfl⟩ := h.mounts m c (hstack ▸ List.mem_cons_self)
    exact ⟨c, hc, [], by simp, (h.dir hK hc hm).2, rfl⟩

omit [DecidableEq P] in
theorem Filed.dir_injective (hK : Distinct W place K) (h : Filed W place K w) (hp : Listed w p)
    (hq : Listed w q) (hd : w.dir W place p = w.dir W place q) : p = q := by
  obtain ⟨c, hc, sub, hsub, hpd, rfl⟩ := h.listed hK hp
  obtain ⟨c', hc', sub', hsub', hqd, rfl⟩ := h.listed hK hq
  rw [hpd, hqd] at hd
  obtain ⟨hm, rfl⟩ := hK.places c hc c' hc' sub hsub sub' hsub' (Dir.backing.inj hd)
  rw [hm]

omit [DecidableEq P] in
theorem Filed.image_listed (hK : Distinct W place K) (h : Filed W place K w) {d : Dir P} {v : Str}
    {f : Image.File} (hf : (w.files d).files.lookup (imageFile v) = some f) :
    (∃ p, Listed w p ∧ w.dir W place p = d) ∧
      ∀ d' f', (w.files d').files.lookup (imageFile v) = some f' → d' = d := by
  obtain ⟨c, hc, hv, hstore, rfl⟩ := h.images d v f hf
  constructor
  · obtain ⟨c', hc', hid, -, hm⟩ := h.stores _ _ hstore
    rw [(hK.stores c' hc' c hc hid).1] at hm
    exact ⟨W.storePath c, Or.inl ⟨_, hstore⟩, (h.dir hK hc hm).1⟩
  · intro d' f' hf'
    obtain ⟨c', hc', hv', -, rfl⟩ := h.images d' v f' hf'
    have hid : c'.storeID W.hash = c.storeID W.hash := Except.ok.inj (hv'.symm.trans hv)
    obtain ⟨hm, hs⟩ := hK.stores c' hc' c hc hid
    rw [hK.sources c' hc' c hc hm, hs]

omit [DecidableEq P] in
theorem Filed.found (hK : Distinct W place K) (h : Filed W place K w) {paths : List Str}
    {found : List Metadata}
    (hfound : found.Perm (paths.flatMap fun path => imagesIn (w.files (w.dir W place path))))
    (hnodup : paths.Nodup) (hpaths : ∀ p, p ∈ paths ↔ Listed w p) :
    (found.map Metadata.volumeID).Nodup ∧ ∀ v n, ⟨v, n⟩ ∈ found ↔
      ∃ d f, (w.files d).files.lookup (imageFile v) = some f ∧ f.size = n := by
  constructor
  · rw [(hfound.map _).nodup_iff, List.map_flatMap, List.nodup_flatMap]
    constructor
    · intro p _
      exact nodup_imagesIn _
    · apply hnodup.imp_of_mem
      intro p q hp hq hne v hv hv'
      obtain ⟨⟨v, n⟩, hx, rfl⟩ := List.mem_map.mp hv
      obtain ⟨⟨v', n'⟩, hx', rfl⟩ := List.mem_map.mp hv'
      obtain ⟨f, hf, -⟩ := mem_imagesIn.mp hx
      obtain ⟨f', hf', -⟩ := mem_imagesIn.mp hx'
      have hd := (h.image_listed hK hf').2 _ _ hf
      exact hne (h.dir_injective hK ((hpaths p).mp hp) ((hpaths q).mp hq) hd)
  · intro v n
    rw [hfound.mem_iff, List.mem_flatMap]
    constructor
    · rintro ⟨p, -, hx⟩
      obtain ⟨f, hf, hn⟩ := mem_imagesIn.mp hx
      exact ⟨_, f, hf, hn⟩
    · rintro ⟨d, f, hf, hn⟩
      obtain ⟨⟨p, hp, rfl⟩, -⟩ := h.image_listed hK hf
      exact ⟨p, (hpaths p).mpr hp, mem_imagesIn.mpr ⟨f, hf, hn⟩⟩

omit [DecidableEq P] in
theorem found_twice {paths : List Str} {found : List Metadata}
    (hfound : found.Perm (paths.flatMap fun path => imagesIn (w.files (w.dir W place path))))
    (hp : p ∈ paths) (hq : q ∈ paths) (hne : p ≠ q) (hd : w.dir W place p = w.dir W place q)
    {v : Str} {f : Image.File}
    (hf : (w.files (w.dir W place p)).files.lookup (imageFile v) = some f) :
    ¬(found.map Metadata.volumeID).Nodup := by
  rw [(hfound.map _).nodup_iff, List.map_flatMap, List.nodup_flatMap]
  rintro ⟨-, hpair⟩
  have hv : v ∈ (imagesIn (w.files (w.dir W place p))).map Metadata.volumeID :=
    List.mem_map.mpr ⟨⟨v, f.size⟩, mem_imagesIn.mpr ⟨f, hf, rfl⟩, rfl⟩
  have hapart := @List.Pairwise.forall _ _ _ ⟨fun _ _ h => List.Disjoint.symm h⟩ hpair _ hp _ hq hne
  exact hapart hv (hd ▸ hv)

/-- In a process that serves stores whose directories can be told apart, and to which no
check denies a live mount, an undisturbed `ListVolumes` gives every volume once, with its
size. -/
theorem listVolumes_once (hK : Distinct W place K)
    (h : Prog.Runs (exec W place) (fun _ _ o => ∀ m, Affirmed m o)
      (fun p => ∃ r : Request, r.Uses K ∧ p = r.serve W)
      (fun w => ∃ files, (∀ d v, (files d).files.lookup (imageFile v) = none) ∧ w = bare files) w)
    {o : ℕ → Choice} (ho : ∀ n, Smooth (o n)) :
    ∃ found, ((listVolumes []).run.eval (exec W place) o w).1 = .ok found ∧
      (found.map Metadata.volumeID).Nodup ∧ ∀ v n, ⟨v, n⟩ ∈ found ↔
        ∃ d f, (w.files d).files.lookup (imageFile v) = some f ∧ f.size = n := by
  have hfiled : Filed W place K w := by
    refine Prog.Runs.inv (G := fun _ _ _ => True) ?_ ?_ h
    · rintro w ⟨files, hempty, rfl⟩
      exact filed_bare hempty
    · rintro p w ⟨r, hr, rfl⟩ hw
      exact qwp_serve hK hr hw
  have hlist := (Prog.wp_eval (lwp_listVolumes W place w) (.of_choice fun _ _ n => ho n)).1
  obtain ⟨-, found, paths, hr, hperm, hnodup, hpaths⟩ := hlist
  exact ⟨found, hr, hfiled.found hK hperm hnodup hpaths⟩

end Once

section Examples

/-- A site that tells mounts with options from those without, and the store `c` from its
mount. -/
def optionSite : Setup where
  root := "/s".toList
  hash key := (if '=' ∈ key then '1' else '0') :: List.replicate 11 (if 'c' ∈ key then '1' else '0')
  hash_length _ := by rw [List.length_cons, List.length_replicate]
  hash_hex key c hc := by
    rcases List.mem_cons.mp hc with rfl | hc
    · split_ifs <;> rfl
    · rw [List.eq_of_mem_replicate hc]
      split_ifs <;> rfl
  nfs := true
  localDir := false
  checker := true

/-- A request for a volume on the export of `teamRequest`, mounted with the given options. -/
def optionRequest (name options : Str) : Request :=
  .create { teamRequest 8192 with
    name := name
    params := (paramNFSMountOptions, options) :: (teamRequest 8192).params }

def teamOption : Config := .nfs ['a'] ['b'] "vers=4" ['c']

def served (rs : List Request) : World Str :=
  rs.foldl (fun w r => ((r.serve optionSite).eval (exec optionSite fun _ sub => sub)
    (fun _ => smooth) w).2) (bare fun _ => ⟨∅, 0⟩)

theorem smooth_smooth : Smooth smooth := ⟨rfl, rfl⟩

theorem affirmed_smooth (m : Str) : Affirmed m smooth := by
  intro a ha
  cases ha

theorem runs_served {K : Set Config} {rs : List Request} (h : ∀ r ∈ rs, r.Uses K) :
    Prog.Runs (exec optionSite fun _ sub => sub) (fun _ _ o => ∀ m, Affirmed m o)
      (fun p => ∃ r : Request, r.Uses K ∧ p = r.serve optionSite)
      (fun w => ∃ files, (∀ d v, (files d).files.lookup (imageFile v) = none) ∧ w = bare files)
      (served rs) := by
  unfold served
  refine List.foldlRecOn (motive := Prog.Runs _ _ _ _) _ _ ?_ ?_
  · exact .init ⟨_, fun _ _ => rfl, rfl⟩
  · intro w hw r hr
    exact .run _ _ hw ⟨r, h r hr, rfl⟩ (.of_choice fun _ _ _ => affirmed_smooth)

/-- The export mounted without options and with one is two mounts, and `ListVolumes` finds
every volume of its directory through both. -/
theorem listVolumes_twice :
    Prog.Runs (exec optionSite fun _ sub => sub) (fun _ _ o => ∀ m, Affirmed m o)
      (fun p => ∃ r : Request, r.Uses Set.univ ∧ p = r.serve optionSite)
      (fun w => ∃ files, (∀ d v, (files d).files.lookup (imageFile v) = none) ∧ w = bare files)
      (served [optionRequest "p" [], optionRequest "q" "vers=4"]) ∧
    ∃ found, ((listVolumes []).run.eval (exec optionSite fun _ sub => sub) (fun _ => smooth)
        (served [optionRequest "p" [], optionRequest "q" "vers=4"])).1 = .ok found ∧
      ¬(found.map Metadata.volumeID).Nodup := by
  constructor
  · apply runs_served
    intro r hr
    fin_cases hr <;> exact fun _ _ => trivial
  · have hlist := (Prog.wp_eval (lwp_listVolumes optionSite (fun _ sub => sub)
      (served [optionRequest "p" [], optionRequest "q" "vers=4"]))
      (.of_choice fun _ _ (_ : ℕ) => smooth_smooth)).1
    obtain ⟨-, found, paths, hr, hperm, -, hpaths⟩ := hlist
    refine ⟨found, hr, ?_⟩
    have hp := (hpaths (optionSite.storePath Registry.team)).mpr
      (Or.inl ⟨Registry.team.storeID optionSite.hash, by decide +kernel⟩)
    have hq := (hpaths (optionSite.storePath teamOption)).mpr
      (Or.inl ⟨teamOption.storeID optionSite.hash, by decide +kernel⟩)
    have himage := Option.isSome_iff_exists.mp (show
      (((served [optionRequest "p" [], optionRequest "q" "vers=4"]).files
        (.backing ['c'])).files.lookup (imageFile "fb-011111111111-p")).isSome by decide +kernel)
    obtain ⟨f, hf⟩ := himage
    have hd : World.dir optionSite (fun _ sub => sub)
        (served [optionRequest "p" [], optionRequest "q" "vers=4"])
        (optionSite.storePath Registry.team) = .backing ['c'] := by
      decide +kernel
    apply found_twice hperm hp hq (by decide +kernel) ?_ (hd ▸ hf)
    rw [hd]
    decide +kernel

theorem distinct_team : Distinct optionSite (fun _ sub => sub) {Registry.team} := by
  constructor
  · intro c hc
    rw [Set.mem_singleton_iff.mp hc]
    exact ⟨(teamRequest 8192).params, rfl⟩
  · intro c hc c' hc' _
    rw [Set.mem_singleton_iff.mp hc, Set.mem_singleton_iff.mp hc']
  · intro c hc c' hc' _
    rw [Set.mem_singleton_iff.mp hc, Set.mem_singleton_iff.mp hc']
    exact ⟨rfl, rfl⟩
  · intro c hc c' hc' sub _ sub' _ he
    rw [Set.mem_singleton_iff.mp hc, Set.mem_singleton_iff.mp hc']
    exact ⟨rfl, he⟩

theorem listVolumes_once_team : ∃ found,
    ((listVolumes []).run.eval (exec optionSite fun _ sub => sub) (fun _ => smooth)
        (served [optionRequest "p" [], optionRequest "q" []])).1 = .ok found ∧
      (found.map Metadata.volumeID).Nodup ∧ ⟨"fb-011111111111-p", 8192⟩ ∈ found := by
  have hrun : ∀ r ∈ [optionRequest "p" [], optionRequest "q" []], r.Uses {Registry.team} := by
    intro r hr
    fin_cases hr <;> exact fun c hc => (Except.ok.inj hc).symm
  obtain ⟨found, hr, hnodup, hmem⟩ := listVolumes_once distinct_team (runs_served hrun)
    (o := fun _ => smooth) fun _ => smooth_smooth
  have himage : (((served [optionRequest "p" [], optionRequest "q" []]).files
      (.backing ['c'])).files.lookup (imageFile "fb-011111111111-p")).map Image.File.size =
        some 8192 := by
    decide +kernel
  obtain ⟨f, hf, hsize⟩ := Option.map_eq_some_iff.mp himage
  exact ⟨found, hr, hnodup, (hmem _ _).mpr ⟨_, f, hf, hsize⟩⟩

end Examples
end Fileblock.Controller
