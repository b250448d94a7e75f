import Fileblock.Node.World

/-! The kernel tables of a node on which every image has at most one loop device,
and that each of their updates keeps them so. -/
namespace Fileblock.Node
open Go Store

variable {S : Site} {ι : Type}

/-- The device is one of the volume's: a loop on its image, or its mapping. -/
def Volumes.Owns (V : Volumes S ι) (w : World) (v : ι) : Source → Prop
  | .loop dev => ∃ l ∈ w.loops, l.dev = dev ∧ l.file = V.image v
  | .mapper name => name = V.mapper v
  | .dir _ => False

theorem Volumes.owns_of_loops {V : Volumes S ι} {v : ι} {w w' : World}
    (h : ∀ l ∈ w'.loops, ∃ l' ∈ w.loops, l'.dev = l.dev ∧ l'.file = l.file) {src : Source}
    (ho : V.Owns w' v src) : V.Owns w v src := by
  cases src with
  | loop dev =>
    obtain ⟨l, hl, hd, hf⟩ := ho
    obtain ⟨l', hl', hd', hf'⟩ := h l hl
    exact ⟨l', hl', hd'.trans hd, hf'.trans hf⟩
  | mapper name => exact ho
  | dir path => exact ho

/-- Something is mounted at one of the volume's staging paths. -/
def Volumes.Staged (V : Volumes S ι) (v : ι) (w : World) : Prop :=
  ∃ p ∈ V.places v, w.mountedAt p = true

/-- What a mount of the source needs: a loop that is attached and not below a
mapping, or an open mapping. -/
def World.Live (w : World) : Source → Prop
  | .loop dev => (∃ l ∈ w.loops, l.dev = dev) ∧ w.held dev = false
  | .mapper name => w.isOpen name = true
  | .dir _ => True

/-- One loop for an image, one mapping for a volume, and nothing but its own
devices at its staging path. -/
structure Coherent (V : Volumes S ι) (w : World) : Prop where
  devs : (w.loops.map Loop.dev).Nodup
  files : (w.loops.map Loop.file).Nodup
  owned : ∀ l ∈ w.loops, ∃ v, l.file = V.image v
  unlinked : ∀ l ∈ w.loops, l.silly ≠ none → (w.images l.file).present = false
  names : (w.dm.map Prod.fst).Nodup
  mapped : ∀ p ∈ w.dm, ∃ v, p.1 = V.mapper v ∧ V.Owns w v (.loop p.2)
  live : ∀ m ∈ w.mounts, w.Live m.source
  staging : ∀ m ∈ w.mounts, ∀ v, m.target ∈ V.places v → V.Owns w v m.source
  paths : ∀ m ∈ w.mounts, m.target ∈ w.dirs

/-- The kernel has freed what it was told to free. -/
structure Tidy (V : Volumes S ι) (w : World) : Prop extends Coherent V w where
  cleared : ∀ l ∈ w.loops, l.autoclear = true → w.busy l.dev = true

section Lookups
variable {w : World} {dev : ℕ} {name : String} {src : Source} {path : Str}

theorem World.loop?_some {l : Loop} (h : w.loop? dev = some l) : l ∈ w.loops ∧ l.dev = dev :=
  ⟨List.mem_of_find?_eq_some h, by simpa using List.find?_some h⟩

theorem World.loop?_none : w.loop? dev = none ↔ ∀ l ∈ w.loops, l.dev ≠ dev := by
  simp [World.loop?]

theorem World.mounted_iff : w.mounted src = true ↔ ∃ m ∈ w.mounts, m.source = src := by
  simp [World.mounted]

theorem World.mounted_false : w.mounted src = false ↔ ∀ m ∈ w.mounts, m.source ≠ src := by
  simp [World.mounted]

theorem World.mountedAt_iff : w.mountedAt path = true ↔ ∃ m ∈ w.mounts, m.target = path := by
  simp [World.mountedAt]

theorem World.isOpen_iff : w.isOpen name = true ↔ ∃ n, (name, n) ∈ w.dm := by
  simp [World.isOpen]

theorem World.isOpen_false : w.isOpen name = false ↔ ∀ n, (name, n) ∉ w.dm := by
  rw [← Bool.not_eq_true, World.isOpen_iff, not_exists]

theorem World.held_iff : w.held dev = true ↔ ∃ name, (name, dev) ∈ w.dm := by
  simp [World.held]

theorem World.held_false : w.held dev = false ↔ ∀ name, (name, dev) ∉ w.dm := by
  rw [← Bool.not_eq_true, World.held_iff, not_exists]

theorem World.busy_iff :
    w.busy dev = true ↔ w.mounted (.loop dev) = true ∨ w.held dev = true := by
  simp [World.busy]

theorem World.busy_false :
    w.busy dev = false ↔ w.mounted (.loop dev) = false ∧ w.held dev = false := by
  simp [World.busy]

theorem World.mem_reap {l : Loop} :
    l ∈ w.reap.loops ↔ l ∈ w.loops ∧ (l.autoclear = true → w.busy l.dev = true) := by
  simp only [World.reap, List.mem_filter, Bool.not_eq_true', Bool.and_eq_false_imp,
    Bool.not_eq_false']

theorem World.freeDev_free (w : World) (pick : ℕ) : ∀ l ∈ w.loops, l.dev ≠ w.freeDev pick := by
  intro l hl
  unfold World.freeDev
  split_ifs with h
  · have hle : l.dev ≤ (w.loops.map Loop.dev).foldr max 0 :=
      List.le_max_of_le' 0 (List.mem_map_of_mem hl) le_rfl
    omega
  · intro hd
    exact h (List.any_eq_true.mpr ⟨l, hl, by simpa using hd⟩)

end Lookups

namespace Coherent
variable {V : Volumes S ι} {w : World}

theorem loop_unique (h : Coherent V w) {l l' : Loop} (hl : l ∈ w.loops) (hl' : l' ∈ w.loops)
    (hd : l.dev = l'.dev) : l = l' := List.inj_on_of_nodup_map h.devs hl hl' hd

theorem file_unique (h : Coherent V w) {l l' : Loop} (hl : l ∈ w.loops) (hl' : l' ∈ w.loops)
    (hf : l.file = l'.file) : l = l' := List.inj_on_of_nodup_map h.files hl hl' hf

theorem loop?_of_mem (h : Coherent V w) {l : Loop} (hl : l ∈ w.loops) : w.loop? l.dev = some l := by
  cases hf : w.loop? l.dev with
  | none => exact absurd rfl (World.loop?_none.mp hf l hl)
  | some l' =>
    obtain ⟨hm, hd⟩ := World.loop?_some hf
    rw [h.loop_unique hm hl hd]

theorem owner_unique (h : Coherent V w) {u v : ι} {src : Source} (hu : V.Owns w u src)
    (hv : V.Owns w v src) : u = v := by
  cases src with
  | loop dev =>
    obtain ⟨l, hl, hd, hf⟩ := hu
    obtain ⟨l', hl', hd', hf'⟩ := hv
    rw [h.loop_unique hl hl' (hd.trans hd'.symm)] at hf
    exact V.image_injective (hf.symm.trans hf')
  | mapper name => exact V.mapper_injective (hu.symm.trans hv)
  | dir path => exact hu.elim

theorem mapper_over (h : Coherent V w) {v : ι} {l : Loop} (hl : l ∈ w.loops)
    (hf : l.file = V.image v) {name : String} (hm : (name, l.dev) ∈ w.dm) : name = V.mapper v := by
  obtain ⟨u, hu, ho⟩ := h.mapped _ hm
  have huv : u = v := h.owner_unique ho ⟨l, hl, rfl, hf⟩
  rw [← huv]
  exact hu

theorem over_mapper (h : Coherent V w) {v : ι} {dev : ℕ} (hm : (V.mapper v, dev) ∈ w.dm) :
    V.Owns w v (.loop dev) := by
  obtain ⟨u, hu, ho⟩ := h.mapped _ hm
  rw [V.mapper_injective hu]
  exact ho

theorem top_place (h : Coherent V w) {v : ι} {p : Str} (hp : p ∈ V.places v)
    (hm : w.mountedAt p = true) :
    ∃ m l, w.top p = some m ∧ l ∈ w.loops ∧ l.file = V.image v ∧
      (m.source = .loop l.dev ∨ m.source = .mapper (V.mapper v) ∧ (V.mapper v, l.dev) ∈ w.dm) := by
  obtain ⟨m, hm'⟩ := Option.isSome_iff_exists.mp
    (show (w.top p).isSome = true by
      rw [World.top, List.find?_isSome]
      simpa [World.mountedAt] using hm)
  have hmem : m ∈ w.mounts := List.mem_of_find?_eq_some hm'
  have ht : m.target = p := by simpa using List.find?_some hm'
  have ho := h.staging m hmem v (ht ▸ hp)
  have hlive := h.live m hmem
  cases hs : m.source with
  | loop dev =>
    rw [hs] at ho
    obtain ⟨l, hl, hd, hf⟩ := ho
    exact ⟨m, l, hm', hl, hf, Or.inl (by rw [hs, hd])⟩
  | mapper name =>
    rw [hs] at ho hlive
    obtain rfl : name = V.mapper v := ho
    obtain ⟨n, hn⟩ := World.isOpen_iff.mp hlive
    obtain ⟨l, hl, rfl, hf⟩ := h.over_mapper hn
    exact ⟨m, l, hm', hl, hf, Or.inr ⟨hs, hn⟩⟩
  | dir path =>
    rw [hs] at ho
    exact ho.elim

/-- An update of loops that keeps what they are attached to, and of everything
the tables do not name. -/
theorem mapLoops (h : Coherent V w) (f : Loop → Loop) {w' : World} (hd : ∀ l, (f l).dev = l.dev)
    (hf : ∀ l, (f l).file = l.file) (hl : w'.loops = w.loops.map f) (hdm : w'.dm = w.dm)
    (hm : w'.mounts = w.mounts) (hdirs : w'.dirs = w.dirs)
    (hu : ∀ l ∈ w.loops, (f l).silly ≠ none → (w'.images l.file).present = false) :
    Coherent V w' := by
  have hdev : (w.loops.map f).map Loop.dev = w.loops.map Loop.dev := by
    rw [List.map_map]
    exact List.map_congr_left fun l _ => hd l
  have hfile : (w.loops.map f).map Loop.file = w.loops.map Loop.file := by
    rw [List.map_map]
    exact List.map_congr_left fun l _ => hf l
  have howns : ∀ v src, V.Owns w v src → V.Owns w' v src := by
    intro v src ho
    cases src with
    | loop dev =>
      obtain ⟨l, hmem, hdl, hfl⟩ := ho
      exact ⟨f l, hl ▸ List.mem_map_of_mem hmem, (hd l).trans hdl, (hf l).trans hfl⟩
    | mapper name => exact ho
    | dir path => exact ho
  have hlive : ∀ src, w.Live src → w'.Live src := by
    intro src ho
    cases src with
    | loop dev =>
      obtain ⟨⟨l, hmem, hdl⟩, hheld⟩ := ho
      refine ⟨⟨f l, hl ▸ List.mem_map_of_mem hmem, (hd l).trans hdl⟩, ?_⟩
      rwa [World.held, hdm]
    | mapper name => rwa [World.Live, World.isOpen, hdm]
    | dir path => trivial
  refine ⟨?_, ?_, ?_, ?_, ?_, ?_, ?_, ?_, ?_⟩
  · rw [hl, hdev]
    exact h.devs
  · rw [hl, hfile]
    exact h.files
  · rw [hl]
    intro l' hl'
    obtain ⟨l, hmem, rfl⟩ := List.mem_map.mp hl'
    rw [hf]
    exact h.owned l hmem
  · rw [hl]
    intro l' hl' hs
    obtain ⟨l, hmem, rfl⟩ := List.mem_map.mp hl'
    rw [hf]
    exact hu l hmem hs
  · rw [hdm]
    exact h.names
  · rw [hdm]
    intro p hp
    obtain ⟨v, hv, ho⟩ := h.mapped p hp
    exact ⟨v, hv, howns v _ ho⟩
  · rw [hm]
    exact fun m hmem => hlive _ (h.live m hmem)
  · rw [hm]
    exact fun m hmem v hv => howns v _ (h.staging m hmem v hv)
  · rw [hm, hdirs]
    exact h.paths

theorem congr (h : Coherent V w) {w' : World} (hl : w'.loops = w.loops) (hdm : w'.dm = w.dm)
    (hm : w'.mounts = w.mounts) (hdirs : w'.dirs = w.dirs)
    (hp : ∀ f, (w'.images f).present = (w.images f).present) : Coherent V w' := by
  refine h.mapLoops id (fun _ => rfl) (fun _ => rfl) (by simpa using hl) hdm hm hdirs ?_
  intro l hmem hs
  rw [hp]
  exact h.unlinked l hmem hs

theorem setDirs (h : Coherent V w) {dirs : List Str} (hd : ∀ m ∈ w.mounts, m.target ∈ dirs) :
    Coherent V { w with dirs } :=
  ⟨h.devs, h.files, h.owned, h.unlinked, h.names, h.mapped, h.live, h.staging, hd⟩

theorem addMount (h : Coherent V w) {m : Mount} (hs : w.Live m.source) (hp : m.target ∈ w.dirs)
    (ho : ∀ v, m.target ∈ V.places v → V.Owns w v m.source) : Coherent V (w.addMount m) := by
  refine ⟨h.devs, h.files, h.owned, h.unlinked, h.names, h.mapped, ?_, ?_, ?_⟩
  · intro m' hm'
    rcases List.mem_cons.mp hm' with rfl | hm'
    · exact hs
    · exact h.live m' hm'
  · intro m' hm'
    rcases List.mem_cons.mp hm' with rfl | hm'
    · exact ho
    · exact h.staging m' hm'
  · intro m' hm'
    rcases List.mem_cons.mp hm' with rfl | hm'
    · exact hp
    · exact h.paths m' hm'

theorem setMounts (h : Coherent V w) {mounts : List Mount}
    (hm : ∀ m' ∈ mounts, ∃ m ∈ w.mounts, m'.source = m.source ∧ m'.target = m.target) :
    Coherent V { w with mounts } := by
  refine ⟨h.devs, h.files, h.owned, h.unlinked, h.names, h.mapped, ?_, ?_, ?_⟩
  · intro m' hm'
    obtain ⟨m, hmem, hs, -⟩ := hm m' hm'
    rw [hs]
    exact h.live m hmem
  · intro m' hm' v hv
    obtain ⟨m, hmem, hs, ht⟩ := hm m' hm'
    rw [hs]
    exact h.staging m hmem v (ht ▸ hv)
  · intro m' hm'
    obtain ⟨m, hmem, -, ht⟩ := hm m' hm'
    rw [ht]
    exact h.paths m hmem

theorem attach (h : Coherent V w) {v : ι} {dev : ℕ} (hdev : ∀ l ∈ w.loops, l.dev ≠ dev)
    (hfile : ∀ l ∈ w.loops, l.file ≠ V.image v) : Coherent V (w.attach (V.image v) dev) := by
  have hmem : ∀ l ∈ w.loops, l ∈ (w.attach (V.image v) dev).loops :=
    fun l hl => List.mem_append_left _ hl
  have howns : ∀ u src, V.Owns w u src → V.Owns (w.attach (V.image v) dev) u src := by
    intro u src ho
    cases src with
    | loop n =>
      obtain ⟨l, hl, hd, hf⟩ := ho
      exact ⟨l, hmem l hl, hd, hf⟩
    | mapper name => exact ho
    | dir path => exact ho
  refine ⟨?_, ?_, ?_, ?_, h.names, ?_, ?_, ?_, h.paths⟩
  · simpa [World.attach, List.nodup_append, h.devs] using hdev
  · simpa [World.attach, List.nodup_append, h.files] using hfile
  · intro l hl
    rcases List.mem_append.mp hl with hl | hl
    · exact h.owned l hl
    · rw [List.mem_singleton.mp hl]
      exact ⟨v, rfl⟩
  · intro l hl hs
    rcases List.mem_append.mp hl with hl | hl
    · exact h.unlinked l hl hs
    · rw [List.mem_singleton.mp hl] at hs
      exact absurd rfl hs
  · intro p hp
    obtain ⟨u, hu, ho⟩ := h.mapped p hp
    exact ⟨u, hu, howns u _ ho⟩
  · intro m hm
    have hlive := h.live m hm
    cases hs : m.source with
    | loop n =>
      rw [hs] at hlive
      obtain ⟨⟨l, hl, hd⟩, hheld⟩ := hlive
      exact ⟨⟨l, hmem l hl, hd⟩, hheld⟩
    | mapper name =>
      rw [hs] at hlive
      exact hlive
    | dir path => trivial
  · exact fun m hm u hu => howns u _ (h.staging m hm u hu)

theorem openMapping (h : Coherent V w) {v : ι} {dev : ℕ} (hn : w.isOpen (V.mapper v) = false)
    (hb : w.busy dev = false) (ho : V.Owns w v (.loop dev)) :
    Coherent V { w with dm := (V.mapper v, dev) :: w.dm } := by
  obtain ⟨hmounted, -⟩ := World.busy_false.mp hb
  refine ⟨h.devs, h.files, h.owned, h.unlinked, ?_, ?_, ?_, h.staging, h.paths⟩
  · refine List.nodup_cons.mpr ⟨?_, h.names⟩
    intro hmem
    obtain ⟨⟨name, n⟩, hp, rfl⟩ := List.mem_map.mp hmem
    exact World.isOpen_false.mp hn n hp
  · intro p hp
    rcases List.mem_cons.mp hp with rfl | hp
    · exact ⟨v, rfl, ho⟩
    · exact h.mapped p hp
  · intro m hm
    have hlive := h.live m hm
    cases hs : m.source with
    | loop n =>
      rw [hs] at hlive
      refine ⟨hlive.1, ?_⟩
      have hne : dev ≠ n := by
        rintro rfl
        exact World.mounted_false.mp hmounted m hm hs
      have := hlive.2
      simpa [World.held, hne] using this
    | mapper name =>
      rw [hs] at hlive
      have : w.isOpen name = true := hlive
      simp only [World.Live, World.isOpen, List.any_cons, Bool.or_eq_true] at this ⊢
      exact Or.inr this
    | dir path => trivial

theorem closeMapping (h : Coherent V w) {name : String}
    (hm : w.mounted (.mapper name) = false) :
    Coherent V { w with dm := w.dm.filter (·.1 ≠ name) } := by
  refine ⟨h.devs, h.files, h.owned, h.unlinked, ?_, ?_, ?_, h.staging, h.paths⟩
  · exact h.names.sublist (List.filter_sublist.map _)
  · exact fun p hp => h.mapped p (List.mem_of_mem_filter hp)
  · intro m hmem
    have hlive := h.live m hmem
    cases hs : m.source with
    | loop n =>
      rw [hs] at hlive
      refine ⟨hlive.1, World.held_false.mpr ?_⟩
      exact fun x hx => World.held_false.mp hlive.2 x (List.mem_of_mem_filter hx)
    | mapper x =>
      rw [hs] at hlive
      obtain ⟨n, hn⟩ := World.isOpen_iff.mp hlive
      refine World.isOpen_iff.mpr ⟨n, List.mem_filter.mpr ⟨hn, ?_⟩⟩
      have hne : x ≠ name := by
        rintro rfl
        exact World.mounted_false.mp hm m hmem hs
      simpa using hne
    | dir path => trivial

/-- What is in use survives when the kernel frees what is not. -/
theorem reap (h : Coherent V w) : Tidy V w.reap := by
  have hkeep : ∀ l ∈ w.loops, w.busy l.dev = true → l ∈ w.reap.loops :=
    fun l hl hb => World.mem_reap.mpr ⟨hl, fun _ => hb⟩
  have hsub : w.reap.loops.Sublist w.loops := List.filter_sublist
  have hmount : ∀ m ∈ w.mounts, ∀ n, m.source = .loop n → w.busy n = true :=
    fun m hm n hs => World.busy_iff.mpr (Or.inl (World.mounted_iff.mpr ⟨m, hm, hs⟩))
  refine ⟨⟨?_, ?_, ?_, ?_, h.names, ?_, ?_, ?_, h.paths⟩, ?_⟩
  · exact h.devs.sublist (hsub.map _)
  · exact h.files.sublist (hsub.map _)
  · exact fun l hl => h.owned l (hsub.subset hl)
  · exact fun l hl => h.unlinked l (hsub.subset hl)
  · intro p hp
    obtain ⟨v, hv, l, hl, hd, hf⟩ := h.mapped p hp
    have hb : w.busy l.dev = true :=
      World.busy_iff.mpr (Or.inr (World.held_iff.mpr ⟨p.1, by rwa [hd]⟩))
    exact ⟨v, hv, l, hkeep l hl hb, hd, hf⟩
  · intro m hm
    have hlive := h.live m hm
    cases hs : m.source with
    | loop n =>
      rw [hs] at hlive
      obtain ⟨⟨l, hl, rfl⟩, hheld⟩ := hlive
      exact ⟨⟨l, hkeep l hl (hmount m hm _ hs), rfl⟩, hheld⟩
    | mapper name =>
      rw [hs] at hlive
      exact hlive
    | dir path => trivial
  · intro m hm v hv
    have ho := h.staging m hm v hv
    cases hs : m.source with
    | loop n =>
      rw [hs] at ho
      obtain ⟨l, hl, rfl, hf⟩ := ho
      exact ⟨l, hkeep l hl (hmount m hm _ hs), rfl, hf⟩
    | mapper name =>
      rw [hs] at ho
      exact ho
    | dir path =>
      rw [hs] at ho
      exact ho
  · exact fun l hl => (World.mem_reap.mp hl).2

end Coherent
end Fileblock.Node
