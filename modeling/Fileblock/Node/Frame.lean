import Fileblock.Node.Lawful

/-! What an operation on one volume sees of the node, what others leave alone in
it, and what the state entries of a volume record. -/
namespace Fileblock.Node
open Go Store

variable {S : Site} {ι : Type} {V : Volumes S ι} {v : ι} {w w' w'' : World}

/-- A loop apart from the name its file goes by. -/
def Loop.core (l : Loop) : Loop := { l with silly := none }

/-- The loops on a file, whatever it is called by now. -/
def World.loopsOf (w : World) (file : Str) : List Loop :=
  (w.loops.filter (·.file = file)).map Loop.core

def World.mapsOf (w : World) (name : String) : List (String × ℕ) := w.dm.filter (·.1 = name)

theorem World.mem_loopsOf {file : Str} {l : Loop} : l ∈ w.loopsOf file ↔
    ∃ l' ∈ w.loops, l'.file = file ∧ l'.core = l := by
  simp [World.loopsOf, and_assoc]

theorem World.owns_loop {dev : ℕ} :
    V.Owns w v (.loop dev) ↔ ∃ l ∈ w.loopsOf (V.image v), l.dev = dev := by
  constructor
  · rintro ⟨l, hl, hd, hf⟩
    exact ⟨_, World.mem_loopsOf.mpr ⟨l, hl, hf, rfl⟩, hd⟩
  · rintro ⟨l, hl, hd⟩
    obtain ⟨l', hl', hf, rfl⟩ := World.mem_loopsOf.mp hl
    exact ⟨l', hl', hd, hf⟩

theorem World.loopsOf_eq_nil {file : Str} :
    w.loopsOf file = [] ↔ ∀ l ∈ w.loops, l.file ≠ file := by
  simp [World.loopsOf, List.filter_eq_nil_iff]

theorem World.mountedAt_iff_stack {path : Str} : w.mountedAt path = true ↔ w.stack path ≠ [] := by
  rw [World.mountedAt_iff, World.stack, ne_eq, List.filter_eq_nil_iff]
  simp

theorem World.top_eq_head (w : World) (path : Str) : w.top path = (w.stack path).head? := by
  unfold World.top World.stack
  rw [List.head?_filter]

theorem World.mem_mapsOf {name : String} {n : ℕ} :
    (name, n) ∈ w.mapsOf name ↔ (name, n) ∈ w.dm := by
  simp [World.mapsOf]

/-- The entry is one that an operation on the volume writes. -/
structure Mapping.Records (m : Mapping) (V : Volumes S ι) (v : ι) : Prop where
  volumeID : m.volumeID = V.id v
  imagePath : m.imagePath = V.image v
  stagePath : m.stagePath ∈ V.paths v
  cryptDev : ∀ name, m.cryptDev = some name → name = V.mapper v
  stageContext : ∀ context, m.stageContext = some context → context = V.context v

/-- The kernel tables are tidy, and every entry is some volume's. -/
structure Sane (V : Volumes S ι) (w : World) : Prop extends Tidy V w where
  entries : ∀ m ∈ w.state, ∃ v, m.Records V v
  filed : ∀ m ∈ w.stateFile, ∃ v, m.Records V v

theorem Mapping.mem_of_get {l : List Mapping} {id : VolumeID} {m : Mapping} (h : get l id = some m) :
    m ∈ l ∧ m.volumeID = id :=
  ⟨List.mem_of_find?_eq_some h, by simpa using List.find?_some h⟩

theorem Sane.records (h : Sane V w) {m : Mapping} (hm : Mapping.get w.state (V.id v) = some m) :
    m.Records V v := by
  obtain ⟨hmem, hid⟩ := Mapping.mem_of_get hm
  obtain ⟨u, hu⟩ := h.entries m hmem
  rwa [← V.id_injective (hu.volumeID.symm.trans hid)]

/-- What the operations of others leave alone: the volume's loops, its mapping,
the mounts at its staging paths, its entry and the content of its image. Its devices
may come to be mounted in fewer places, and its image may be deleted. -/
structure Frame (V : Volumes S ι) (v : ι) (w w' : World) : Prop where
  loops : w'.loopsOf (V.image v) = w.loopsOf (V.image v)
  maps : w'.mapsOf (V.mapper v) = w.mapsOf (V.mapper v)
  stack : ∀ p ∈ V.places v, w'.stack p = w.stack p
  idle : ∀ src, V.Owns w v src → w'.mounted src = true → w.mounted src = true
  entry : Mapping.get w'.state (V.id v) = Mapping.get w.state (V.id v)
  present : (w'.images (V.image v)).present = true → (w.images (V.image v)).present = true
  device : (w'.images (V.image v)).device = (w.images (V.image v)).device

namespace Frame

theorem refl (V : Volumes S ι) (v : ι) (w : World) : Frame V v w w :=
  ⟨rfl, rfl, fun _ _ => rfl, fun _ _ h => h, rfl, fun h => h, rfl⟩

theorem owns (h : Frame V v w w') {src : Source} : V.Owns w' v src ↔ V.Owns w v src := by
  cases src with
  | loop dev => rw [World.owns_loop, World.owns_loop, h.loops]
  | mapper name => exact Iff.rfl
  | dir path => exact Iff.rfl

theorem trans (h : Frame V v w w') (h' : Frame V v w' w'') : Frame V v w w'' := by
  refine ⟨h'.loops.trans h.loops, h'.maps.trans h.maps,
    fun p hp => (h'.stack p hp).trans (h.stack p hp), ?_,
    h'.entry.trans h.entry, fun hp => h.present (h'.present hp), h'.device.trans h.device⟩
  exact fun src ho hm => h.idle src ho (h'.idle src (h.owns.mpr ho) hm)

theorem mountedAt (h : Frame V v w w') {p : Str} (hp : p ∈ V.places v) :
    w'.mountedAt p = w.mountedAt p := by
  rw [Bool.eq_iff_iff, World.mountedAt_iff_stack, World.mountedAt_iff_stack, h.stack p hp]

theorem top (h : Frame V v w w') {p : Str} (hp : p ∈ V.places v) : w'.top p = w.top p := by
  rw [World.top_eq_head, World.top_eq_head, h.stack p hp]

theorem unmounted (h : Frame V v w w') {src : Source} (ho : V.Owns w v src)
    (hm : w.mounted src = false) : w'.mounted src = false := by
  by_contra hc
  rw [h.idle _ ho (by simpa using hc)] at hm
  exact Bool.false_ne_true hm.symm

theorem busy (h : Frame V v w w') (ht : Tidy V w') {dev : ℕ} (ho : V.Owns w v (.loop dev))
    (hb : w.busy dev = false) : w'.busy dev = false := by
  obtain ⟨hm, hh⟩ := World.busy_false.mp hb
  refine World.busy_false.mpr ⟨h.unmounted ho hm, World.held_false.mpr ?_⟩
  · intro name hx
    obtain ⟨l, hl, rfl, hf⟩ := h.owns.mpr ho
    have hn := ht.mapper_over hl hf hx
    rw [hn, ← World.mem_mapsOf, h.maps, World.mem_mapsOf] at hx
    exact World.held_false.mp hh _ hx

end Frame

theorem World.unlink_loopsOf (file f : Str) (silly : Option Silly) :
    (w.unlink file silly).loopsOf f = w.loopsOf f := by
  have hfile : ∀ l : Loop, (l.unlink file silly).file = l.file := by
    intro l
    unfold Loop.unlink
    split_ifs <;> rfl
  have hcore : ∀ l : Loop, (l.unlink file silly).core = l.core := by
    intro l
    unfold Loop.unlink
    split_ifs <;> rfl
  unfold World.loopsOf World.unlink
  rw [List.filter_map, List.map_map]
  simp only [Function.comp_def, hfile, hcore]

theorem World.unlink_present {file f : Str} {silly : Option Silly}
    (h : ((w.unlink file silly).images f).present = true) : (w.images f).present = true := by
  unfold World.unlink at h
  dsimp only at h
  split_ifs at h with hf
  exact h

/-- What happens around a command touches no table but the names of deleted
images, and forgets no mark. -/
structure Disturbed (w w' : World) : Prop where
  dm : w'.dm = w.dm
  mounts : w'.mounts = w.mounts
  dirs : w'.dirs = w.dirs
  loopsOf : ∀ f, w'.loopsOf f = w.loopsOf f
  present : ∀ f, (w'.images f).present = true → (w.images f).present = true
  device : ∀ f, (w'.images f).device = (w.images f).device
  stateFile : w'.stateFile = w.stateFile
  state : w'.state = w.state
  failed : ∀ id ∈ w.failed, id ∈ w'.failed
  keys : w'.keys = w.keys
  locks : w'.locks = w.locks
  attaches : w'.attaches = w.attaches

theorem World.unlink_disturbed (w : World) (file : Str) (silly : Option Silly) :
    Disturbed w (w.unlink file silly) := by
  refine ⟨rfl, rfl, rfl, fun f => World.unlink_loopsOf file f silly,
    fun f => World.unlink_present, ?_, rfl, rfl, fun _ h => h, rfl, rfl, rfl⟩
  intro f
  unfold World.unlink
  dsimp only
  split_ifs with hf
  · rw [hf]
  · rfl

theorem Disturbed.trans (h : Disturbed w w') (h' : Disturbed w' w'') : Disturbed w w'' :=
  ⟨h'.dm.trans h.dm, h'.mounts.trans h.mounts, h'.dirs.trans h.dirs,
    fun f => (h'.loopsOf f).trans (h.loopsOf f), fun f hp => h.present f (h'.present f hp),
    fun f => (h'.device f).trans (h.device f), h'.stateFile.trans h.stateFile,
    h'.state.trans h.state, fun id hid => h'.failed id (h.failed id hid), h'.keys.trans h.keys,
    h'.locks.trans h.locks, h'.attaches.trans h.attaches⟩

theorem World.disturb_disturbed (w : World) (o : Choice) : Disturbed w (w.disturb o) := by
  have h0 : Disturbed w { w with failed := o.marks ++ w.failed, shutdown := o.breaks ++ w.shutdown } :=
    ⟨rfl, rfl, rfl, fun _ => rfl, fun _ h => h, fun _ => rfl, rfl, rfl,
      fun _ h => List.mem_append_right _ h, rfl, rfl, rfl⟩
  unfold World.disturb
  generalize { w with failed := o.marks ++ w.failed, shutdown := o.breaks ++ w.shutdown } = w0 at h0
  generalize o.unlinks = us
  induction us generalizing w0 with
  | nil => exact h0
  | cons u us ih => exact ih _ (h0.trans (w0.unlink_disturbed u.1 u.2))

theorem Disturbed.frame (h : Disturbed w w') (V : Volumes S ι) (v : ι) : Frame V v w w' := by
  refine ⟨h.loopsOf _, ?_, ?_, ?_, ?_, h.present _, h.device _⟩
  · rw [World.mapsOf, World.mapsOf, h.dm]
  · intro p _
    rw [World.stack, World.stack, h.mounts]
  · intro src _
    rw [World.mounted, World.mounted, h.mounts]
    exact fun h => h
  · rw [h.state]

theorem Sane.disturb (h : Sane V w) (o : Choice) : Sane V (w.disturb o) := by
  have hd := w.disturb_disturbed o
  exact ⟨h.toTidy.disturb o, hd.state ▸ h.entries, hd.stateFile ▸ h.filed⟩

end Fileblock.Node
