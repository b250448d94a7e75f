import Fileblock.Node.Command
import Fileblock.Node.Tidy

/-! What a command can do: to the tables of the kernel, once for all invariants
about them, and to the memory of the plugin. -/
namespace Fileblock.Node
open Go Store

/-- Nothing a table of the kernel or the file tree shows has changed. -/
structure World.SameTables (w w' : World) : Prop where
  loops : w'.loops = w.loops
  dm : w'.dm = w.dm
  mounts : w'.mounts = w.mounts
  dirs : w'.dirs = w.dirs
  present : ∀ f, (w'.images f).present = (w.images f).present

theorem World.SameTables.refl (w : World) : w.SameTables w := ⟨rfl, rfl, rfl, rfl, fun _ => rfl⟩

theorem World.SameTables.mountedAt {w w' : World} (h : w.SameTables w') {path : Str}
    (hm : w.mountedAt path = true) : w'.mountedAt path = true := by
  rw [World.mountedAt, h.mounts]
  exact hm

theorem World.SameTables.setDevice (w : World) (file : Str) (d : Crypt.Device) :
    w.SameTables (w.setDevice file d) := by
  refine ⟨rfl, rfl, rfl, rfl, ?_⟩
  intro f
  unfold World.setDevice
  dsimp only
  split_ifs with h
  · rw [h]
  · rfl

/-- The change a command makes to the tables, and what it found there. -/
inductive Move (S : Site) (w : World) : Cmd → World → Prop
  | none {c : Cmd} {w' : World} (h : w.SameTables w') : Move S w c w'
  | mkdir (path : Str) : Move S w (.mkdirAll path) { w with dirs := S.resolve path :: w.dirs }
  | rmdir (path : Str) (h : w.mountedAt (S.resolve path) = false) :
    Move S w (.remove path) { w with dirs := w.dirs.filter (· ≠ S.resolve path) }
  | mount (device : Source) (path : Str) (options : List String) (hp : S.resolve path ∈ w.dirs)
    (hfs : w.hasFS device = true) :
    Move S w (.mount device path options)
      (w.addMount ⟨S.resolve path, device, decide ("ro" ∈ options)⟩)
  | bind (source target : Str) (hs : S.resolve source ∈ w.dirs) (ht : S.resolve target ∈ w.dirs) :
    Move S w (.bind source target) (w.addMount (w.bound (S.resolve source) (S.resolve target)))
  | readOnly (path : Str) :
    Move S w (.remountReadOnly path) (w.remountReadOnly (S.resolve path))
  | umount (path : Str) (h : w.mountedAt (S.resolve path) = true) :
    Move S w (.umount path) (w.unmount (S.resolve path))
  | attach (file : Str) (sectorSize pick : ℕ) (h : (w.images file).present = true) :
    Move S w (.losetupAttach file sectorSize) (w.attach file (w.freeDev pick))
  | detach {l : Loop} (h : l ∈ w.loops) : Move S w (.losetupDetach l.dev) (w.detach l.dev)
  | open {l : Loop} (h : l ∈ w.loops) (name : String) (key : Crypt.Key)
    (hb : w.busy l.dev = false) (hn : w.isOpen name = false) :
    Move S w (.luks l.dev name (.open key)) { w with dm := (name, l.dev) :: w.dm }
  | close {c : Cmd} (name : String) (hc : c = .cryptClose name ∨ ∃ dev, c = .luks dev name .close)
    (hn : w.mounted (.mapper name) = false) :
    Move S w c (World.reap { w with dm := w.dm.filter (·.1 ≠ name) })

namespace Move
variable {S : Site} {w : World} {o : Choice}

theorem okIf {b : Bool} {status : Int} {w' : World} {c : Cmd} (h : b = true → Move S w c w') :
    Move S w c (okIf b status w w').2 := by
  unfold Node.okIf
  split_ifs with hb
  · exact h hb
  · exact .none (.refl w)

theorem closeMapping {c : Cmd} {name : String}
    (hc : c = .cryptClose name ∨ ∃ dev, c = .luks dev name .close) :
    Move S w c (w.closeMapping name).2 := by
  unfold World.closeMapping
  split_ifs with h1 h2
  · exact .none (.refl w)
  · exact .none (.refl w)
  · exact .close name hc (by simpa using h2)

theorem luks {pick dev : ℕ} {name : String} {c : Crypt.Cmd} :
    Move S w (.luks dev name c) (w.luks pick dev name c).2 := by
  unfold World.luks
  cases hl : w.loop? dev with
  | none => exact .none (.refl w)
  | some l =>
    obtain ⟨hmem, rfl⟩ := World.loop?_some hl
    dsimp only
    cases c with
    | close => exact .closeMapping (Or.inr ⟨_, rfl⟩)
    | «open» key =>
      dsimp only
      split_ifs with hb
      · exact .none (.refl w)
      · have hb' : w.busy l.dev = false := by simpa using hb
        unfold Crypt.execOk
        dsimp only
        cases (w.images l.file).device.header with
        | none => exact .none (.refl w)
        | some h =>
          dsimp only
          by_cases hk : key ∈ h.slots
          · cases hn : w.isOpen name with
            | true =>
              rw [if_neg (not_not.mpr hk), if_pos rfl]
              exact .none (.refl w)
            | false =>
              rw [if_neg (not_not.mpr hk), if_neg (by decide)]
              exact .open hmem name key hb' hn
          · rw [if_pos hk]
            exact .none (.refl w)
    | _ => exact .none (.setDevice w _ _)

end Move

/-- Every change a command makes to the tables is one of the moves. -/
theorem step_move (S : Site) (o : Choice) (c : Cmd) (w : World) : Move S w c (step S o c w).2 := by
  unfold step
  cases o.fault with
  | some e =>
    cases c with
    | keysCache id k replace =>
      simp only [execFail, execOk]
      split_ifs <;> exact .none ⟨rfl, rfl, rfl, rfl, fun _ => rfl⟩
    | _ => exact .none ⟨rfl, rfl, rfl, rfl, fun _ => rfl⟩
  | none =>
    cases c with
    | mkdirAll path =>
      simp only [execOk, World.mkdirAll]
      by_cases h : S.resolve path ∈ w.dirs
      · rw [List.insert_of_mem h]
        exact .none (.refl w)
      · rw [List.insert_of_not_mem h]
        exact .mkdir path
    | remove path =>
      refine .okIf fun h => .rmdir path ?_
      simpa using (Bool.and_eq_true_iff.mp h).2
    | mount device path options =>
      refine .okIf fun h => ?_
      obtain ⟨hp, hfs⟩ := Bool.and_eq_true_iff.mp h
      exact .mount device path options (by simpa using hp) hfs
    | bind source target =>
      refine .okIf fun h => ?_
      obtain ⟨hs, ht⟩ := Bool.and_eq_true_iff.mp h
      exact .bind source target (by simpa using hs) (by simpa using ht)
    | remountReadOnly path => exact .okIf fun _ => .readOnly path
    | umount path => exact .okIf fun h => .umount path h
    | losetupAttach file sectorSize =>
      simp only [execOk]
      split_ifs with h
      · exact .attach file sectorSize o.pick h
      · exact .none (.refl w)
    | losetupDetach dev =>
      simp only [execOk]
      cases hl : w.loop? dev with
      | none => exact .none (.refl w)
      | some l =>
        obtain ⟨hmem, rfl⟩ := World.loop?_some hl
        exact .detach hmem
    | luks dev name c => exact .luks
    | imageLuks file c =>
      simp only [execOk]
      split_ifs <;> exact .none (.refl w)
    | cryptClose name => exact .closeMapping (Or.inl rfl)
    | statImage file =>
      simp only [execOk]
      split_ifs <;> exact .none (.refl w)
    | readSuperblock file =>
      simp only [execOk]
      split_ifs <;> exact .none (.refl w)
    | keysCache id k replace =>
      simp only [execOk]
      split_ifs <;> exact .none ⟨rfl, rfl, rfl, rfl, fun _ => rfl⟩
    | losetupSetCapacity dev => exact .okIf fun _ => .none (.refl w)
    | findmntTarget path => exact .okIf fun _ => .none (.refl w)
    | cryptResize name => exact .okIf fun _ => .none (.refl w)
    | fsck device => exact .okIf fun _ => .none (.refl w)
    | resize2fs device => exact .okIf fun _ => .none (.refl w)
    | _ => exact .none ⟨rfl, rfl, rfl, rfl, fun _ => rfl⟩

/-- What the plugin remembers, and the file it keeps of it. -/
structure Memory where
  stateFile : List Mapping
  state : List Mapping
  failed : List VolumeID
  keys : List (VolumeID × StageKeys)
  locks : List (VolumeID × ℕ)

def World.memory (w : World) : Memory := ⟨w.stateFile, w.state, w.failed, w.keys, w.locks⟩

/-- A flush that fails leaves the file behind the state map. -/
def Memory.flush (m : Memory) (o : Choice) (state : List Mapping) : Memory :=
  { m with state, stateFile := if o.fault = none then state else m.stateFile }

/-- What a command makes of the memory. -/
def Memory.after (m : Memory) (o : Choice) : Cmd → Memory
  | .statePut e => m.flush o (Mapping.put m.state e)
  | .stateDelete id => m.flush o (Mapping.delete m.state id)
  | .failedMark id => { m with failed := id :: m.failed }
  | .failedClear id => { m with failed := m.failed.filter (· ≠ id) }
  | .keysCache id k replace =>
    { m with keys := if (m.keys.lookup id).isSome && !replace then m.keys
        else (id, k) :: m.keys.filter (·.1 ≠ id) }
  | .keysDelete id => { m with keys := m.keys.filter (·.1 ≠ id) }
  | .lock id => { m with locks := (id, o.who) :: m.locks }
  | .unlock id => { m with locks := m.locks.filter (·.1 ≠ id) }
  | _ => m

theorem World.luks_memory (w : World) (pick dev : ℕ) (name : String) (c : Crypt.Cmd) :
    (w.luks pick dev name c).2.memory = w.memory := by
  unfold World.luks
  cases w.loop? dev with
  | none => rfl
  | some l =>
    dsimp only
    cases c with
    | close =>
      dsimp only [World.closeMapping]
      split_ifs <;> rfl
    | «open» key =>
      dsimp only
      split_ifs
      · rfl
      · split <;> rfl
    | _ => rfl

theorem okIf_memory {b : Bool} {status : Int} {w w' : World} (h : w'.memory = w.memory) :
    (okIf b status w w').2.memory = w.memory := by
  unfold okIf
  split_ifs
  · exact h
  · rfl

theorem step_memory (S : Site) (o : Choice) (c : Cmd) (w : World) :
    (step S o c w).2.memory = w.memory.after o c := by
  unfold step
  cases hf : o.fault with
  | some e =>
    cases c with
    | statePut m => simp [execFail, World.memory, Memory.after, Memory.flush, hf]
    | stateDelete id => simp [execFail, World.memory, Memory.after, Memory.flush, hf]
    | keysCache id k replace =>
      dsimp only [execFail, execOk, Memory.after, World.memory]
      split_ifs <;> rfl
    | _ => rfl
  | none =>
    cases c with
    | statePut m => simp [execOk, World.memory, Memory.after, Memory.flush, hf]
    | stateDelete id => simp [execOk, World.memory, Memory.after, Memory.flush, hf]
    | keysCache id k replace =>
      dsimp only [execOk, Memory.after, World.memory]
      split_ifs <;> rfl
    | luks dev name c => exact w.luks_memory _ _ _ _
    | cryptClose name =>
      dsimp only [execOk, World.closeMapping]
      split_ifs <;> rfl
    | losetupDetach dev =>
      dsimp only [execOk]
      cases w.loop? dev <;> rfl
    | losetupAttach file sectorSize =>
      dsimp only [execOk]
      split_ifs <;> rfl
    | imageLuks file c =>
      dsimp only [execOk]
      split_ifs <;> rfl
    | statImage file =>
      dsimp only [execOk]
      split_ifs <;> rfl
    | readSuperblock file =>
      dsimp only [execOk]
      split_ifs <;> rfl
    | _ => first | rfl | exact okIf_memory rfl

section Memory
variable {S : Site} {o : Choice} {c : Cmd} {w : World}

theorem step_entries {m : Mapping} (h : m ∈ (step S o c w).2.state) :
    c = .statePut m ∨ m ∈ w.state := by
  have hs : (step S o c w).2.state = (w.memory.after o c).state :=
    congrArg Memory.state (step_memory S o c w)
  rw [hs] at h
  cases c with
  | statePut m' =>
    rcases List.mem_cons.mp h with rfl | h
    · exact Or.inl rfl
    · exact Or.inr (List.mem_of_mem_filter h)
  | stateDelete id => exact Or.inr (List.mem_of_mem_filter h)
  | _ => exact Or.inr h

theorem step_filed {m : Mapping} (h : m ∈ (step S o c w).2.stateFile) :
    c = .statePut m ∨ m ∈ w.state ∨ m ∈ w.stateFile := by
  have hs : (step S o c w).2.stateFile = (w.memory.after o c).stateFile :=
    congrArg Memory.stateFile (step_memory S o c w)
  rw [hs] at h
  cases c with
  | statePut m' =>
    simp only [Memory.after, Memory.flush] at h
    split_ifs at h
    · rcases List.mem_cons.mp h with rfl | h
      · exact Or.inl rfl
      · exact Or.inr (Or.inl (List.mem_of_mem_filter h))
    · exact Or.inr (Or.inr h)
  | stateDelete id =>
    simp only [Memory.after, Memory.flush] at h
    split_ifs at h
    · exact Or.inr (Or.inl (List.mem_of_mem_filter h))
    · exact Or.inr (Or.inr h)
  | _ => exact Or.inr (Or.inr h)

theorem step_failed {id : VolumeID} (h : id ∈ w.failed) (hc : c ≠ .failedClear id) :
    id ∈ (step S o c w).2.failed := by
  have hs : (step S o c w).2.failed = (w.memory.after o c).failed :=
    congrArg Memory.failed (step_memory S o c w)
  rw [hs]
  cases c with
  | failedClear id' =>
    have hne : id ≠ id' := fun he => hc (he ▸ rfl)
    exact List.mem_filter.mpr ⟨h, by simpa using hne⟩
  | failedMark id' => exact List.mem_cons_of_mem _ h
  | _ => exact h

theorem step_failedGet (id : VolumeID) :
    (step S o (.failedGet id) w).1 = decide (id ∈ w.failed) := by
  unfold step
  cases o.fault with
  | none => exact List.contains_eq_mem id w.failed
  | some e => exact List.contains_eq_mem id w.failed

theorem step_locks (h1 : ∀ id, c ≠ .lock id) (h2 : ∀ id, c ≠ .unlock id) :
    (step S o c w).2.locks = w.locks := by
  have hs : (step S o c w).2.locks = (w.memory.after o c).locks :=
    congrArg Memory.locks (step_memory S o c w)
  rw [hs]
  cases c with
  | lock id => exact absurd rfl (h1 id)
  | unlock id => exact absurd rfl (h2 id)
  | _ => rfl

end Memory

end Fileblock.Node
