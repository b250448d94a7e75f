import Fileblock.Go.Map
import Fileblock.Node.World

/-! Everything the node plugin does to its surroundings, one command at a time:
programs it runs, files it reads, and its own shared memory. -/
namespace Fileblock.Node
open Go Store

inductive Cmd where
  | stat (path : Str)
  | mkdirAll (path : Str)
  | remove (path : Str)
  | findmntTarget (path : Str)
  | findmntExact (path : Str)
  | findmntSources (path : Str)
  | findmntDevice (device : Source) (host : Bool)
  | mount (device : Source) (path : Str) (options : List String)
  | bind (source target : Str)
  | remountReadOnly (target : Str)
  | umount (path : Str)
  | mountInfo
  | losetupAttach (file : Str) (sectorSize : ℕ)
  | losetupList
  | losetupDetach (dev : ℕ)
  | losetupSetCapacity (dev : Option ℕ)
  | holders (dev : ℕ)
  | dmList
  | luks (dev : ℕ) (name : String) (c : Crypt.Cmd)
  | imageLuks (file : Str) (c : Crypt.Cmd)
  | cryptClose (name : String)
  | cryptResize (name : String)
  | fsck (device : Source)
  | resize2fs (device : Source)
  | registryGet (c : Config)
  | statStore (path : Str)
  | statImage (file : Str)
  | readSuperblock (file : Str)
  | podEvent (message : String)
  | statePut (m : Mapping)
  | stateDelete (id : VolumeID)
  | stateGet (id : VolumeID)
  | stateAll
  | failedGet (id : VolumeID)
  | failedMark (id : VolumeID)
  | failedClear (id : VolumeID)
  | keysGet (id : VolumeID)
  | keysCache (id : VolumeID) (k : StageKeys) (replace : Bool)
  | keysDelete (id : VolumeID)
  | lock (id : VolumeID)
  | unlock (id : VolumeID)
  | rangeLoops (devs : List ℕ)

/-- One row of `losetup --json --list`. -/
structure Attachment where
  device : ℕ
  backFile : Str
  deriving DecidableEq

@[reducible] def Resp : Cmd → Type
  | .stat _ => Except ExecError Bool
  | .findmntExact _ => List Str
  | .findmntSources _ => Except ExecError (List Source)
  | .findmntDevice _ _ => Except ExecError (List Str)
  | .mountInfo => Except ExecError (List MountInfo)
  | .losetupAttach _ _ => Except ExecError ℕ
  | .losetupList => Except ExecError (List Attachment)
  | .holders _ => Except ExecError (List String)
  | .dmList => Except ExecError (List (String × ℕ))
  | .luks _ _ c | .imageLuks _ c => Crypt.Resp c
  | .registryGet _ => Except ExecError Str
  | .statImage _ => Except ExecError ℕ
  | .readSuperblock _ => Except ExecError (Option ℕ)
  | .stateGet _ => Option Mapping
  | .stateAll => List Mapping
  | .failedGet _ => Bool
  | .keysGet _ => Option StageKeys
  | .failedMark _ => Bool
  | .failedClear _ | .keysCache .. | .keysDelete _ | .lock _ | .unlock _ => Unit
  | .rangeLoops _ => List ℕ
  | .mkdirAll _ | .remove _ | .findmntTarget _ | .mount .. | .bind .. | .remountReadOnly _
  | .umount _ | .losetupDetach _ | .losetupSetCapacity _ | .cryptClose _ | .cryptResize _
  | .fsck _ | .resize2fs _ | .statStore _ | .podEvent _ | .statePut _ | .stateDelete _ =>
    Except ExecError Unit

/-- What losetup says about a device that is not attached. -/
def noSuchDevice : ExecError := ⟨1, "detach failed: No such device or address".toList⟩

/-- A cryptsetup subcommand on a loop device. `open` needs the device to itself. -/
def World.luks (w : World) (pick dev : ℕ) (name : String) (c : Crypt.Cmd) :
    Crypt.Resp c × World :=
  match w.loop? dev with
  | none => (Crypt.failed (Crypt.exit 4) c, w)
  | some l =>
    let d := { (w.images l.file).device with mapped := w.isOpen name }
    match c with
    | .close => w.closeMapping name
    | .open key =>
      if w.busy dev then (.error (Crypt.exit 5), w)
      else match Crypt.execOk pick (.open key) d with
        | (.ok _, _) => (.ok (), { w with dm := (name, dev) :: w.dm })
        | (.error e, _) => (.error e, w)
    | c =>
      let r := Crypt.execOk pick c d
      (r.1, w.setDevice l.file { r.2 with mapped := false })

def okIf (b : Bool) (status : Int) (w w' : World) : Except ExecError Unit × World :=
  if b then (.ok (), w') else (.error (Crypt.exit status), w)

/-- A list of rows, or status 1 when there are none. -/
def rowsOr {α : Type} (rows : List α) : Except ExecError (List α) :=
  if rows.isEmpty then .error (Crypt.exit 1) else .ok rows

/-- `losetup --list`, without the kernel's mark on unlinked files. -/
def World.attachments (S : Site) (w : World) : List Attachment :=
  w.loops.map fun l => ⟨l.dev, S.reported l.file l.fresh l.silly⟩

/-- One command that is not made to fail. The tables know a path by its canonical form. -/
def execOk (S : Site) (o : Choice) : (c : Cmd) → World → Resp c × World
  | .stat path, w => (.ok (w.dirs.contains (S.resolve path)), w)
  | .mkdirAll path, w => (.ok (), w.mkdirAll (S.resolve path))
  | .remove path, w =>
    okIf (w.dirs.contains (S.resolve path) && !w.mountedAt (S.resolve path)) 1 w
      { w with dirs := w.dirs.filter (· ≠ S.resolve path) }
  | .findmntTarget path, w => okIf (w.dirs.contains (S.resolve path)) 1 w w
  | .findmntExact path, w => ((w.stack (S.resolve path)).map Mount.target, w)
  | .findmntSources path, w => (rowsOr ((w.stack (S.resolve path)).map Mount.source).reverse, w)
  | .findmntDevice device _, w =>
    (rowsOr ((w.mounts.filter (·.source = device)).map Mount.target).reverse, w)
  | .mount device path options, w =>
    okIf (w.dirs.contains (S.resolve path) && w.hasFS device) 32 w
      (w.addMount ⟨S.resolve path, device, "ro" ∈ options⟩)
  | .bind source target, w =>
    okIf (w.dirs.contains (S.resolve source) && w.dirs.contains (S.resolve target)) 32 w
      (w.addMount (w.bound (S.resolve source) (S.resolve target)))
  | .remountReadOnly target, w =>
    okIf (w.mountedAt (S.resolve target)) 32 w (w.remountReadOnly (S.resolve target))
  | .umount path, w => okIf (w.mountedAt (S.resolve path)) 32 w (w.unmount (S.resolve path))
  | .mountInfo, w => (.ok w.mountRows, w)
  | .losetupAttach file _, w =>
    if (w.images file).present then (.ok (w.freeDev o.pick), w.attach file (w.freeDev o.pick))
    else (.error (Crypt.exit 1), w)
  | .losetupList, w => (.ok (w.attachments S), w)
  | .losetupDetach dev, w =>
    match w.loop? dev with
    | some _ => (.ok (), w.detach dev)
    | none => (.error noSuchDevice, w)
  | .losetupSetCapacity dev, w => okIf ((dev.bind w.loop?).isSome) 1 w w
  | .holders dev, w => (.ok ((w.dm.filter (·.2 = dev)).map Prod.fst), w)
  | .dmList, w => (.ok w.dm, w)
  | .luks dev name c, w => w.luks o.pick dev name c
  | .imageLuks file c, w =>
    if (w.images file).present then
      ((Crypt.execOk o.pick c { (w.images file).device with mapped := false }).1, w)
    else (Crypt.failed (Crypt.exit 4) c, w)
  | .cryptClose name, w => w.closeMapping name
  | .cryptResize name, w => okIf (w.isOpen name) 4 w w
  | .fsck device, w => okIf (w.hasFS device && !w.mounted device) 8 w w
  | .resize2fs device, w => okIf (w.hasFS device) 1 w w
  | .registryGet c, w => (.ok (S.storePath c), w)
  | .statStore _, w => (.ok (), w)
  | .statImage file, w =>
    if (w.images file).present then (.ok (w.images file).size, w) else (.error (Crypt.exit 2), w)
  | .readSuperblock file, w =>
    if (w.images file).present then (.ok (w.images file).superblock, w)
    else (.error (Crypt.exit 2), w)
  | .podEvent _, w => (.ok (), w)
  | .statePut m, w =>
    let state := Mapping.put w.state m
    (.ok (), { w with state, stateFile := state })
  | .stateDelete id, w =>
    let state := Mapping.delete w.state id
    (.ok (), { w with state, stateFile := state })
  | .stateGet id, w => (Mapping.get w.state id, w)
  | .stateAll, w => (anyOrder w.state o.pick, w)
  | .failedGet id, w => (w.failed.contains id, w)
  | .failedMark id, w => (!w.failed.contains id, { w with failed := id :: w.failed })
  | .failedClear id, w => ((), { w with failed := w.failed.filter (· ≠ id) })
  | .keysGet id, w => (w.keys.lookup id, w)
  | .keysCache id k replace, w =>
    if (w.keys.lookup id).isSome && !replace then ((), w)
    else ((), { w with keys := (id, k) :: w.keys.filter (·.1 ≠ id) })
  | .keysDelete id, w => ((), { w with keys := w.keys.filter (·.1 ≠ id) })
  | .lock id, w => ((), { w with locks := (id, o.who) :: w.locks })
  | .unlock id, w => ((), { w with locks := w.locks.filter (·.1 ≠ id) })
  | .rangeLoops devs, w => (anyOrder devs o.pick, w)

/-- A command that fails does nothing, except that the state map is changed before
it is flushed. What only reads or writes the plugin's memory does not fail. -/
def execFail (S : Site) (o : Choice) (e : ExecError) : (c : Cmd) → World → Resp c × World
  | .findmntExact _, w => (split e.output '\n', w)
  | .statePut m, w => (.error e, { w with state := Mapping.put w.state m })
  | .stateDelete id, w => (.error e, { w with state := Mapping.delete w.state id })
  | .luks _ _ c, w => (Crypt.failed e c, w)
  | .imageLuks _ c, w => (Crypt.failed e c, w)
  | .stateGet id, w => execOk S o (.stateGet id) w
  | .stateAll, w => execOk S o .stateAll w
  | .failedGet id, w => execOk S o (.failedGet id) w
  | .failedMark id, w => execOk S o (.failedMark id) w
  | .failedClear id, w => execOk S o (.failedClear id) w
  | .keysGet id, w => execOk S o (.keysGet id) w
  | .keysCache id k replace, w => execOk S o (.keysCache id k replace) w
  | .keysDelete id, w => execOk S o (.keysDelete id) w
  | .lock id, w => execOk S o (.lock id) w
  | .unlock id, w => execOk S o (.unlock id) w
  | .rangeLoops devs, w => execOk S o (.rangeLoops devs) w
  | .stat _, w | .mkdirAll _, w | .remove _, w | .findmntTarget _, w | .findmntSources _, w
  | .findmntDevice .., w | .mount .., w | .bind .., w | .remountReadOnly _, w | .umount _, w
  | .mountInfo, w | .losetupAttach .., w | .losetupList, w | .losetupDetach _, w
  | .losetupSetCapacity _, w | .holders _, w | .dmList, w | .cryptClose _, w | .cryptResize _, w
  | .fsck _, w | .resize2fs _, w | .registryGet _, w | .statStore _, w | .statImage _, w
  | .readSuperblock _, w | .podEvent _, w => (.error e, w)

def step (S : Site) (o : Choice) (c : Cmd) (w : World) : Resp c × World :=
  match o.fault with
  | some e => execFail S o e c w
  | none => execOk S o c w

def exec (S : Site) (o : Choice) (c : Cmd) (w : World) : Resp c × World :=
  step S o c (w.disturb o)

/-- `findmnt` prints the path as it is given, and nothing is trimmed off the row. -/
structure Printed (S : Site) (path : Str) : Prop where
  canonical : S.resolve path = path
  trimmed : trimSpace path = path

/-- The failure `e` is not the answer that stands for something else: that a device
is mounted nowhere, that a path is a mount point, that a loop is not attached, that
a mapping is not open, or what cryptsetup answers with a status. -/
def Honest (S : Site) (w : World) (e : ExecError) : Cmd → Prop
  | .findmntDevice _ host => host = false → e.exitCode ≠ 1
  | .findmntExact path =>
    ∀ row ∈ split e.output '\n', trimSpace row = path → w.mountedAt (S.resolve path) = true
  | .losetupDetach _ => contains (toLower e.output) "no such device" = false
  | .cryptClose _ => e.exitCode ≠ 4
  | .luks _ _ c | .imageLuks _ c => ¬ Crypt.Answers c e.exitCode
  | _ => True

instance (S : Site) (w : World) (e : ExecError) (c : Cmd) : Decidable (Honest S w e c) := by
  unfold Honest
  cases c <;> infer_instance

/-- A command that is made to fail does not seem to answer. -/
def Genuine (S : Site) (w : World) (c : Cmd) (o : Choice) : Prop :=
  ∀ e, o.fault = some e → Honest S w e c

instance (S : Site) (w : World) (c : Cmd) (o : Choice) : Decidable (Genuine S w c o) :=
  inferInstanceAs (Decidable (∀ e ∈ o.fault, Honest S w e c))

end Fileblock.Node
