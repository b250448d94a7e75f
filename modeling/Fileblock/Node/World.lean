import Fileblock.Crypt.Prepare
import Fileblock.Node.Volumes

/-! What a node consists of: the kernel's loop, dm-crypt and mount tables, the
image files, the state file, and what the plugin process holds in memory. -/
namespace Fileblock.Node
open Go Store

/-- An attached loop device. Once the process that attached it is gone it is no
longer `fresh`: its file is reported relative to the store mount. `birth` counts
attachments, so a reused device number is told from the old one. -/
structure Loop where
  dev : ℕ
  file : Str
  fresh : Bool
  silly : Option Silly
  autoclear : Bool
  birth : ℕ
  deriving DecidableEq

structure Mount where
  target : Str
  source : Source
  readOnly : Bool
  deriving DecidableEq

/-- One entry of the state file. -/
structure Mapping where
  volumeID : VolumeID
  loopDev : Option ℕ
  imagePath : Str
  stagePath : Str
  cryptDev : Option String
  stageContext : Option Params
  mountFlags : List String
  deriving DecidableEq

/-- A key pair that `keysFromSecrets` accepted. -/
abbrev StageKeys := { k : Crypt.Keys // 32 ≤ k.current.length }

/-- An image file: its size, what its ext4 superblock records as block size (as
`log2` of KiB), and its content as a block device. -/
structure ImageFile where
  present : Bool
  size : ℕ
  superblock : Option ℕ
  device : Crypt.Device

/-- `mounts` has the newest first. `state`, `failed`, `keys` and `locks` are the
memory of the running plugin; the rest outlives it. -/
structure World where
  loops : List Loop
  dm : List (String × ℕ)
  mounts : List Mount
  dirs : List Str
  shutdown : List Source
  images : Str → ImageFile
  attaches : ℕ
  stateFile : List Mapping
  state : List Mapping
  failed : List VolumeID
  keys : List (VolumeID × StageKeys)
  locks : List (VolumeID × ℕ)

namespace Mapping

def get (l : List Mapping) (id : VolumeID) : Option Mapping := l.find? (·.volumeID = id)

def put (l : List Mapping) (m : Mapping) : List Mapping :=
  m :: l.filter (·.volumeID ≠ m.volumeID)

def delete (l : List Mapping) (id : VolumeID) : List Mapping := l.filter (·.volumeID ≠ id)

end Mapping

namespace World
variable (w : World)

def loop? (dev : ℕ) : Option Loop := w.loops.find? (·.dev = dev)

def mounted (s : Source) : Bool := w.mounts.any (·.source = s)

def mountedAt (path : Str) : Bool := w.mounts.any (·.target = path)

/-- The mounts at a path, the visible one first. -/
def stack (path : Str) : List Mount := w.mounts.filter (·.target = path)

/-- The mount visible at a path. -/
def top (path : Str) : Option Mount := w.mounts.find? (·.target = path)

/-- What a bind mount shows at its target. -/
def bound (source target : Str) : Mount :=
  match w.top source with
  | some m => { m with target }
  | none => ⟨target, .dir source, false⟩

def isOpen (name : String) : Bool := w.dm.any (·.1 = name)

def held (dev : ℕ) : Bool := w.dm.any (·.2 = dev)

def busy (dev : ℕ) : Bool := w.mounted (.loop dev) || w.held dev

/-- The kernel frees an autoclear loop at its last close. -/
def reap : World := { w with loops := w.loops.filter fun l => !(l.autoclear && !w.busy l.dev) }

/-- Whether a filesystem can be read from the device. -/
def hasFS : Source → Bool
  | .loop dev => match w.loop? dev with
    | some l => !w.held dev && (w.images l.file).device.header.isNone &&
        (w.images l.file).device.fs
    | none => false
  | .mapper name => match w.dm.find? (·.1 = name) with
    | some (_, dev) => match w.loop? dev with
      | some l => (w.images l.file).device.fs
      | none => false
    | none => false
  | .dir _ => false

/-- A free loop device: the one asked for, or else one past all others. -/
def freeDev (pick : ℕ) : ℕ :=
  if w.loops.any (·.dev = pick) then (w.loops.map Loop.dev).foldr max 0 + 1 else pick

def setDevice (file : Str) (d : Crypt.Device) : World :=
  { w with images := fun f => if f = file then { w.images file with device := d } else w.images f }

def closeMapping (name : String) : Except ExecError Unit × World :=
  if !w.isOpen name then (.error (Crypt.exit 4), w)
  else if w.mounted (.mapper name) then (.error (Crypt.exit 5), w)
  else (.ok (), reap { w with dm := w.dm.filter (·.1 ≠ name) })

def mkdirAll (path : Str) : World :=
  { w with dirs := w.dirs.insert path }

/-- Remove the mount visible at a path. -/
def unmount (path : Str) : World :=
  reap { w with mounts := w.mounts.eraseP (·.target = path) }

/-- Make the mount visible at a path read-only. -/
def remountReadOnly (path : Str) : World :=
  let i := w.mounts.findIdx (·.target = path)
  { w with mounts := w.mounts.modify i fun m => { m with readOnly := true } }

/-- A busy loop is only marked for clearing. -/
def detach (dev : ℕ) : World :=
  reap { w with loops := w.loops.map fun l => if l.dev = dev then { l with autoclear := true } else l }

def attach (file : Str) (dev : ℕ) : World :=
  { w with
    loops := w.loops ++ [⟨dev, file, true, none, false, w.attaches⟩]
    attaches := w.attaches + 1 }

/-- A device that nothing else shows starts with a healthy superblock. -/
def addMount (m : Mount) : World :=
  { w with
    mounts := m :: w.mounts
    shutdown := if w.mounted m.source then w.shutdown else w.shutdown.filter (· ≠ m.source) }

def mountRow (m : Mount) : MountInfo where
  device := m.source
  mountPoint := m.target
  mountOptions := if m.readOnly then ["ro"] else ["rw"]
  superOptions := if m.source ∈ w.shutdown then ["rw", "emergency_ro"] else ["rw"]

def mountRows : List MountInfo := (w.mounts.map w.mountRow).reverse

/-- A plugin process starts: the memory is what the state file holds, and the
mounts of the process before it are gone from under their loops. -/
def restart : World :=
  { w with
    loops := w.loops.map fun l => { l with fresh := false }
    state := w.stateFile, failed := [], keys := [], locks := [] }

end World

/-- What one command meets: whether it fails, which of several free answers it
gets, which thread issues it, and what has happened around the plugin since the
command before: volumes marked failed, filesystems forced read-only, images
unlinked. -/
structure Choice where
  fault : Option ExecError
  pick : ℕ
  who : ℕ
  marks : List VolumeID
  breaks : List Source
  unlinks : List (Str × Option Silly)

def Loop.unlink (l : Loop) (file : Str) (silly : Option Silly) : Loop :=
  if l.file = file then { l with silly := l.silly.or silly } else l

def World.unlink (w : World) (file : Str) (silly : Option Silly) : World :=
  { w with
    loops := w.loops.map fun l => l.unlink file silly
    images := fun f => if f = file then { w.images file with present := false } else w.images f }

def World.disturb (w : World) (o : Choice) : World :=
  o.unlinks.foldl (fun w u => w.unlink u.1 u.2)
    { w with failed := o.marks ++ w.failed, shutdown := o.breaks ++ w.shutdown }

end Fileblock.Node
