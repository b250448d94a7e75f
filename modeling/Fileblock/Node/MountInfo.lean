import Fileblock.Go.Strings

/-! Rows of `/proc/self/mountinfo` and the questions the driver asks of them. A
device stands for its major:minor number. -/
namespace Fileblock.Node
open Go

/-- What a mount shows: a loop device, a dm-crypt mapping, or a directory of the
host when nothing was mounted where a bind took it from. -/
inductive Source where
  | loop (dev : ℕ)
  | mapper (name : String)
  | dir (path : Str)
  deriving DecidableEq

structure MountInfo where
  device : Source
  mountPoint : Str
  mountOptions : List String
  superOptions : List String
  deriving DecidableEq

/-- An ext4 that was mounted read-write and was forced read-only. -/
def MountInfo.forcedReadOnly (m : MountInfo) : Bool :=
  "emergency_ro" ∈ m.superOptions || "shutdown" ∈ m.superOptions ||
    ("rw" ∈ m.mountOptions && "ro" ∈ m.superOptions)

/-- The last row mounted at the path: the one visible there. -/
def lastAt (entries : List MountInfo) (path : Str) : Option MountInfo :=
  entries.reverse.find? (·.mountPoint = path)

def isUIDChar (c : Char) : Bool := c ∈ "0123456789abcdef-".toList

/-- The pod of a kubelet pod volume mount,
`…/pods/<uid>/volumes/kubernetes.io~csi/<name>/mount`. -/
def podVolume (path : Str) : Option Str :=
  match (split path '/').reverse with
  | mount :: name :: plugin :: volumes :: uid :: pods :: _ :: _ =>
    if mount = "mount".toList ∧ name ≠ [] ∧ plugin = "kubernetes.io~csi".toList ∧
        volumes = "volumes".toList ∧ pods = "pods".toList ∧ uid.length = 36 ∧ uid.all isUIDChar
    then some uid else none
  | _ => none

structure PublishTarget where
  podUID : Str
  path : Str
  deriving DecidableEq

/-- The pod volume mounts on a device. -/
def publishTargets (entries : List MountInfo) (device : Source) : List PublishTarget :=
  entries.filterMap fun e =>
    if e.device = device then (podVolume e.mountPoint).map fun uid => ⟨uid, e.mountPoint⟩ else none

end Fileblock.Node
