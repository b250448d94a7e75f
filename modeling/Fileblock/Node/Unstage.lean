import Fileblock.Node.Stage

/-! `NodeUnstageVolume`. -/
namespace Fileblock.Node
open Go Store Interaction

def maxStageUnmounts : ℕ := 8

/-- Unmount everything stacked on `path`, in at most `left` more unmounts. -/
def popMounts (path : Str) : (left : ℕ) → Rpc Unit
  | 0 => do
    if ← orStatus .internal "check stage: " (isMountPoint path) then
      throw ⟨.internal, showPath path ++ " still mounted after " ++ toString maxStageUnmounts ++
        " unmounts"⟩
  | left + 1 => do
    if ← orStatus .internal "check stage: " (isMountPoint path) then
      orStatus .internal "umount stage: " (unmount path)
      popMounts path left

def popStageMounts (path : Str) : Rpc Unit := popMounts path maxStageUnmounts

/-- Close what the entry records. Without an entry the volume may have been opened
all the same; a mapping still in use elsewhere is left alone. -/
def closeRecorded (S : Site) (id : VolumeID) : Option Mapping → Rpc Unit
  | none => always (ignore (closeCrypt (S.mapperName id)))
  | some m => match m.cryptDev with
    | some name => orStatus .internal "cryptsetup close: " (closeCrypt name)
    | none => pure ()

/-- Whether an attachment is the volume's: its image, or the file its entry's loop
was left with when the image was deleted. -/
def stagedLoop (id : VolumeID) (entry : Option Mapping) (a : Attachment) : Bool :=
  decide (base a.backFile = id ++ imageExt) ||
    (entry.any (·.loopDev = some a.device) && sillyRenamed a.backFile)

/-- A flush that fails is not reported. -/
def dropEntry (id : VolumeID) (entry : Option Mapping) : Run Unit :=
  if entry.isSome then do
    let _ ← issue (.stateDelete id)
  else pure ()

def unstageLocked (S : Site) (id : VolumeID) (path : Str) : Rpc Unit := do
  popStageMounts path
  let _ ← always (issue (.remove path))
  let entry ← always (issue (.stateGet id))
  closeRecorded S id entry
  let loops ← orStatus .internal "find loop devices: " (findLoops (stagedLoop id entry))
  detachEach loops
  always (issue (.keysDelete id))
  always (dropEntry id entry)
  always (issue (.failedClear id))

def nodeUnstageVolume (S : Site) (id : VolumeID) (path : Str) : Rpc Unit :=
  if id = [] ∨ path = [] then
    throw ⟨.invalidArgument, "volume_id and staging_target_path are required"⟩
  else withLock id (unstageLocked S id path)

end Fileblock.Node
