import Fileblock.Node.Unstage

/-! `NodePublishVolume` with the re-stage of a failed volume, `NodeUnpublishVolume`
and `NodeExpandVolume`. -/
namespace Fileblock.Node
open Go Store Interaction

/-- A pod that still uses the staged filesystem keeps it from being re-staged. -/
def refusePublished (m : Mapping) (entries : List MountInfo) : Except Status Unit :=
  match lastAt entries m.stagePath with
  | none => .ok ()
  | some e => match publishTargets entries e.device with
    | [] => .ok ()
    | t :: _ => .error ⟨.unavailable, "volume " ++ showPath m.volumeID ++
        " failed and is still published at " ++ showPath t.path ++ "; waiting for that pod to go"⟩

/-- The stage secret, from the cache: a publish request does not carry it. -/
def restageSecrets (id : VolumeID) (context : Params) : Rpc Secrets :=
  if isEncrypted context then do
    match ← always (issue (.keysGet id)) with
    | some k => pure (.ofKeys k.1)
    | none => do
      let _ ← always (issue (.podEvent ("fileblock volume " ++ showPath id ++
        " failed and its key is not in memory (the node plugin restarted); " ++
        "delete this pod to recover")))
      throw ⟨.unavailable, "volume " ++ showPath id ++
        " failed and cannot be re-staged without its key; delete the pod"⟩
  else pure []

def restageStatus (s : Status) : Status := ⟨.internal, "re-stage: " ++ s.message⟩

/-- The entry without the devices of a stage that was torn down. -/
def Mapping.blanked (m : Mapping) : Mapping := { m with loopDev := none, cryptDev := none }

def closeEntry (m : Mapping) : Rpc Unit :=
  match m.cryptDev with
  | some name => orStatus .internal "re-stage: cryptsetup close: " (closeCrypt name)
  | none => pure ()

/-- Release the devices the entry records; without any, an earlier re-stage
already has. -/
def tearDown (m : Mapping) : Rpc Unit :=
  match m.loopDev with
  | none => pure ()
  | some dev => do
    closeEntry m
    orStatus .internal "re-stage: losetup --detach: " (detachLoop dev)
    orStatus .internal "re-stage: persist state: "
      (attempt (issue (.statePut m.blanked)) sysErr)

/-- The stage request an entry stands for. -/
def Mapping.stageRequest (m : Mapping) (context : Params) (secrets : Secrets) : StageRequest where
  volumeID := m.volumeID
  stagingTargetPath := m.stagePath
  volumeContext := context
  secrets := secrets
  capability := some ⟨.mount "" m.mountFlags, .singleNodeWriter⟩

/-- Tear down what the entry records and stage the volume again. Every stacked
mount must go, or the stage would adopt the broken one. -/
def restage (S : Site) (m : Mapping) (context : Params) (secrets : Secrets) : Rpc Unit := do
  attempt (popStageMounts m.stagePath).run restageStatus
  tearDown m
  attempt (stageLocked S (m.stageRequest context secrets)).run restageStatus

/-- Re-stage from the context the entry kept of its stage request. -/
def restageUnpublished (S : Site) (m : Mapping) : Rpc Unit :=
  match m.stageContext with
  | none => do
    let _ ← always (issue (.podEvent ("fileblock volume " ++ showPath m.volumeID ++
      " failed and was staged by an older version; delete this pod to recover")))
    throw ⟨.unavailable, "volume " ++ showPath m.volumeID ++
      " failed and was staged by an older version; delete the pod to recover"⟩
  | some context => do
    let secrets ← restageSecrets m.volumeID context
    restage S m context secrets

def restageEntry (S : Site) (m : Mapping) : Rpc Unit := do
  let entries ← orStatus .internal "read mountinfo: " (attempt (issue .mountInfo) sysErr)
  known (refusePublished m entries)
  restageUnpublished S m

def restageMarked (S : Site) (id : VolumeID) : Rpc Unit := do
  match ← always (issue (.stateGet id)) with
  | none => throw ⟨.unavailable, "volume " ++ showPath id ++
      " failed and has no state entry; waiting for the kubelet to unstage it"⟩
  | some m => restageEntry S m

/-- Another publish may have re-staged the volume before this one got the lock. -/
def restageLocked (S : Site) (id : VolumeID) : Rpc Unit := do
  if ← always (issue (.failedGet id)) then restageMarked S id else pure ()

/-- Rebuild the staging mount of a failed volume that nothing publishes. -/
def restageFailed (S : Site) (id : VolumeID) : Rpc Unit := withLock id (restageLocked S id)

def restageIf (failed : Bool) (S : Site) (id : VolumeID) : Rpc Unit :=
  if failed then restageFailed S id else pure ()

/-- Bind the staging path to the pod's, unless something is mounted there. -/
def bindTarget (req : PublishRequest) : Rpc Unit := do
  orStatus .internal "mkdir target: " (attempt (issue (.mkdirAll req.targetPath)) sysErr)
  if ← always (orFalse (isMountPoint req.targetPath)) then pure ()
  else
    orStatus .internal "bind mount: "
      (bindMount req.stagingTargetPath req.targetPath req.readonly)

def nodePublishVolume (S : Site) (req : PublishRequest) : Rpc Unit :=
  if req.volumeID = [] ∨ req.stagingTargetPath = [] ∨ req.targetPath = [] then
    throw ⟨.invalidArgument, "volume_id, staging_target_path, target_path are required"⟩
  else do
    known (validateCapability req.capability)
    let failed ← always (issue (.failedGet req.volumeID))
    restageIf failed S req.volumeID
    bindTarget req

def nodeUnpublishVolume (id : VolumeID) (target : Str) : Rpc Unit :=
  if id = [] ∨ target = [] then
    throw ⟨.invalidArgument, "volume_id and target_path are required"⟩
  else do
    orStatus .internal "umount target: " (unmount target)
    let _ ← always (issue (.remove target))

/-- The device an entry's filesystem is on; an entry without devices has an empty
path for one. -/
def Mapping.target (m : Mapping) : Source :=
  match m.cryptDev, m.loopDev with
  | some name, _ => .mapper name
  | none, some dev => .loop dev
  | none, none => .dir []

def resizeEntry (m : Mapping) : Rpc Unit :=
  match m.cryptDev with
  | some name => orStatus .internal "cryptsetup resize: "
      (shell (issue (.cryptResize name)) ("resize " ++ name))
  | none => pure ()

def expandEntry (m : Mapping) : Rpc Unit := do
  orStatus .internal "set capacity: " (setCapacity m.loopDev)
  resizeEntry m
  orStatus .internal "resize2fs: " (resize2fs m.target)

def nodeExpandVolume (id : VolumeID) (path : Str) : Rpc Unit :=
  if id = [] then throw ⟨.invalidArgument, "volume_id is required"⟩
  else if path = [] then throw ⟨.invalidArgument, "volume_path is required"⟩
  else do
    match ← always (issue (.stateGet id)) with
    | none => throw ⟨.notFound, "volume " ++ showPath id ++ " not staged on this node"⟩
    | some m => expandEntry m

end Fileblock.Node
