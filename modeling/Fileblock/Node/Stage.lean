import Fileblock.Node.Request

/-! `NodeStageVolume`: the idempotent branch, the adoption of a mount the state
file does not record, and the stage of a fresh loop device. -/
namespace Fileblock.Node
open Go Store Interaction

abbrev Rpc := ExceptT Status Run

/-- A failure of `x` becomes a gRPC status. -/
def orStatus {α : Type} (code : Code) (context : String) (x : ExceptT Err Run α) : Rpc α :=
  attempt x.run fun e => ⟨code, context ++ e.text⟩

theorem orStatus_all {α : Type} {P : Cmd → Prop} {x : ExceptT Err Run α} (hx : x.run.All P)
    (code : Code) (context : String) : (orStatus code context x).run.All P :=
  Prog.all_attempt hx _

@[simp] theorem wp_orStatus {O σ α : Type} {M : Regime Cmd Resp O σ} (code : Code)
    (context : String) (x : ExceptT Err Run α) (Q : Except Status α → σ → Prop) (s : σ) :
    (orStatus code context x).run.wp M Q s ↔
      x.run.wp M (fun r s' => Q (r.mapError fun e => ⟨code, context ++ e.text⟩) s') s :=
  Prog.wp_attempt _ _ _ _

def cacheKeys (id : VolumeID) (k : StageKeys) (replace : Bool) : Run Unit :=
  issue (.keysCache id k replace)

def Mode.cacheKeys (id : VolumeID) (mode : Mode) (replace : Bool) : Rpc Unit :=
  match mode with
  | .plain => pure ()
  | .encrypted k _ => always (Node.cacheKeys id k replace)

/-- The size of the image. A store that lost its mount is an empty directory, so
an absent image is told apart from an absent store. -/
def statImage (backing image : Str) : Rpc ℕ := ExceptT.mk do
  match ← issue (.statImage image) with
  | .ok size => pure (.ok size)
  | .error e =>
    match ← (isMountPoint backing).run with
    | .ok false => pure (.error ⟨.unavailable, "backing store " ++ showPath backing ++
        " is not mounted; cannot resolve image " ++ showPath image⟩)
    | _ => pure (.error ⟨.notFound, "image " ++ showPath image ++ ": " ++ (sysErr e).text⟩)

/-- A stage entry for the request. -/
def StageRequest.mapping (req : StageRequest) (image : Str) (loopDev : Option ℕ)
    (cryptDev : Option String) : Mapping where
  volumeID := req.volumeID
  loopDev := loopDev
  imagePath := image
  stagePath := req.stagingTargetPath
  cryptDev := cryptDev
  stageContext := some req.volumeContext
  mountFlags := mountOptionsFromCap req.capability

/-- Which of the image's loops, through which mapping, is mounted as `src`. -/
def adoptable (name : String) (loops : List ℕ) (src : Source) : Mode → Rpc (Option (ℕ × Option String))
  | .encrypted _ _ =>
    if src = .mapper name then do
      let ms ← orStatus .internal "list dm-crypt mappings: " listCrypt
      pure (((ms.filter fun m => m.1 = name ∧ m.2 ∈ loops).getLast?).map fun m => (m.2, some name))
    else pure none
  | .plain => match src with
    | .loop dev => pure (if dev ∈ loops then some (dev, none) else none)
    | _ => pure none

/-- Record a stage mount that is this volume's; never stack a second one over it. -/
def adoptStage (S : Site) (req : StageRequest) (image : Str) (loops : List ℕ) (mode : Mode) :
    Rpc Unit := do
  let src ← orStatus .internal "read stage mount: " (mountSource req.stagingTargetPath)
  match ← adoptable (S.mapperName req.volumeID) loops src mode with
  | none => throw ⟨.failedPrecondition, "staging path " ++ showPath req.stagingTargetPath ++
      " is already mounted from " ++ showDevice src ++ ", which is not volume " ++
      showPath req.volumeID⟩
  | some (dev, cryptDev) => do
    orStatus .internal "persist state: "
      (attempt (issue (.statePut (req.mapping image (some dev) cryptDev))) sysErr)
    mode.cacheKeys req.volumeID true
    always (issue (.failedClear req.volumeID))

/-- A live loop must not be fscked, mounted again, or joined by a second one. -/
def refuseBusy (id : VolumeID) : List ℕ → Rpc Unit
  | [] => pure ()
  | dev :: loops => do
    let busy ← orStatus .internal ("check " ++ showDevice (.loop dev) ++ ": ") (loopBusy dev)
    if busy then
      throw ⟨.failedPrecondition, "volume " ++ showPath id ++
        " is already in use on this node through " ++ showDevice (.loop dev) ++
        "; refusing a second attachment of one image"⟩
    else refuseBusy id loops

def refuseOpen (S : Site) (id : VolumeID) : Mode → Rpc Unit
  | .plain => pure ()
  | .encrypted _ _ => do
    let isOpen ← orStatus .internal "list dm-crypt mappings: " (isOpenCrypt (S.mapperName id))
    if isOpen then
      throw ⟨.failedPrecondition, "volume " ++ showPath id ++ " is already open on this node as " ++
        Crypt.mapperPath (S.mapperName id) ++ "; refusing a second mapping of one image"⟩
    else pure ()

def detachEach : List ℕ → Rpc Unit
  | [] => pure ()
  | dev :: loops => do
    orStatus .internal "losetup --detach: " (detachLoop dev)
    detachEach loops

def attachStatus (e : Err) : Status :=
  if e.is .poolExhausted then ⟨.resourceExhausted, e.text⟩ else ⟨.internal, "losetup: " ++ e.text⟩

def cryptStatus (e : Err) : Status :=
  if e.is .wrongKey then ⟨.permissionDenied, e.text⟩
  else if e.is .notBlank then ⟨.failedPrecondition, e.text⟩
  else ⟨.internal, "luks: " ++ e.text⟩

/-- Give up the devices of a stage that failed. -/
def release (dev : ℕ) (cryptDev : Option String) : Run Unit := do
  match cryptDev with
  | some name => ignore (closeCrypt name)
  | none => pure ()
  ignore (detachLoop dev)

/-- The block device to mount: the loop itself, or a mapping opened over it. -/
def openTarget (S : Site) (id : VolumeID) (dev : ℕ) : Mode → Rpc (Option String)
  | .plain => pure none
  | .encrypted k f => cleanup (do
      orStatus .internal "set capacity: " (setCapacity (some dev))
      let _ ← attempt (prepareCrypt dev (S.mapperName id) k f).run cryptStatus
      pure (some (S.mapperName id))) (ignore (detachLoop dev))

/-- The loop below a mapping was grown before the mapping was opened. -/
def growLoop (dev : ℕ) : Option String → Rpc Unit
  | none => orStatus .internal "set capacity: " (setCapacity (some dev))
  | some _ => pure ()

/-- Check, grow and mount the filesystem, and record the stage. -/
def mountAndRecord (req : StageRequest) (image : Str) (dev : ℕ) (cryptDev : Option String) :
    Rpc Unit := do
  let target := stageTarget dev cryptDev
  orStatus .internal "fsck: " (fsck target)
  growLoop dev cryptDev
  orStatus .internal "resize2fs: " (resize2fs target)
  orStatus .internal "mkdir stage: " (attempt (issue (.mkdirAll req.stagingTargetPath)) sysErr)
  orStatus .internal "mount: "
    (mountDevice target req.stagingTargetPath (mountOptionsFromCap req.capability))
  cleanup (orStatus .internal "persist state: "
      (attempt (issue (.statePut (req.mapping image (some dev) cryptDev))) sysErr))
    (ignore (unmount req.stagingTargetPath))

/-- Stage through a new loop device. -/
def freshStage (S : Site) (req : StageRequest) (image : Str) (size : ℕ) (loops : List ℕ)
    (mode : Mode) : Rpc Unit := do
  refuseBusy req.volumeID loops
  refuseOpen S req.volumeID mode
  detachEach loops
  let encrypted := match mode with
    | .plain => false
    | .encrypted _ _ => true
  let sector ← orStatus .internal ("read sector size of " ++ showPath image ++ ": ")
    (loopSectorSize S.pageSize image size encrypted)
  let dev ← attempt (attachLoop image sector).run attachStatus
  let cryptDev ← openTarget S req.volumeID dev mode
  cleanup (mountAndRecord req image dev cryptDev) (release dev cryptDev)
  mode.cacheKeys req.volumeID true
  always (issue (.failedClear req.volumeID))

/-- Stage a volume that the state file does not show as staged here. -/
def stageImage (S : Site) (req : StageRequest) (backing : Str) (mode : Mode) (stageMounted : Bool) :
    Rpc Unit := do
  orStatus .internal "open backing store: " (attempt (issue (.statStore backing)) sysErr)
  let image := join backing (req.volumeID ++ imageExt)
  let size ← statImage backing image
  let loops ← orStatus .internal "find loop devices: " (findBacking image)
  if stageMounted then adoptStage S req image loops mode
  else freshStage S req image size loops mode

/-- Nothing is left to do for a volume that is staged at this path already. -/
def stageUnlessStaged (S : Site) (req : StageRequest) (backing : Str) (mode : Mode)
    (stageMounted : Bool) : Rpc Unit := do
  let existing ← always (issue (.stateGet req.volumeID))
  if existing.any (·.stagePath = req.stagingTargetPath) && stageMounted then
    mode.cacheKeys req.volumeID false
  else stageImage S req backing mode stageMounted

/-- `NodeStageVolume` for a caller that holds the volume lock. -/
def stageLocked (S : Site) (req : StageRequest) : Rpc Unit := do
  let (cfg, mode) ← known req.parse
  let backing ← orStatus .internal "mount backing store: " (attempt (issue (.registryGet cfg)) sysErr)
  known (validateCapability req.capability)
  let stageMounted ← orStatus .internal "check staging path: " (isMountPoint req.stagingTargetPath)
  stageUnlessStaged S req backing mode stageMounted

/-- Run with the lock of a volume held. -/
def withLock {α : Type} (id : VolumeID) (x : Rpc α) : Rpc α := ExceptT.mk do
  let _ ← issue (.lock id)
  let r ← x.run
  let _ ← issue (.unlock id)
  pure r

def nodeStageVolume (S : Site) (req : StageRequest) : Rpc Unit :=
  if req.volumeID = [] ∨ req.stagingTargetPath = [] then
    throw ⟨.invalidArgument, "volume_id and staging_target_path are required"⟩
  else withLock req.volumeID (stageLocked S req)

end Fileblock.Node
