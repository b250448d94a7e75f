import Fileblock.Controller.VolumeID
import Fileblock.Image.Manager
import Fileblock.Registry.Program

/-! The requests to a store: `CreateVolume`, `DeleteVolume`, `ControllerExpandVolume` and
`ListVolumes`, over the registry and the images of a store. -/
namespace Fileblock.Controller
open Go Store Interaction
open Registry (Setup Caller)
open Image (alignUp defaultBlockSize)

/-- What the controller does: a section or call of the registry's `Get`, a look at its
configs or paths, or a file operation in a store directory. -/
inductive Cmd where
  | registry (who : Caller) (c : Registry.Cmd)
  | configByStoreID (storeID : Str)
  | mountedPaths
  | image (root : Str) (c : Image.Cmd)

@[reducible] def Resp : Cmd → Type
  | .registry _ c => Registry.Resp c
  | .configByStoreID _ => Option Config
  | .mountedPaths => List Str
  | .image _ c => Image.Resp c

abbrev Run := Prog Cmd Resp

def issue (c : Cmd) : Run (Resp c) := Prog.perform c

def registryGet (W : Setup) (cfg : Config) : Run (Except Err Str) :=
  (Registry.get W cfg).lift (.registry ⟨0, cfg.mountID W.hash⟩) fun _ r => r

def inStore {α ε : Type} (root : Str) (x : ExceptT ε Image.Run α) : Run (Except ε α) :=
  x.run.lift (.image root) fun _ r => r

structure CapacityRange where
  requiredBytes : ℤ
  limitBytes : ℤ
  deriving DecidableEq

def defaultCapacityBytes : ℤ := 2 ^ 30

/-- The image size for a range: what is required (else the limit, else the default)
rounded up, or down when that would pass the limit. -/
def alignedCapacity (r : Option CapacityRange) : Except Status ℤ :=
  let required := (r.map CapacityRange.requiredBytes).getD 0
  let limit := (r.map CapacityRange.limitBytes).getD 0
  let size := alignUp (if 0 < required then required else if 0 < limit then limit
    else defaultCapacityBytes)
  if 0 < limit ∧ limit < size then
    let size := limit.tdiv defaultBlockSize * defaultBlockSize
    if size = 0 ∨ size < required then
      .error ⟨.outOfRange, "no multiple of " ++ toString defaultBlockSize ++
        " bytes lies between required " ++ toString required ++ " and limit " ++ toString limit⟩
    else .ok size
  else .ok size

def checkCapability (c : Node.Capability) : Except Status Unit :=
  if c.access = .block then
    .error ⟨.invalidArgument, "block volumes are not supported; mount only"⟩
  else if c.mode ≠ .singleNodeWriter then
    .error ⟨.invalidArgument,
      "access mode " ++ c.mode.name ++ " not supported; fileblock is RWO only"⟩
  else match c.access with
    | .mount fsType _ =>
      if fsType ≠ "" ∧ fsType ≠ Node.defaultFs then
        .error ⟨.invalidArgument, "fsType \"" ++ fsType ++ "\" not supported; only ext4"⟩
      else .ok ()
    | _ => .ok ()

def validateCapabilities (caps : List Node.Capability) : Except Status Unit :=
  if caps = [] then .error ⟨.invalidArgument, "volume_capabilities is required"⟩
  else caps.forM checkCapability

abbrev Topology := Params

structure TopologyRequirement where
  requisite : List Topology
  preferred : List Topology

/-- Only an unshared local store pins its volumes to a node. -/
def topologyForCfg (cfg : Config) (req : Option TopologyRequirement) : List Topology :=
  match cfg, req with
  | .localDir _ false, some r => (r.preferred.head?.or r.requisite.head?).toList
  | _, _ => []

structure CreateVolumeRequest where
  name : Str
  capabilities : List Node.Capability
  params : Params
  capacity : Option CapacityRange
  accessibility : Option TopologyRequirement

structure Volume where
  volumeID : Str
  capacityBytes : ℤ
  volumeContext : Params
  accessibleTopology : List Topology
  deriving DecidableEq

def require (p : Prop) [Decidable p] (e : Status) : Except Status Unit :=
  if p then .ok () else .error e

def createStatus : Image.CreateError → Status
  | .mismatch requested existing =>
    ⟨.alreadyExists, (Image.CreateError.mismatch requested existing).text⟩
  | .other e => ⟨.internal, "create volume: " ++ e.text⟩

/-- What a request is checked for before anything is done: its config and whether the
volume is encrypted. -/
def createChecks (req : CreateVolumeRequest) : Except Status (Config × Bool) := do
  require (req.name ≠ []) ⟨.invalidArgument, "name is required"⟩
  validateCapabilities req.capabilities
  let cfg ← (configFromParams req.params).mapError fun e => ⟨.invalidArgument, e.text⟩
  let encrypted ← (encryptedFromParams req.params).mapError fun e => ⟨.invalidArgument, e⟩
  let _ ← (Node.formatFromParams req.params encrypted).mapError fun e => ⟨.invalidArgument, e.text⟩
  pure (cfg, encrypted)

def createVolume (W : Setup) (req : CreateVolumeRequest) : ExceptT Status Run Volume := do
  let (cfg, encrypted) ← known (createChecks req)
  let root ← attempt (registryGet W cfg) fun e => ⟨.internal, "mount backing store: " ++ e.text⟩
  attempt (inStore root (Image.new root)) fun e => ⟨.internal, "open backing store: " ++ e.text⟩
  let capacity ← known (alignedCapacity req.capacity)
  known (require (encrypted = true → minEncryptedCapacity ≤ capacity) ⟨.outOfRange,
    "encrypted volumes need at least " ++ toString minEncryptedCapacity ++
      " bytes (LUKS2 header is 16 MiB), requested " ++ toString capacity⟩)
  let volumeID ← known (volumeIDFromName W.hash cfg req.name)
  let found ← attempt (inStore root (Image.create root volumeID capacity encrypted)) createStatus
  pure ⟨found.volumeID, found.capacityBytes, volumeContext W.hash req.params cfg encrypted,
    topologyForCfg cfg req.accessibility⟩

/-- The directory of a volume's store, by the store ID in its own ID; `NotFound` when
this process has not seen the store. -/
def imageManagerForVolumeID (W : Setup) (volumeID : Str) : ExceptT Status Run Str := do
  let storeID ← known (parseStoreIDFromVolumeID volumeID)
  match ← always (issue (.configByStoreID storeID)) with
  | none => throw ⟨.notFound, "store " ++ String.ofList storeID ++ " for volume " ++
      String.ofList volumeID ++ " is not mounted on this controller; retry after the SC is in use"⟩
  | some cfg => do
    let root ← attempt (registryGet W cfg) fun e =>
      ⟨.internal, "remount backing store " ++ String.ofList storeID ++ ": " ++ e.text⟩
    attempt (inStore root (Image.new root)) fun e => ⟨.unknown, e.text⟩
    pure root

/-- A volume that cannot be resolved counts as deleted. -/
def deleteVolume (W : Setup) (volumeID : Str) : ExceptT Status Run Unit := do
  known (require (volumeID ≠ []) ⟨.invalidArgument, "volumeId is required"⟩)
  match ← always (imageManagerForVolumeID W volumeID).run with
  | .error e => known (if e.code = .notFound then .ok () else .error e)
  | .ok root => attempt (inStore root (Image.delete volumeID)) fun e =>
      ⟨.internal, "delete volume: " ++ e.text⟩

def controllerExpandVolume (W : Setup) (volumeID : Str) (capacity : Option CapacityRange) :
    ExceptT Status Run ℤ := do
  known (require (volumeID ≠ []) ⟨.invalidArgument, "volumeId is required"⟩)
  known (require (0 < (capacity.map CapacityRange.requiredBytes).getD 0)
    ⟨.invalidArgument, "capacity_range.required_bytes is required"⟩)
  let size ← known (alignedCapacity capacity)
  let root ← imageManagerForVolumeID W volumeID
  let found ← attempt (inStore root (Image.resize root volumeID size)) fun e =>
    ⟨.internal, "resize: " ++ e.text⟩
  pure found.capacityBytes

def Code.name : Code → String
  | .unknown => "Unknown"
  | .invalidArgument => "InvalidArgument"
  | .notFound => "NotFound"
  | .alreadyExists => "AlreadyExists"
  | .permissionDenied => "PermissionDenied"
  | .resourceExhausted => "ResourceExhausted"
  | .failedPrecondition => "FailedPrecondition"
  | .aborted => "Aborted"
  | .outOfRange => "OutOfRange"
  | .internal => "Internal"
  | .unavailable => "Unavailable"

def Status.text (s : Status) : String :=
  "rpc error: code = " ++ Code.name s.code ++ " desc = " ++ s.message

/-- What is said of the capabilities of a volume that is there. -/
inductive Confirmation where
  | confirmed (capabilities : List Node.Capability)
  | message (text : String)

def validateVolumeCapabilities (W : Setup) (volumeID : Str) (capabilities : List Node.Capability) :
    ExceptT Status Run Confirmation := do
  known (require (volumeID ≠ []) ⟨.invalidArgument, "volumeId is required"⟩)
  known (require (capabilities ≠ []) ⟨.invalidArgument, "volume_capabilities is required"⟩)
  let root ← imageManagerForVolumeID W volumeID
  let _ ← attempt (inStore root (Image.get root volumeID)) fun e =>
    ⟨.notFound, "volume " ++ String.ofList volumeID ++ ": " ++ e.text⟩
  match validateCapabilities capabilities with
  | .error e => pure (.message (Status.text e))
  | .ok _ => pure (.confirmed capabilities)

/-- The images in the directories of the given paths; one that cannot be opened is passed
over. -/
def listPaths : List Str → ExceptT Status Run (List Image.Metadata)
  | [] => pure []
  | path :: paths => do
    match ← always (inStore path (Image.new path)) with
    | .error _ => listPaths paths
    | .ok _ => do
      let found ← attempt (inStore path Image.list) fun e => ⟨.internal, "list: " ++ e.text⟩
      let rest ← listPaths paths
      pure (found ++ rest)

/-- There is no pagination. -/
def listVolumes (startingToken : Str) : ExceptT Status Run (List Image.Metadata) :=
  if startingToken ≠ [] then throw ⟨.aborted, "starting_token is not supported"⟩
  else do
    let paths ← always (issue .mountedPaths)
    listPaths paths

end Fileblock.Controller
