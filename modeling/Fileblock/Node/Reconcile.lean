import Fileblock.Node.Publish

/-! What runs beside the requests: the reconciler at the start of the plugin, and
the monitor's search for filesystems that were forced read-only. -/
namespace Fileblock.Node
open Go Store Interaction

/-- The back-file of a device in a listing. -/
def liveByDev (live : List Attachment) (dev : ℕ) : Option Str :=
  ((live.filter (·.device = dev)).getLast?).map Attachment.backFile

def backingByName (mappings : List (String × ℕ)) (name : String) : Option ℕ :=
  ((mappings.filter (·.1 = name)).getLast?).map Prod.snd

/-- The entry's loop is not on its image, or its mapping is not over its loop. -/
def stale (live : List Attachment) (mappings : List (String × ℕ)) (m : Mapping) : Bool :=
  !((m.loopDev.bind (liveByDev live)).any (backs · m.imagePath)) ||
    match m.cryptDev with
    | some name => decide (backingByName mappings name = none) ||
        decide (backingByName mappings name ≠ m.loopDev)
    | none => false

def dropIfStale (live : List Attachment) (mappings : List (String × ℕ)) (m : Mapping) : Run Unit :=
  if stale live mappings m then do
    let _ ← issue (.stateDelete m.volumeID)
  else pure ()

/-- Under the stores root, or an image attached by an earlier plugin process. -/
def ours (S : Site) (live : List Attachment) (dev : ℕ) : Bool :=
  (liveByDev live dev).any fun back =>
    (clean S.root ++ ['/']).isPrefixOf (clean back) || disconnectedImage back

def closeOrphan (S : Site) (live : List Attachment) (kept : List Mapping) (m : String × ℕ) :
    Run Unit :=
  if kept.any (·.cryptDev = some m.1) || !ours S live m.2 then pure ()
  else ignore (closeCrypt m.1)

def detachOrphan (S : Site) (live : List Attachment) (kept : List Mapping) (dev : ℕ) : Run Unit :=
  if kept.any (·.loopDev = some dev) || !ours S live dev then pure ()
  else ignore (detachLoop dev)

/-- Drop state entries the kernel contradicts, then close mappings and detach loops
of ours that no entry tracks. -/
def reconcile (S : Site) : ExceptT Err Run Unit := do
  let live ← listLoops
  let mappings ← listCrypt
  let all ← always (issue .stateAll)
  always (Prog.each (dropIfStale live mappings) all)
  let kept ← always (issue .stateAll)
  always (Prog.each (closeOrphan S live kept) mappings)
  let devs ← always (issue (.rangeLoops (live.map Attachment.device)))
  always (Prog.each (detachOrphan S live kept) devs)

/-- Without a Kubernetes client a failure is only marked. -/
def handleFailed (id : VolumeID) : Run Unit := do
  let _ ← issue (.failedMark id)
  let _ ← issue (.failedGet id)

/-- A staged filesystem seen healthy clears a mark; one that is not mounted may be
in the middle of a re-stage. -/
def tickVolume (entries : List MountInfo) (vol : Mapping) : Run Unit :=
  match lastAt entries vol.stagePath with
  | none => pure ()
  | some e =>
    if e.forcedReadOnly then handleFailed vol.volumeID else issue (.failedClear vol.volumeID)

def tick : Run Unit := do
  match ← issue .mountInfo with
  | .error _ => pure ()
  | .ok entries => do
    let vols ← issue .stateAll
    Prog.each (tickVolume entries) vols

end Fileblock.Node
