import Fileblock.Basic
import Fileblock.Go.Map
import Fileblock.Interaction.Fallible
import Fileblock.Store.Layout

/-! The reconciler over whatever the three tables hold: the state map, the kernel's
loop devices, and the open crypt mappings. -/
namespace Fileblock.Loop
open Go Store Interaction

/-- One row of `losetup --json --list`. -/
structure Attachment where
  device : Str
  backFile : Str
  deriving DecidableEq

/-- An open fbcrypt mapping; `backing` is empty when it has no slave. -/
structure CryptMapping where
  name : Str
  backing : Str
  deriving DecidableEq

/-- An entry of the state file. `cryptDev` is empty for a volume in plain text. -/
structure Mapping where
  volumeID : Str
  loopDev : Str
  imagePath : Str
  stagePath : Str
  cryptDev : Str
  stageContext : List (Str × Str)
  mountFlags : List Str
  deriving DecidableEq

inductive Cmd where
  | losetupList
  | cryptList
  | stateAll
  | stateDelete (volumeID : Str)
  | cryptClose (name : Str)
  | rangeLive (devs : List Str)
  | losetupDetach (dev : Str)

@[reducible] def Resp : Cmd → Type
  | .losetupList => Except Err (List Attachment)
  | .cryptList => Except Err (List CryptMapping)
  | .stateAll => List Mapping
  | .rangeLive _ => List Str
  | .stateDelete _ | .cryptClose _ | .losetupDetach _ => Except Err Unit

abbrev Run := Prog Cmd Resp

def issue (c : Cmd) : Run (Resp c) := Prog.perform c

def Attachment.trimmed (a : Attachment) : Attachment :=
  { a with backFile := trimSuffix a.backFile deletedSuffix }

/-- `Losetup.List`. -/
def list : ExceptT Err Run (List Attachment) := do
  let rows ← attempt (issue .losetupList) id
  pure (rows.map Attachment.trimmed)

/-- The entry's loop is not on its image, or its mapping is not open over its loop. -/
def stale (liveByDev backingByName : StrMap Str) (m : Mapping) : Bool :=
  (match liveByDev.lookup m.loopDev with
    | some back => !backs back m.imagePath
    | none => true) ||
  (m.cryptDev ≠ [] &&
    match backingByName.lookup (base m.cryptDev) with
    | some b => decide (b ≠ m.loopDev)
    | none => true)

/-- Under the stores root, or an image attached by an earlier plugin process. -/
def ours (root : Str) (liveByDev : StrMap Str) (dev : Str) : Bool :=
  match liveByDev.lookup dev with
  | some back => hasPrefix (clean back) (clean root ++ ['/']) || disconnectedImage back
  | none => false

def dropIfStale (liveByDev backingByName : StrMap Str) (m : Mapping) : Run Unit :=
  if stale liveByDev backingByName m then do
    let _ ← issue (.stateDelete m.volumeID)
  else pure ()

def closeOrphan (root : Str) (liveByDev : StrMap Str) (kept : List Mapping) (m : CryptMapping) :
    Run Unit :=
  if kept.any (fun e => e.cryptDev ≠ [] && base e.cryptDev = m.name) ||
      !ours root liveByDev m.backing then pure ()
  else do
    let _ ← issue (.cryptClose m.name)

def detachOrphan (root : Str) (liveByDev : StrMap Str) (kept : List Mapping) (dev : Str) :
    Run Unit :=
  if kept.any (·.loopDev = dev) || !ours root liveByDev dev then pure ()
  else do
    let _ ← issue (.losetupDetach dev)

/-- Without a crypt lister there are no mappings. -/
def listMappings (lister : Bool) : ExceptT Err Run (List CryptMapping) :=
  if lister then attempt (issue .cryptList) id else pure []

/-- Drop the entries that the tables contradict, close the orphan mappings, and then
detach the orphan loops. -/
def passes (root : Str) (live : List Attachment) (mappings : List CryptMapping) : Run Unit := do
  let liveByDev := StrMap.fill Attachment.device Attachment.backFile live
  let backingByName := StrMap.fill CryptMapping.name CryptMapping.backing mappings
  let all ← issue .stateAll
  Prog.each (dropIfStale liveByDev backingByName) all
  let kept ← issue .stateAll
  Prog.each (closeOrphan root liveByDev kept) mappings
  let devs ← issue (.rangeLive liveByDev.keys)
  Prog.each (detachOrphan root liveByDev kept) devs

def reconcile (lister : Bool) (root : Str) : ExceptT Err Run Unit := do
  let live ← list
  let mappings ← listMappings lister
  always (passes root live mappings)

inductive Act where
  | close (name : Str)
  | detach (dev : Str)

/-- The three tables, and what was closed and detached, newest first. The state map
has one entry a volume, and no two mappings have one name. -/
@[ext] structure Tables where
  state : List Mapping
  keyed : (state.map Mapping.volumeID).Nodup
  loops : List Attachment
  mappings : List CryptMapping
  named : (mappings.map CryptMapping.name).Nodup
  acts : List Act

/-- The order a map is ranged over in, and whether the state file is flushed. -/
structure Choice where
  pick : ℕ
  flush : Except Err Unit

/-- The commands succeed: what is closed or detached is gone from its table. A state
entry is deleted from the map whether or not the file can be flushed. -/
def exec (o : Choice) : (c : Cmd) → Tables → Resp c × Tables
  | .losetupList, T => (.ok T.loops, T)
  | .cryptList, T => (.ok T.mappings, T)
  | .stateAll, T => (anyOrder T.state o.pick, T)
  | .stateDelete id, T => (o.flush, { T with
      state := T.state.filter (·.volumeID ≠ id)
      keyed := T.keyed.sublist (List.filter_sublist.map _) })
  | .cryptClose name, T => (.ok (), { T with
      mappings := T.mappings.filter (·.name ≠ name)
      named := T.named.sublist (List.filter_sublist.map _)
      acts := .close name :: T.acts })
  | .rangeLive devs, T => (anyOrder devs o.pick, T)
  | .losetupDetach dev, T => (.ok (), { T with
      loops := T.loops.filter (·.device ≠ dev)
      acts := .detach dev :: T.acts })

/-- A run of the reconciler, with a crypt lister. -/
def Tables.run (root : Str) (o : ℕ → Choice) (T : Tables) : Except Err Unit × Tables :=
  (reconcile true root).run.eval exec o T

end Fileblock.Loop
