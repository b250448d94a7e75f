import Fileblock.Controller.Serve
import Fileblock.Registry.Runs

/-! What the controller acts on: its registry, the mounts under the stores root, and the
files of the directories that these lead to; and its life from one request or restart to
the next. -/
namespace Fileblock.Controller
open Go Store Interaction
open Registry (Setup Caller CheckRes)

inductive Source where
  | nfsExport (server path : Str)
  | directory (path : Str)
  deriving DecidableEq

def sourceOf : Config → Source
  | .nfs server path _ _ => .nfsExport server path
  | .localDir path _ => .directory path

/-- A directory that a path leads to: one of a backing store, or one of the container's
own when nothing is mounted above it. -/
inductive Dir (P : Type) where
  | backing (place : P)
  | own (path : Str)
  deriving DecidableEq

/-- `mounts` are the mounts on each mount directory, the visible one first. -/
structure World (P : Type) where
  reg : Registry.State
  mounts : Str → List Config
  files : Dir P → Image.Directory

/-- What a command meets: an error; the end of a wait; the checks that have answered
since the command before; whether a mount that failed is there all the same; whether a
store directory is a directory; which directories are in it; and the order in which the
two maps of paths are ranged over. -/
structure Choice where
  fault : Option Err
  timeout : Bool
  answers : List (Str × ℕ × CheckRes)
  landed : Bool
  isDir : Bool
  subdirs : List Str
  ranges : ℕ × ℕ

def arrive (s : Registry.State) (a : Str × ℕ × CheckRes) : Registry.State :=
  if (s.chan a.1 a.2.1).running then s.answer a.1 a.2.1 a.2.2 else s

def arrived (s : Registry.State) (o : Choice) : Registry.State := o.answers.foldl arrive s

/-- A mount goes on top of what is there. -/
def mountsAfter (t : Caller) (o : Choice) (c : Registry.Cmd) (mounts : Str → List Config) :
    Str → List Config :=
  match c with
  | .mount _ cfg =>
    if o.fault.isNone || o.landed then Function.update mounts t.mountID (cfg :: mounts t.mountID)
    else mounts
  | _ => mounts

section Machine
variable {P : Type} [DecidableEq P] (W : Setup) (place : Source → Str → P)

/-- Where a path below the stores root leads; `place` says which directory a subDir of a
source is. -/
def World.dir (w : World P) (path : Str) : Dir P :=
  match cutPrefix path (dirPrefix W.root) with
  | none => .own path
  | some rest => match w.mounts (rest.take 12) with
    | [] => .own path
    | cfg :: _ => .backing (place (sourceOf cfg) (rest.drop 13))

def exec (o : Choice) : (c : Cmd) → World P → Resp c × World P
  | .registry t c, w =>
    let r := Registry.exec t ⟨o.fault, o.timeout⟩ c (arrived w.reg o)
    (r.1, { w with reg := r.2, mounts := mountsAfter t o c w.mounts })
  | .configByStoreID id, w => (w.reg.configs.lookup id, w)
  | .mountedPaths, w => (Registry.mountedPaths (anyOrder w.reg.stores.values o.ranges.1)
      (anyOrder w.reg.mounted.values o.ranges.2), w)
  | .image root c, w =>
    let r := Image.exec ⟨o.fault, o.isDir, o.subdirs⟩ c (w.files (w.dir W place root))
    (r.1, { w with files := Function.update w.files (w.dir W place root) r.2 })

def World.lose (w : World P) (m : Str) (n : ℕ) : World P :=
  { w with
    mounts := Function.update w.mounts m ((w.mounts m).drop n)
    reg := if (w.mounts m).drop n = [] then w.reg.lose m else w.reg }

/-- A new registry, and `AdoptExisting`. -/
def World.restart (w : World P) (entries : List (Str × Bool)) (check : Str → CheckRes) : World P :=
  let live := fun m => decide (w.mounts m ≠ [])
  { w with reg := Registry.initial (Registry.adoptExisting W entries check) live }

def bare (files : Dir P → Image.Directory) : World P where
  reg := Registry.initial ∅ fun _ => false
  mounts _ := []
  files := files

end Machine

inductive Request where
  | create (req : CreateVolumeRequest)
  | delete (volumeID : Str)
  | expand (volumeID : Str) (capacity : Option CapacityRange)

inductive Reply where
  | created (v : Volume)
  | deleted
  | expanded (capacityBytes : ℤ)

def Request.serve (W : Setup) : Request → Run (Except Status Reply)
  | .create req => (Reply.created <$> createVolume W req).run
  | .delete id => ((fun _ => Reply.deleted) <$> deleteVolume W id).run
  | .expand id capacity => (Reply.expanded <$> controllerExpandVolume W id capacity).run

def Request.Uses (K : Set Config) : Request → Prop
  | .create req => ∀ cfg, configFromParams req.params = .ok cfg → cfg ∈ K
  | _ => True

/-- The volume that a request has created, with its config. -/
def issued : Request → Except Status Reply → List (Config × Str)
  | .create req, .ok (.created v) =>
    match configFromParams req.params with
    | .ok cfg => [(cfg, v.volumeID)]
    | .error _ => []
  | _, _ => []

/-- The runs of the controller on stores with configs from `K`: what has been created so
far, what of it by this process, and the world. A process may die in the middle of a
request; a mount may be lost between any two. -/
inductive Reachable {P : Type} [DecidableEq P] (W : Setup) (place : Source → Str → P)
    (K : Set Config) : List (Config × Str) → List (Config × Str) → World P → Prop where
  | first (files) : Reachable W place K [] [] (bare files)
  | serve {all recent w} (r : Request) (o : ℕ → Choice) : Reachable W place K all recent w →
      r.Uses K →
      Reachable W place K (issued r ((r.serve W).eval (exec W place) o w).1 ++ all)
        (issued r ((r.serve W).eval (exec W place) o w).1 ++ recent)
        ((r.serve W).eval (exec W place) o w).2
  | die {all recent w} (r : Request) (o : ℕ → Choice) (n : ℕ) (entries : List (Str × Bool))
      (check : Str → CheckRes) : Reachable W place K all recent w → r.Uses K →
      Reachable W place K all [] (((r.serve W).cut (exec W place) o n w).restart W entries check)
  | restart {all recent w} (entries : List (Str × Bool)) (check : Str → CheckRes) :
      Reachable W place K all recent w → Reachable W place K all [] (w.restart W entries check)
  | lose {all recent w} (m : Str) (n : ℕ) : Reachable W place K all recent w →
      Reachable W place K all recent (w.lose m n)

end Fileblock.Controller
