import Fileblock.Basic
import Fileblock.Go.Map
import Fileblock.Interaction.Fallible
import Fileblock.Store.Context

/-! The store registry: `Get` as a program of critical sections and system calls, and
what each of these does to the registry's maps. -/
namespace Fileblock.Registry
open Go Store Interaction

/-- What `NewRegistry` is given: the stores root, and which mounters and whether a
mount checker there are. `hash` is `hashID`. -/
structure Setup where
  root : Str
  hash : Str → Str
  hash_length : ∀ key, (hash key).length = 12
  hash_hex : ∀ key, ∀ c ∈ hash key, isHex c = true
  nfs : Bool
  localDir : Bool
  checker : Bool

abbrev CheckRes := Except Err Bool

/-- The sections of `Get` under the registry's lock, its waits, and its system calls.
A channel is numbered within its mount. -/
inductive Cmd where
  | lock (mountID : Str)
  | unlock (mountID : Str)
  | cached (mountID : Str)
  | openSlot (mountID : Str)
  | poll (mountID : Str) (ch : ℕ)
  | start (mountID : Str) (ch : ℕ) (path : Str)
  | await (mountID : Str) (ch : ℕ)
  | clearCheck (mountID : Str)
  | evict (mountID path : Str)
  | mkdirAll (path : Str)
  | mount (target : Str) (cfg : Config)
  | putMounted (mountID path : Str)
  | seen (storeID : Str)
  | putStore (storeID sub : Str) (cfg : Config)

@[reducible] def Resp : Cmd → Type
  | .cached _ => Option Str
  | .openSlot _ => ℕ × Bool
  | .poll .. | .seen _ => Bool
  | .await .. => Option CheckRes
  | .mkdirAll _ | .mount .. => Except Err Unit
  | .lock _ | .unlock _ | .start .. | .clearCheck _ | .evict .. | .putMounted .. | .putStore .. => Unit

abbrev Run := Prog Cmd Resp

def issue (c : Cmd) : Run (Resp c) := Prog.perform c

/-- An answer left by an abandoned check is taken out of its channel, only to free
the slot. -/
def drain (mountID : Str) (ch : ℕ) : Run Unit := do
  if ← issue (.poll mountID ch) then issue (.clearCheck mountID) else pure ()

def ownCheck (mountID : Str) (ch : ℕ) (path : Str) : Run (Option CheckRes) := do
  issue (.start mountID ch path)
  match ← issue (.await mountID ch) with
  | some res => do
    issue (.clearCheck mountID)
    pure (some res)
  | none => pure none

/-- One `IsMountPoint`, unless one is in flight; `none` when there is no usable
answer. -/
def checkMountPoint (mountID path : Str) : Run (Option CheckRes) := do
  let slot ← issue (.openSlot mountID)
  if slot.2 then do
    drain mountID slot.1
    pure none
  else ownCheck mountID slot.1 path

/-- Only a definite "not a mount point" is a no. -/
def stillMounted (W : Setup) (mountID path : Str) : Run Bool :=
  if W.checker then do
    match ← checkMountPoint mountID path with
    | some (.ok mounted) => pure mounted
    | some (.error _) => pure true
    | none => pure true
  else pure true

def mounterFor (W : Setup) : Config → Except Err Unit
  | .nfs .. => if W.nfs then .ok () else .error (.sys "nfs mounter not available")
  | .localDir .. => if W.localDir then .ok () else .error (.sys "local mounter not available")

def mkdirAll (path : Str) : ExceptT Err Run Unit :=
  attempt (issue (.mkdirAll path)) (.wrap ("mkdir " ++ showPath path))

/-- The cached path, unless its mount is gone; then it is dropped, with the stores
under it. -/
def verified (W : Setup) (mountID : Str) : Run (Option Str) := do
  match ← issue (.cached mountID) with
  | none => pure none
  | some path => do
    if ← stillMounted W mountID path then pure (some path)
    else do
      issue (.evict mountID path)
      pure none

def mountFresh (W : Setup) (cfg : Config) : ExceptT Err Run Str := do
  let target := join W.root (cfg.mountID W.hash)
  mkdirAll target
  known (mounterFor W cfg)
  attempt (issue (.mount target cfg)) id
  always (issue (.putMounted (cfg.mountID W.hash) target))
  pure target

/-- The directory of the store on its mount, made when the store is not known yet. -/
def storeDir (W : Setup) (cfg : Config) (path : Str) : ExceptT Err Run Str :=
  if cfg.subDir = [] then pure path
  else do
    let sub := join path cfg.subDir
    if !(← always (issue (.seen (cfg.storeID W.hash)))) then mkdirAll sub
    pure sub

def getLocked (W : Setup) (cfg : Config) : ExceptT Err Run Str := do
  let path ← match ← always (verified W (cfg.mountID W.hash)) with
    | some path => pure path
    | none => mountFresh W cfg
  let sub ← storeDir W cfg path
  always (issue (.putStore (cfg.storeID W.hash) sub cfg))
  pure sub

def get (W : Setup) (cfg : Config) : Run (Except Err Str) := do
  issue (.lock (cfg.mountID W.hash))
  let r ← (getLocked W cfg).run
  issue (.unlock (cfg.mountID W.hash))
  pure r

/-- A buffered channel for one answer, and whether the check that will send it is
running. -/
structure Chan where
  path : Str
  running : Bool
  answer : Option CheckRes
  deriving DecidableEq

/-- A `Get` in progress: its number and the mount it is about. -/
structure Caller where
  num : ℕ
  mountID : Str
  deriving DecidableEq

/-- What happened: a section or call with its answer, or a check that sent its own. -/
inductive Event where
  | did (who : Caller) (c : Cmd) (r : Resp c)
  | answered (mountID : Str) (ch : ℕ) (r : CheckRes)

/-- The registry's maps, the mounts the kernel has (`live`), and all that happened,
newest first. -/
structure State where
  mounted : StrMap Str
  stores : StrMap Str
  configs : StrMap Config
  checking : Str → Option ℕ
  made : Str → ℕ
  chan : Str → ℕ → Chan
  holder : Str → Option ℕ
  live : Str → Bool
  log : List Event

/-- What a command meets: an error of the system call, or the end of the wait. -/
structure Choice where
  fault : Option Err
  timeout : Bool

def State.setChan (s : State) (m : Str) (ch : ℕ) (x : Chan) : State :=
  { s with chan := Function.update s.chan m (Function.update (s.chan m) ch x) }

def under (path p : Str) : Bool := p = path || hasPrefix p (path ++ ['/'])

def evictStores (path : Str) (stores : StrMap Str) : StrMap Str := stores.dropWhere (under path)

def okUnless (fault : Option Err) : Except Err Unit :=
  match fault with
  | some e => .error e
  | none => .ok ()

def act (t : Caller) (o : Choice) : (c : Cmd) → State → Resp c × State
  | .lock m, s => ((), { s with holder := Function.update s.holder m (some t.num) })
  | .unlock m, s => ((), { s with holder := Function.update s.holder m none })
  | .cached m, s => (s.mounted.lookup m, s)
  | .openSlot m, s =>
    match s.checking m with
    | some ch => ((ch, true), s)
    | none => ((s.made m, false), { s with
        checking := Function.update s.checking m (some (s.made m))
        made := Function.update s.made m (s.made m + 1) })
  | .poll m ch, s =>
    match (s.chan m ch).answer with
    | some _ => (true, s.setChan m ch { s.chan m ch with answer := none })
    | none => (false, s)
  | .start m ch path, s => ((), s.setChan m ch ⟨path, true, none⟩)
  | .await m ch, s =>
    if o.timeout then (none, s)
    else ((s.chan m ch).answer, s.setChan m ch { s.chan m ch with answer := none })
  | .clearCheck m, s => ((), { s with checking := Function.update s.checking m none })
  | .evict m path, s =>
    ((), { s with mounted := s.mounted.erase m, stores := evictStores path s.stores })
  | .mkdirAll _, s => (okUnless o.fault, s)
  | .mount _ _, s => (okUnless o.fault,
      if o.fault.isSome then s else { s with live := Function.update s.live t.mountID true })
  | .putMounted m path, s => ((), { s with mounted := s.mounted.insert m path })
  | .seen id, s => ((s.stores.lookup id).isSome, s)
  | .putStore id sub cfg, s =>
    ((), { s with stores := s.stores.insert id sub, configs := s.configs.insert id cfg })

def exec (t : Caller) (o : Choice) (c : Cmd) (s : State) : Resp c × State :=
  let r := act t o c s
  (r.1, { r.2 with log := .did t c r.1 :: r.2.log })

/-- A lock is waited for, and so is an answer, unless the time is up. -/
def Enabled (_ : Caller) (s : State) (c : Cmd) (o : Choice) : Prop :=
  match c with
  | .lock m => s.holder m = none
  | .await m ch => o.timeout = true ∨ (s.chan m ch).answer ≠ none
  | _ => True

/-- Adopt an entry of the root, given with whether it is a directory, when it has the
name of a mount and its check finds a mount. -/
def adopt (W : Setup) (check : Str → CheckRes) (mounted : StrMap Str) (e : Str × Bool) : StrMap Str :=
  if e.2 && decide (e.1.length = 12) && e.1.all isHex &&
      (match check (join W.root e.1) with
        | .ok found => found
        | .error _ => false)
  then mounted.insert e.1 (join W.root e.1) else mounted

/-- `entries` is what reading the root gives. -/
def adoptExisting (W : Setup) (entries : List (Str × Bool)) (check : Str → CheckRes) : StrMap Str :=
  entries.foldl (adopt W check) ∅

/-- The paths of `MountedPaths` when the maps are ranged over in the given order. -/
def mountedPaths (stores mounted : List Str) : List Str :=
  (stores ++ mounted).foldl (fun out p => if out.contains p then out else out ++ [p]) []

end Fileblock.Registry
