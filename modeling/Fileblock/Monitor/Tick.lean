import Fileblock.Basic
import Fileblock.Go.Map
import Fileblock.Interaction.Fallible
import Fileblock.Node.World

/-! The monitor: a pass over the staged volumes that marks those whose filesystem was
forced read-only, tells their pods, and deletes the pods that a controller will bring
back. Times are counted from Go's zero time. -/
namespace Fileblock.Monitor
open Go Interaction
open Node (MountInfo Mapping PublishTarget lastAt publishTargets)

structure OwnerReference where
  apiVersion : Str
  kind : Str
  name : Str
  controller : Option Bool
  deriving DecidableEq

structure Pod where
  name : Str
  namespaceName : Str
  uid : Str
  deletionTimestamp : Option ℕ
  ownerReferences : List OwnerReference
  nodeName : Str
  startTime : Option ℕ
  deriving DecidableEq

def Pod.controllerOwner (p : Pod) : Option OwnerReference :=
  p.ownerReferences.find? (·.controller = some true)

/-- Five minutes, in nanoseconds. -/
def remediationHold : ℕ := 300000000000

def noController : String := "no controller would recreate it"

def terminating : String := "already terminating"

def startedAfter : String := "started after the volume failed"

/-- Why the pod is not deleted, if it is not. -/
def skipReason (p : Pod) (failedAt : ℕ) : Option String :=
  if p.controllerOwner = none then some noController
  else if p.deletionTimestamp ≠ none then some terminating
  else match p.startTime with
    | some start => if start < failedAt then none else some startedAfter
    | none => some startedAfter

def failedMessage (volumeID : Str) : String :=
  "fileblock volume " ++ String.ofList volumeID ++
    " was forced read-only by ext4 (backing-store I/O error); it must be re-staged"

def skippedMessage (volumeID : Str) (reason : String) : String :=
  "fileblock volume " ++ String.ofList volumeID ++
    " failed but this pod was not deleted automatically: " ++ reason

/-- What the monitor reads, writes and calls. `deletePod` carries the volume it is for
and the time of the pass it belongs to. -/
inductive Cmd where
  | mountInfo
  | stateAll
  | now
  | mark (volumeID : Str) (t : ℕ)
  | failedAt (volumeID : Str)
  | clear (volumeID : Str)
  | heldUntil (volumeID : Str)
  | hold (volumeID : Str) (t : ℕ)
  | forget (volumeID : Str)
  | eventSent (volumeID : Str)
  | setEventSent (volumeID : Str)
  | offLogged (volumeID : Str)
  | skipEvented (key : Str)
  | listPods
  | podEvent (pod : Pod) (message : String)
  | deletePod (volumeID : Str) (t : ℕ) (pod : Pod)

@[reducible] def Resp : Cmd → Type
  | .mountInfo => Except Err (List MountInfo)
  | .stateAll => List Mapping
  | .now | .heldUntil _ => ℕ
  | .failedAt _ => Option ℕ
  | .mark .. | .eventSent _ | .skipEvented _ => Bool
  | .listPods => Except Err (List Pod)
  | .podEvent .. | .deletePod .. => Except Err Unit
  | .clear _ | .hold .. | .forget _ | .setEventSent _ | .offLogged _ => Unit

abbrev Run := Prog Cmd Resp

def issue (c : Cmd) : Run (Resp c) := Prog.perform c

/-- The pods of the listing that have the volume mounted. -/
def usersOf (pods : List Pod) (targets : List PublishTarget) : List Pod :=
  targets.filterMap fun t => (StrMap.fill Pod.uid id pods).lookup t.podUID

/-- An event that cannot be sent is only logged. -/
def event (p : Pod) (message : String) : Run Unit := do
  let _ ← issue (.podEvent p message)

/-- A pod is told once why it was not deleted. -/
def skip (volumeID : Str) (p : Pod) (reason : String) : Run Unit := do
  let told ← issue (.skipEvented (volumeID ++ '/' :: p.uid))
  if told then pure () else event p (skippedMessage volumeID reason)

/-- Go through the users; whether a delete was attempted. -/
def deletes (volumeID : Str) (now failedAt : ℕ) : List Pod → Bool → Run Bool
  | [], attempted => pure attempted
  | p :: ps, attempted =>
    match skipReason p failedAt with
    | some reason => do
      skip volumeID p reason
      deletes volumeID now failedAt ps attempted
    | none => do
      let _ ← issue (.deletePod volumeID now p)
      deletes volumeID now failedAt ps true

/-- Delete the users, unless the volume is held, and hold it when any delete was
attempted. -/
def remediate (volumeID : Str) (now failedAt : ℕ) (users : List Pod) : Run Unit := do
  let held ← issue (.heldUntil volumeID)
  if now < held then pure ()
  else do
    let attempted ← deletes volumeID now failedAt users false
    if attempted then issue (.hold volumeID (now + remediationHold)) else pure ()

/-- Whether the pods have to be listed: to tell them, or to delete them. -/
def needPods (auto : Bool) (volumeID : Str) (now : ℕ) (sent : Bool) : Run Bool :=
  if !sent then pure true
  else if auto then do
    let held ← issue (.heldUntil volumeID)
    pure (!decide (now < held))
  else pure false

def notify (volumeID : Str) (sent : Bool) (users : List Pod) : Run Unit :=
  if sent then pure ()
  else do
    issue (.setEventSent volumeID)
    Prog.each (fun p => event p (failedMessage volumeID)) users

/-- What is done about a failed volume when there is a Kubernetes client. -/
def withPods (auto : Bool) (vol : Mapping) (e : MountInfo) (entries : List MountInfo)
    (now failedAt : ℕ) : Run Unit := do
  let sent ← issue (.eventSent vol.volumeID)
  if ← needPods auto vol.volumeID now sent then do
    match ← issue .listPods with
    | .error _ => pure ()
    | .ok pods => do
      let users := usersOf pods (publishTargets entries e.device)
      notify vol.volumeID sent users
      if auto then remediate vol.volumeID now failedAt users
      else issue (.offLogged vol.volumeID)
  else pure ()

def forgetIf (isNew : Bool) (volumeID : Str) : Run Unit :=
  if isNew then issue (.forget volumeID) else pure ()

/-- `Get` answers with the zero time for a volume that is not marked. -/
def handleFailed (kube auto : Bool) (vol : Mapping) (e : MountInfo) (entries : List MountInfo) :
    Run Unit := do
  let now ← issue .now
  let isNew ← issue (.mark vol.volumeID now)
  let failedAt ← issue (.failedAt vol.volumeID)
  forgetIf isNew vol.volumeID
  if kube then withPods auto vol e entries now (failedAt.getD 0) else pure ()

/-- A healthy stage clears any mark a stale snapshot left; an absent one may be in the
middle of a re-stage. -/
def tickVolume (kube auto : Bool) (entries : List MountInfo) (vol : Mapping) : Run Unit :=
  match lastAt entries vol.stagePath with
  | none => issue (.forget vol.volumeID)
  | some e =>
    if e.forcedReadOnly then handleFailed kube auto vol e entries
    else do
      issue (.clear vol.volumeID)
      issue (.forget vol.volumeID)

def tick (kube auto : Bool) : Run Unit := do
  match ← issue .mountInfo with
  | .error _ => pure ()
  | .ok entries => do
    let vols ← issue .stateAll
    Prog.each (tickVolume kube auto entries) vols

structure Event where
  pass : ℕ
  cmd : Cmd
  resp : Resp cmd

/-- The failure marks and hold-offs that the monitor shares with the requests, its own
memory, the clock, and all that the monitor did, newest first, with the number of the
pass. -/
structure State where
  failed : StrMap ℕ
  held : StrMap ℕ
  eventsSent : List Str
  loggedOff : List Str
  skipsEvented : List Str
  clock : ℕ
  passes : ℕ
  log : List Event

/-- What a command meets: how long it took to get to it, which marks the requests have
cleared since the command before, and what there is to read and to hear from the API. -/
structure Choice where
  wait : ℕ
  clears : List Str
  mounts : Except Err (List MountInfo)
  vols : List Mapping
  pods : Except Err (List Pod)
  answer : Except Err Unit

def State.clear (s : State) (volumeID : Str) : State := { s with failed := s.failed.erase volumeID }

/-- The marks that others clear, and the time that passes. -/
def State.disturb (s : State) (o : Choice) : State :=
  { o.clears.foldl State.clear s with clock := s.clock + o.wait }

def act (o : Choice) : (c : Cmd) → State → Resp c × State
  | .mountInfo, s => (o.mounts, s)
  | .stateAll, s => (o.vols, s)
  | .now, s => (s.clock, s)
  | .mark id t, s =>
    if (s.failed.lookup id).isSome then (false, s)
    else (true, { s with failed := s.failed.insert id t })
  | .failedAt id, s => (s.failed.lookup id, s)
  | .clear id, s => ((), s.clear id)
  | .heldUntil id, s => ((s.held.lookup id).getD 0, s)
  | .hold id t, s => ((), { s with held := s.held.insert id t })
  | .forget id, s => ((), { s with
      loggedOff := s.loggedOff.filter (· ≠ id)
      eventsSent := s.eventsSent.filter (· ≠ id)
      skipsEvented := s.skipsEvented.filter fun k => !hasPrefix k (id ++ ['/']) })
  | .eventSent id, s => (s.eventsSent.contains id, s)
  | .setEventSent id, s => ((), { s with eventsSent := id :: s.eventsSent })
  | .offLogged id, s =>
    ((), { s with loggedOff := s.loggedOff.insert id })
  | .skipEvented key, s => (s.skipsEvented.contains key, { s with
      skipsEvented := s.skipsEvented.insert key })
  | .listPods, s => (o.pods, s)
  | .podEvent _ _, s => (o.answer, s)
  | .deletePod _ _ _, s => (o.answer, s)

def exec (o : Choice) (c : Cmd) (s : State) : Resp c × State :=
  let r := act o c (s.disturb o)
  (r.1, { r.2 with log := ⟨s.passes, c, r.1⟩ :: r.2.log })

/-- A plugin process that has just started. -/
def fresh (clock : ℕ) : State where
  failed := ∅
  held := ∅
  eventsSent := []
  loggedOff := []
  skipsEvented := []
  clock := clock
  passes := 0
  log := []

/-- One pass, and its number. -/
def State.tick (kube auto : Bool) (s : State) (o : ℕ → Choice) : State :=
  ((Monitor.tick kube auto).eval exec o { s with passes := s.passes + 1 }).2

/-- Any number of passes. -/
def State.ticks (kube auto : Bool) (s : State) (os : List (ℕ → Choice)) : State :=
  os.foldl (State.tick kube auto) s

section Commands
variable {P : Cmd → Prop} {id : Str} {p : Pod}

theorem issue_all {c : Cmd} (h : P c) : (issue c).All P := (Prog.all_perform _ _).mpr h

theorem event_all {message : String} (h : P (.podEvent p message)) : (event p message).All P :=
  (issue_all h).bind fun _ => Prog.all_ret _ _

theorem skip_all (hkey : P (.skipEvented (id ++ '/' :: p.uid))) (h : ∀ m, P (.podEvent p m))
    (reason : String) : (skip id p reason).All P := by
  apply (issue_all hkey).bind
  intro told
  split_ifs
  · exact Prog.all_ret _ _
  · exact event_all (h _)

theorem needPods_all (h : P (.heldUntil id)) (auto : Bool) (now : ℕ) (sent : Bool) :
    (needPods auto id now sent).All P := by
  unfold needPods
  split_ifs
  · exact Prog.all_ret _ _
  · exact (issue_all h).bind fun _ => Prog.all_ret _ _
  · exact Prog.all_ret _ _

theorem notify_all (hsent : P (.setEventSent id)) (h : ∀ p m, P (.podEvent p m)) (sent : Bool)
    (users : List Pod) : (notify id sent users).All P := by
  unfold notify
  split_ifs
  · exact Prog.all_ret _ _
  · exact (issue_all hsent).bind fun _ => Prog.all_each fun p _ => event_all (h p _)

theorem forgetIf_all (h : P (.forget id)) (isNew : Bool) : (forgetIf isNew id).All P := by
  unfold forgetIf
  split_ifs
  · exact issue_all h
  · exact Prog.all_ret _ _

end Commands
end Fileblock.Monitor
