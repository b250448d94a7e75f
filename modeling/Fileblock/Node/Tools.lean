import Fileblock.Node.Command
import Fileblock.Interaction.Fallible

/-! The packages `mount` and `loop` and the small `crypt` functions: the driver's
wrappers around `mount`, `findmnt`, `losetup`, `cryptsetup` and sysfs. -/
namespace Fileblock.Node
open Go Store Interaction

abbrev Run := Prog Cmd Resp

def issue (c : Cmd) : Run (Resp c) := Prog.perform c

def sysErr (e : ExecError) : Err := .sys (String.ofList e.output)

def shell {α : Type} (p : Run (Except ExecError α)) (context : String) : ExceptT Err Run α :=
  attempt p fun e => .wrap context (.cmd e)

def showDevice : Source → String
  | .loop dev => "/dev/loop" ++ toString dev
  | .mapper name => Crypt.mapperPath name
  | .dir path => showPath path

/-- `findmnt --target` resolves to the nearest mount above, so an exact lookup
confirms it; of that lookup only the output counts. -/
def isMountPoint (target : Str) : ExceptT Err Run Bool := ExceptT.mk do
  match ← issue (.stat target) with
  | .error e => pure (.error (sysErr e))
  | .ok false => pure (.ok false)
  | .ok true =>
    match ← issue (.findmntTarget target) with
    | .error e => if e.exitCode = 1 then pure (.ok false) else pure (.error (.cmd e))
    | .ok _ => do
      let rows ← issue (.findmntExact target)
      pure (.ok (rows.any fun line => trimSpace line = target))

/-- The device visible at `target`: the last of its rows. -/
def mountSource (target : Str) : ExceptT Err Run Source := do
  let rows ← shell (issue (.findmntSources target)) ("findmnt " ++ showPath target)
  match rows.getLast? with
  | some s => pure s
  | none => throw (.sys ("findmnt " ++ showPath target ++ ": no source"))

def sourceMounted (device : Source) (host : Bool) : ExceptT Err Run Bool := ExceptT.mk do
  match ← issue (.findmntDevice device host) with
  | .ok rows => pure (.ok (!rows.isEmpty))
  | .error e =>
    if e.exitCode = 1 then pure (.ok false)
    else pure (.error (.wrap ("findmnt -S " ++ showDevice device) (.cmd e)))

def mountDevice (device : Source) (target : Str) (options : List String) : ExceptT Err Run Unit :=
  shell (issue (.mount device target options))
    ("mount " ++ showDevice device ++ " -> " ++ showPath target)

def bindMount (source target : Str) (readOnly : Bool) : ExceptT Err Run Unit := do
  shell (issue (.bind source target)) ("bind mount " ++ showPath source ++ " -> " ++ showPath target)
  if readOnly then shell (issue (.remountReadOnly target)) ("remount ro " ++ showPath target)

/-- Idempotent: a target that is not mounted is left alone. -/
def unmount (target : Str) : ExceptT Err Run Unit := do
  if ← isMountPoint target then shell (issue (.umount target)) ("umount " ++ showPath target)

/-- `losetup --find --show`. -/
def attachLoop (file : Str) (sectorSize : ℕ) : ExceptT Err Run ℕ :=
  attempt (issue (.losetupAttach file sectorSize)) fun e =>
    if contains (toLower e.output) "no such device" then .poolExhausted
    else .wrap ("losetup --find --show " ++ showPath file) (.cmd e)

/-- Idempotent: a device that is already detached is no error. -/
def detachLoop (dev : ℕ) : ExceptT Err Run Unit := ExceptT.mk do
  match ← issue (.losetupDetach dev) with
  | .ok _ => pure (.ok ())
  | .error e =>
    if contains (toLower e.output) "no such device" then pure (.ok ())
    else pure (.error (.wrap ("losetup --detach " ++ showDevice (.loop dev)) (.cmd e)))

def listLoops : ExceptT Err Run (List Attachment) :=
  shell (issue .losetupList) "losetup --list"

/-- The devices whose attachment matches. -/
def findLoops (found : Attachment → Bool) : ExceptT Err Run (List ℕ) := do
  let live ← listLoops
  pure ((live.filter found).map Attachment.device)

def findBacking (image : Str) : ExceptT Err Run (List ℕ) :=
  findLoops fun a => backs a.backFile image

def setCapacity (dev : Option ℕ) : ExceptT Err Run Unit :=
  shell (issue (.losetupSetCapacity dev)) "losetup --set-capacity"

/-- A check that fails counts as a "no". -/
def orFalse (x : ExceptT Err Run Bool) : Run Bool := do
  match ← x.run with
  | .ok b => pure b
  | .error _ => pure false

/-- Mounted here, mounted in the host's namespace, or held by a mapping. A host
check that fails falls through to the others. -/
def loopBusy (dev : ℕ) : ExceptT Err Run Bool := do
  if ← sourceMounted (.loop dev) false then pure true
  else do
    if ← always (orFalse (sourceMounted (.loop dev) true)) then pure true
    else do
      let holders ← attempt (issue (.holders dev)) sysErr
      pure (!holders.isEmpty)

def closeCrypt (name : String) : ExceptT Err Run Unit := ExceptT.mk do
  match ← issue (.cryptClose name) with
  | .ok _ => pure (.ok ())
  | .error e =>
    if e.exitCode = 4 then pure (.ok ()) else pure (.error (.wrap ("close " ++ name) (.cmd e)))

def listCrypt : ExceptT Err Run (List (String × ℕ)) := attempt (issue .dmList) sysErr

def isOpenCrypt (name : String) : ExceptT Err Run Bool := do
  let ms ← listCrypt
  pure (ms.any (·.1 = name))

def fsck (device : Source) : ExceptT Err Run Unit := ExceptT.mk do
  match ← issue (.fsck device) with
  | .ok _ => pure (.ok ())
  | .error e =>
    if e.exitCode = 1 then pure (.ok ())
    else pure (.error (.wrap ("e2fsck " ++ showDevice device) (.cmd e)))

def resize2fs (device : Source) : ExceptT Err Run Unit :=
  shell (issue (.resize2fs device)) ("resize2fs " ++ showDevice device)

/-- `Crypt.Prepare` on a loop device of the node. -/
def prepareCrypt (dev : ℕ) (name : String) (k : StageKeys) (f : Crypt.Format) :
    ExceptT Err Run (String × Crypt.Outcome) :=
  ExceptT.mk ((Crypt.prepare (showDevice (.loop dev)) name k.1 f).run.lift
    (fun c => .luks dev name c) fun _ r => r)

/-- The device that carries the filesystem. -/
def stageTarget (dev : ℕ) : Option String → Source
  | none => .loop dev
  | some name => .mapper name

def sectorSizeCrypt (file : Str) : ExceptT Err Run ℕ :=
  ExceptT.mk ((Crypt.sectorSize (showPath file)).run.lift (fun c => .imageLuks file c) fun _ r => r)

/-- The ext4 block size an image records, 0 without a superblock. -/
def fsBlockSize (file : Str) : ExceptT Err Run ℕ := do
  let sb ← attempt (issue (.readSuperblock file)) sysErr
  match sb with
  | some n => pure (if 6 < n then 0 else 1024 * 2 ^ n)
  | none => pure 0

/-- Halve until the size is a multiple, down to 512; `fuel` bounds the halvings. -/
def halveSector (imageSize : ℕ) : (fuel s : ℕ) → ℕ
  | 0, s => s
  | fuel + 1, s => if 512 < s ∧ imageSize % s ≠ 0 then halveSector imageSize fuel (s / 2) else s

def sectorSizeFor (pageSize recorded imageSize : ℕ) : ℕ :=
  let s := min (if recorded = 0 then Crypt.defaultBlockSize else recorded) pageSize
  halveSector imageSize s s

/-- The block size an image's on-disk format commits it to. -/
def recordedSize (file : Str) : (encrypted : Bool) → ExceptT Err Run ℕ
  | true => sectorSizeCrypt file
  | false => fsBlockSize file

def loopSectorSize (pageSize : ℕ) (file : Str) (size : ℕ) (encrypted : Bool) :
    ExceptT Err Run ℕ := do
  let recorded ← recordedSize file encrypted
  pure (sectorSizeFor pageSize recorded size)

/-! Which commands a wrapper issues, whatever they are answered. -/

section Commands
variable {P : Cmd → Prop} {path : Str}

theorem isMountPoint_all (h1 : P (.stat path))
    (h2 : P (.findmntTarget path)) (h3 : P (.findmntExact path)) :
    (isMountPoint path).run.All P := by
  unfold isMountPoint issue
  rw [ExceptT.run_mk]
  refine Prog.All.bind ((Prog.all_perform _ _).mpr h1) fun r => ?_
  rcases r with e | (_ | _)
  · exact Prog.all_ret _ _
  · exact Prog.all_ret _ _
  · refine Prog.All.bind ((Prog.all_perform _ _).mpr h2) fun r => ?_
    cases r with
    | error e =>
      dsimp only
      split_ifs <;> exact Prog.all_ret _ _
    | ok u => exact Prog.All.bind ((Prog.all_perform _ _).mpr h3) fun _ => Prog.all_ret _ _

theorem unmount_all (h1 : P (.stat path)) (h2 : P (.findmntTarget path))
    (h3 : P (.findmntExact path)) (h4 : P (.umount path)) : (unmount path).run.All P := by
  unfold unmount shell
  refine Prog.all_run_bind (isMountPoint_all h1 h2 h3) fun found => ?_
  cases found with
  | true => exact Prog.all_attempt ((Prog.all_perform _ _).mpr h4) _
  | false => exact Prog.all_ret _ _

theorem closeCrypt_all {name : String} (h : P (.cryptClose name)) : (closeCrypt name).run.All P := by
  unfold closeCrypt issue
  refine Prog.All.bind ((Prog.all_perform _ _).mpr h) fun r => ?_
  cases r with
  | ok u => exact Prog.all_ret _ _
  | error e =>
    dsimp only
    split_ifs <;> exact Prog.all_ret _ _

theorem detachLoop_all {dev : ℕ} (h : P (.losetupDetach dev)) : (detachLoop dev).run.All P := by
  unfold detachLoop issue
  refine Prog.All.bind ((Prog.all_perform _ _).mpr h) fun r => ?_
  cases r with
  | ok u => exact Prog.all_ret _ _
  | error e =>
    dsimp only
    split_ifs <;> exact Prog.all_ret _ _

theorem findLoops_all {found : Attachment → Bool} (h : P .losetupList) :
    (findLoops found).run.All P :=
  Prog.all_run_bind (Prog.all_attempt ((Prog.all_perform _ _).mpr h) _) fun _ => Prog.all_ret _ _

end Commands
end Fileblock.Node
