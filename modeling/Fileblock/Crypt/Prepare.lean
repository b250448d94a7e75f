import Fileblock.Interaction.Fallible
import Fileblock.Crypt.Device

/-! `Crypt.Prepare` and the functions under it, one model command for each
`cryptsetup` or `mkfs` run. -/
namespace Fileblock.Crypt
open Go Interaction Prog

abbrev Run := Prog Cmd Resp

def issue (c : Cmd) : Run (Resp c) := perform c

@[simp] theorem wp_issue {A G : Device → Cmd → Choice → Prop} (c : Cmd)
    (Q : Resp c → Device → Prop) (d : Device) :
    (issue c).wp ⟨exec, A, G⟩ Q d ↔ ∀ o, A d c o → G d c o ∧ Q (exec o c d).1 (exec o c d).2 :=
  Iff.rfl

/-- The passphrases of a node-stage secret. An empty `previous` means there is
none; `current` is never empty (`keysFromSecrets` wants `MinKeyLen` bytes). -/
structure Keys where
  current : Key
  previous : Key
  current_ne : current ≠ []
  deriving DecidableEq

inductive Outcome where
  | none
  | formatted
  | rotated
  | finishedInterruptedRotation
  deriving DecidableEq

def defaultBlockSize : ℕ := 4096

def mapperPath (name : String) : String := "/dev/mapper/" ++ name

/-- Run a subcommand whose every failure is an error. -/
def subcommand {α : Type} (p : Run (Except ExecError α)) (context : String) : ExceptT Err Run α :=
  attempt p fun e => .wrap context (.cmd e)

def isLuks (dev : String) : ExceptT Err Run Bool := ExceptT.mk do
  match ← issue .isLuks with
  | .ok _ => pure (.ok true)
  | .error e =>
    if e.exitCode = 1 then pure (.ok false)
    else pure (.error (.wrap ("isLuks " ++ dev) (.cmd e)))

/-- The loop of `isBlank` after `done` bytes. Every read that is not at the end
returns something, so `fuel` covers the bytes left. -/
def isBlankFrom (dev : String) : (fuel done : ℕ) → Run (Except Err Bool)
  | 0, _ => pure (.ok true)
  | fuel + 1, done =>
    if done < blankCheckBytes then do
      let (buf, err) ← issue (.read done (min 1048576 (blankCheckBytes - done)))
      if buf.any (· ≠ 0) then pure (.ok false)
      else match err with
        | some .eof => pure (.ok true)
        | some (.other t) => pure (.error (.wrap ("read " ++ dev) (.sys t)))
        | none => isBlankFrom dev fuel (done + buf.length)
    else pure (.ok true)

def isBlank (dev : String) : ExceptT Err Run Bool := do
  attempt (issue .openDevice) fun e => Err.sys (String.ofList e.output)
  ExceptT.mk (isBlankFrom dev blankCheckBytes 0)

def luksLabel (dump : Str) : Str :=
  ((split dump '\n').findSome? fun line => (cutPrefix line "Label:").map trimSpace).getD []

/-- Whether `key` unlocks a slot; status 2 is a wrong passphrase. -/
def opens (dev : String) (key : Key) : ExceptT Err Run Bool := ExceptT.mk do
  match ← issue (.testPassphrase key) with
  | .ok _ => pure (.ok true)
  | .error e =>
    if e.exitCode = 2 then pure (.ok false)
    else pure (.error (.wrap ("test passphrase on " ++ dev) (.cmd e)))

/-- The sector size the LUKS2 metadata records, or 0 without a header. -/
def sectorSize (dev : String) : ExceptT Err Run ℕ := do
  if ← isLuks dev then do
    let seg ← subcommand (issue .dumpMetadata) ("luksDump " ++ dev)
    match seg with
    | some n =>
      if n = 0 then
        throw (.sys ("LUKS2 metadata of " ++ dev ++ " has no data segment sector size"))
      else pure n
    | none => throw (.sys ("LUKS2 metadata of " ++ dev ++ " has no data segment sector size"))
  else pure 0

/-- Idempotent: status 4 is an inactive name. -/
def close (name : String) : ExceptT Err Run Unit := ExceptT.mk do
  match ← issue .close with
  | .ok _ => pure (.ok ())
  | .error e =>
    if e.exitCode = 4 then pure (.ok ()) else pure (.error (.wrap ("close " ++ name) (.cmd e)))

/-- Add-then-remove: a crash between the two leaves both slots. -/
def rotate (dev : String) (k : Keys) : ExceptT Err Run Outcome := do
  let cur ← opens dev k.current
  if k.previous = [] ∨ k.previous = k.current then
    if cur then pure .none else throw (.wrap dev .wrongKey)
  else do
    let prev ← opens dev k.previous
    if !cur && !prev then throw (.wrap dev .wrongKey)
    else if !prev then pure .none
    else do
      if !cur then
        subcommand (issue (.luksAddKey k.previous k.current)) ("luksAddKey " ++ dev)
      subcommand (issue (.luksRemoveKey k.previous)) ("luksRemoveKey " ++ dev)
      pure (if cur then .finishedInterruptedRotation else .rotated)

/-- The label, not the content, says whether `mkfs` is still owed. -/
def ensureFilesystem (dev path : String) : ExceptT Err Run Unit := do
  let out ← subcommand (issue .luksDump) ("luksDump " ++ dev)
  if luksLabel out = labelUnformatted.text then do
    subcommand (issue .mkfs) ("mkfs.ext4 " ++ path)
    subcommand (issue (.config labelFormatted)) ("relabel " ++ dev)

/-- `ensureFilesystem`, closing the mapping again when it fails. -/
def ensureFilesystemOrClose (dev name : String) : ExceptT Err Run Unit := ExceptT.mk do
  match ← (ensureFilesystem dev (mapperPath name)).run with
  | .ok _ => pure (.ok ())
  | .error e =>
    match ← (close name).run with
    | .ok _ => pure (.error e)
    | .error e' => pure (.error (.join e e'))

/-- A device with no header is formatted only when it is blank. -/
def formatIfBlank (dev : String) (k : Keys) (f : Format) : ExceptT Err Run Outcome := do
  if ← isLuks dev then pure .none
  else if ← isBlank dev then do
    subcommand (issue (.luksFormat k.current f defaultBlockSize labelUnformatted))
      ("luksFormat " ++ dev)
    pure .formatted
  else throw (.wrap dev .notBlank)

/-- Format on first use, move the key slot to `k.current`, open, and make the
filesystem if it has none yet. -/
def prepare (dev name : String) (k : Keys) (f : Format) : ExceptT Err Run (String × Outcome) := do
  let outcome ← formatIfBlank dev k f
  let moved ← rotate dev k
  subcommand (issue (.open k.current)) ("open " ++ dev)
  ensureFilesystemOrClose dev name
  pure (mapperPath name, if outcome = .none then moved else outcome)

theorem luksLabel_luksDumpText (h : Header) : luksLabel (luksDumpText h) = h.label.shown := by
  have h1 : cutPrefix "LUKS header information" "Label:" = none := by decide
  have h2 : cutPrefix "Version:       \t2" "Label:" = none := by decide
  have ht : trimSpace ("         \t" ++ h.label.shown) = h.label.shown := by
    rw [trimSpace_append _ _ (by simp [isSpace]), h.label.trimSpace_shown]
  unfold luksLabel
  rw [split_luksDumpText]
  simp only [dumpLines, List.findSome?_cons, h1, h2, cutPrefix_append, ht, Option.map_some,
    Option.map_none, Option.getD_some]

theorem luksLabel_eq_unformatted_iff (h : Header) :
    luksLabel (luksDumpText h) = labelUnformatted.text ↔ h.label = labelUnformatted := by
  rw [luksLabel_luksDumpText]
  constructor
  · intro he
    unfold Label.shown at he
    split_ifs at he with hl
    · exact absurd he (by decide)
    · exact Label.ext he
  · intro he
    rw [he]
    decide

/-! The parts of `prepare` that leave the mapping alone. -/

theorem issue_stays {c : Cmd} (h : c.remaps = false) : (issue c).All (·.remaps = false) :=
  (all_perform _ _).mpr h

theorem isLuks_stays (dev : String) : (isLuks dev).run.All (·.remaps = false) := by
  refine (issue_stays (c := .isLuks) rfl).bind fun r => ?_
  cases r with
  | ok u => exact all_ret _ _
  | error e =>
    dsimp only
    split_ifs <;> exact all_ret _ _

theorem isBlankFrom_stays (dev : String) (fuel done : ℕ) :
    (isBlankFrom dev fuel done).All (·.remaps = false) := by
  induction fuel generalizing done with
  | zero => exact all_ret _ _
  | succ fuel ih =>
    unfold isBlankFrom
    split_ifs
    · refine (issue_stays (c := .read _ _) rfl).bind fun r => ?_
      dsimp only
      split_ifs
      · exact all_ret _ _
      · rcases r.2 with _ | (_ | t)
        · exact ih _
        · exact all_ret _ _
        · exact all_ret _ _
    · exact all_ret _ _

theorem opens_stays (dev : String) (key : Key) : (opens dev key).run.All (·.remaps = false) := by
  refine (issue_stays (c := .testPassphrase key) rfl).bind fun r => ?_
  cases r with
  | ok u => exact all_ret _ _
  | error e =>
    dsimp only
    split_ifs <;> exact all_ret _ _

theorem formatIfBlank_stays (dev : String) (k : Keys) (f : Format) :
    (formatIfBlank dev k f).run.All (·.remaps = false) := by
  refine all_run_bind (isLuks_stays dev) fun found => ?_
  cases found with
  | true => exact all_ret _ _
  | false =>
    refine all_run_bind ?_ fun blank => ?_
    · exact all_run_bind (all_attempt (issue_stays (c := .openDevice) rfl) _) fun _ =>
        isBlankFrom_stays dev _ _
    · cases blank with
      | true =>
        exact all_run_bind (all_attempt (issue_stays (c := .luksFormat ..) rfl) _) fun _ =>
          all_ret _ _
      | false => exact all_ret _ _

theorem rotate_stays (dev : String) (k : Keys) : (rotate dev k).run.All (·.remaps = false) := by
  have hadd := all_attempt (issue_stays (c := .luksAddKey k.previous k.current) rfl)
    fun e => Err.wrap ("luksAddKey " ++ dev) (.cmd e)
  have hremove := all_attempt (issue_stays (c := .luksRemoveKey k.previous) rfl)
    fun e => Err.wrap ("luksRemoveKey " ++ dev) (.cmd e)
  refine all_run_bind (opens_stays dev _) fun cur => ?_
  by_cases hp : k.previous = [] ∨ k.previous = k.current
  · rw [if_pos hp]
    cases cur <;> exact all_ret _ _
  · rw [if_neg hp]
    refine all_run_bind (opens_stays dev _) fun prev => ?_
    cases prev with
    | false => cases cur <;> exact all_ret _ _
    | true =>
      cases cur with
      | true => exact all_run_bind hremove fun _ => all_ret _ _
      | false => exact all_run_bind hadd fun _ => all_run_bind hremove fun _ => all_ret _ _

theorem ensureFilesystem_stays (dev path : String) :
    (ensureFilesystem dev path).run.All (·.remaps = false) := by
  refine all_run_bind (all_attempt (issue_stays (c := .luksDump) rfl) _) fun out => ?_
  split_ifs
  · exact all_run_bind (all_attempt (issue_stays (c := .mkfs) rfl) _) fun _ =>
      all_attempt (issue_stays (c := .config _) rfl) _
  · exact all_ret _ _

end Fileblock.Crypt
