import Fileblock.Basic

/-! A block device as `cryptsetup` and `mkfs` see it, and what each subcommand
does to it. Subcommands are atomic and answer with their documented exit status. -/
namespace Fileblock.Crypt
open Go

abbrev Key := List UInt8

/-- A LUKS2 label as `luksDump` prints it: one line without outer blanks. -/
@[ext] structure Label where
  text : Str
  oneLine : '\n' ∉ text
  trimmed : trimSpace text = text
  deriving DecidableEq

/-- An empty label is printed as `(no label)`. -/
def Label.shown (l : Label) : Str := if l.text = [] then "(no label)".toList else l.text

def labelUnformatted : Label := ⟨"fileblock-unformatted", by decide, by decide⟩
def labelFormatted : Label := ⟨"fileblock", by decide, by decide⟩

theorem labelFormatted_ne : labelFormatted ≠ labelUnformatted := by decide

/-- What `luksFormat` is told about the cipher. -/
structure Format where
  cipher : Str
  keySize : ℕ
  deriving DecidableEq

def defaultFormat : Format := ⟨"aes-xts-plain64", 512⟩

structure Header where
  label : Label
  slots : List Key
  format : Format
  sectorSize : ℕ
  deriving DecidableEq

/-- `raw` is the device's content while it has no header; `fs` says whether the
data area behind the mapping holds a filesystem. -/
structure Device where
  header : Option Header
  raw : List UInt8
  fs : Bool
  mapped : Bool
  deriving DecidableEq

def blankCheckBytes : ℕ := 16777216

/-- No LUKS header, and nothing but zeros where one would be written. -/
def Device.Blank (d : Device) : Prop :=
  d.header = none ∧ ∀ b ∈ d.raw.take blankCheckBytes, b = 0

instance (d : Device) : Decidable d.Blank := inferInstanceAs (Decidable (_ ∧ _))

/-- The key unlocks a slot of the header. -/
def Device.Opens (d : Device) (key : Key) : Prop := ∃ h, d.header = some h ∧ key ∈ h.slots

def luksMagic : List UInt8 := [0x4c, 0x55, 0x4b, 0x53, 0xba, 0xbe]

/-- The bytes a reader of the device finds. -/
def Device.bytes (d : Device) : List UInt8 :=
  match d.header with
  | some _ => luksMagic ++ d.raw
  | none => d.raw

inductive Cmd where
  | isLuks
  | openDevice
  | read (off len : ℕ)
  | luksFormat (key : Key) (f : Format) (sectorSize : ℕ) (label : Label)
  | testPassphrase (key : Key)
  | luksAddKey (old new : Key)
  | luksRemoveKey (key : Key)
  | open (key : Key)
  | luksDump
  | dumpMetadata
  | mkfs
  | config (label : Label)
  | close

inductive ReadErr where
  | eof
  | other (text : String)

@[reducible] def Resp : Cmd → Type
  | .read _ _ => List UInt8 × Option ReadErr
  | .luksDump => Except ExecError Str
  | .dumpMetadata => Except ExecError (Option ℕ)
  | _ => Except ExecError Unit

/-- What one command meets: an injected failure, and for `read` how many bytes
it returns at most (0 for as many as asked). -/
structure Choice where
  fault : Option ExecError
  pick : ℕ

def exit (n : Int) : ExecError := ⟨n, []⟩

/-- The lines of `cryptsetup luksDump`, as far as the data segments. -/
def dumpLines (h : Header) : List Str :=
  ["LUKS header information", "Version:       \t2",
    "Label:" ++ ("         \t" ++ h.label.shown), "Subsystem:     \t(no subsystem)", ""]

def luksDumpText (h : Header) : Str := ['\n'].intercalate (dumpLines h)

/-- One command that is not made to fail. -/
def execOk (pick : ℕ) : (c : Cmd) → Device → Resp c × Device
  | .isLuks, d => (if d.header.isSome then .ok () else .error (exit 1), d)
  | .openDevice, d => (.ok (), d)
  | .read off len, d =>
    let found := (d.bytes.drop off).take len
    if found = [] then (([], some .eof), d)
    else ((if pick = 0 then found else found.take pick, none), d)
  | .luksFormat key f sector label, d =>
    (.ok (), { d with header := some ⟨label, [key], f, sector⟩, fs := false })
  | .testPassphrase key, d =>
    match d.header with
    | none => (.error (exit 1), d)
    | some h => (if key ∈ h.slots then .ok () else .error (exit 2), d)
  | .luksAddKey old new, d =>
    match d.header with
    | none => (.error (exit 1), d)
    | some h =>
      if old ∈ h.slots then (.ok (), { d with header := some { h with slots := new :: h.slots } })
      else (.error (exit 2), d)
  | .luksRemoveKey key, d =>
    match d.header with
    | none => (.error (exit 1), d)
    | some h =>
      if key ∈ h.slots then
        (.ok (), { d with header := some { h with slots := h.slots.erase key } })
      else (.error (exit 2), d)
  | .open key, d =>
    match d.header with
    | none => (.error (exit 1), d)
    | some h =>
      if key ∉ h.slots then (.error (exit 2), d)
      else if d.mapped then (.error (exit 5), d)
      else (.ok (), { d with mapped := true })
  | .luksDump, d =>
    match d.header with
    | none => (.error (exit 1), d)
    | some h => (.ok (luksDumpText h), d)
  | .dumpMetadata, d =>
    match d.header with
    | none => (.error (exit 1), d)
    | some h => (.ok (some h.sectorSize), d)
  | .mkfs, d => if d.mapped then (.ok (), { d with fs := true }) else (.error (exit 1), d)
  | .config label, d =>
    match d.header with
    | none => (.error (exit 1), d)
    | some h => (.ok (), { d with header := some { h with label } })
  | .close, d =>
    if d.mapped then (.ok (), { d with mapped := false }) else (.error (exit 4), d)

/-- The commands that open or close the mapping. -/
def Cmd.remaps : Cmd → Bool
  | .open _ | .close => true
  | _ => false

theorem execOk_mapped {c : Cmd} (hc : c.remaps = false) (pick : ℕ) (d : Device) :
    (execOk pick c d).2.mapped = d.mapped := by
  cases c with
  | «open» key => cases hc
  | close => cases hc
  | isLuks | openDevice | luksFormat => rfl
  | read | mkfs =>
    simp only [execOk]
    split_ifs <;> rfl
  | luksAddKey | luksRemoveKey =>
    simp only [execOk]
    split
    · rfl
    · split_ifs <;> rfl
  | testPassphrase | luksDump | dumpMetadata | config =>
    simp only [execOk]
    split <;> rfl

/-- How a command that fails without effect answers. -/
def failed (e : ExecError) : (c : Cmd) → Resp c
  | .read _ _ => ([], some (.other (String.ofList e.output)))
  | .luksDump => .error e
  | .dumpMetadata => .error e
  | .isLuks | .openDevice | .luksFormat .. | .testPassphrase _ | .luksAddKey _ _
  | .luksRemoveKey _ | .open _ | .mkfs | .config _ | .close => .error e

def exec (o : Choice) (c : Cmd) (d : Device) : Resp c × Device :=
  match o.fault with
  | some e => (failed e c, d)
  | none => execOk o.pick c d

/-- The exit statuses that are an answer and not a failure. -/
def Answers (c : Cmd) (status : Int) : Prop :=
  match c with
  | .isLuks => status = 1
  | .testPassphrase _ => status = 2
  | .close => status = 4
  | _ => False

instance (c : Cmd) (status : Int) : Decidable (Answers c status) := by
  unfold Answers
  cases c <;> infer_instance

/-- Exit statuses keep their documented meaning: a command that fails for any
other reason does not report the status that stands for an answer. -/
def Genuine (_ : Device) (c : Cmd) (o : Choice) : Prop :=
  ∀ e, o.fault = some e → ¬ Answers c e.exitCode

/-- No command is made to fail. -/
def Calm (_ : Device) (_ : Cmd) (o : Choice) : Prop := o.fault = none

theorem Calm.genuine {d : Device} {c : Cmd} {o : Choice} (h : Calm d c o) : Genuine d c o := by
  intro e he
  rw [h] at he
  exact absurd he (by simp)

theorem Label.newline_not_mem_shown (l : Label) : '\n' ∉ l.shown := by
  unfold Label.shown
  split_ifs
  · decide
  · exact l.oneLine

theorem Label.trimSpace_shown (l : Label) : trimSpace l.shown = l.shown := by
  unfold Label.shown
  split_ifs
  · decide
  · exact l.trimmed

theorem dumpLines_oneLine (h : Header) : ∀ l ∈ dumpLines h, '\n' ∉ l := by
  intro l hl
  simp only [dumpLines, List.mem_cons, List.not_mem_nil, or_false] at hl
  rcases hl with rfl | rfl | rfl | rfl | rfl
  · decide
  · decide
  · rw [List.mem_append, List.mem_append]
    rintro (hm | hm | hm)
    · exact absurd hm (by decide)
    · exact absurd hm (by decide)
    · exact h.label.newline_not_mem_shown hm
  · decide
  · decide

theorem split_luksDumpText (h : Header) : split (luksDumpText h) '\n' = dumpLines h := by
  have ho := dumpLines_oneLine h
  have hn : dumpLines h ≠ [] := by unfold dumpLines; exact List.cons_ne_nil _ _
  generalize hl : dumpLines h = ls at *
  unfold split luksDumpText
  rw [hl]
  exact List.splitOn_intercalate '\n' ho hn

end Fileblock.Crypt
