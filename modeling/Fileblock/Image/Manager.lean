import Fileblock.Basic
import Fileblock.Go.Map
import Fileblock.Interaction.Fallible
import Fileblock.Store.Layout

/-! The images of one store directory: creating, resizing and deleting them as programs
of file operations, and what these operations do to the directory. -/
namespace Fileblock.Image
open Go Store Interaction

def defaultBlockSize : ℤ := 4096

/-- The value of an `int64` expression. -/
def int64 (n : ℤ) : ℤ := n.bmod (2 ^ 64)

def alignUp (n : ℤ) : ℤ :=
  int64 ((int64 (n + defaultBlockSize - 1)).tdiv defaultBlockSize * defaultBlockSize)

theorem int64_eq {n : ℤ} (h : -2 ^ 63 ≤ n) (h' : n < 2 ^ 63) : int64 n = n :=
  Int.bmod_eq_of_le (by norm_num; omega) (by norm_num; omega)

theorem alignUp_eq {n : ℤ} (h : 0 ≤ n) (h' : n < 2 ^ 63 - 4095) :
    alignUp n = (n + 4095) / 4096 * 4096 := by
  have hs : int64 (n + 4096 - 1) = n + 4095 := by
    rw [int64_eq (by omega) (by omega)]
    omega
  unfold alignUp defaultBlockSize
  rw [hs, Int.tdiv_eq_ediv_of_nonneg (by omega), int64_eq (by omega) (by omega)]

theorem alignUp_alignUp {n : ℤ} (h : 0 ≤ n) (h' : n < 2 ^ 62) : alignUp (alignUp n) = alignUp n := by
  have hn := alignUp_eq h (by omega)
  rw [alignUp_eq (n := alignUp n) (by omega) (by omega), hn]
  omega

theorem alignUp_eq_self_iff {n : ℤ} (h : 0 ≤ n) (h' : n < 2 ^ 62) : alignUp n = n ↔ n % 4096 = 0 := by
  rw [alignUp_eq h (by omega)]
  omega

theorem alignUp_neg {n : ℤ} (h : 2 ^ 63 - 4096 < n) (h' : n < 2 ^ 63) : alignUp n < 0 := by
  have hs : int64 (n + 4096 - 1) = -(2 ^ 64 - 4095 - n) := by
    have hw : n + 4096 - 1 = -(2 ^ 64 - 4095 - n) + (2 ^ 64 : ℕ) := by
      push_cast
      ring
    rw [hw]
    exact (Int.add_bmod_right _ _).trans (int64_eq (by omega) (by omega))
  unfold alignUp defaultBlockSize
  rw [hs, Int.neg_tdiv, Int.tdiv_eq_ediv_of_nonneg (by omega), int64_eq (by omega) (by omega)]
  omega

theorem alignUp_ne_zero {n : ℤ} (h : 0 < n) (h' : n < 2 ^ 63) : alignUp n ≠ 0 := by
  by_cases hn : n < 2 ^ 63 - 4095
  · rw [alignUp_eq h.le hn]
    omega
  · have hneg := alignUp_neg (by omega) h'
    omega

structure Metadata where
  volumeID : Str
  capacityBytes : ℤ
  deriving DecidableEq

inductive CreateError where
  | mismatch (requested existing : ℤ)
  | other (e : Err)
  deriving DecidableEq

def CreateError.text : CreateError → String
  | mismatch requested existing => "volume already exists with capacity " ++ toString existing ++
      ", requested " ++ toString requested
  | other e => e.text

/-- File operations in the directory of the store; `openFile` is with `O_CREATE` and
answers with the file it opened, by which `truncate` goes. -/
inductive Cmd where
  | statRoot
  | stat (name : Str)
  | openFile (name : Str)
  | truncate (ino : ℕ) (size : ℤ)
  | mkfs (name : Str)
  | remove (name : Str)
  | readDir

/-- A file that is not there is `none` for `stat` and `false` for `remove`; `statRoot`
says whether there is a directory, and `readDir` which of the entries are directories. -/
@[reducible] def Resp : Cmd → Type
  | .statRoot | .remove _ => Except Err Bool
  | .stat _ => Except Err (Option ℤ)
  | .openFile _ => Except Err ℕ
  | .truncate .. | .mkfs _ => Except Err Unit
  | .readDir => Except Err (List (Str × Bool))

abbrev Run := Prog Cmd Resp

def issue (c : Cmd) : Run (Resp c) := Prog.perform c

def new (root : Str) : ExceptT Err Run Unit := do
  let isDir ← attempt (issue .statRoot) (.wrap ("backing store " ++ String.ofList root))
  known (if isDir then .ok () else
    .error (.sys ("backing store " ++ String.ofList root ++ " is not a directory")))

def imageFile (volumeID : Str) : Str := volumeID ++ imageExt

def sidecarFile (volumeID : Str) : Str := volumeID ++ ".json".toList

/-- The image as the errors name it. -/
def imagePath (root volumeID : Str) : Str := join root (imageFile volumeID)

def validateVolumeID (id : Str) : Except Err Unit :=
  if id = [] then .error (.sys "empty volumeID")
  else if id.any (· ∈ ['/', '\\', Char.ofNat 0]) then
    .error (.sys ("invalid volumeID \"" ++ String.ofList id ++ "\""))
  else .ok ()

def truncateSparse (root name : Str) (size : ℤ) : ExceptT Err Run Unit := do
  let ino ← attempt (issue (.openFile name)) id
  attempt (issue (.truncate ino size)) (.wrap ("truncate " ++ String.ofList (join root name)))

/-- Make an image, or adopt one of the right size. Images from before sizes were rounded
may be at the capacity itself. -/
def create (root volumeID : Str) (capacity : ℤ) (unformatted : Bool) :
    ExceptT CreateError Run Metadata := do
  known ((validateVolumeID volumeID).mapError .other)
  known (if capacity ≤ 0 then .error (.other (.sys "capacityBytes must be > 0")) else .ok ())
  match ← attempt (issue (.stat (imageFile volumeID)))
      fun e => .other (.wrap ("stat " ++ String.ofList (imagePath root volumeID)) e) with
  | some size =>
    known (if size ≠ alignUp capacity ∧ size ≠ capacity then .error (.mismatch capacity size)
      else .ok ⟨volumeID, size⟩)
  | none => do
    attempt (truncateSparse root (imageFile volumeID) (alignUp capacity)).run .other
    if unformatted then pure ⟨volumeID, alignUp capacity⟩
    else do
      cleanup (attempt (issue (.mkfs (imageFile volumeID)))
          fun e => .other (.wrap ("mkfs.ext4 " ++ String.ofList (imagePath root volumeID)) e))
        (do let _ ← issue (.remove (imageFile volumeID)))
      pure ⟨volumeID, alignUp capacity⟩

/-- What `create` answers when the image is there. -/
def adopted (volumeID : Str) (capacity size : ℤ) : Except CreateError Metadata :=
  if size ≠ alignUp capacity ∧ size ≠ capacity then .error (.mismatch capacity size)
  else .ok ⟨volumeID, size⟩

section Steps
variable (root v : Str) (capacity : ℤ) (unformatted : Bool)

/-! What is left of a `create`, from its end to its beginning. -/

def removing (e : CreateError) : Run (Except CreateError Metadata) :=
  .call (.remove (imageFile v)) fun _ => .ret (.error e)

def formatting : Run (Except CreateError Metadata) :=
  .call (.mkfs (imageFile v)) fun r =>
    match r with
    | .ok _ => .ret (.ok ⟨v, alignUp capacity⟩)
    | .error e =>
      removing v (.other (.wrap ("mkfs.ext4 " ++ String.ofList (imagePath root v)) e))

def finishing : Run (Except CreateError Metadata) :=
  match unformatted with
  | true => .ret (.ok ⟨v, alignUp capacity⟩)
  | false => formatting root v capacity

def sizing (ino : ℕ) : Run (Except CreateError Metadata) :=
  .call (.truncate ino (alignUp capacity)) fun r =>
    match r with
    | .ok _ => finishing root v capacity unformatted
    | .error e => .ret (.error (.other
        (.wrap ("truncate " ++ String.ofList (join root (imageFile v))) e)))

def making : Run (Except CreateError Metadata) :=
  .call (.openFile (imageFile v)) fun r =>
    match r with
    | .ok ino => sizing root v capacity unformatted ino
    | .error e => .ret (.error (.other e))

def looked (r : Except Err (Option ℤ)) : Run (Except CreateError Metadata) :=
  match r with
  | .error e => .ret (.error (.other (.wrap ("stat " ++ String.ofList (imagePath root v)) e)))
  | .ok none => making root v capacity unformatted
  | .ok (some size) => .ret (adopted v capacity size)

theorem create_cases : (∃ e, (create root v capacity unformatted).run = .ret (.error e)) ∨
    0 < capacity ∧ (create root v capacity unformatted).run =
      .call (.stat (imageFile v)) (looked root v capacity unformatted) := by
  unfold create
  cases hv : validateVolumeID v with
  | error e => exact Or.inl ⟨.other e, rfl⟩
  | ok _ =>
    by_cases hpos : capacity ≤ 0
    · rw [if_pos hpos]
      exact Or.inl ⟨_, rfl⟩
    · rw [if_neg hpos]
      refine Or.inr ⟨by omega, congrArg (Prog.call _) (funext fun r => ?_)⟩
      rcases r with e | _ | size
      · rfl
      · refine congrArg (Prog.call _) (funext fun r => ?_)
        cases r with
        | error e => rfl
        | ok ino =>
          refine congrArg (Prog.call _) (funext fun r => ?_)
          cases r with
          | error e => rfl
          | ok _ =>
            cases unformatted with
            | true => rfl
            | false => exact congrArg (Prog.call _) (funext fun r => by cases r <;> rfl)
      · rfl

end Steps

/-- An image that is not there is deleted already. The sidecar of old releases is swept
along. -/
def delete (volumeID : Str) : ExceptT Err Run Unit := do
  known (validateVolumeID volumeID)
  let _ ← attempt (issue (.remove (imageFile volumeID))) id
  let _ ← always (issue (.remove (sidecarFile volumeID)))

def get (root volumeID : Str) : ExceptT Err Run Metadata := do
  known (validateVolumeID volumeID)
  match ← attempt (issue (.stat (imageFile volumeID))) id with
  | some size => pure ⟨volumeID, size⟩
  | none => throw (.sys ("stat " ++ String.ofList (imagePath root volumeID) ++ ": no such file or directory"))

/-- The images among the entries; one that is gone by the time it is looked at is passed
over. -/
def listFrom : List (Str × Bool) → Run (List Metadata)
  | [] => pure []
  | (name, isDir) :: entries =>
    if isDir || !hasSuffix name imageExt then listFrom entries
    else do
      let st ← issue (.stat name)
      let rest ← listFrom entries
      pure (match st with
        | .ok (some size) => ⟨trimSuffix name imageExt, size⟩ :: rest
        | _ => rest)

def list : ExceptT Err Run (List Metadata) := do
  let entries ← attempt (issue .readDir) id
  always (listFrom entries)

def resize (root volumeID : Str) (capacity : ℤ) : ExceptT Err Run Metadata := do
  let found ← get root volumeID
  if alignUp capacity < found.capacityBytes then
    throw (.sys ("shrink not supported: " ++ toString capacity ++ " < " ++
      toString found.capacityBytes))
  else if alignUp capacity = found.capacityBytes then pure found
  else do
    truncateSparse root (imageFile volumeID) (alignUp capacity)
    pure ⟨volumeID, alignUp capacity⟩

/-- A file, by its number, and whether an ext4 was completed on it. -/
structure File where
  ino : ℕ
  size : ℤ
  formatted : Bool
  deriving DecidableEq

/-- The files of a directory by name, and the number of the next new file. -/
structure Directory where
  files : StrMap File
  next : ℕ

/-- What an operation meets: an error, whether the root is a directory, and which
directories are in it. -/
structure Choice where
  fault : Option Err
  isDir : Bool
  subdirs : List Str

def answer {α : Type} (o : Choice) (a : α) : Except Err α :=
  match o.fault with
  | some e => .error e
  | none => .ok a

def entries (subdirs : List Str) (d : Directory) : List (Str × Bool) :=
  (subdirs.map (·, true) ++ d.files.keys.map (·, false)).insertionSort (·.1 ≤ ·.1)

def openFile (name : Str) (d : Directory) : ℕ × Directory :=
  match d.files.lookup name with
  | some f => (f.ino, d)
  | none => (d.next, ⟨d.files.insert name ⟨d.next, 0, false⟩, d.next + 1⟩)

/-- A file whose name is gone is truncated unseen. -/
def setSize (ino : ℕ) (size : ℤ) (d : Directory) : Directory :=
  { d with files := d.files.mapValues fun f => if f.ino = ino then { f with size } else f }

/-- One operation. A `mkfs` that fails leaves no filesystem. -/
def exec (o : Choice) : (c : Cmd) → Directory → Resp c × Directory
  | .statRoot, d => (answer o o.isDir, d)
  | .stat name, d => (answer o ((d.files.lookup name).map File.size), d)
  | .openFile name, d =>
    match o.fault with
    | some e => (.error e, d)
    | none => (.ok (openFile name d).1, (openFile name d).2)
  | .truncate ino size, d =>
    match o.fault with
    | some e => (.error e, d)
    | none => if size < 0 then (.error (.sys "invalid argument"), d) else (.ok (), setSize ino size d)
  | .mkfs name, d =>
    match d.files.lookup name with
    | none => (.error (o.fault.getD (.sys "no such file or directory")), d)
    | some f => (answer o (),
        { d with files := d.files.insert name { f with formatted := o.fault.isNone } })
  | .remove name, d =>
    match o.fault with
    | some e => (.error e, d)
    | none => (.ok (d.files.lookup name).isSome, { d with files := d.files.erase name })
  | .readDir, d => (answer o (entries o.subdirs d), d)

theorem exec_names {o : Choice} {c : Cmd} {d : Directory} {name : Str} {f : File}
    (h : (exec o c d).2.files.lookup name = some f) :
    (∃ f', d.files.lookup name = some f') ∨ c = .openFile name := by
  cases c with
  | statRoot => exact Or.inl ⟨f, h⟩
  | stat n => exact Or.inl ⟨f, h⟩
  | readDir => exact Or.inl ⟨f, h⟩
  | openFile n =>
    by_cases hn : name = n
    · exact Or.inr (hn ▸ rfl)
    · left
      unfold exec at h
      cases hf : o.fault with
      | some e =>
        rw [hf] at h
        exact ⟨f, h⟩
      | none =>
        rw [hf] at h
        dsimp only [openFile] at h
        cases hl : d.files.lookup n with
        | some g =>
          rw [hl] at h
          exact ⟨f, h⟩
        | none =>
          rw [hl] at h
          dsimp only at h
          rw [AList.lookup_insert_ne hn] at h
          exact ⟨f, h⟩
  | truncate ino size =>
    left
    unfold exec at h
    cases hf : o.fault with
    | some e =>
      rw [hf] at h
      exact ⟨f, h⟩
    | none =>
      rw [hf] at h
      dsimp only at h
      split_ifs at h
      · exact ⟨f, h⟩
      · dsimp only [setSize] at h
        rw [StrMap.lookup_mapValues] at h
        obtain ⟨g, hg, -⟩ := Option.map_eq_some_iff.mp h
        exact ⟨g, hg⟩
  | mkfs n =>
    left
    unfold exec at h
    dsimp only at h
    cases hl : d.files.lookup n with
    | none =>
      rw [hl] at h
      exact ⟨f, h⟩
    | some g =>
      rw [hl] at h
      dsimp only at h
      by_cases hn : name = n
      · exact ⟨g, hn ▸ hl⟩
      · rw [AList.lookup_insert_ne hn] at h
        exact ⟨f, h⟩
  | remove n =>
    left
    unfold exec at h
    cases hf : o.fault with
    | some e =>
      rw [hf] at h
      exact ⟨f, h⟩
    | none =>
      rw [hf] at h
      dsimp only at h
      by_cases hn : name = n
      · rw [hn, AList.lookup_erase] at h
        cases h
      · rw [AList.lookup_erase_ne hn] at h
        exact ⟨f, h⟩

def oneImage (v : Str) : Directory := ⟨AList.singleton (imageFile v) ⟨0, 4096, true⟩, 1⟩

def plainly : Choice := ⟨none, true, []⟩

theorem imageFile_injective {v v' : Str} (h : imageFile v = imageFile v') : v = v' :=
  List.append_cancel_right h

end Fileblock.Image
