import Fileblock.Loop.Reconcile

/-! The state file: a map in memory that is written to a temporary file and renamed
into place whenever it changes. -/
namespace Fileblock.Loop.StateFile
open Go Interaction

/-- The entries, by volume ID. -/
abbrev Entries := Finmap fun _ : Str => Mapping

/-- `encoding/json` for the map; `B` is what a file may contain. -/
structure Json (B : Type) where
  empty : B
  marshal : Entries → B
  unmarshal : B → Except Err Entries
  round_trip : ∀ m, unmarshal (marshal m) = .ok m
  marshal_ne : ∀ m, marshal m ≠ empty

/-- The map of the running process, the state file and its temporary file. -/
structure State (B : Type) where
  data : Entries
  file : Option B
  tmp : Option B

inductive Cmd (B : Type) where
  | assign (m : Mapping)
  | erase (volumeID : Str)
  | marshal
  | openTmp
  | flock
  | write (b : B)
  | sync
  | close
  | rename
  | mkdirAll
  | readFile

@[reducible] def Resp (B : Type) : Cmd B → Type
  | .assign _ | .erase _ => Unit
  | .marshal => Except Err B
  | .readFile => Except Err (Option B)
  | _ => Except Err Unit

abbrev Run (B : Type) := Prog (Cmd B) (Resp B)

def issue {B : Type} (c : Cmd B) : Run B (Resp B c) := Prog.perform c

/-- A step that fails, and what a write that fails leaves in its file. -/
structure Choice (B : Type) where
  fault : Option Err
  left : B

section Programs
variable {B : Type}

def closeAnyway : Run B Unit := do
  let _ ← issue .close

def flushLocked : ExceptT Err (Run B) Unit := do
  let b ← attempt (issue .marshal) id
  attempt (issue .openTmp) id
  cleanup (attempt (issue .flock) id) closeAnyway
  cleanup (attempt (issue (.write b)) id) closeAnyway
  cleanup (attempt (issue .sync) id) closeAnyway
  attempt (issue .close) id
  attempt (issue .rename) id

def put (m : Mapping) : ExceptT Err (Run B) Unit := do
  always (issue (.assign m))
  flushLocked

def delete (volumeID : Str) : ExceptT Err (Run B) Unit := do
  always (issue (.erase volumeID))
  flushLocked

def get (s : State B) (volumeID : Str) : Option Mapping := s.data.lookup volumeID

/-- `LoadState`: a file that is missing or empty is an empty map. -/
def loadState [DecidableEq B] (J : Json B) (path : String) : ExceptT Err (Run B) Entries := do
  attempt (issue .mkdirAll) id
  match ← attempt (issue .readFile) id with
  | none => pure ∅
  | some b =>
    if b = J.empty then pure ∅
    else known ((J.unmarshal b).mapError (.wrap ("parse " ++ path)))

end Programs

section Machine
variable {B : Type} (J : Json B)

/-- One step that is not made to fail. A rename replaces the state file at once. -/
def execOk : (c : Cmd B) → State B → Resp B c × State B
  | .assign m, s => ((), { s with data := s.data.insert m.volumeID m })
  | .erase id, s => ((), { s with data := s.data.erase id })
  | .marshal, s => (.ok (J.marshal s.data), s)
  | .openTmp, s => (.ok (), { s with tmp := some J.empty })
  | .write b, s => (.ok (), { s with tmp := some b })
  | .rename, s =>
    match s.tmp with
    | some b => (.ok (), { s with file := some b, tmp := none })
    | none => (.error (.sys "no such file or directory"), s)
  | .readFile, s => (.ok s.file, s)
  | .flock, s | .sync, s | .close, s | .mkdirAll, s => (.ok (), s)

/-- Memory does not fail; a write that does leaves anything in the temporary file. -/
def execFail (o : Choice B) (e : Err) : (c : Cmd B) → State B → Resp B c × State B
  | .assign m, s => execOk J (.assign m) s
  | .erase id, s => execOk J (.erase id) s
  | .write _, s => (.error e, { s with tmp := some o.left })
  | .marshal, s => (.error e, s)
  | .readFile, s => (.error e, s)
  | .openTmp, s | .flock, s | .sync, s | .close, s | .rename, s | .mkdirAll, s => (.error e, s)

def exec (o : Choice B) (c : Cmd B) (s : State B) : Resp B c × State B :=
  match o.fault with
  | some e => execFail J o e c s
  | none => execOk J c s

/-- What `LoadState` would return. -/
def reads [DecidableEq B] (path : String) (s : State B) : Except Err Entries :=
  ((loadState J path).run.eval (exec J) (fun _ => ⟨none, J.empty⟩) s).1

end Machine

inductive Op where
  | put (m : Mapping)
  | delete (volumeID : Str)

namespace Op

def run {B : Type} : Op → Run B (Except Err Unit)
  | .put m => (StateFile.put m).run
  | .delete id => (StateFile.delete id).run

/-- The map after the operation. -/
def apply : Op → Entries → Entries
  | .put m, d => d.insert m.volumeID m
  | .delete id, d => d.erase id

/-- The entry to put is there already; the one to delete is not. -/
def Idle : Op → Entries → Prop
  | .put m, d => d.lookup m.volumeID = some m
  | .delete id, d => d.lookup id = none

theorem apply_eq_iff (a : Op) (d : Entries) : a.apply d = d ↔ a.Idle d := by
  cases a with
  | put m =>
    constructor
    · intro h
      have hl := Finmap.lookup_insert (a := m.volumeID) (b := m) d
      rw [show d.insert m.volumeID m = d from h] at hl
      exact hl
    · intro h
      apply Finmap.ext_lookup
      intro id
      by_cases hid : id = m.volumeID
      · subst hid
        exact (Finmap.lookup_insert d).trans h.symm
      · exact Finmap.lookup_insert_of_ne d hid
  | delete id =>
    constructor
    · intro h
      have hl := Finmap.lookup_erase id d
      rw [show d.erase id = d from h] at hl
      exact hl
    · intro h
      apply Finmap.ext_lookup
      intro id'
      by_cases hid : id' = id
      · subst hid
        exact (Finmap.lookup_erase id' d).trans h.symm
      · exact Finmap.lookup_erase_ne hid

end Op

section Flush
variable {B : Type} {J : Json B} {s : State B} {o : Choice B} {c : Cmd B}
  {d : Entries} {f : Option B}

/-- A flush of `d` that has not come to its rename. -/
structure Flushing (d : Entries) (f : Option B) (s : State B) : Prop where
  data : s.data = d
  file : s.file = f

/-- The steps before the rename. -/
def Cmd.prepares : Cmd B → Bool
  | .assign _ | .erase _ | .rename => false
  | _ => true

theorem Flushing.exec (h : Flushing d f s) (hc : c.prepares = true) :
    Flushing d f (StateFile.exec J o c s).2 := by
  unfold StateFile.exec
  cases o.fault with
  | none => cases c <;> first | exact ⟨h.data, h.file⟩ | cases hc
  | some e => cases c <;> first | exact ⟨h.data, h.file⟩ | cases hc

/-- The weakest precondition of a part of a flush: at every moment the file is the old one
or the new one. -/
abbrev fwp (J : Json B) (d : Entries) (f : Option B) {α : Type} (p : Run B α)
    (Q : α → State B → Prop) (s : State B) : Prop :=
  p.wp ⟨exec J, fun _ _ _ => True,
    fun s c o => True ∧ ((exec J o c s).2.file = f ∨ (exec J o c s).2.file = some (J.marshal d))⟩ Q s

theorem fwp_issue {Q : Resp B c → State B → Prop} (h : Flushing d f s) (hc : c.prepares = true)
    (hq : ∀ o, Flushing d f (exec J o c s).2 → Q (exec J o c s).1 (exec J o c s).2) :
    fwp J d f (issue c) Q s := by
  intro o _
  have h' := h.exec (J := J) (o := o) hc
  exact ⟨⟨trivial, Or.inl h'.file⟩, hq o h'⟩

theorem fwp_closeAnyway {Q : Unit → State B → Prop} (h : Flushing d f s)
    (hq : ∀ s, Flushing d f s → Q () s) : fwp J d f closeAnyway Q s := by
  unfold closeAnyway
  rw [fwp, Prog.wp_bind]
  apply fwp_issue h rfl
  intro o h'
  exact hq _ h'

/-- What is known after a flush of `d` over the file `f`. -/
structure Flushed (J : Json B) (d : Entries) (f : Option B) (r : Except Err Unit) (s : State B) :
    Prop where
  data : s.data = d
  replaced : r = .ok () → s.file = some (J.marshal d)
  untouched : r ≠ .ok () → s.file = f

theorem Flushing.failed (h : Flushing d f s) (e : Err) : Flushed J d f (.error e) s := by
  constructor
  · exact h.data
  · intro he
    cases he
  · intro _
    exact h.file

theorem exec_marshal (J : Json B) (o : Choice B) (s : State B) :
    (∃ e, exec J o .marshal s = (.error e, s)) ∨
      exec J o .marshal s = (.ok (J.marshal s.data), s) := by
  unfold exec
  cases o.fault with
  | some e => exact Or.inl ⟨e, rfl⟩
  | none => exact Or.inr rfl

theorem exec_write (J : Json B) (o : Choice B) (b : B) (s : State B)
    (h : (exec J o (.write b) s).1 = .ok ()) : (exec J o (.write b) s).2.tmp = some b := by
  unfold exec at h ⊢
  cases hf : o.fault with
  | some e =>
    rw [hf] at h
    cases h
  | none => rfl

theorem exec_rename (J : Json B) (o : Choice B) {b : B} (ht : s.tmp = some b) :
    (∃ e, exec J o .rename s = (.error e, s)) ∨
      exec J o .rename s = (.ok (), { s with file := some b, tmp := none }) := by
  unfold exec
  cases o.fault with
  | some e => exact Or.inl ⟨e, rfl⟩
  | none =>
    dsimp only [execOk]
    rw [ht]
    exact Or.inr rfl

theorem exec_tmp (hc : c = .flock ∨ c = .sync ∨ c = .close) : (exec J o c s).2 = s := by
  unfold exec
  rcases hc with rfl | rfl | rfl <;> cases o.fault <;> rfl

theorem fwp_then {p : Run B (Except Err Unit)} {k : Unit → ExceptT Err (Run B) Unit}
    {K : State B → Prop} (hp : fwp J d f p (fun r s => Flushing d f s ∧ (r = .ok () → K s)) s)
    (hk : ∀ s, Flushing d f s → K s → fwp J d f (k ()).run (Flushed J d f) s) :
    fwp J d f (attempt p id >>= k).run (Flushed J d f) s := by
  rw [fwp, Prog.wp_run_bind, Prog.wp_attempt]
  apply Prog.wp_mono _ hp
  intro r s h
  cases r with
  | error e => exact h.1.failed e
  | ok u => exact hk s h.1 (h.2 rfl)

theorem fwp_closing {p : Run B (Except Err Unit)} {k : Unit → ExceptT Err (Run B) Unit}
    {K : State B → Prop} (hp : fwp J d f p (fun r s => Flushing d f s ∧ (r = .ok () → K s)) s)
    (hk : ∀ s, Flushing d f s → K s → fwp J d f (k ()).run (Flushed J d f) s) :
    fwp J d f (cleanup (attempt p id) closeAnyway >>= k).run (Flushed J d f) s := by
  rw [fwp, Prog.wp_run_bind, Prog.wp_cleanup, Prog.wp_attempt]
  apply Prog.wp_mono _ hp
  intro r s h
  cases r with
  | error e => exact fwp_closeAnyway h.1 fun s h => h.failed e
  | ok u => exact hk s h.1 (h.2 rfl)

/-- The rename is the only step that changes the file. -/
theorem fwp_rename (h : Flushing d f s) (ht : s.tmp = some (J.marshal d)) :
    fwp J d f (attempt (issue .rename) id).run (Flushed J d f) s := by
  rw [fwp, Prog.wp_attempt]
  intro o _
  dsimp only
  rcases exec_rename J o ht with ⟨e, he⟩ | he
  · rw [he]
    exact ⟨⟨trivial, Or.inl h.file⟩, h.failed e⟩
  · rw [he]
    exact ⟨⟨trivial, Or.inr rfl⟩, h.data, fun _ => rfl, fun hr => absurd rfl hr⟩

theorem fwp_flushLocked (h : Flushing d f s) :
    fwp J d f flushLocked.run (Flushed J d f) s := by
  unfold flushLocked
  rw [fwp, Prog.wp_run_bind, Prog.wp_attempt]
  apply fwp_issue h rfl
  intro o h'
  rcases exec_marshal J o s with ⟨e, he⟩ | he
  · rw [he]
    exact h.failed e
  rw [he, h.data]
  -- what has been written stays in the temporary file until the rename
  have hwritten : ∀ s, Flushing d f s → s.tmp = some (J.marshal d) →
      fwp J d f (do
        cleanup (attempt (issue .sync) id) closeAnyway
        attempt (issue .close) id
        attempt (issue .rename) id : ExceptT Err (Run B) Unit).run (Flushed J d f) s := by
    intro s h ht
    apply fwp_closing (K := fun s => s.tmp = some (J.marshal d))
    · apply fwp_issue h rfl
      intro o h
      rw [exec_tmp (Or.inr (Or.inl rfl))] at h ⊢
      exact ⟨h, fun _ => ht⟩
    intro s h ht
    apply fwp_then (K := fun s => s.tmp = some (J.marshal d))
    · apply fwp_issue h rfl
      intro o h
      rw [exec_tmp (Or.inr (Or.inr rfl))] at h ⊢
      exact ⟨h, fun _ => ht⟩
    intro s h ht
    exact fwp_rename h ht
  apply fwp_then (K := fun _ => True)
  · apply fwp_issue h rfl
    intro o h
    exact ⟨h, fun _ => trivial⟩
  intro s h _
  apply fwp_closing (K := fun _ => True)
  · apply fwp_issue h rfl
    intro o h
    exact ⟨h, fun _ => trivial⟩
  intro s h _
  apply fwp_closing (K := fun s => s.tmp = some (J.marshal d))
  · apply fwp_issue h rfl
    intro o h
    exact ⟨h, exec_write J o _ s⟩
  exact hwritten

theorem fwp_run (a : Op) (s : State B) :
    fwp J (a.apply s.data) s.file a.run (Flushed J (a.apply s.data) s.file) s := by
  cases a with
  | put m =>
    unfold Op.run put
    rw [fwp, Prog.wp_run_bind, Prog.wp_always]
    intro o _
    have he : exec J o (.assign m) s = ((), { s with data := s.data.insert m.volumeID m }) := by
      unfold exec
      cases o.fault <;> rfl
    dsimp only
    rw [he]
    exact ⟨⟨trivial, Or.inl rfl⟩, fwp_flushLocked ⟨rfl, rfl⟩⟩
  | delete id =>
    unfold Op.run delete
    rw [fwp, Prog.wp_run_bind, Prog.wp_always]
    intro o _
    have he : exec J o (.erase id) s = ((), { s with data := s.data.erase id }) := by
      unfold exec
      cases o.fault <;> rfl
    dsimp only
    rw [he]
    exact ⟨⟨trivial, Or.inl rfl⟩, fwp_flushLocked ⟨rfl, rfl⟩⟩

theorem flushed_eval (J : Json B) (a : Op) (o : ℕ → Choice B) (s : State B) :
    Flushed J (a.apply s.data) s.file (a.run.eval (exec J) o s).1 (a.run.eval (exec J) o s).2 :=
  (Prog.wp_eval (fwp_run a s) fun _ _ => trivial).1

end Flush

section Runs
variable {B : Type} [DecidableEq B] {J : Json B} {path : String} {s s' : State B}

theorem reads_eq (J : Json B) (path : String) (s : State B) : reads J path s =
    match s.file with
    | none => .ok ∅
    | some b => if b = J.empty then .ok ∅
      else (J.unmarshal b).mapError (.wrap ("parse " ++ path)) := by
  rcases s with ⟨data, file, tmp⟩
  cases file with
  | none => rfl
  | some b =>
    change ((if b = J.empty then pure ∅
      else known ((J.unmarshal b).mapError (.wrap ("parse " ++ path))) :
        ExceptT Err (Run B) Entries).run.eval _ _ _).1 = _
    dsimp only
    split_ifs
    · rfl
    · rfl

theorem reads_marshal {d : Entries} (h : s.file = some (J.marshal d)) :
    reads J path s = .ok d := by
  rw [reads_eq, h]
  dsimp only
  rw [if_neg (J.marshal_ne d), J.round_trip]
  rfl

variable (J path) in
/-- The states that operations, crashes and restarts lead to, where an operation whose
flush fails had nothing to do. -/
inductive Reached : State B → Prop
  | start {s : State B} {d : Entries} : reads J path s = .ok d → Reached { s with data := d }
  | op {s : State B} (a : Op) (o : ℕ → Choice B) : Reached s →
      (a.run.eval (exec J) o s).1 = .ok () ∨ a.Idle s.data → Reached (a.run.eval (exec J) o s).2
  | crash {s : State B} {d : Entries} (a : Op) (o : ℕ → Choice B) (n : ℕ) : Reached s →
      reads J path (a.run.cut (exec J) o n s) = .ok d →
      Reached { a.run.cut (exec J) o n s with data := d }

/-- The map in memory is what `LoadState` would return. -/
def Synced (J : Json B) (path : String) (s : State B) : Prop := reads J path s = .ok s.data

theorem synced_data {d : Entries} (h : reads J path s = .ok d) :
    Synced J path { s with data := d } := by
  unfold Synced
  rw [reads_eq] at h ⊢
  exact h

/-- After an operation, memory and file agree if the flush succeeded or there was nothing
to do. -/
theorem synced_eval_iff (h : Synced J path s) (a : Op) (o : ℕ → Choice B) :
    Synced J path (a.run.eval (exec J) o s).2 ↔
      (a.run.eval (exec J) o s).1 = .ok () ∨ a.Idle s.data := by
  have hf := flushed_eval J a o s
  generalize a.run.eval (exec J) o s = r at hf
  by_cases hr : r.1 = .ok ()
  · have hs : Synced J path r.2 := by
      unfold Synced
      rw [hf.data]
      exact reads_marshal (hf.replaced hr)
    exact ⟨fun _ => Or.inl hr, fun _ => hs⟩
  · have hread : reads J path r.2 = .ok s.data := by
      rw [reads_eq, hf.untouched hr, ← reads_eq]
      exact h
    have hs : Synced J path r.2 ↔ a.apply s.data = s.data := by
      unfold Synced
      rw [hread, hf.data, Except.ok.injEq]
      exact eq_comm
    rw [hs, Op.apply_eq_iff]
    exact ⟨Or.inr, fun h => h.resolve_left hr⟩

theorem Reached.synced (h : Reached J path s) : Synced J path s := by
  induction h with
  | start h => exact synced_data h
  | op a o _ hc ih => exact (synced_eval_iff ih a o).mpr hc
  | crash a o n _ h _ => exact synced_data h

/-- Operations on the state file in a process that may die at any step: after a flush that
fails, memory is as before, and as the file has it, exactly if there was nothing to do; a
crash leaves the map before or after the operation. -/
theorem state_consistent (h : Reached J path s) (a : Op) (o : ℕ → Choice B) :
    let r := a.run.eval (exec J) o s
    (r.1 ≠ .ok () → (r.2.data = s.data ↔ a.Idle s.data)) ∧
      (reads J path r.2 = .ok r.2.data ↔ r.1 = .ok () ∨ a.Idle s.data) ∧
      ∀ n, reads J path (a.run.cut (exec J) o n s) = .ok s.data ∨
        reads J path (a.run.cut (exec J) o n s) = .ok (a.apply s.data) := by
  intro r
  have hs := h.synced
  have hf := flushed_eval J a o s
  constructor
  · intro _
    rw [← Op.apply_eq_iff, hf.data]
  constructor
  · exact synced_eval_iff hs a o
  · intro n
    have hcut : (a.run.cut (exec J) o n s).file = s.file ∨
        (a.run.cut (exec J) o n s).file = some (J.marshal (a.apply s.data)) :=
      (Prog.wp_cut (I := fun t : State B => t.file = s.file ∨
        t.file = some (J.marshal (a.apply s.data))) (fwp_run a s) n (fun _ _ => trivial)
        (Or.inl rfl)).1
    rcases hcut with hold | hnew
    · left
      rw [reads_eq, hold, ← reads_eq]
      exact hs
    · right
      exact reads_marshal hnew

end Runs

section Examples

/-- Files that hold a map as it is. -/
def plainJson : Json (Option Entries) where
  empty := none
  marshal := some
  unmarshal := fun b => match b with
    | some d => .ok d
    | none => .error (.sys "unexpected end of JSON input")
  round_trip _ := rfl
  marshal_ne := Option.some_ne_none

def entry (volumeID loopDev : Str) : Mapping := ⟨volumeID, loopDev, "/i", "/s", [], [], []⟩

/-- The steps of an operation succeed, except for one. -/
def failAt (n i : ℕ) : Choice (Option Entries) :=
  if i = n then ⟨some (.sys "input/output error"), none⟩ else ⟨none, none⟩

def noFile : State (Option Entries) := ⟨∅, none, none⟩

theorem state_consistent_again :
    let s := ((Op.put (entry "a" "/dev/loop0")).run.eval (exec plainJson) (failAt 100) noFile).2
    let r := (Op.put (entry "a" "/dev/loop0")).run.eval (exec plainJson) (failAt 5) s
    r.1 ≠ .ok () ∧ r.2.data = s.data ∧ reads plainJson "/f" r.2 = .ok r.2.data := by
  intro s r
  have hreached : Reached plainJson "/f" s :=
    .op _ _ (.start (s := noFile) (d := ∅) rfl) (Or.inl (by decide +kernel))
  have hidle : (Op.put (entry "a" "/dev/loop0")).Idle s.data := by
    unfold Op.Idle
    decide +kernel
  have hr : r.1 ≠ .ok () := by decide +kernel
  have h := state_consistent hreached (Op.put (entry "a" "/dev/loop0")) (failAt 5)
  exact ⟨hr, (h.1 hr).mpr hidle, h.2.1.mpr (Or.inr hidle)⟩

/-- The sync of a `Put` fails: `Get` finds its entry all the same, and the next `Put` of
another volume writes it. -/
theorem failed_put_written :
    let r := (Op.put (entry "a" "/dev/loop0")).run.eval (exec plainJson) (failAt 5) noFile
    let r' := (Op.put (entry "b" "/dev/loop1")).run.eval (exec plainJson) (failAt 100) r.2
    r.1 ≠ .ok () ∧ get r.2 "a" = some (entry "a" "/dev/loop0") ∧
      reads plainJson "/f" r.2 = .ok ∅ ∧ r'.1 = .ok () ∧
      (reads plainJson "/f" r'.2).map (fun d : Entries => d.lookup ("a" : Str)) =
        .ok (some (entry "a" "/dev/loop0")) := by
  decide +kernel

end Examples
end Fileblock.Loop.StateFile
