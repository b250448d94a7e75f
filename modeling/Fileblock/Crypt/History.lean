import Fileblock.Crypt.Rules

/-! Sequences of `prepare` calls on one device. A call may fail at any command or
be cut off after any number of them; the mapping is closed between calls. -/
namespace Fileblock.Crypt
open Interaction Prog

/-- One call: its arguments, the choices its commands meet and, when the process
dies, how many commands it issued. -/
structure Call where
  dev : String
  name : String
  keys : Keys
  format : Format
  choices : ℕ → Choice
  stop : Option ℕ

namespace Call

def program (c : Call) : Run (Except Err (String × Outcome)) :=
  (prepare c.dev c.name c.keys c.format).run

def issued (c : Call) (d : Device) : List (Event Cmd Choice Device) :=
  c.program.issued exec c.choices d c.stop

/-- What the call returned, if it came to its end. -/
def result (c : Call) (d : Device) : Option (Except Err (String × Outcome)) :=
  (c.program.halt exec c.choices d c.stop).1

/-- The device as the call left it, before its mapping is closed. -/
def left (c : Call) (d : Device) : Device := (c.program.halt exec c.choices d c.stop).2

def Succeeds (c : Call) (d : Device) : Prop := ∃ r, c.result d = some (.ok r)

def Genuine (c : Call) (d : Device) : Prop :=
  ∀ e ∈ c.issued d, Crypt.Genuine e.before e.cmd e.choice

/-- Uninterrupted, and no command is made to fail. -/
def Calm (c : Call) : Prop := c.stop = none ∧ ∀ i, (c.choices i).fault = none

theorem Calm.issued {c : Call} (h : c.Calm) {d : Device} {e : Event Cmd Choice Device}
    (he : e ∈ c.issued d) : Crypt.Calm e.before e.cmd e.choice := by
  obtain ⟨i, hi⟩ := issued_choice he
  rw [Crypt.Calm, hi]
  exact h.2 i

theorem Calm.genuine {c : Call} (h : c.Calm) (d : Device) : c.Genuine d :=
  fun _ he => (h.issued he).genuine

end Call

def Device.closed (d : Device) : Device := { d with mapped := false }

/-- The device after the calls. -/
def after : List Call → Device → Device
  | [], d => d
  | c :: cs, d => after cs (c.left d).closed

def GenuineCalls : List Call → Device → Prop
  | [], _ => True
  | c :: cs, d => c.Genuine d ∧ GenuineCalls cs (c.left d).closed

theorem after_append (cs cs' : List Call) (d : Device) :
    after (cs ++ cs') d = after cs' (after cs d) := by
  induction cs generalizing d with
  | nil => rfl
  | cons c cs ih => exact ih _

theorem genuineCalls_append {cs cs' : List Call} {d : Device} :
    GenuineCalls (cs ++ cs') d ↔ GenuineCalls cs d ∧ GenuineCalls cs' (after cs d) := by
  induction cs generalizing d with
  | nil => simp [GenuineCalls, after]
  | cons c cs ih => simp [GenuineCalls, after, ih, and_assoc]

theorem genuineCalls_of_calm {cs : List Call} (h : ∀ c ∈ cs, ∀ i, (c.choices i).fault = none)
    (d : Device) : GenuineCalls cs d := by
  induction cs generalizing d with
  | nil => trivial
  | cons c cs ih =>
    refine ⟨fun e he e' he' => ?_, ih (fun c' hc' => h c' (List.mem_cons_of_mem _ hc')) _⟩
    obtain ⟨i, hi⟩ := issued_choice he
    rw [hi, h c List.mem_cons_self] at he'
    cases he'

/-- What every lawful command of the call keeps, the call keeps; and a call that
succeeds leaves the prepared device. -/
theorem Call.spec {I : Device → Prop} {c : Call} {d : Device}
    (hI : ∀ d d', Step c.keys c.format d d' → I d → I d')
    (hm : d.mapped = false) (hg : c.Genuine d) (hd : I d) :
    I (c.left d) ∧
      (∀ e ∈ c.issued d, Lawful c.keys c.format e.before e.cmd e.choice ∧ I e.before) ∧
      (c.Succeeds d → d.Ready c.keys ∧ c.left d = d.prepared c.keys c.format) := by
  have hp : c.program.wp ⟨exec, Crypt.Genuine, Lawful c.keys c.format⟩
      (fun r d' => ∀ x, r = .ok x → d.Ready c.keys ∧ d' = d.prepared c.keys c.format) d := by
    refine wp_prepare (fun _ _ _ h => h) ?_ hm ?_ ?_ ?_
    · simp
    · simp
    · simp
    · exact fun hr out x _ => ⟨hr, rfl⟩
  obtain ⟨hl, he, hr⟩ := wp_halt (fun d cmd o _ hlaw => hI d _ hlaw.step) hp hd c.stop hg
  exact ⟨hl, he, fun ⟨x, hx⟩ => hr _ hx x rfl⟩

/-- There is a header, and neither key opens it. -/
def Device.Locked (d : Device) (k : Keys) : Prop :=
  d.header ≠ none ∧ ¬ d.Opens k.current ∧ ¬ d.Opens k.previous

theorem Device.Locked.not_ready {d : Device} {k : Keys} (h : d.Locked k) : ¬ d.Ready k := by
  rintro (hb | hc | hp)
  · exact h.1 hb.1
  · exact h.2.1 hc
  · exact h.2.2 hp.2

theorem Call.Calm.spec {c : Call} {d : Device} (hc : c.Calm) (hm : d.mapped = false) :
    (d.Ready c.keys → (∃ out, c.result d = some (.ok (mapperPath c.name, out))) ∧
      c.left d = d.prepared c.keys c.format) ∧
    (d.Locked c.keys →
      c.result d = some (.error (.wrap c.dev .wrongKey)) ∧ c.left d = d) := by
  have hp : c.program.wp ⟨exec, Crypt.Calm, Lawful c.keys c.format⟩
      (fun r d' =>
        (d.Ready c.keys → (∃ out, r = .ok (mapperPath c.name, out)) ∧
          d' = d.prepared c.keys c.format) ∧
        (d.Locked c.keys → r = .error (.wrap c.dev .wrongKey) ∧ d' = d)) d := by
    refine wp_prepare (fun _ _ _ h => h.genuine) (fun hf => absurd hf not_faulty_calm) hm ?_ ?_ ?_
    · intro hn hb
      refine ⟨?_, fun hl => absurd hn hl.1⟩
      rintro (h | ⟨h, hh, -⟩ | ⟨-, h, hh, -⟩)
      · exact absurd h hb
      · exact absurd (hh.symm.trans hn) (by simp)
      · exact absurd (hh.symm.trans hn) (by simp)
    · intro h hh hcur hprev
      refine ⟨?_, fun _ => ⟨rfl, rfl⟩⟩
      rintro (hb | ⟨h', hh', hk⟩ | ⟨hn, h', hh', hk⟩)
      · exact absurd (hh.symm.trans hb.1) (by simp)
      · cases hh.symm.trans hh'
        exact absurd hk hcur
      · cases hh.symm.trans hh'
        exact absurd hk (hprev hn)
    · intro hr out
      exact ⟨fun _ => ⟨⟨out, rfl⟩, rfl⟩, fun hl => absurd hr hl.not_ready⟩
  obtain ⟨-, -, hr⟩ := wp_halt (I := fun _ => True) (fun _ _ _ _ _ _ => trivial) hp trivial c.stop
    fun _ he => hc.issued he
  have hres : c.result d = some (c.program.eval exec c.choices d).1 := by
    unfold Call.result
    rw [hc.1]
    rfl
  obtain ⟨hready, hlocked⟩ := hr _ hres
  rw [hres]
  refine ⟨fun h => ?_, fun h => ?_⟩
  · obtain ⟨⟨out, ho⟩, hd⟩ := hready h
    exact ⟨⟨out, congrArg some ho⟩, hd⟩
  · obtain ⟨he, hd⟩ := hlocked h
    exact ⟨congrArg some he, hd⟩

theorem after_keeps {I : Device → Prop} {cs : List Call} {d : Device}
    (hI : ∀ c ∈ cs, ∀ d d', Step c.keys c.format d d' → I d → I d')
    (hclosed : ∀ d, I d → I d.closed) (hm : d.mapped = false) (hg : GenuineCalls cs d)
    (hd : I d) : I (after cs d) := by
  induction cs generalizing d with
  | nil => exact hd
  | cons c cs ih =>
    have hc := (Call.spec (hI c List.mem_cons_self) hm hg.1 hd).1
    exact ih (fun c' hc' => hI c' (List.mem_cons_of_mem _ hc')) rfl hg.2 (hclosed _ hc)

theorem after_mapped (cs : List Call) {d : Device} (hm : d.mapped = false) :
    (after cs d).mapped = false := by
  induction cs generalizing d with
  | nil => exact hm
  | cons c cs ih => exact ih rfl

/-- The commands that write to the device. -/
def Cmd.writes : Cmd → Bool
  | .luksFormat .. | .luksAddKey .. | .luksRemoveKey _ | .mkfs | .config _ => true
  | _ => false

/-- The commands that start the data area afresh. -/
def Cmd.reformats : Cmd → Bool
  | .luksFormat .. | .mkfs => true
  | _ => false

/-- The device holds a volume whose filesystem is no longer owed. -/
def Device.Settled (d : Device) : Prop := ∃ h, d.header = some h ∧ h.label ≠ labelUnformatted

theorem Device.prepared_settled (d : Device) (k : Keys) (f : Format) :
    (d.prepared k f).Settled := by
  obtain ⟨h, hh⟩ := d.formatted_header k f
  rw [Device.prepared_eq hh]
  refine ⟨_, rfl, ?_⟩
  dsimp only
  split_ifs with hl
  · exact labelFormatted_ne
  · exact hl

theorem Step.settled {k : Keys} {f : Format} {d d' : Device} (hs : Step k f d d')
    (hd : d.Settled) : d'.Settled := by
  obtain ⟨h, hh, hl⟩ := hd
  cases hs with
  | stay | «open» | close | mkfs => exact ⟨h, hh, hl⟩
  | format hb => exact absurd (hh.symm.trans hb.1) (by simp)
  | addKey hh' | removeKey hh' =>
    cases hh.symm.trans hh'
    exact ⟨_, rfl, hl⟩
  | relabel => exact ⟨_, rfl, labelFormatted_ne⟩

/-- Not LUKS and not blank: whatever it is, it is not the driver's. -/
def Device.Foreign (d : Device) : Prop := d.header = none ∧ ¬ d.Blank

theorem Step.eq_of_foreign {k : Keys} {f : Format} {d d' : Device} (hs : Step k f d d')
    (hf : d.Foreign) (hm : d.mapped = false) : d' = d := by
  cases hs with
  | stay => rfl
  | format hb => exact absurd hb hf.2
  | close h => exact absurd (h.symm.trans hm) (by simp)
  | addKey hh | removeKey hh | «open» hh | mkfs hh | relabel hh =>
    exact absurd (hh.symm.trans hf.1) (by simp)

/-- A lawful command that formats finds a blank device, and one that makes the
filesystem finds it owed. -/
theorem Lawful.reformats {k : Keys} {f : Format} {d : Device} {c : Cmd} {o : Choice}
    (h : Lawful k f d c o) (hr : c.reformats = true) : ¬ d.Settled := by
  rintro ⟨hd, hh, hl⟩
  cases c with
  | luksFormat => exact absurd (hh.symm.trans h.1.1) (by simp)
  | mkfs =>
    obtain ⟨h', hh', hl', -⟩ := h
    cases hh.symm.trans hh'
    exact hl hl'
  | _ => cases hr

theorem Lawful.writes {k : Keys} {f : Format} {d : Device} {c : Cmd} {o : Choice}
    (h : Lawful k f d c o) (hw : c.writes = true) : ¬ d.Foreign := by
  rintro ⟨hn, hb⟩
  cases c with
  | luksFormat => exact hb h.1
  | luksAddKey =>
    obtain ⟨-, -, -, -, ⟨h', hh, -⟩, -⟩ := h
    exact absurd (hh.symm.trans hn) (by simp)
  | luksRemoveKey =>
    obtain ⟨-, -, -, ⟨h', hh, -⟩, -⟩ := h
    exact absurd (hh.symm.trans hn) (by simp)
  | mkfs =>
    obtain ⟨h', hh, -⟩ := h
    exact absurd (hh.symm.trans hn) (by simp)
  | config =>
    obtain ⟨-, -, h', hh, -⟩ := h
    exact absurd (hh.symm.trans hn) (by simp)
  | _ => cases hw

/-- In every sequence of calls: formatting finds no header and zeros where one
goes, a foreign device is left as it is, `mkfs` finds the filesystem owed, and
after a success nothing is ever started afresh. -/
theorem prepare_never_reformats (d : Device) (hm : d.mapped = false) (before later : List Call)
    (c : Call) (hg : GenuineCalls (before ++ c :: later) d) :
    (∀ e ∈ c.issued (after before d),
      (∀ key f sector label, e.cmd = .luksFormat key f sector label →
        e.before.header = none ∧ ∀ b ∈ e.before.raw.take blankCheckBytes, b = 0) ∧
      (e.before.Foreign → e.cmd.writes = false) ∧
      (e.cmd = .mkfs → ∃ h, e.before.header = some h ∧ h.label = labelUnformatted)) ∧
    ((after before d).Foreign → c.left (after before d) = after before d) ∧
    (c.Succeeds (after before d) → ∀ middle c' rest, later = middle ++ c' :: rest →
      ∀ e ∈ c'.issued (after (before ++ c :: middle) d), e.cmd.reformats = false) := by
  obtain ⟨-, hc, hl⟩ := genuineCalls_append.mp hg
  have hm' := after_mapped before hm
  refine ⟨?_, ?_, ?_⟩
  · intro e he
    obtain ⟨-, hlaw, -⟩ := Call.spec (I := fun _ => True) (fun _ _ _ _ => trivial) hm' hc trivial
    have h := (hlaw e he).1
    refine ⟨?_, ?_, ?_⟩
    · intro key f sector label hcmd
      rw [hcmd] at h
      exact h.1
    · intro hf
      by_contra hw
      exact h.writes (by simpa using hw) hf
    · intro hcmd
      rw [hcmd] at h
      obtain ⟨hd, hh, hl, -⟩ := h
      exact ⟨hd, hh, hl⟩
  · intro hf
    exact (Call.spec (I := fun d' => d' = after before d)
      (fun d' d'' hs h => (hs.eq_of_foreign (h ▸ hf) (h ▸ hm')).trans h) hm' hc rfl).1
  · rintro hs middle c' rest rfl e he
    obtain ⟨-, -, hend⟩ := Call.spec (I := fun _ => True) (fun _ _ _ _ => trivial) hm' hc trivial
    have hset : (c.left (after before d)).closed.Settled := by
      rw [(hend hs).2]
      exact Device.prepared_settled _ _ _
    obtain ⟨hgm, hgc, -⟩ := genuineCalls_append.mp hl
    have hmid := after_keeps (fun _ _ _ _ hst => hst.settled) (fun _ h => h) rfl hgm hset
    rw [after_append] at he
    obtain ⟨-, hlaw, -⟩ := Call.spec (fun _ _ hst => hst.settled) (after_mapped _ rfl) hgc hmid
    by_contra hr
    exact (hlaw e he).1.reformats (by simpa using hr) (hlaw e he).2

/-- A call that meets no failure. -/
def quiet (keys : Keys) (stop : Option ℕ) : Call :=
  ⟨"/dev/loop0", "fbcrypt-pvc-1", keys, defaultFormat, fun _ => ⟨none, 0⟩, stop⟩

def keyA : Key := List.replicate 32 0x41
def keyB : Key := List.replicate 32 0x42
def keyC : Key := List.replicate 32 0x43

/-- A device of a few zero bytes. -/
def blankDevice : Device := ⟨none, [0, 0, 0, 0], false, false⟩

/-- The first call formats and makes the filesystem; the second does neither. -/
theorem prepare_never_reformats_twice :
    GenuineCalls [quiet ⟨keyA, [], by decide⟩ none, quiet ⟨keyA, [], by decide⟩ none] blankDevice ∧
    (quiet ⟨keyA, [], by decide⟩ none).Succeeds blankDevice ∧
    ∀ e ∈ (quiet ⟨keyA, [], by decide⟩ none).issued
      (after [quiet ⟨keyA, [], by decide⟩ none] blankDevice), e.cmd.reformats = false := by
  have hg : GenuineCalls [quiet ⟨keyA, [], by decide⟩ none, quiet ⟨keyA, [], by decide⟩ none]
      blankDevice := genuineCalls_of_calm (by simp [quiet]) _
  refine ⟨hg, ⟨_, rfl⟩, ?_⟩
  exact (prepare_never_reformats blankDevice rfl [] [quiet ⟨keyA, [], by decide⟩ none]
    (quiet ⟨keyA, [], by decide⟩ none) hg).2.2 ⟨_, rfl⟩ [] _ [] rfl

end Fileblock.Crypt
