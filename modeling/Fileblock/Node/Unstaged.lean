import Fileblock.Node.Calm
import Fileblock.Node.Runs

/-! What an unstage that nothing interferes with releases, and what one that fails
keeps. -/
namespace Fileblock.Node
open Go Store Interaction

variable {S : Site} {ι : Type} {V : Volumes S ι} {v : ι} {w w' : World} {dev : ℕ}

/-- The volume's devices are mounted nowhere but at the staging path. -/
def OnlyStaged (V : Volumes S ι) (v : ι) (path : Str) (w : World) : Prop :=
  ∀ m ∈ w.mounts, V.Owns w v m.source → m.target = path

/-- The volume's devices are mounted nowhere. -/
def Unused (V : Volumes S ι) (v : ι) (w : World) : Prop :=
  ∀ m ∈ w.mounts, ¬ V.Owns w v m.source

theorem Sane.of_move (h : Sane V w) {c : Cmd} (hl : Lawful V w c) (hm : Move S w c w')
    (hs : w'.state = w.state) (hf : w'.stateFile = w.stateFile) : Sane V w' :=
  ⟨h.toTidy.move hl hm, hs ▸ h.entries, hf ▸ h.filed⟩

theorem Sane.unmount (h : Sane V w) (path : Str) : Sane V (w.unmount path) :=
  ⟨h.toTidy.unmount path, h.entries, h.filed⟩

theorem Sane.detach (h : Sane V w) {l : Loop} (hl : l ∈ w.loops) : Sane V (w.detach l.dev) :=
  h.of_move (c := .losetupDetach l.dev) trivial (.detach hl) rfl rfl

theorem Sane.close (h : Sane V w) {name : String} (hm : w.mounted (.mapper name) = false) :
    Sane V (World.reap { w with dm := w.dm.filter (·.1 ≠ name) }) :=
  h.of_move (c := .cryptClose name) trivial (.close name (Or.inl rfl) hm) rfl rfl

theorem owns_of_reap {src : Source} (ho : V.Owns w'.reap v src) (hl : w'.loops = w.loops) :
    V.Owns w v src :=
  Volumes.owns_of_loops (fun l h => ⟨l, hl ▸ (World.mem_reap.mp h).1, rfl, rfl⟩) ho

theorem World.mem_detach_of {l : Loop} (hl : l ∈ (w.detach dev).loops) :
    ∃ l' ∈ w.loops, l'.dev = l.dev ∧ l'.file = l.file ∧ l'.silly = l.silly := by
  obtain ⟨l', hl', rfl⟩ := List.mem_map.mp (World.mem_reap.mp hl).1
  refine ⟨l', hl', ?_⟩
  split_ifs <;> exact ⟨rfl, rfl, rfl⟩

theorem owns_of_detach {src : Source} (ho : V.Owns (w.detach dev) v src) : V.Owns w v src := by
  refine Volumes.owns_of_loops (fun l hl => ?_) ho
  obtain ⟨l', hl', hd, hf, -⟩ := World.mem_detach_of hl
  exact ⟨l', hl', hd, hf⟩

theorem OnlyStaged.unmount {path : Str} (h : OnlyStaged V v path w) (p : Str) :
    OnlyStaged V v path (w.unmount p) := by
  unfold World.unmount
  exact fun m hm ho => h m (List.mem_of_mem_eraseP hm) (owns_of_reap ho rfl)

theorem OnlyStaged.unused {path : Str} (h : OnlyStaged V v path w)
    (hm : w.mountedAt path = false) : Unused V v w := by
  intro m hmem ho
  have := World.mountedAt_iff.mpr ⟨m, hmem, h m hmem ho⟩
  rw [hm] at this
  cases this

theorem Unused.mapper (h : Unused V v w) : w.mounted (.mapper (V.mapper v)) = false :=
  World.mounted_false.mpr fun m hm hs => h m hm (by rw [hs]; rfl)

theorem Unused.idle (h : Unused V v w) (ht : Tidy V w) (hn : w.isOpen (V.mapper v) = false)
    (ho : V.Owns w v (.loop dev)) : w.busy dev = false := by
  refine World.busy_false.mpr ⟨?_, World.held_false.mpr fun name hx => ?_⟩
  · exact World.mounted_false.mpr fun m hm hs => h m hm (by rwa [hs])
  · obtain ⟨l, hl, rfl, hf⟩ := ho
    rw [ht.mapper_over hl hf hx] at hx
    exact World.isOpen_false.mp hn _ hx

/-- Nothing of the volume is left: no mount at the staging path, no mapping, no loop
on its image (or on what became of the image, if the entry recorded that loop), no
entry, no key, no mark. -/
structure Unstaged (V : Volumes S ι) (v : ι) (path : Str) (entry : Option Mapping) (w : World) :
    Prop where
  unmounted : w.mountedAt path = false
  closed : w.isOpen (V.mapper v) = false
  detached : ∀ l ∈ w.loops, l.file = V.image v →
    ¬ (l.silly = none ∨ ∃ m, entry = some m ∧ m.loopDev = some l.dev)
  entry : Mapping.get w.state (V.id v) = none
  key : w.keys.lookup (V.id v) = none
  mark : V.id v ∉ w.failed

/-- The entry names no mapping although there is one. -/
def Unrecorded (V : Volumes S ι) (v : ι) (w : World) : Prop :=
  w.isOpen (V.mapper v) = true ∧
    ∃ m, Mapping.get w.state (V.id v) = some m ∧ m.cryptDev = none

theorem Mapping.get_delete (l : List Mapping) (id : VolumeID) : get (delete l id) id = none := by
  simp [get, delete]

theorem lookup_filter_ne {β : Type} (l : List (VolumeID × β)) (id : VolumeID) :
    (l.filter (·.1 ≠ id)).lookup id = none := by
  rw [List.lookup_eq_none_iff]
  intro p hp
  have hne : p.1 ≠ id := by simpa using List.of_mem_filter hp
  exact bne_iff_ne.mpr hne.symm

/-- What is known in the course of an unstage, and which loops it still has to
detach. The mapping is `closed`, or else the entry does not name it. -/
structure Leaving (V : Volumes S ι) (v : ι) (path : Str) (w0 : World) (closed : Prop) (w : World) :
    Prop where
  sane : Sane V w
  unused : Unused V v w
  memory : w.memory = w0.memory
  unmounted : w.mountedAt path = false
  closed_iff : w.isOpen (V.mapper v) = false ↔ closed

section Leaving
variable {path : Str} {w0 : World} {closed : Prop} {entry : Option Mapping}

theorem calm_detachEach {J : List ℕ → World → Prop} {Q : Except Status Unit → World → Prop}
    (hfree : ∀ dev rest w, J (dev :: rest) w → (∀ l ∈ w.loops, l.dev ≠ dev) → J rest w)
    (hdetach : ∀ dev rest w, J (dev :: rest) w → ∀ l ∈ w.loops, l.dev = dev → J rest (w.detach dev))
    (hok : ∀ w, J [] w → Q (.ok ()) w) {loops : List ℕ} (hj : J loops w) :
    (detachEach loops).run.wp (calm S) Q w := by
  induction loops generalizing w with
  | nil => exact hok w hj
  | cons dev loops ih =>
    unfold detachEach
    rw [Prog.wp_run_bind, wp_orStatus]
    exact calm_detachLoop (fun h => ih (hfree dev loops w hj h))
      fun l hl hd => ih (hdetach dev loops w hj l hl hd)

theorem Leaving.detach {l : Loop} (h : Leaving V v path w0 closed w) (hl : l ∈ w.loops) :
    Leaving V v path w0 closed (w.detach l.dev) :=
  ⟨h.sane.detach hl, fun m hm ho => h.unused m hm (owns_of_detach ho), h.memory, h.unmounted,
    h.closed_iff⟩

theorem Leaving.close (hs : Sane V w) (hu : Unused V v w) (hm : w.memory = w0.memory)
    (hn : w.mountedAt path = false) :
    Leaving V v path w0 True (World.reap { w with dm := w.dm.filter (·.1 ≠ V.mapper v) }) := by
  refine ⟨hs.close hu.mapper, fun m hm ho => hu m hm (owns_of_reap ho rfl), hm, hn, iff_true_intro ?_⟩
  exact World.isOpen_false.mpr fun n hx => by simpa using List.of_mem_filter hx

theorem calm_closeRecorded {Q : Except Status Unit → World → Prop} (hs : Sane V w)
    (hu : Unused V v w) (hm : w.memory = w0.memory) (hn : w.mountedAt path = false)
    (he : ∀ m, entry = some m → m.Records V v)
    (hq : ∀ w', Leaving V v path w0
      (¬ (w.isOpen (V.mapper v) = true ∧ ∃ m, entry = some m ∧ m.cryptDev = none)) w' →
      Q (.ok ()) w') :
    (closeRecorded S (V.id v) entry).run.wp (calm S) Q w := by
  have hclose : (∀ m, entry = some m → m.cryptDev ≠ none) →
      (closeCrypt (V.mapper v)).run.wp (calm S) (fun r w => r = .ok () ∧ Q (.ok ()) w) w := by
    intro hc
    have hiff : (¬ (w.isOpen (V.mapper v) = true ∧ ∃ m, entry = some m ∧ m.cryptDev = none)) ↔
        True := iff_true_intro fun ⟨_, m, hm, hd⟩ => hc m hm hd
    refine calm_closeCrypt (fun hn' => ⟨rfl, hq w ?_⟩) (fun _ hb => ?_) fun _ _ => ⟨rfl, hq _ ?_⟩
    · exact ⟨hs, hu, hm, hn, by rw [hiff]; exact iff_true_intro hn'⟩
    · rw [hu.mapper] at hb
      cases hb
    · rw [hiff]
      exact .close hs hu hm hn
  cases entry with
  | none =>
    unfold closeRecorded
    rw [Prog.wp_always, Prog.wp_ignore]
    exact Prog.wp_mono (fun _ _ h => h.2) (hclose (by simp))
  | some m =>
    dsimp only [closeRecorded]
    cases hc : m.cryptDev with
    | some name =>
      rw [(he m rfl).cryptDev name hc]
      dsimp only
      rw [wp_orStatus]
      refine Prog.wp_mono ?_ (hclose fun m' hm' => ?_)
      · rintro r w ⟨rfl, h⟩
        exact h
      · rw [← Option.some.inj hm', hc]
        simp
    | none =>
      refine hq w ⟨hs, hu, hm, hn, ?_⟩
      cases w.isOpen (V.mapper v) <;> simp [hc]

/-- A loop of the volume that an unstage with this entry looks for. -/
def Sought (V : Volumes S ι) (v : ι) (entry : Option Mapping) (l : Loop) : Prop :=
  l.file = V.image v ∧ (l.silly = none ∨ ∃ m, entry = some m ∧ m.loopDev = some l.dev)

theorem Sought.found {l : Loop} (h : Sought V v entry l)
    (hl : l ∈ w.loops) :
    l.dev ∈ ((w.attachments S).filter (stagedLoop (V.id v) entry)).map Attachment.device := by
  refine mem_findLoops.mpr ⟨l, hl, rfl, ?_⟩
  unfold stagedLoop
  rw [Bool.or_eq_true, Bool.and_eq_true, decide_eq_true_eq, h.1]
  by_cases hs : l.silly = none
  · left
    rw [V.base_reported, V.fileName_eq_iff]
    exact ⟨rfl, hs⟩
  · right
    obtain ⟨m, hm, hd⟩ := h.2.resolve_left hs
    rw [V.sillyRenamed_reported, hm]
    exact ⟨by simpa using hd, hs⟩

theorem calm_detachSought {Q : Except Status Unit → World → Prop}
    (h : Leaving V v path w0 closed w) {loops : List ℕ}
    (hloops : ∀ l ∈ w.loops, Sought V v entry l → l.dev ∈ loops)
    (hq : ∀ w, Leaving V v path w0 closed w → (closed → ∀ l ∈ w.loops, ¬ Sought V v entry l) →
      Q (.ok ()) w) :
    (detachEach loops).run.wp (calm S) Q w := by
  refine calm_detachEach (J := fun rest w => Leaving V v path w0 closed w ∧
    (closed → ∀ l ∈ w.loops, Sought V v entry l → l.dev ∈ rest)) ?_ ?_ ?_ ⟨h, fun _ => hloops⟩
  · intro dev rest w ⟨h, hr⟩ hfree
    refine ⟨h, fun hc l hl hs => ?_⟩
    exact (List.mem_cons.mp (hr hc l hl hs)).resolve_left (hfree l hl)
  · rintro dev rest w ⟨h, hr⟩ l0 hl0 rfl
    refine ⟨h.detach hl0, fun hc l hl hs => ?_⟩
    obtain ⟨l', hl', hd, hf, hsilly⟩ := World.mem_detach_of hl
    have hs' : Sought V v entry l' := by
      unfold Sought
      rwa [hf, hsilly, hd]
    rcases List.mem_cons.mp (hr hc l' hl' hs') with he | hm
    · have hidle := h.unused.idle h.sane.toTidy (h.closed_iff.mpr hc) ⟨l', hl', he, hs'.1⟩
      exact absurd (hd.symm.trans he) ((h.sane.toTidy.mem_detach hidle).mp hl).2
    · rwa [← hd]
  · exact fun w ⟨h, hr⟩ => hq w h fun hc l hl hs => List.not_mem_nil (hr hc l hl hs)

theorem calm_forget (he : Mapping.get w0.state (V.id v) = entry) (h : Leaving V v path w0 closed w)
    (hl : closed → ∀ l ∈ w.loops, ¬ Sought V v entry l) :
    Prog.wp (calm S) (do
      always (issue (.keysDelete (V.id v)))
      always (dropEntry (V.id v) entry)
      always (issue (.failedClear (V.id v))) : Rpc Unit).run
      (fun _ w => Unstaged V v path entry w ↔ closed) w := by
  have hstate : Mapping.get w.state (V.id v) = entry := by
    rw [show w.state = w0.state from congrArg Memory.state h.memory]
    exact he
  rw [Prog.wp_run_bind, Prog.wp_always]
  refine calm_issue fun o _ => ?_
  dsimp only [execOk]
  have hend : ∀ w' : World, w'.loops = w.loops → w'.dm = w.dm → w'.mounts = w.mounts →
      w'.keys = w.keys.filter (·.1 ≠ V.id v) → Mapping.get w'.state (V.id v) = none →
      (always (issue (.failedClear (V.id v))) : Rpc Unit).run.wp (calm S)
        (fun _ w => Unstaged V v path entry w ↔ closed) w' := by
    intro w' h1 h2 h3 h4 h5
    rw [Prog.wp_always]
    refine calm_issue fun o _ => ?_
    have hopen : w'.isOpen (V.mapper v) = w.isOpen (V.mapper v) := by rw [World.isOpen, h2]; rfl
    refine ⟨fun hu => h.closed_iff.mp (hopen ▸ hu.closed), fun hc => ⟨?_, ?_, ?_, h5, ?_, ?_⟩⟩
    · show w'.mountedAt _ = false
      rw [World.mountedAt, h3]
      exact h.unmounted
    · exact hopen.trans (h.closed_iff.mpr hc)
    · intro l hmem hf hs
      exact hl hc l (h1 ▸ hmem) ⟨hf, hs⟩
    · show w'.keys.lookup _ = none
      rw [h4]
      exact lookup_filter_ne _ _
    · simp [execOk]
  rw [Prog.wp_run_bind, Prog.wp_always]
  unfold dropEntry
  cases hn : entry with
  | none =>
    subst hn
    exact hend _ rfl rfl rfl rfl hstate
  | some m =>
    rw [hn] at hend
    rw [Option.isSome_some, if_pos rfl, Prog.wp_bind]
    refine calm_issue fun o _ => ?_
    exact hend _ rfl rfl rfl rfl (Mapping.get_delete _ _)

/-- An unstage that nothing interferes with, and that returns success, releases
everything, unless there is a mapping that the entry does not name. -/
theorem calm_unstageLocked (hpath : Printed S path) (hs : Sane V w0)
    (ho : OnlyStaged V v path w0) :
    (unstageLocked S (V.id v) path).run.wp (calm S) (fun r w => r = .ok () →
      (Unstaged V v path (Mapping.get w0.state (V.id v)) w ↔ ¬ Unrecorded V v w0)) w0 := by
  unfold unstageLocked popStageMounts
  rw [Prog.wp_run_bind]
  refine calm_popMounts (I := fun w => (Sane V w ∧ OnlyStaged V v path w) ∧ w.memory = w0.memory ∧
    w.dm = w0.dm) hpath ?_ ?_ (fun _ _ _ h => by cases h) ?_ _
    ⟨⟨hs, ho⟩, rfl, rfl⟩
  · intro w h hm
    obtain ⟨m, hmem, ht⟩ := World.mountedAt_iff.mp hm
    exact ht ▸ h.1.1.paths m hmem
  · exact fun w h _ => ⟨⟨h.1.1.unmount _, h.1.2.unmount _⟩, h.2⟩
  rintro w ⟨⟨hs, ho⟩, hmem, hdm⟩ hn
  dsimp only
  rw [Prog.wp_run_bind, Prog.wp_always]
  refine calm_issue fun o hq => ?_
  have hs' : Sane V (execOk S o (.remove path) w).2 := by
    rw [← exec_quiet hq]
    exact hs.harmless rfl
  have hrest : ∀ w : World, Sane V w → Unused V v w → w.memory = w0.memory → w.dm = w0.dm →
      w.mountedAt path = false → Prog.wp (calm S) (do
        let entry ← always (issue (.stateGet (V.id v)))
        closeRecorded S (V.id v) entry
        let loops ← orStatus .internal "find loop devices: " (findLoops (stagedLoop (V.id v) entry))
        detachEach loops
        always (issue (.keysDelete (V.id v)))
        always (dropEntry (V.id v) entry)
        always (issue (.failedClear (V.id v))) : Rpc Unit).run
        (fun r w => r = .ok () →
          (Unstaged V v path (Mapping.get w0.state (V.id v)) w ↔ ¬ Unrecorded V v w0)) w := by
    intro w hs hu hmem hdm hn
    rw [Prog.wp_run_bind, Prog.wp_always]
    refine calm_issue fun o _ => ?_
    have hstate : w.state = w0.state := congrArg Memory.state hmem
    have hget : (execOk S o (.stateGet (V.id v)) w).1 = Mapping.get w0.state (V.id v) := by
      rw [← hstate]
      rfl
    have hopen : w.isOpen (V.mapper v) = w0.isOpen (V.mapper v) := by rw [World.isOpen, hdm]; rfl
    rw [hget]
    show (closeRecorded S (V.id v) (Mapping.get w0.state (V.id v)) >>= fun _ => _).run.wp (calm S) _ w
    rw [Prog.wp_run_bind]
    refine calm_closeRecorded hs hu hmem hn (fun m hm => hs.records (hstate ▸ hm)) fun w hleave => ?_
    rw [hopen] at hleave
    dsimp only
    rw [Prog.wp_run_bind, wp_orStatus]
    refine calm_findLoops ?_
    dsimp only [Except.mapError]
    rw [Prog.wp_run_bind]
    refine calm_detachSought hleave (fun l hl hs => hs.found hl) fun w hleave hl => ?_
    refine Prog.wp_mono ?_ (calm_forget rfl hleave hl)
    exact fun _ _ h _ => h
  dsimp only [execOk, okIf] at hs' ⊢
  split_ifs at hs' ⊢
  · exact hrest _ hs' (ho.unused hn) hmem hdm hn
  · exact hrest _ hs' (ho.unused hn) hmem hdm hn

end Leaving

/-- No entry, no key and no mark has gone. -/
structure Remembered (w w' : World) : Prop where
  state : w'.state = w.state
  keys : w'.keys = w.keys
  failed : ∀ id ∈ w.failed, id ∈ w'.failed

/-- The commands that leave entries, keys and marks alone. -/
def Cmd.retains : Cmd → Bool
  | .statePut _ | .stateDelete _ | .failedMark _ | .failedClear _ | .keysCache .. | .keysDelete _ =>
    false
  | _ => true

theorem Remembered.trans {w'' : World} (h : Remembered w w') (h' : Remembered w' w'') :
    Remembered w w'' :=
  ⟨h'.state.trans h.state, h'.keys.trans h.keys, fun id hid => h'.failed id (h.failed id hid)⟩

theorem Remembered.of_exec {c : Cmd} {o : Choice} (hc : c.retains = true) :
    Remembered w (exec S o c w).2 := by
  have hd := w.disturb_disturbed o
  have hm := step_memory S o c (w.disturb o)
  have hafter : ((w.disturb o).memory.after o c).state = w.state ∧
      ((w.disturb o).memory.after o c).keys = w.keys ∧
      ((w.disturb o).memory.after o c).failed = (w.disturb o).failed := by
    cases c with
    | statePut m => cases hc
    | stateDelete id => cases hc
    | failedMark id => cases hc
    | failedClear id => cases hc
    | keysCache id k replace => cases hc
    | keysDelete id => cases hc
    | _ => exact ⟨hd.state, hd.keys, rfl⟩
  rw [← hm] at hafter
  refine ⟨hafter.1, hafter.2.1, fun id hid => ?_⟩
  have hf : (exec S o c w).2.failed = (w.disturb o).failed := hafter.2.2
  rw [hf]
  exact hd.failed id hid

theorem wp_retains {α : Type} {p : Run α} (hp : p.All (·.retains = true)) {w0 : World}
    (h : Remembered w0 w) :
    p.wp ⟨exec S, fun _ _ _ => True, fun _ _ _ => True⟩ (fun _ w => Remembered w0 w) w :=
  Prog.wp_of_all (fun _ _ _ hc _ hi => ⟨trivial, hi.trans (.of_exec hc)⟩) hp h

theorem popMounts_retains (path : Str) (left : ℕ) :
    (popMounts path left).run.All (·.retains = true) := by
  have hcheck : (isMountPoint path).run.All (·.retains = true) := isMountPoint_all rfl rfl rfl
  have hunmount : (unmount path).run.All (·.retains = true) := unmount_all rfl rfl rfl rfl
  induction left with
  | zero =>
    refine Prog.all_run_bind (orStatus_all hcheck _ _) fun found => ?_
    cases found <;> exact Prog.all_ret _ _
  | succ left ih =>
    refine Prog.all_run_bind (orStatus_all hcheck _ _) fun found => ?_
    cases found with
    | false => exact Prog.all_ret _ _
    | true => exact Prog.all_run_bind (orStatus_all hunmount _ _) fun _ => ih

theorem closeRecorded_retains (id : VolumeID) (entry : Option Mapping) :
    (closeRecorded S id entry).run.All (·.retains = true) := by
  have hclose : ∀ name, (closeCrypt name).run.All (·.retains = true) := fun _ => closeCrypt_all rfl
  cases entry with
  | none =>
    exact Prog.All.bind ((hclose _).bind fun _ => Prog.all_ret _ _) fun _ => Prog.all_ret _ _
  | some m =>
    dsimp only [closeRecorded]
    cases m.cryptDev with
    | none => exact Prog.all_ret _ _
    | some name => exact orStatus_all (hclose name) _ _

theorem detachEach_retains (loops : List ℕ) : (detachEach loops).run.All (·.retains = true) := by
  induction loops with
  | nil => exact Prog.all_ret _ _
  | cons dev loops ih =>
    have hdetach : (detachLoop dev).run.All (·.retains = true) := detachLoop_all rfl
    exact Prog.all_run_bind (orStatus_all hdetach _ _) fun _ => ih

theorem wp_retains_seq {α β : Type} {x : Rpc α} {f : α → Rpc β} {w0 : World}
    (hx : x.run.All (·.retains = true)) (h : Remembered w0 w)
    (hf : ∀ a w, Remembered w0 w → (f a).run.wp ⟨exec S, fun _ _ _ => True, fun _ _ _ => True⟩
      (fun r w => (∃ e, r = .error e) → Remembered w0 w) w) :
    (x >>= f).run.wp ⟨exec S, fun _ _ _ => True, fun _ _ _ => True⟩
      (fun r w => (∃ e, r = .error e) → Remembered w0 w) w := by
  rw [Prog.wp_run_bind]
  refine Prog.wp_mono (fun r w h => ?_) (wp_retains hx h)
  cases r with
  | error e => exact fun _ => h
  | ok a => exact hf a w h

/-- Whatever fails, an unstage that fails forgets nothing. -/
theorem wp_unstageLocked_retains (id : VolumeID) (path : Str) {w0 : World} (h : Remembered w0 w) :
    (unstageLocked S id path).run.wp ⟨exec S, fun _ _ _ => True, fun _ _ _ => True⟩
      (fun r w => (∃ e, r = .error e) → Remembered w0 w) w := by
  have halways : ∀ (c : Cmd), c.retains = true →
      (always (issue c) : Rpc (Resp c)).run.All (·.retains = true) :=
    fun c hc => Prog.All.bind ((Prog.all_perform _ _).mpr hc) fun _ => Prog.all_ret _ _
  have hfind : ∀ found, (findLoops found).run.All (·.retains = true) := fun _ => findLoops_all rfl
  unfold unstageLocked
  refine wp_retains_seq (popMounts_retains _ _) h fun _ w h => ?_
  refine wp_retains_seq (halways (.remove path) rfl) h fun _ w h => ?_
  refine wp_retains_seq (halways (.stateGet id) rfl) h fun entry w h => ?_
  refine wp_retains_seq (closeRecorded_retains id entry) h fun _ w h => ?_
  refine wp_retains_seq (orStatus_all (hfind _) _ _) h fun loops w h => ?_
  refine wp_retains_seq (detachEach_retains loops) h fun _ w h => ?_
  have hok : ∀ {α : Type} (p : Run α) (Q : Except Status α → World → Prop) (w : World),
      (∀ a w, Q (.ok a) w) → (always p : Rpc α).run.wp ⟨exec S, fun _ _ _ => True,
        fun _ _ _ => True⟩ Q w := by
    intro α p Q w hq
    rw [Prog.wp_always]
    exact Prog.wp_of_all (I := fun _ => True) (fun _ _ _ _ _ _ => ⟨trivial, trivial⟩)
      (Prog.all_true p) trivial |> Prog.wp_mono fun a w _ => hq a w
  rw [Prog.wp_run_bind]
  refine hok _ _ _ fun _ w => ?_
  dsimp only
  rw [Prog.wp_run_bind]
  refine hok _ _ _ fun _ w => ?_
  exact hok _ _ _ fun _ _ => by simp

theorem Sane.locks (h : Sane V w) (locks : List (VolumeID × ℕ)) : Sane V { w with locks } :=
  ⟨h.toTidy.congr ⟨rfl, rfl, rfl, rfl, fun _ => rfl⟩, h.entries, h.filed⟩

theorem calm_nodeUnstageVolume {path : Str} (hmem : path ∈ V.paths v) (hpath : Printed S path)
    (hs : Sane V w) (ho : OnlyStaged V v path w) :
    ((Op.unstage v path).program V).wp (calm S) (fun r w' => r = .ok () →
      (Unstaged V v path (Mapping.get w.state (V.id v)) w' ↔ ¬ Unrecorded V v w)) w := by
  rw [Op.program_unstage hmem]
  refine calm_withLock fun locks => ?_
  refine Prog.wp_mono (fun r w' h locks' hr => ?_) (calm_unstageLocked hpath (hs.locks locks) ho)
  refine Iff.trans ?_ (h hr)
  exact ⟨fun hu => ⟨hu.unmounted, hu.closed, hu.detached, hu.entry, hu.key, hu.mark⟩,
    fun hu => ⟨hu.unmounted, hu.closed, hu.detached, hu.entry, hu.key, hu.mark⟩⟩

theorem wp_nodeUnstageVolume_retains {path : Str} (hmem : path ∈ V.paths v) (w : World) :
    ((Op.unstage v path).program V).wp ⟨exec S, fun _ _ _ => True, fun _ _ _ => True⟩
      (fun r w' => (∃ e, r = .error e) → Remembered w w') w := by
  have hrefl : Remembered w w := ⟨rfl, rfl, fun _ h => h⟩
  rw [Op.program_unstage hmem, withLock, ExceptT.run_mk, Prog.wp_bind]
  intro o _
  refine ⟨trivial, ?_⟩
  have hlock : Remembered w (exec S o (.lock (V.id v)) w).2 := .of_exec rfl
  rw [Prog.wp_ret, Prog.wp_bind]
  refine Prog.wp_mono (fun r w' h => ?_) (wp_unstageLocked_retains _ _ hlock)
  exact fun o _ => ⟨trivial, fun he => (h he).trans (.of_exec rfl)⟩

/-- The volumes `marks` fail before the first command, and the commands with the
given numbers do not succeed. -/
def demoChoices (marks : List VolumeID) (faults : List ℕ) (i : ℕ) : Choice :=
  { Choice.calm with
    marks := if i = 0 then marks else []
    fault := if i ∈ faults then some ⟨9, []⟩ else none }

def demoStaged : World :=
  (((Op.stage true "/s/b" demoSecrets demoCapability).program demo).halt (exec demoSite)
    (fun _ => .calm) demoWorld none).2

/-- The encrypted volume fails, and so does its re-stage: at `fsck`, and at the
`cryptsetup close` that cleans up after it. -/
def demoStuck : World :=
  (((Op.publish true "/s/b" "/p/b" demoCapability false).program demo).halt (exec demoSite)
    (demoChoices [demo.id true] [36, 37]) demoStaged none).2

theorem demoStaged_reachable : Reachable demo true demoStaged := by
  have hop : (Op.stage true "/s/b" demoSecrets demoCapability).Proper demo := rfl
  refine .serve (.start demoWorld_empty) hop _ none ?_
  intro e he
  obtain ⟨i, hi⟩ := Prog.issued_choice he
  exact .of_calm (hi ▸ rfl)

theorem demoStuck_reachable : Reachable demo true demoStuck := by
  have hop : (Op.publish true "/s/b" "/p/b" demoCapability false).Proper demo :=
    ⟨rfl, demo_outside (by decide) (by decide)⟩
  refine .serve demoStaged_reachable hop _ none ?_
  decide +kernel

/-- `findmnt` prints no staging path with a slash at its end: an unstage there in which every
command succeeds takes the filesystem for unmounted and leaves it mounted. -/
theorem unstage_leaves_mount :
    let r := ((Op.stage false "/s/a/" [] demoCapability).program demo).eval (exec demoSite)
      (fun _ => .calm) demoWorld
    let r' := ((Op.unstage false "/s/a/").program demo).eval (exec demoSite) (fun _ => .calm) r.2
    r.1 = .ok () ∧ r'.1 = .ok () ∧ Mapping.get r'.2.state (demo.id false) = none ∧
      r'.2.mountedAt "/s/a" = true := by
  decide +kernel

end Fileblock.Node
