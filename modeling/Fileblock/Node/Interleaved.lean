import Fileblock.Interaction.Schedule
import Fileblock.Node.Others

/-! Requests to one plugin process that are served at the same time, interleaved
command by command with each other and with the monitor, and processes that follow
each other. -/
namespace Fileblock.Node
open Go Store Interaction

variable {S : Site} {ι : Type} {V : Volumes S ι} {v : ι} {w w' : World} {c : Cmd} {o : Choice}
  {plan : ℕ → Op ι} {t : ℕ}

namespace Op

/-- The volume an operation is on; a pass of the monitor is on none. -/
def volume? : Op ι → Option ι
  | stage v _ _ _ | unstage v _ | publish v _ _ _ _ | unpublish v _ | expand v _ => some v
  | tick => none

/-- An expansion, or a pass of the monitor. -/
def expands : Op ι → Bool
  | expand _ _ | tick => true
  | _ => false

/-- What an operation must find for it to keep to its own volume. The entry that a
re-stage reads names a loop that is on the volume's image and only goes when it is
detached. A loop on a deleted image that the entry of an unstage names is the
volume's. And an unmount that is not of a staging path does not free a loop of a
volume that is locked. -/
def Orderly (V : Volumes S ι) (w : World) (op : Op ι) : Cmd → Prop
  | .stateGet _ => ∀ v path target capability readonly,
      op = publish v path target capability readonly →
      ∀ m, Mapping.get w.state (V.id v) = some m → m.Mine V v w
  | .losetupList => ∀ v path, op = unstage v path → SillyMine V v w
  | .umount path => V.Outside path → ∀ u n, (V.id u, n) ∈ w.locks →
      ∀ l ∈ w.loops, l.file = V.image u → l ∈ (w.unmount (S.resolve path)).loops
  | _ => True

end Op

/-- A lock has one holder. -/
def Exclusive (w : World) : Prop := ∀ id n n', (id, n) ∈ w.locks → (id, n') ∈ w.locks → n = n'

/-- The lock that a command waits for. -/
def Cmd.takes : Cmd → Option VolumeID
  | .lock id => some id
  | _ => none

/-- A command that takes a lock finds it free. -/
def Free (w : World) (c : Cmd) : Prop := ∀ id ∈ c.takes, ∀ p ∈ w.locks, p.1 ≠ id

instance (w : World) (c : Cmd) : Decidable (Free w c) :=
  inferInstanceAs (Decidable (∀ id ∈ c.takes, ∀ p ∈ w.locks, p.1 ≠ id))

/-- The plugin process: thread `t` serves `plan t`. A thread that wants a lock waits
until it is free. -/
def server (V : Volumes S ι) (plan : ℕ → Op ι) (orderly : Prop) :
    System ℕ Cmd Choice World (Except Status Unit) Resp where
  exec _ o := exec S o
  enabled t w c o := o.who = t ∧ Genuine S w c o ∧ Free w c ∧
    (orderly → (plan t).Orderly V (w.disturb o) c)
  env _ _ := False
  start t p := p = (plan t).program V

/-- Requests that are being served, and what is left of each. -/
abbrev Served := Pool ℕ Cmd World (Except Status Unit) Resp

/-- The states of a node whose plugin serves any requests at the same time, may die at
any moment, and is started again: it reconciles (or dies at that) before it serves. -/
inductive Serving (V : Volumes S ι) (orderly : Prop) :
    (up : Bool) → (plan : ℕ → Op ι) → Served → Prop
  | start {w : World} (h : w.Empty) {plan : ℕ → Op ι} (hplan : ∀ t, (plan t).Proper V) :
    Serving V orderly true plan (.idle w)
  | step {plan : ℕ → Op ι} {P P' : Served} (h : Serving V orderly true plan P)
    (hs : (server V plan orderly).Step P P') : Serving V orderly true plan P'
  | restart {up : Bool} {plan : ℕ → Op ι} {P : Served} (h : Serving V orderly up plan P)
    {plan' : ℕ → Op ι} (hplan : ∀ t, (plan' t).Proper V) (o : ℕ → Choice) (stop : Option ℕ)
    (ho : ∀ e ∈ (reconcile S).run.issued (exec S) o P.state.restart stop,
      Genuine S e.before e.cmd e.choice) :
    Serving V orderly stop.isNone plan'
      (.idle ((reconcile S).run.halt (exec S) o P.state.restart stop).2)

/-! One thread: what it relies on, and what it promises. -/

/-- The volume of the thread stays as it is while the thread holds its lock. -/
def Undisturbed (V : Volumes S ι) (v : ι) (t : ℕ) (w w' : World) : Prop :=
  (V.id v, t) ∈ w.locks → (V.id v, t) ∈ w'.locks ∧ Frame V v w w'

theorem Undisturbed.trans {w'' : World} (h : Undisturbed V v t w w')
    (h' : Undisturbed V v t w' w'') : Undisturbed V v t w w'' := by
  intro hl
  obtain ⟨hl', hf⟩ := h hl
  obtain ⟨hl'', hf'⟩ := h' hl'
  exact ⟨hl'', hf.trans hf'⟩

theorem mem_locks_step (h : (V.id v, t) ∈ w.locks) (h1 : ∀ id, c ≠ .lock id)
    (h2 : ∀ id, c ≠ .unlock id) : (V.id v, t) ∈ (step S o c w).2.locks := by
  rw [step_locks h1 h2]
  exact h

/-- An operation on `v` among others. -/
def Setting.served (V : Volumes S ι) (plan : ℕ → Op ι) (t : ℕ) (v : ι) : Setting V v where
  rely _ w w' := Undisturbed V v t w w'
  adm w c o := (Sane V w ∧ Exclusive w) ∧ (server V plan True).enabled t w c o
  careful := True
  leaving := True
  held w := (V.id v, t) ∈ w.locks
  ctx _ w := (V.id v, t) ∈ w.locks
  sane h := h.1.1
  genuine h := h.2.2.1
  frame hl h := h hl
  held_lock := by
    intro w o hadm
    have hw : (step S o (.lock (V.id v)) (w.disturb o)).2.locks =
        (V.id v, o.who) :: (w.disturb o).locks :=
      congrArg Memory.locks (step_memory S o (.lock (V.id v)) (w.disturb o))
    rw [hw, hadm.2.1]
    exact List.mem_cons_self
  held_disturb o h := by
    rw [(World.disturb_disturbed _ o).locks]
    exact h
  held_step _ h h1 h2 := mem_locks_step h h1 h2
  ctx_held h := h
  ctx_rely h hr := (hr h).1
  ctx_disturb o h := by
    rw [(World.disturb_disturbed _ o).locks]
    exact h
  ctx_step := by
    intro b w c o h _ ht _ _
    refine mem_locks_step h ?_ ?_
    · rintro id rfl
      exact ht.elim
    · rintro id rfl
      exact ht.elim
  free _ h _ := h

/-- A publish whose re-stage finds an entry that names the volume's own loop. -/
def Publishing.served (V : Volumes S ι) {t : ℕ} {v : ι} {path target : Str}
    {capability : Option Capability} {readonly : Bool}
    (hplan : plan t = .publish v path target capability readonly) :
    Publishing (Setting.served V plan t v) where
  marked w := (V.id v, t) ∈ w.locks
  unmarked _ := True
  held h := h
  rely h hr := (hr h).1
  disturb o h := by
    rw [(World.disturb_disturbed _ o).locks]
    exact h
  mark h _ := h
  unmark _ _ := trivial
  mounted _ := trivial
  mine := by
    intro _ w o m hadm hm
    have ho : (plan t).Orderly V (w.disturb o) (.stateGet (V.id v)) := hadm.2.2.2.2 trivial
    exact ho v path target capability readonly hplan m hm
  unused _ h _ _ _ := h
  back h := h
  steady := steady_true V v
  tables _ _ := trivial
  binding _ _ _ _ := trivial
  bound _ _ _ _ := trivial

/-- The commands that change nothing but failure marks. -/
def Cmd.notes (c : Cmd) : Prop := c.observes = true ∨ ∃ id, c = .failedMark id ∨ c = .failedClear id

/-- What thread `t` promises of each command it issues. An expansion keeps no promise
about its devices: it takes no lock. -/
def Promises (V : Volumes S ι) (plan : ℕ → Op ι) (t : ℕ) (w : World) (c : Cmd) : Prop :=
  (∃ v, (plan t).volume? = some v ∧ (Setting.served V plan t v).Issues (fun _ => True) w c) ∨
    (plan t).expands = true ∧ c.notes

theorem Cmd.notes.harmless (h : c.notes) : c.harmless = true := by
  rcases h with h | ⟨id, rfl | rfl⟩
  · exact Cmd.harmless_of_observes h
  · rfl
  · rfl

theorem Cmd.notes.spares (h : c.notes) : Spares V v w c := by
  rcases h with h | ⟨id, rfl | rfl⟩
  · cases c <;> trivial
  · trivial
  · trivial

theorem Cmd.notes.ne_lock (h : c.notes) (id : VolumeID) : c ≠ .lock id ∧ c ≠ .unlock id := by
  rcases h with h | ⟨id, rfl | rfl⟩
  · constructor <;> rintro rfl <;> cases h
  · simp
  · simp

theorem Promises.sane (h : Promises V plan t w c) (hs : Sane V w) : Sane V (exec S o c w).2 := by
  rcases h with ⟨v, -, h⟩ | ⟨-, h⟩
  · exact h.sane hs
  · exact hs.harmless h.harmless

theorem exec_locks (S : Site) (o : Choice) (c : Cmd) (w : World) :
    (exec S o c w).2.locks = (w.memory.after o c).locks := by
  have hd := w.disturb_disturbed o
  have hm : (exec S o c w).2.locks = ((w.disturb o).memory.after o c).locks :=
    congrArg Memory.locks (step_memory S o c _)
  rw [hm]
  cases c with
  | lock id => exact congrArg ((id, o.who) :: ·) hd.locks
  | unlock id => exact congrArg (List.filter (·.1 ≠ id)) hd.locks
  | _ => exact hd.locks

theorem Exclusive.exec (h : Exclusive w) (hfree : Free w c) : Exclusive (exec S o c w).2 := by
  intro id n n' hn hn'
  rw [exec_locks] at hn hn'
  cases c with
  | lock id' =>
    have hnot : ∀ n, (id', n) ∉ w.locks := fun n hn => hfree id' rfl _ hn rfl
    rcases List.mem_cons.mp hn with he | hn <;> rcases List.mem_cons.mp hn' with he' | hn'
    · exact (Prod.mk.inj he).2.trans (Prod.mk.inj he').2.symm
    · exact absurd ((Prod.mk.inj he).1 ▸ hn') (hnot n')
    · exact absurd ((Prod.mk.inj he').1 ▸ hn) (hnot n)
    · exact h id n n' hn hn'
  | unlock id' => exact h id n n' (List.mem_of_mem_filter hn) (List.mem_of_mem_filter hn')
  | _ => exact h id n n' hn hn'

theorem mem_locks_exec (h : (V.id v, t) ∈ w.locks) (hu : c ≠ .unlock (V.id v)) :
    (V.id v, t) ∈ (exec S o c w).2.locks := by
  rw [exec_locks]
  cases c with
  | lock id => exact List.mem_cons_of_mem _ h
  | unlock id =>
    have hne : V.id v ≠ id := fun he => hu (he ▸ rfl)
    exact List.mem_filter.mpr ⟨h, by simpa using hne⟩
  | _ => exact h

theorem Exclusive.ne (h : Exclusive w) {u : ι} {t t' : ℕ} (hne : t' ≠ t)
    (hu : (V.id u, t) ∈ w.locks) (hv : (V.id v, t') ∈ w.locks) : u ≠ v := by
  rintro rfl
  exact hne (h _ _ _ hv hu)

/-- A thread leaves alone what another has locked. -/
theorem Promises.spares {t' : ℕ} (h : Promises V plan t w c) (hne : t' ≠ t) (hs : Sane V w)
    (hx : Exclusive w) (hen : (server V plan True).enabled t w c o) (hl : (V.id v, t') ∈ w.locks) :
    Spares V v (w.disturb o) c ∧ c ≠ .unlock (V.id v) := by
  have htidy := (hs.disturb o).toTidy
  rcases h with ⟨u, hu, ⟨hg⟩ | ⟨ha, -, hunlock⟩⟩ | ⟨-, hn⟩
  · refine ⟨(hg.tended.disturb o).spares htidy (hx.ne hne hg.held hl), ?_⟩
    rintro rfl
    exact hg.tended.elim
  · constructor
    · refine ha.spares fun path he => ?_
      subst he
      have horder : (plan t).Orderly V (w.disturb o) (.umount path) := hen.2.2.2 trivial
      have hl' : (V.id v, t') ∈ (w.disturb o).locks := by
        rw [(w.disturb_disturbed o).locks]
        exact hl
      exact horder ha v t' hl'
    · intro he
      subst he
      have hid : V.id v = V.id u := ha
      exact hx.ne hne (hunlock _ rfl) hl (V.id_injective hid.symm)
  · exact ⟨hn.spares, (hn.ne_lock _).2⟩

theorem Promises.undisturbed {t' : ℕ} (h : Promises V plan t w c) (hne : t' ≠ t) (hs : Sane V w)
    (hx : Exclusive w) (hen : (server V plan True).enabled t w c o) :
    Undisturbed V v t' w (exec S o c w).2 := by
  intro hl
  obtain ⟨hsp, hu⟩ := h.spares hne hs hx hen hl
  exact ⟨mem_locks_exec hl hu,
    ((w.disturb_disturbed o).frame V v).trans (hsp.frame (hs.disturb o).toTidy)⟩

/-- What the threads of an orderly plugin promise each other. -/
def contract (V : Volumes S ι) (plan : ℕ → Op ι) : (server V plan True).Contract where
  inv w := Sane V w ∧ Exclusive w
  rely t w w' := ∀ v, (plan t).volume? = some v → Undisturbed V v t w w'
  guarantee := Promises V plan
  post _ _ _ := True
  rely_refl _ w v _ hl := ⟨hl, .refl V v w⟩
  rely_trans _ _ _ _ h h' v hv := (h v hv).trans (h' v hv)
  post_rely _ _ _ _ _ h := h
  exec_inv _ _ _ _ hi hen hg := ⟨hg.sane hi.1, hi.2.exec hen.2.2.1⟩
  exec_rely _ _ _ _ _ hne hi hen hg _ _ := hg.undisturbed hne hi.1 hi.2 hen
  env_inv _ _ _ h := h.elim
  env_rely _ _ _ _ h := h.elim

theorem wp_of_operating {p : Run (Except Status Unit)} {Q : Except Status Unit → World → Prop}
    (hv : (plan t).volume? = some v)
    (hp : p.wp ((Setting.served V plan t v).operating (fun _ => True)) Q w) :
    p.wp ((contract V plan).regime t) (fun _ _ => True) w := by
  refine Prog.wp_mono (fun _ _ _ => trivial) (Prog.wp_weaken ?_ ?_ hp)
  · rintro w c ⟨o, w'⟩ ⟨hrel, hadm⟩
    exact ⟨hrel v hv, hadm⟩
  · exact fun w c o _ h => Or.inl ⟨v, hv, h⟩

theorem wp_of_notes {p : Run (Except Status Unit)} (ht : (plan t).expands = true)
    (hp : p.All Cmd.notes) : p.wp ((contract V plan).regime t) (fun _ _ => True) w :=
  Prog.wp_of_all (I := fun _ => True) (fun _ _ _ hc _ _ => ⟨Or.inr ⟨ht, hc⟩, trivial⟩) hp trivial

theorem tick_notes : tick.All Cmd.notes := by
  have hone : ∀ c : Cmd, c.notes → (issue c).All Cmd.notes :=
    fun c h => (Prog.all_perform _ _).mpr h
  refine (hone .mountInfo (Or.inl rfl)).bind fun r => ?_
  cases r with
  | error e => exact Prog.all_ret _ _
  | ok entries =>
    refine (hone .stateAll (Or.inl rfl)).bind fun vols => Prog.all_each fun vol _ => ?_
    unfold tickVolume
    cases lastAt entries vol.stagePath with
    | none => exact Prog.all_ret _ _
    | some e =>
      dsimp only
      split_ifs
      · exact (hone (.failedMark _) (Or.inr ⟨_, Or.inl rfl⟩)).bind fun _ =>
          (hone (.failedGet _) (Or.inl rfl)).bind fun _ => Prog.all_ret _ _
      · exact hone (.failedClear _) (Or.inr ⟨_, Or.inr rfl⟩)

theorem Op.program_notes {op : Op ι} (h : op.expands = true) : (op.program V).All Cmd.notes := by
  cases op with
  | expand v path => exact (nodeExpandVolume_observes _ _).mono fun _ => Or.inl
  | tick => exact tick_notes.bind fun _ => Prog.all_ret _ _
  | _ => cases h

/-- Every operation keeps the contract, whatever fails and whoever runs beside it. -/
theorem wp_program (hproper : (plan t).Proper V) (w : World) :
    ((plan t).program V).wp ((contract V plan).regime t) (fun _ _ => True) w := by
  cases hop : plan t with
  | stage v path secrets capability =>
    rw [hop] at hproper
    refine wp_of_operating (by rw [hop]; rfl) (Setting.operating_nodeStageVolume ⟨rfl, hproper, rfl⟩ ?_)
    exact fun w o hadm => (Setting.served V plan t v).held_lock hadm
  | unstage v path =>
    rw [hop] at hproper
    refine wp_of_operating (by rw [hop]; rfl) (Setting.operating_nodeUnstageVolume hproper trivial ?_ ?_)
    · exact fun w o hadm => (Setting.served V plan t v).held_lock hadm
    · intro _ w o hadm
      have ho : (plan t).Orderly V (w.disturb o) .losetupList := hadm.2.2.2.2 trivial
      exact ho v path hop
  | publish v path target capability readonly =>
    rw [hop] at hproper
    exact wp_of_operating (by rw [hop]; rfl)
      ((Publishing.served V hop).operating_nodePublishVolume rfl hproper.1 hproper.2)
  | unpublish v target =>
    rw [hop] at hproper
    exact wp_of_operating (by rw [hop]; rfl) (Setting.operating_nodeUnpublishVolume hproper)
  | expand v path => exact wp_of_notes (by rw [hop]; rfl) (Op.program_notes rfl)
  | tick => exact wp_of_notes (by rw [hop]; rfl) (Op.program_notes rfl)

/-- A process starts with no lock held, and reconciling takes none. -/
theorem reconcile_safe {stop : Option ℕ} {o : ℕ → Choice} (hs : Sane V w)
    (ho : ∀ e ∈ (reconcile S).run.issued (exec S) o w.restart stop,
      Genuine S e.before e.cmd e.choice) :
    let w' := ((reconcile S).run.halt (exec S) o w.restart stop).2
    Sane V w' ∧ Exclusive w' := by
  intro w'
  have hall : (reconcile S).run.All fun c => c.harmless = true ∧ c.takes = none :=
    reconcile_all ⟨rfl, rfl⟩ ⟨rfl, rfl⟩ ⟨rfl, rfl⟩ (fun _ => ⟨rfl, rfl⟩) (fun _ => ⟨rfl, rfl⟩)
      (fun _ => ⟨rfl, rfl⟩) (fun _ => ⟨rfl, rfl⟩) S
  have hwp : (reconcile S).run.wp ⟨exec S, Genuine S,
      fun _ c _ => c.harmless = true ∧ c.takes = none⟩ (fun _ _ => True) w.restart :=
    Prog.wp_of_all (I := fun _ => True) (fun _ _ _ hc _ _ => ⟨hc, trivial⟩) hall trivial
  have hinit : Sane V w.restart ∧ Exclusive w.restart :=
    ⟨hs.restart, fun id n n' h => absurd h List.not_mem_nil⟩
  refine (Prog.wp_halt (I := fun w => Sane V w ∧ Exclusive w) ?_ hwp hinit stop ho).1
  rintro w c o - ⟨hc, hl⟩ ⟨hs, hx⟩
  refine ⟨hs.harmless hc, hx.exec fun id hid => ?_⟩
  rw [hl] at hid
  cases hid

theorem Serving.safe {up : Bool} {P : Served} (h : Serving V True up plan P) :
    (contract V plan).Safe P ∧ ∀ t, (plan t).Proper V := by
  induction h with
  | @start w h plan hplan =>
    refine ⟨⟨⟨h.sane, ?_⟩, fun t p hp => by cases hp⟩, hplan⟩
    intro id n n' hn
    change (id, n) ∈ w.locks at hn
    rw [h.locks] at hn
    cases hn
  | step _ hs ih =>
    obtain ⟨hsafe, hplan⟩ := ih
    refine ⟨hsafe.step ?_ hs, hplan⟩
    rintro t p w rfl -
    exact wp_program (hplan t) w
  | restart _ hplan o stop ho ih =>
    exact ⟨⟨reconcile_safe ih.1.1.1 ho, fun t p hp => by cases hp⟩, hplan⟩

/-- What the command changes is the volume's own, or at a path that leads to no volume's
staging path; a loop is attached only when the image has none. -/
def Cmd.KeepsTo (V : Volumes S ι) (v : ι) (w : World) : Cmd → Prop
  | .mkdirAll path | .remove path | .umount path | .remountReadOnly path =>
    path ∈ V.paths v ∨ V.Outside path
  | .mount device path _ => path ∈ V.paths v ∧ V.Owns w v device
  | .bind source target => source ∈ V.paths v ∧ V.Outside target
  | .losetupAttach file _ =>
    file = V.image v ∧ ((w.images file).present = true → ∀ l ∈ w.loops, l.file ≠ file)
  | .losetupDetach dev => ∀ l ∈ w.loops, l.dev = dev → l.file = V.image v
  | .losetupSetCapacity dev => ∀ n, dev = some n → V.Owns w v (.loop n)
  | .luks dev name _ => name = V.mapper v ∧ V.Owns w v (.loop dev)
  | .cryptClose name => name = V.mapper v
  | .fsck device | .resize2fs device => V.Owns w v device
  | .statePut m => m.volumeID = V.id v ∧ m.imagePath = V.image v ∧ m.stagePath ∈ V.paths v
  | .stateDelete id | .keysCache id _ _ | .keysDelete id | .failedClear id | .lock id
  | .unlock id => id = V.id v
  | .cryptResize _ | .failedMark _ => False
  | _ => True

theorem Promises.keepsTo (h : Promises V plan t w c) (hv : (plan t).volume? = some v)
    (hop : (plan t).expands = false) : c.KeepsTo V v w := by
  rcases h with ⟨u, hu, hi⟩ | ⟨he, -⟩
  · obtain rfl : u = v := Option.some.inj (hu.symm.trans hv)
    rcases hi with ⟨hg⟩ | ⟨ha, -, -⟩
    · have ht := hg.tended
      cases c with
      | losetupAttach file sectorSize => exact ⟨ht.1, fun hp => World.loopsOf_eq_nil.mp (ht.2 hp)⟩
      | losetupDetach dev => exact ht trivial
      | statePut m => exact ⟨Mapping.Records.volumeID ht, Mapping.Records.imagePath ht,
          Mapping.Records.stagePath ht⟩
      | mkdirAll path => exact Or.inl ht
      | remove path => exact Or.inl ht
      | umount path => exact Or.inl ht
      | _ => first | exact ht | trivial
    · cases c with
      | mkdirAll path => exact Or.inr ha
      | remove path => exact Or.inr ha
      | umount path => exact Or.inr ha
      | remountReadOnly path => exact Or.inr ha
      | _ => first | exact ha | trivial
  · rw [hop] at he
    cases he

/-- What can be computed of a move: the command does not have to wait, and fails only
honestly. -/
def Ready (S : Site) (P : Served) : Interaction.Move ℕ Choice → Prop
  | .start _ => True
  | .go t o => ∀ c ∈ P.next t, o.who = t ∧ Genuine S P.state c o ∧ Free P.state c
  | .cut _ => False

instance (S : Site) (P : Served) (mv : Interaction.Move ℕ Choice) : Decidable (Ready S P mv) := by
  unfold Ready
  cases mv <;> infer_instance

theorem Serving.steps {orderly : Prop} {P P' : Served} (h : Serving V orderly true plan P)
    (hs : (server V plan orderly).Steps P P') : Serving V orderly true plan P' := by
  induction hs with
  | refl => exact h
  | tail _ hs ih => exact ih.step hs

theorem server_steps {orderly : Prop} {ms : List (Interaction.Move ℕ Choice)} {P : Served}
    (hms : Pool.Keeps (exec S) (fun t => (plan t).program V) (fun P mv => Ready S P mv ∧
      ∀ t o, mv = .go t o → ∀ c ∈ P.next t, orderly → (plan t).Orderly V (P.state.disturb o) c)
      ms P) :
    (server V plan orderly).Steps P (Pool.moves (exec S) (fun t => (plan t).program V) P ms) := by
  refine System.steps_moves (fun _ _ => rfl) (fun _ => rfl) (hms.mono fun P mv hg => ⟨?_, ?_⟩)
  · rintro t rfl
    exact hg.1.elim
  · rintro t o rfl c hc
    obtain ⟨hwho, hgen, hfree⟩ := hg.1 c hc
    exact ⟨hwho, hgen, hfree, hg.2 t o rfl c hc⟩

/-- The path that a command unmounts. -/
def Cmd.unmounts : Cmd → Option Str
  | .umount path => some path
  | _ => none

def Cmd.getsEntry : Cmd → Bool
  | .stateGet _ => true
  | _ => false

def Op.publishes : Op ι → Option ι
  | publish v _ _ _ _ => some v
  | _ => none

def Op.unstages : Op ι → Bool
  | unstage _ _ => true
  | _ => false

/-- A case of order that can be computed. -/
def Op.Settled (V : Volumes S ι) (w : World) (op : Op ι) (c : Cmd) : Prop :=
  op.unstages = false ∧ (∀ path ∈ c.unmounts, ∃ u, path ∈ V.paths u) ∧
    (c.getsEntry = true → ∀ v ∈ op.publishes, ∀ m ∈ Mapping.get w.state (V.id v),
      ∀ dev ∈ m.loopDev, ∃ l ∈ w.loopsOf (V.image v), l.dev = dev ∧ l.autoclear = false)

theorem Op.Settled.orderly {op : Op ι} (h : op.Settled V w c) : op.Orderly V w c := by
  obtain ⟨hop, hpath, hentry⟩ := h
  cases c with
  | stateGet id =>
    rintro v path target capability readonly rfl m hm dev hdev
    exact hentry rfl v rfl m hm dev hdev
  | losetupList =>
    rintro v path rfl
    cases hop
  | umount path =>
    intro hne
    obtain ⟨u, hu⟩ := hpath path rfl
    exact absurd (V.mem_places hu) (hne u)
  | _ => trivial

instance [Fintype ι] (V : Volumes S ι) [∀ u, DecidablePred (· ∈ V.paths u)] (w : World)
    (op : Op ι) (c : Cmd) : Decidable (op.Settled V w c) :=
  inferInstanceAs (Decidable (_ ∧ _ ∧ _))

/-- The next command of the thread is in order. -/
def InOrder (V : Volumes S ι) (plan : ℕ → Op ι) (P : Served) : Interaction.Move ℕ Choice → Prop
  | .go t o => ∀ c ∈ P.next t, (plan t).Settled V (P.state.disturb o) c
  | _ => True

instance [Fintype ι] (V : Volumes S ι) [∀ u, DecidablePred (· ∈ V.paths u)] (plan : ℕ → Op ι)
    (P : Served) (mv : Interaction.Move ℕ Choice) : Decidable (InOrder V plan P mv) := by
  unfold InOrder
  cases mv <;> infer_instance

theorem server_steps_inOrder {ms : List (Interaction.Move ℕ Choice)} {P : Served}
    (hms : Pool.Keeps (exec S) (fun t => (plan t).program V)
      (fun P mv => Ready S P mv ∧ InOrder V plan P mv) ms P) :
    (server V plan True).Steps P (Pool.moves (exec S) (fun t => (plan t).program V) P ms) := by
  refine server_steps (hms.mono fun P mv hg => ⟨hg.1, ?_⟩)
  rintro t o rfl c hc -
  exact (hg.2 c hc).orderly

/-- Both demo volumes are staged at the same time. -/
def stagePlan (t : ℕ) : Op Bool :=
  .stage (decide (t = 1)) (demoPath (decide (t = 1))) demoSecrets demoCapability

def Choice.thread (t : ℕ) : Choice := { Choice.calm with who := t }

/-- The two stages, a command of each in turn. -/
def inTurn (n : ℕ) : List (Interaction.Move ℕ Choice) :=
  .start 0 :: .start 1 ::
    (List.replicate n [Interaction.Move.go 0 (.thread 0), .go 1 (.thread 1)]).flatten

def stagedInTurn (n : ℕ) : Served :=
  Pool.moves (exec demoSite) (fun t => (stagePlan t).program demo) (.idle demoWorld) (inTurn n)

theorem stagedInTurn_serving {n : ℕ} (h : Pool.Keeps (exec demoSite)
    (fun t => (stagePlan t).program demo)
    (fun P mv => Ready demoSite P mv ∧ InOrder demo stagePlan P mv) (inTurn n) (.idle demoWorld)) :
    Serving demo True true stagePlan (stagedInTurn n) := by
  have hproper : ∀ t, (stagePlan t).Proper demo := fun t => rfl
  exact (Serving.start demoWorld_empty hproper).steps (server_steps_inOrder h)

def pair : Volumes demoSite Bool :=
  { demo with
    context := fun _ => [(paramType, "local"), (paramLocalPath, "/d")]
    parsed := by decide }

instance (v : Bool) : DecidablePred (· ∈ pair.paths v) := fun p =>
  inferInstanceAs (Decidable (p = demoPath v))

def pairWorld : World :=
  { demoWorld with images := fun _ => ⟨true, 8192, none, ⟨none, [], true, false⟩⟩ }

theorem pairWorld_empty : pairWorld.Empty := ⟨rfl, rfl, rfl, rfl, rfl, rfl, rfl, rfl⟩

/-- The first volume is staged, marked and published twice; the second is staged. -/
def racePlan : ℕ → Op Bool
  | 0 => .stage false "/s/a" [] demoCapability
  | 1 => .tick
  | 3 => .stage true "/s/b" [] demoCapability
  | _ => .publish false "/s/a" "/p/a" demoCapability false

theorem racePlan_proper (t : ℕ) : (racePlan t).Proper pair := by
  unfold racePlan
  split
  · rfl
  · trivial
  · rfl
  · exact ⟨rfl, demo_outside (by decide) (by decide)⟩

/-- The thread starts and issues `n` commands. -/
def serves (t n : ℕ) (o : ℕ → Choice) : List (Interaction.Move ℕ Choice) :=
  .start t :: (List.range n).map fun i => .go t { o i with who := t }

def race : List (Interaction.Move ℕ Choice) :=
  serves 0 17 (fun _ => .calm) ++
    -- the filesystem is forced read-only, and the monitor marks the volume
    serves 1 4 (fun i => { Choice.calm with breaks := if i = 0 then [.loop 0] else [] }) ++
    -- the re-stage cannot flush its entry
    serves 2 39 (fun i => { Choice.calm with fault := if i = 32 then some ⟨9, []⟩ else none }) ++
    -- the other stage attaches its loop, the second re-stage detaches it and attaches its own
    serves 3 9 (fun _ => .calm) ++ serves 4 20 (fun _ => .calm) ++
    List.replicate 8 (.go 3 (.thread 3))

/-- The second volume's stage returns success with the first volume's image mounted. -/
theorem stale_entry_mounts_foreign :
    let P := Pool.moves (exec demoSite) (fun t => (racePlan t).program pair) (.idle pairWorld) race
    Serving pair False true racePlan P ∧ P.next 3 = none ∧
      (P.state.top "/s/b").map Mount.source = some (.loop 0) ∧
      P.state.loops.map (fun l => (l.dev, l.file)) = [(0, pair.image false)] := by
  intro P
  refine ⟨(Serving.start pairWorld_empty racePlan_proper).steps (server_steps ?_),
    by decide +kernel, by decide +kernel, by decide +kernel⟩
  have hready : Pool.Keeps (exec demoSite) (fun t => (racePlan t).program pair)
    (Ready demoSite) race (.idle pairWorld) := by decide +kernel
  exact hready.mono fun P mv h => ⟨h, fun _ _ _ _ _ hf => hf.elim⟩

end Fileblock.Node
