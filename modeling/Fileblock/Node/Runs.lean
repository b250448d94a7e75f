import Fileblock.Node.Operation
import Fileblock.Node.Reconcile

/-! Whole runs of a node on which one operation follows the other: every image has
at most one loop device in use, and a volume that was staged is visible at its
staging path. -/
namespace Fileblock.Node
open Go Store Interaction

variable {S : Site} {ι : Type} {V : Volumes S ι} {v : ι} {w : World} {c : Cmd} {o : Choice}

/-- What is asked of the node plugin, and what it does by itself. -/
inductive Op (ι : Type) where
  | stage (v : ι) (path : Str) (secrets : Secrets) (capability : Option Capability)
  | unstage (v : ι) (path : Str)
  | publish (v : ι) (path target : Str) (capability : Option Capability) (readonly : Bool)
  | unpublish (v : ι) (target : Str)
  | expand (v : ι) (path : Str)
  | tick

namespace Op

def program (V : Volumes S ι) : Op ι → Run (Except Status Unit)
  | stage v path secrets capability =>
    (nodeStageVolume S ⟨V.id v, path, V.context v, secrets, capability⟩).run
  | unstage v path => (nodeUnstageVolume S (V.id v) path).run
  | publish v path target capability readonly =>
    (nodePublishVolume S ⟨V.id v, path, target, capability, readonly⟩).run
  | unpublish v target => (nodeUnpublishVolume (V.id v) target).run
  | expand v path => (nodeExpandVolume (V.id v) path).run
  | tick => (always Node.tick : Rpc Unit).run

theorem program_stage {v : ι} {path : Str} (hpath : path ∈ V.paths v) (secrets : Secrets)
    (capability : Option Capability) : (stage v path secrets capability).program V =
      (withLock (V.id v) (stageLocked S ⟨V.id v, path, V.context v, secrets, capability⟩)).run := by
  unfold program nodeStageVolume
  dsimp only
  rw [if_neg (not_or.mpr ⟨V.id_ne v, V.paths_ne hpath⟩)]

theorem program_unstage {v : ι} {path : Str} (hpath : path ∈ V.paths v) :
    (unstage v path).program V = (withLock (V.id v) (unstageLocked S (V.id v) path)).run := by
  unfold program nodeUnstageVolume
  dsimp only
  rw [if_neg (not_or.mpr ⟨V.id_ne v, V.paths_ne hpath⟩)]

/-- The kubelet stages a volume at its staging paths, and publishes at no volume's. -/
def Proper (V : Volumes S ι) : Op ι → Prop
  | stage v path _ _ | unstage v path => path ∈ V.paths v
  | publish v path target _ _ => path ∈ V.paths v ∧ V.Outside target
  | unpublish _ target => V.Outside target
  | _ => True

end Op

/-- The commands that can break no table. -/
def Cmd.harmless : Cmd → Bool
  | .mount .. | .bind .. | .losetupAttach .. | .luks .. | .statePut _ => false
  | _ => true

theorem Sane.harmless (hs : Sane V w) (hc : c.harmless = true) : Sane V (exec S o c w).2 := by
  refine (hs.disturb o).move ?_ ?_
  · cases c <;> trivial
  · rintro m rfl
    cases hc

theorem Cmd.harmless_of_observes (h : c.observes = true) : c.harmless = true := by
  cases c <;> first | rfl | cases h

theorem issue_harmless (h : c.harmless = true) : (issue c).All (·.harmless = true) :=
  (Prog.all_perform _ _).mpr h

theorem reconcile_all {P : Cmd → Prop} (hlive : P .losetupList) (hdm : P .dmList)
    (hall : P .stateAll) (hdrop : ∀ id, P (.stateDelete id)) (hclose : ∀ name, P (.cryptClose name))
    (hrange : ∀ devs, P (.rangeLoops devs)) (hdetach : ∀ dev, P (.losetupDetach dev)) (S : Site) :
    (reconcile S).run.All P := by
  have hone : ∀ {c : Cmd}, P c → (issue c).All P := fun h => (Prog.all_perform _ _).mpr h
  have halways : ∀ {ε α : Type} {p : Run α}, p.All P → (always (ε := ε) p).run.All P :=
    fun h => h.bind fun _ => Prog.all_ret _ _
  have hstale : ∀ live mappings m, (dropIfStale live mappings m).All P := by
    intro live mappings m
    unfold dropIfStale
    split_ifs
    · exact (hone (hdrop _)).bind fun _ => Prog.all_ret _ _
    · exact Prog.all_ret _ _
  have horphan : ∀ live kept m, (closeOrphan S live kept m).All P := by
    intro live kept m
    unfold closeOrphan
    split_ifs
    · exact Prog.all_ret _ _
    · exact Prog.All.bind (closeCrypt_all (hclose _)) fun _ => Prog.all_ret _ _
  have hstray : ∀ live kept dev, (detachOrphan S live kept dev).All P := by
    intro live kept dev
    unfold detachOrphan
    split_ifs
    · exact Prog.all_ret _ _
    · exact Prog.All.bind (detachLoop_all (hdetach _)) fun _ => Prog.all_ret _ _
  unfold reconcile
  refine Prog.all_run_bind (Prog.all_attempt (hone hlive) _) fun live => ?_
  refine Prog.all_run_bind (Prog.all_attempt (hone hdm) _) fun mappings => ?_
  refine Prog.all_run_bind (halways (hone hall)) fun all => ?_
  refine Prog.all_run_bind (halways (Prog.all_each fun _ _ => hstale _ _ _)) fun _ => ?_
  refine Prog.all_run_bind (halways (hone hall)) fun kept => ?_
  refine Prog.all_run_bind (halways (Prog.all_each fun _ _ => horphan _ _ _)) fun _ => ?_
  refine Prog.all_run_bind (halways (hone (hrange _))) fun devs => ?_
  exact halways (Prog.all_each fun _ _ => hstray _ _ _)

theorem reconcile_harmless (S : Site) : (reconcile S).run.All (·.harmless = true) :=
  reconcile_all (P := (·.harmless = true)) rfl rfl rfl (fun _ => rfl) (fun _ => rfl) (fun _ => rfl)
    (fun _ => rfl) S

theorem tickVolume_harmless (entries : List MountInfo) (vol : Mapping) :
    (tickVolume entries vol).All (·.harmless = true) := by
  unfold tickVolume
  cases lastAt entries vol.stagePath with
  | none => exact Prog.all_ret _ _
  | some e =>
    dsimp only
    split_ifs
    · exact (issue_harmless rfl).bind fun _ => (issue_harmless rfl).bind fun _ => Prog.all_ret _ _
    · exact issue_harmless rfl

theorem tick_harmless : tick.All (·.harmless = true) := by
  refine (issue_harmless (c := .mountInfo) rfl).bind fun r => ?_
  cases r with
  | error e => exact Prog.all_ret _ _
  | ok entries =>
    exact (issue_harmless (c := .stateAll) rfl).bind fun _ =>
      Prog.all_each fun vol _ => tickVolume_harmless entries vol

theorem nodeExpandVolume_observes (id : VolumeID) (path : Str) :
    (nodeExpandVolume id path).run.All (·.observes = true) := by
  have hone : ∀ c : Cmd, c.observes = true → (issue c).All (·.observes = true) :=
    fun c h => (Prog.all_perform _ _).mpr h
  unfold nodeExpandVolume
  split_ifs
  · exact Prog.all_ret _ _
  · exact Prog.all_ret _ _
  · refine Prog.all_run_bind ((hone (.stateGet id) rfl).bind fun _ => Prog.all_ret _ _) fun m => ?_
    cases m with
    | none => exact Prog.all_ret _ _
    | some m =>
      unfold expandEntry resizeEntry setCapacity resize2fs shell
      refine Prog.all_run_bind (Prog.all_attempt (Prog.all_attempt
        (hone (.losetupSetCapacity _) rfl) _) _) fun _ => ?_
      refine Prog.all_run_bind ?_ fun _ => ?_
      · cases m.cryptDev with
        | none => exact Prog.all_ret _ _
        | some name => exact Prog.all_attempt (Prog.all_attempt (hone (.cryptResize name) rfl) _) _
      · exact Prog.all_attempt (Prog.all_attempt (hone (.resize2fs _) rfl) _) _

/-- An operation that nothing interferes with. -/
def Setting.alone (V : Volumes S ι) (v : ι) : Setting V v where
  rely _ w w' := w = w'
  adm w c o := Sane V w ∧ Genuine S w c o
  careful := False
  leaving := True
  held _ := True
  ctx _ _ := True
  sane h := h.1
  genuine h := h.2
  frame _ h := ⟨trivial, h ▸ Frame.refl V v _⟩
  held_lock _ := trivial
  held_disturb _ _ := trivial
  held_step _ _ _ _ := trivial
  ctx_held _ := trivial
  ctx_rely _ _ := trivial
  ctx_disturb _ _ := trivial
  ctx_step _ _ _ _ _ _ := trivial
  free _ _ _ := trivial

def Publishing.alone (V : Volumes S ι) (v : ι) : Publishing (Setting.alone V v) where
  marked _ := True
  unmarked _ := True
  held _ := trivial
  rely _ _ := trivial
  disturb _ _ := trivial
  mark _ _ := trivial
  unmark _ _ := trivial
  mounted _ := trivial
  mine h := h.elim
  unused _ _ _ _ _ := trivial
  back _ := trivial
  steady := steady_true V v
  tables _ _ := trivial
  binding _ _ _ _ := trivial
  bound _ _ _ _ := trivial

/-- What an operation ends with. -/
def Op.Ends (S : Site) : Op ι → Except Status Unit → World → Prop
  | stage _ path _ _, r, w => r = .ok () → w.mountedAt (S.resolve path) = true
  | _, _, _ => True

/-- Every command of the program leaves the tables as they should be. -/
abbrev Keeps (V : Volumes S ι) (w : World) (c : Cmd) (o : Choice) : Prop :=
  Sane V w → Sane V (exec S o c w).2

theorem wp_harmless {α : Type} {p : Run α} (hp : p.All (·.harmless = true)) (w : World) :
    p.wp ⟨exec S, Genuine S, Keeps V⟩ (fun _ _ => True) w :=
  Prog.wp_of_all (I := fun _ => True) (fun _ _ _ hc _ _ => ⟨fun hs => hs.harmless hc, trivial⟩)
    hp trivial

theorem Setting.wp_alone {α : Type} {p : Run α} {Z : World → Prop} {Q : α → World → Prop}
    (hs : Sane V w) (hp : p.wp ((Setting.alone V v).operating Z) Q w) :
    p.wp ⟨exec S, Genuine S, Keeps V⟩ Q w := by
  have halone := Prog.wp_alone (fun _ _ => rfl) hp
  have hkeeps : p.wp ⟨exec S, fun w c o => Sane V w ∧ Genuine S w c o, Keeps V⟩ Q w :=
    Prog.wp_weaken (fun _ _ _ h => h) (fun _ _ _ _ h hs => h.sane hs) halone
  exact Prog.wp_assume (fun _ _ _ _ hk hi => hk hi) hkeeps hs

/-- Every operation keeps the tables as they should be, whatever fails. -/
theorem Op.wp_program {op : Op ι} (hop : op.Proper V) (hs : Sane V w) :
    (op.program V).wp ⟨exec S, Genuine S, Keeps V⟩ (op.Ends S) w := by
  cases op with
  | stage v path secrets capability =>
    exact Setting.wp_alone (Z := fun _ => True) hs
      (Setting.operating_nodeStageVolume ⟨rfl, hop, rfl⟩ fun _ _ _ => trivial)
  | unstage v path =>
    exact Setting.wp_alone (Z := fun _ => True) hs
      (Setting.operating_nodeUnstageVolume hop trivial (fun _ _ _ => trivial) fun h => h.elim)
  | publish v path target capability readonly =>
    exact Setting.wp_alone hs ((Publishing.alone V v).operating_nodePublishVolume rfl hop.1 hop.2)
  | unpublish v target =>
    exact Setting.wp_alone (v := v) (Z := fun _ => True) hs (Setting.operating_nodeUnpublishVolume hop)
  | expand v path =>
    exact wp_harmless ((nodeExpandVolume_observes _ _).mono fun _ => Cmd.harmless_of_observes) w
  | tick => exact wp_harmless (tick_harmless.bind fun _ => Prog.all_ret _ _) w

/-- Nothing is attached, mapped, mounted, recorded or remembered. -/
structure World.Empty (w : World) : Prop where
  loops : w.loops = []
  dm : w.dm = []
  mounts : w.mounts = []
  stateFile : w.stateFile = []
  state : w.state = []
  failed : w.failed = []
  keys : w.keys = []
  locks : w.locks = []

/-- The states of a node between operations, and where the plugin died in one. A
plugin that was started again has reconciled, or died at that. -/
inductive Reachable (V : Volumes S ι) : (up : Bool) → World → Prop
  | start {w : World} (h : w.Empty) : Reachable V true w
  | serve {w : World} (h : Reachable V true w) {op : Op ι} (hop : op.Proper V) (o : ℕ → Choice)
    (stop : Option ℕ)
    (ho : ∀ e ∈ (op.program V).issued (exec S) o w stop, Genuine S e.before e.cmd e.choice) :
    Reachable V stop.isNone ((op.program V).halt (exec S) o w stop).2
  | restart {up : Bool} {w : World} (h : Reachable V up w) (o : ℕ → Choice) (stop : Option ℕ)
    (ho : ∀ e ∈ (reconcile S).run.issued (exec S) o w.restart stop,
      Genuine S e.before e.cmd e.choice) :
    Reachable V stop.isNone ((reconcile S).run.halt (exec S) o w.restart stop).2

theorem World.Empty.sane (h : w.Empty) : Sane V w := by
  obtain ⟨h1, h2, h3, h4, h5, -, -, -⟩ := h
  constructor
  · constructor
    · constructor <;> simp [h1, h2, h3]
    · simp [h1]
  · simp [h5]
  · simp [h4]

theorem Sane.restart (h : Sane V w) : Sane V w.restart := ⟨h.toTidy.restart, h.filed, h.filed⟩

theorem Reachable.sane {up : Bool} (h : Reachable V up w) : Sane V w := by
  induction h with
  | start h => exact h.sane
  | serve _ hop o stop ho ih =>
    exact (Prog.wp_halt (fun _ _ _ _ hk hi => hk hi) (Op.wp_program hop ih) ih stop ho).1
  | restart _ o stop ho ih =>
    exact (Prog.wp_halt (fun _ _ _ _ hk hi => hk hi) (wp_harmless (reconcile_harmless S) _)
      ih.restart stop ho).1

/-- The loops on a file that are mounted or below a mapping. -/
def World.inUse (w : World) (file : Str) : List Loop :=
  w.loops.filter fun l => l.file = file && w.busy l.dev

/-- The mount is of the loop, or of a mapping over it. -/
def World.Shows (w : World) (m : Mount) (l : Loop) : Prop :=
  m.source = .loop l.dev ∨ ∃ name, m.source = .mapper name ∧ (name, l.dev) ∈ w.dm

theorem Coherent.inUse_eq (h : Coherent V w) {l : Loop} (hl : l ∈ w.loops)
    (hb : w.busy l.dev = true) : w.inUse l.file = [l] := by
  have hmem : ∀ l', l' ∈ w.inUse l.file ↔ l' = l := by
    intro l'
    simp only [World.inUse, List.mem_filter, Bool.and_eq_true, decide_eq_true_eq]
    constructor
    · rintro ⟨hl', hf, -⟩
      exact h.file_unique hl' hl hf
    · rintro rfl
      exact ⟨hl, rfl, hb⟩
  have hnodup : (w.inUse l.file).Nodup := (List.Nodup.of_map _ h.devs).filter _
  exact List.perm_singleton.mp
    ((List.perm_ext_iff_of_nodup hnodup (List.nodup_singleton l)).mpr (by simpa using hmem))

theorem Coherent.inUse_length (h : Coherent V w) (file : Str) : (w.inUse file).length ≤ 1 := by
  cases hu : w.inUse file with
  | nil => simp
  | cons l ls =>
    have hl : l ∈ w.inUse file := by simp [hu]
    simp only [World.inUse, List.mem_filter, Bool.and_eq_true, decide_eq_true_eq] at hl
    obtain ⟨hmem, rfl, hb⟩ := hl
    rw [← hu, h.inUse_eq hmem hb]
    simp

/-- A staged volume is visible through the one loop in use on its image. -/
theorem Coherent.inUse_staged (h : Coherent V w) {p : Str} (hp : p ∈ V.places v)
    (hm : w.mountedAt p = true) :
    ∃ l m, w.inUse (V.image v) = [l] ∧ w.top p = some m ∧ w.Shows m l := by
  obtain ⟨m, l, ht, hl, hf, hs⟩ := h.top_place hp hm
  have hmem : m ∈ w.mounts := List.mem_of_find?_eq_some ht
  have hb : w.busy l.dev = true := by
    rw [World.busy_iff, World.mounted_iff, World.held_iff]
    rcases hs with hs | ⟨-, hd⟩
    · exact Or.inl ⟨m, hmem, hs⟩
    · exact Or.inr ⟨_, hd⟩
  refine ⟨l, m, hf ▸ h.inUse_eq hl hb, ht, ?_⟩
  rcases hs with hs | ⟨hs, hd⟩
  · exact Or.inl hs
  · exact Or.inr ⟨_, hs, hd⟩

/-- On a node that started with nothing, whatever fails and wherever the plugin
dies, an image has at most one loop device in use, and a stage that returns
success shows the filesystem on that device. -/
theorem one_instance_per_image (V : Volumes S ι) {up : Bool} {w : World} (h : Reachable V up w) :
    (∀ file, (w.inUse file).length ≤ 1) ∧
      (up = true → ∀ (v : ι), ∀ path ∈ V.paths v, ∀ (secrets : Secrets)
          (capability : Option Capability) (o : ℕ → Choice),
        ((Op.stage v path secrets capability).program V).Admissible (exec S) (Genuine S) o w →
        let r := ((Op.stage v path secrets capability).program V).eval (exec S) o w
        r.1 = .ok () → ∃ l m, r.2.inUse (V.image v) = [l] ∧
          r.2.top (S.resolve path) = some m ∧ r.2.Shows m l) := by
  refine ⟨h.sane.inUse_length, ?_⟩
  intro hup v path hpath secrets capability o ho r hr
  have hop : (Op.stage v path secrets capability).Proper V := hpath
  obtain ⟨hs, -, hends⟩ := Prog.wp_halt (fun _ _ _ _ hk hi => hk hi) (Op.wp_program hop h.sane)
    h.sane none ho
  exact hs.inUse_staged (V.mem_places hpath) (hends r.1 rfl hr)

def demoSite : Site where
  pageSize := 4096
  resolve := clean
  rootElems := [['r']]
  root_ne := by simp
  root_proper := by
    intro e he
    rw [List.mem_singleton.mp he]
    constructor <;> decide
  sum s := List.replicate 64 (if s.getLast? = some 'b' then 'b' else 'a')
  sum_length _ := List.length_replicate
  sum_hex s c hc := by
    rw [List.eq_of_mem_replicate hc]
    split_ifs <;> decide

def demoPath (v : Bool) : Str := if v then "/s/b" else "/s/a"

/-- Two volumes of one local store, the second one encrypted. -/
def demo : Volumes demoSite Bool where
  id v := if v then "fb-aaaaaaaaaaaa-b" else "fb-aaaaaaaaaaaa-a"
  id_injective := fun a b => by revert a b; decide
  id_ne := by decide
  id_noSlash := by decide
  mapper_injective := fun a b => by revert a b; decide
  context v := [(paramType, "local"), (paramLocalPath, "/d"),
    (paramEncrypted, if v then "true" else "false")]
  config _ := .localDir "/d" false
  parsed := by decide
  paths v := {demoPath v}
  paths_apart := by
    rintro u v p q rfl rfl
    revert u v
    decide
  paths_ne := by
    rintro v p rfl
    revert v
    decide
  paths_notPod := by
    rintro v p rfl
    revert v
    decide

instance (v : Bool) : DecidablePred (· ∈ demo.paths v) := fun p =>
  inferInstanceAs (Decidable (p = demoPath v))

theorem demo_outside {path : Str} (ha : clean path ≠ "/s/a") (hb : clean path ≠ "/s/b") :
    demo.Outside path := by
  rintro v ⟨p, rfl, he⟩
  cases v
  · exact ha he.symm
  · exact hb he.symm

def demoSecrets : Secrets := [(secretKey, List.replicate 32 7)]

def demoCapability : Option Capability := some ⟨.mount "" [], .singleNodeWriter⟩

/-- No command fails, and nothing happens around the plugin. -/
def Choice.calm : Choice := ⟨none, 0, 0, [], [], []⟩

/-- The first image holds a filesystem, the second is blank. -/
def demoWorld : World where
  loops := []
  dm := []
  mounts := []
  dirs := []
  shutdown := []
  images file := ⟨true, 8192, none, ⟨none, [], decide (file ≠ demo.image true), false⟩⟩
  attaches := 0
  stateFile := []
  state := []
  failed := []
  keys := []
  locks := []

theorem demoWorld_empty : demoWorld.Empty := ⟨rfl, rfl, rfl, rfl, rfl, rfl, rfl, rfl⟩

theorem Genuine.of_calm (h : o.fault = none) : Genuine S w c o := by
  intro e he
  rw [h] at he
  cases he

theorem one_instance_per_image_demo :
    let r := ((Op.stage true "/s/b" demoSecrets demoCapability).program demo).eval
      (exec demoSite) (fun _ => .calm) demoWorld
    r.1 = .ok () ∧ ∃ l m, r.2.inUse (demo.image true) = [l] ∧
      r.2.top "/s/b" = some m ∧ r.2.Shows m l := by
  intro r
  have hr : r.1 = .ok () := by decide +kernel
  refine ⟨hr, (one_instance_per_image demo (.start demoWorld_empty)).2 rfl true "/s/b" rfl
    demoSecrets demoCapability (fun _ => .calm) ?_ hr⟩
  intro e he
  obtain ⟨i, hi⟩ := Prog.events_choice he
  exact .of_calm (hi ▸ rfl)

/-- The lookups of a second stage that could tell it that the volume is in use exit with 1:
`findmnt --target`, and `findmnt -S` here and on the host. -/
def blinded (i : ℕ) : Choice :=
  { Choice.calm with fault := if i ∈ [3, 8, 9] then some (Crypt.exit 1) else none }

/-- The second stage takes the status for an answer, and mounts a second loop device on the
image over the first. -/
theorem two_instances_per_image :
    let stage := (Op.stage false "/s/a" [] demoCapability).program demo
    let staged := (stage.eval (exec demoSite) (fun _ => .calm) demoWorld).2
    let again := stage.eval (exec demoSite) blinded staged
    Reachable demo true staged ∧ again.1 = .ok () ∧
      (again.2.inUse (demo.image false)).length = 2 := by
  intro stage staged again
  have hop : (Op.stage false "/s/a" [] demoCapability).Proper demo := rfl
  have hstaged : Reachable demo true staged := by
    refine .serve (.start demoWorld_empty) hop (fun _ => .calm) none fun e he => ?_
    obtain ⟨i, hi⟩ := Prog.events_choice he
    exact .of_calm (hi ▸ rfl)
  exact ⟨hstaged, by decide +kernel, by decide +kernel⟩

end Fileblock.Node
