import Fileblock.Node.Attempt
import Fileblock.Node.Interleaved
import Fileblock.Node.Unstaged

/-! A stage that fails takes back what it has done, and can be tried again. -/
namespace Fileblock.Node
open Go Store Interaction

variable {S : Site} {ι : Type} {V : Volumes S ι} {v : ι} {w w' : World} {o : Choice}
  {mode : Mode} {req : StageRequest} {dev : ℕ} {place path : Str}

theorem step_lock (id : VolumeID) :
    step S o (.lock id) w = ((), { w with locks := (id, o.who) :: w.locks }) := by
  unfold step
  cases o.fault <;> rfl

theorem step_unlock (id : VolumeID) :
    step S o (.unlock id) w = ((), { w with locks := w.locks.filter (·.1 ≠ id) }) := by
  unfold step
  cases o.fault <;> rfl

theorem wp_locked {since : ℕ} {I : World → Prop} {id : VolumeID} {x : Rpc Unit}
    {Q : Except Status Unit → World → Prop} (hw : I w)
    (hx : ∀ who, x.run.wp ⟨exec S, Faulty S since, fun w' _ _ => I w'⟩
      (fun r w' => I w' ∧ Q r { w' with locks := w'.locks.filter (·.1 ≠ id) })
      { w with locks := (id, who) :: w.locks }) :
    (withLock id x).run.wp ⟨exec S, Faulty S since, fun w' _ _ => I w'⟩ Q w := by
  unfold withLock
  rw [ExceptT.run_mk]
  refine (Prog.wp_bind _ _ _ _).mpr fun o ho => ⟨hw, ?_⟩
  rw [exec_alone ho.1, step_lock]
  refine (Prog.wp_bind _ _ _ _).mpr (Prog.wp_mono (fun r w' hr => ?_) (hx o.who))
  refine (Prog.wp_bind _ _ _ _).mpr fun o ho => ⟨hr.1, ?_⟩
  rw [exec_alone ho.1, step_unlock]
  exact hr.2

theorem Undone.unlock {w₁ : World} {id : VolumeID} {who : ℕ}
    (h : Undone V v { w with locks := (id, who) :: w.locks } w₁)
    (hfree : ∀ p ∈ w.locks, p.1 ≠ id) :
    Undone V v w { w₁ with locks := w₁.locks.filter (·.1 ≠ id) } := by
  have hlocks : w₁.locks = (id, who) :: w.locks := congrArg Memory.locks h.memory
  have hsame : w₁.locks.filter (·.1 ≠ id) = w.locks := by
    rw [hlocks, List.filter_cons_of_neg (by simp)]
    exact List.filter_eq_self.mpr fun p hp => by simpa using hfree p hp
  refine ⟨h.mounts, h.dm, h.loops, h.idle, ?_, h.images⟩
  have hfile := congrArg Memory.stateFile h.memory
  have hstate := congrArg Memory.state h.memory
  have hfailed := congrArg Memory.failed h.memory
  have hkeys := congrArg Memory.keys h.memory
  simp only [World.memory] at hfile hstate hfailed hkeys
  simp only [World.memory, hfile, hstate, hfailed, hkeys, hsame]

/-- Everything may fail but the clean-up. -/
def Trial.faulted (V : Volumes S ι) (v : ι) (req : StageRequest) (mode : Mode) (w : World) :
    Trial V v req mode w where
  adm := Faulty S w.attaches
  faulty h := h
  fails := True
  faultless h := absurd trivial h
  fit h := absurd trivial h

theorem wp_stage_undone {req : StageRequest} (hs : Sane V w) (hreq : req.For V v) :
    (stageLocked S req).run.wp ⟨exec S, Faulty S w.attaches, fun _ _ _ => True⟩
      (fun r w' => ∀ e, r = .error e → Undone V v w w') w := by
  obtain ⟨mode, hmode⟩ : ∃ mode, ∀ cfg m, req.parse = .ok (cfg, m) → m = mode := by
    cases hparse : req.parse with
    | error e => exact ⟨.plain, fun _ _ h => by cases h⟩
    | ok a => exact ⟨a.2, fun _ _ h => by cases h; rfl⟩
  have hwp := Trial.wp_stageLocked (T := .faulted V v req mode w) hreq hs hmode
  refine Prog.wp_weaken (fun _ _ _ h => h) (fun _ _ _ _ _ => trivial) (Prog.wp_mono ?_ hwp)
  rintro r w' (⟨-, -, hback⟩ | ⟨rfl, -⟩) e he
  · exact hback.1
  · cases he

/-- The encrypted volume is staged on an empty node, and some commands fail. -/
def failing (faults : List ℕ) : Except Status Unit × World :=
  ((Op.stage true "/s/b" demoSecrets demoCapability).program demo).eval (exec demoSite)
    (fun i => { Choice.calm with fault := if i ∈ faults then some ⟨9, []⟩ else none }) demoWorld

/-- The entry that could not be flushed stays in memory, and names a loop that is gone. -/
theorem unflushed_entry_stays :
    (failing [24]).1.isOk = false ∧ (failing [24]).2.loops = [] ∧ (failing [24]).2.mounts = [] ∧
      (failing [24]).2.stateFile = [] ∧
      (Mapping.get (failing [24]).2.state (demo.id true)).map (·.loopDev) = some (some 0) := by
  decide +kernel

/-! The stage is tried again. -/

theorem World.mountedAt_congr (h : w'.mounts = w.mounts) (path : Str) :
    w'.mountedAt path = w.mountedAt path := by
  unfold World.mountedAt
  rw [h]

theorem World.mounted_congr (h : w'.mounts = w.mounts) (src : Source) :
    w'.mounted src = w.mounted src := by
  unfold World.mounted
  rw [h]

theorem World.busy_congr (hm : w'.mounts = w.mounts) (hd : w'.dm = w.dm) (dev : ℕ) :
    w'.busy dev = w.busy dev := by
  unfold World.busy World.held
  rw [World.mounted_congr hm, hd]

theorem Visible.of_sane (h : Visible V v place mode dev w) (hp : place ∈ V.places v) (hs : Sane V w)
    (hs' : Sane V w') (hm : w'.mounts = w.mounts) (hd : ∀ p ∈ w'.dm, p ∈ w.dm) :
    Visible V v place mode dev w' := by
  have htop : w'.top place = w.top place := by
    unfold World.top
    rw [hm]
  obtain ⟨m, hfind, hsrc⟩ := Option.map_eq_some_iff.mp (htop ▸ h.top)
  have hmem : m ∈ w'.mounts := List.mem_of_find?_eq_some hfind
  have hat : m.target = place := by simpa using List.find?_some hfind
  have howns := hs'.staging m hmem v (hat ▸ hp)
  have hlive := hs'.live m hmem
  rw [hsrc] at howns hlive
  cases mode with
  | plain => exact ⟨howns, htop ▸ h.top, fun name hn => by cases hn⟩
  | encrypted k f =>
    obtain ⟨n, hn⟩ := World.isOpen_iff.mp hlive
    have hsame : n = dev := by
      have hpair := List.inj_on_of_nodup_map hs.names (hd _ hn) (h.mapping _ rfl) rfl
      exact congrArg Prod.snd hpair
    subst hsame
    refine ⟨hs'.over_mapper hn, htop ▸ h.top, fun name he => ?_⟩
    rw [← Option.some.inj he]
    exact hn

theorem Fit.takenBack (h : Fit V v req mode w) (hreq : req.For V v) (hs : Sane V w)
    (hs' : Sane V w') (hback : TakenBack V v mode w w') : Fit V v req mode w' := by
  obtain ⟨hu, hg⟩ := hback
  have hstate : w'.state = w.state := congrArg Memory.state hu.memory
  have hfile : w'.stateFile = w.stateFile := congrArg Memory.stateFile hu.memory
  refine ⟨h.parse, h.capability, h.printed, hg.present.trans h.present, ?_, fun hm => ?_, fun hm => ?_⟩
  · rw [hfile, hstate, h.filed]
  · rw [World.mountedAt_congr hu.mounts] at hm
    obtain ⟨hidle, hclosed, husable⟩ := h.idle hm
    refine ⟨fun l hl hf => ?_, ?_, hg.usable husable⟩
    · rw [World.busy_congr hu.mounts hu.dm]
      exact hidle l (hu.loops.subset hl) hf
    · unfold World.isOpen
      rw [hu.dm]
      exact hclosed
  · rw [World.mountedAt_congr hu.mounts] at hm
    obtain ⟨dev, hv, hent⟩ := h.visible hm
    refine ⟨dev, hv.of_sane hreq.place hs hs' hu.mounts fun p hp => hu.dm ▸ hp, fun m hget => ?_⟩
    rw [hstate] at hget
    exact hent m hget

/-- Nothing fails. -/
def Trial.calmly {V : Volumes S ι} {req : StageRequest} (hfit : Fit V v req mode w) :
    Trial V v req mode w where
  adm _ _ o := o.Quiet
  faulty ho := ⟨⟨ho.marks, ho.breaks, ho.unlinks⟩, fun e he =>
    (Option.some_ne_none e (he.symm.trans ho.fault)).elim, fun _ => ho.fault⟩
  fails := False
  faultless _ _ _ _ ho := ho.fault
  fit _ := hfit

theorem Visible.locks (h : Visible V v place mode dev w) (locks : List (VolumeID × ℕ)) :
    Visible V v place mode dev { w with locks } := ⟨h.owns, h.top, h.mapping⟩

theorem Done.locks (h : Done V v place mode w) (locks : List (VolumeID × ℕ)) :
    Done V v place mode { w with locks } := by
  obtain ⟨dev, hv, hrest⟩ := h
  exact ⟨dev, hv.locks locks, hrest⟩

theorem Fit.locks (h : Fit V v req mode w) (locks : List (VolumeID × ℕ)) :
    Fit V v req mode { w with locks } := by
  refine ⟨h.parse, h.capability, h.printed, h.present, h.filed, h.idle, fun hm => ?_⟩
  obtain ⟨dev, hv, hent⟩ := h.visible hm
  exact ⟨dev, hv.locks locks, hent⟩

theorem calm_stage (hpath : path ∈ V.paths v) {secrets : Secrets} {capability : Option Capability}
    (hs : Sane V w)
    (hfit : Fit V v ⟨V.id v, path, V.context v, secrets, capability⟩ mode w) :
    ((Op.stage v path secrets capability).program V).wp (calm S)
      (fun r w' => r = .ok () ∧ Done V v (S.resolve path) mode w') w := by
  rw [Op.program_stage hpath]
  refine calm_withLock fun locks => ?_
  have hwp := Trial.wp_stageLocked (S := S) (T := .calmly (hfit.locks locks)) ⟨rfl, hpath, rfl⟩
    (hs.locks locks) (fun cfg m hp => ?_)
  · refine Prog.wp_weaken (fun _ _ _ ho => ho) (fun _ _ _ _ _ => trivial)
      (Prog.wp_mono (fun r w' hend locks' => ?_) hwp)
    rcases hend with ⟨hfails, -⟩ | ⟨hr, -, hdone⟩
    · exact hfails.elim
    · exact ⟨hr, (hdone id).locks locks'⟩
  · rw [hfit.parse] at hp
    cases hp
    rfl

theorem wp_stage_sane (hpath : path ∈ V.paths v) {secrets : Secrets}
    {capability : Option Capability} {since : ℕ} (hs : Sane V w) :
    ((Op.stage v path secrets capability).program V).wp ⟨exec S, Faulty S since,
      fun w' _ _ => Sane V w'⟩ (fun _ w' => Sane V w') w := by
  have hop : (Op.stage v path secrets capability).Proper V := hpath
  have hwp := Op.wp_program hop hs
  refine Prog.wp_weaken (fun _ _ _ ho => ho.2.1) (fun _ _ _ _ hg => hg.1.2)
    (Prog.wp_mono (fun _ _ hq => hq.2) (Prog.wp_invariant (fun _ _ _ _ hk hi => hk hi) hwp hs))

theorem wp_stage_fit (hpath : path ∈ V.paths v) {secrets : Secrets}
    {capability : Option Capability} (hreq : req.For V v) (hs : Sane V w) (hfit : Fit V v req mode w)
    (hmode : ∀ cfg m, (⟨V.id v, path, V.context v, secrets, capability⟩ :
      StageRequest).parse = .ok (cfg, m) → m = mode) :
    ((Op.stage v path secrets capability).program V).wp ⟨exec S, Faulty S w.attaches,
      fun _ _ _ => True⟩ (fun r w' => ∀ e, r = .error e → Sane V w' ∧ Fit V v req mode w') w := by
  have hback : ((Op.stage v path secrets capability).program V).wp ⟨exec S, Faulty S w.attaches,
      fun _ _ _ => True⟩ (fun r w' => Sane V w' → ∀ e, r = .error e → Fit V v req mode w') w := by
    rw [Op.program_stage hpath]
    refine wp_locked (I := fun _ => True) trivial fun who => ?_
    have hsl := hs.locks ((V.id v, who) :: w.locks)
    have hwp := Trial.wp_stageLocked (S := S) (T := .faulted V v _ mode _) ⟨rfl, hpath, rfl⟩ hsl hmode
    refine Prog.wp_mono (fun r w₁ hend => ⟨trivial, fun hs' e he => ?_⟩) (Prog.wp_weaken
      (fun _ _ _ ho => ho) (fun _ _ _ _ _ => trivial) hwp)
    rcases hend with ⟨-, -, hback⟩ | ⟨rfl, -⟩
    · exact ((hfit.locks _).takenBack hreq hsl (hs'.locks w₁.locks) hback).locks _
    · cases he
  refine Prog.wp_mono (fun r w' hq e he => ?_)
    (Prog.wp_both (fun _ _ _ _ _ => trivial) hback (wp_stage_sane hpath hs))
  exact ⟨hq.2, hq.1 hq.2 e he⟩

/-- Stages of a volume that failed, one after the other, at any of its staging paths. -/
inductive Attempted (V : Volumes S ι) (v : ι) (mode : Mode) (w : World) : World → Prop
  | none : Attempted V v mode w w
  | again {w' : World} (h : Attempted V v mode w w') {path : Str} (hpath : path ∈ V.paths v)
    {secrets : Secrets} {capability : Option Capability}
    (hmode : ∀ cfg m, (⟨V.id v, path, V.context v, secrets, capability⟩ :
      StageRequest).parse = .ok (cfg, m) → m = mode)
    {o : ℕ → Choice}
    (ho : ((Op.stage v path secrets capability).program V).Admissible (exec S)
      (Faulty S w'.attaches) o w')
    {e : Status}
    (he : (((Op.stage v path secrets capability).program V).eval (exec S) o w').1 = .error e) :
    Attempted V v mode w (((Op.stage v path secrets capability).program V).eval (exec S) o w').2

theorem Attempted.fit (h : Attempted V v mode w w') (hreq : req.For V v) (hs : Sane V w)
    (hfit : Fit V v req mode w) :
    Sane V w' ∧ Fit V v req mode w' := by
  induction h with
  | none => exact ⟨hs, hfit⟩
  | again _ hpath hmode ho he ih =>
    exact (Prog.wp_eval (wp_stage_fit hpath hreq ih.1 ih.2 hmode) ho).1 _ he

theorem World.Empty.fit (h : w.Empty) (hparse : req.parse = .ok (V.config v, mode))
    (hcap : validateCapability req.capability = .ok ()) (hpath : Printed S req.stagingTargetPath)
    (hp : (w.images (V.image v)).present = true)
    (hu : mode.Usable (w.images (V.image v)).device) : Fit V v req mode w := by
  refine ⟨hparse, hcap, hpath, hp, h.stateFile.trans h.state.symm, fun _ => ⟨?_, ?_, hu⟩, fun hm => ?_⟩
  · simp [h.loops]
  · simp [World.isOpen, h.dm]
  · simp [World.mountedAt, h.mounts] at hm

/-- The request for the encrypted volume of the demonstration, and what it asks for. -/
def demoRequest : StageRequest :=
  ⟨demo.id true, "/s/b", demo.context true, demoSecrets, demoCapability⟩

def demoMode : Mode := (demoRequest.parse.toOption.map Prod.snd).getD .plain

theorem demoRequest_parse : demoRequest.parse = .ok (demo.config true, demoMode) := by
  have hok : demoRequest.parse.isOk = true := by decide +kernel
  unfold demoMode
  cases hp : demoRequest.parse with
  | error e =>
    rw [hp] at hok
    cases hok
  | ok a =>
    have hcfg : a.1 = demo.config true :=
      (⟨rfl, rfl, rfl⟩ : demoRequest.For demo true).parse hp
    rw [← hcfg]
    rfl

theorem demoRequest_mode (cfg : Config) (m : Mode) (h : demoRequest.parse = .ok (cfg, m)) :
    m = demoMode := by
  rw [demoRequest_parse] at h
  cases h
  rfl

theorem demoWorld_usable : demoMode.Usable (demoWorld.images (demo.image true)).device := by
  have hblank : (demoWorld.images (demo.image true)).device.Blank := ⟨rfl, by simp [demoWorld]⟩
  have hcrypt : (demoMode.cryptDev "").isSome = true := by decide +kernel
  cases hm : demoMode with
  | plain =>
    rw [hm] at hcrypt
    cases hcrypt
  | encrypted k f =>
    refine ⟨Or.inl hblank, Or.inl hblank, fun h hh => ?_⟩
    rw [hblank.1] at hh
    cases hh

theorem Choice.Quiet.calm : Choice.calm.Quiet := ⟨rfl, rfl, rfl, rfl⟩

end Fileblock.Node
