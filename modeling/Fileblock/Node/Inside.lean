import Fileblock.Node.Footprint
import Fileblock.Registry.Schedule

/-! Which image files a stage looks at and attaches. The path is joined from the directory of
the store and the volume ID as it is in the request, and nothing checks that ID. -/
namespace Fileblock.Node
open Go Store Interaction
open Registry (Setup)

/-- The image file that a command looks at or attaches. -/
def Cmd.image? : Cmd → Option Str
  | .statImage f | .losetupAttach f _ | .readSuperblock f | .imageLuks f _ => some f
  | _ => none

def nul : Char := Char.ofNat 0

/-- A volume ID that a file can be named after. -/
def Names (volumeID : Str) : Prop := volumeID ≠ [] ∧ '/' ∉ volumeID ∧ nul ∉ volumeID

/-- A path one level below a directory. -/
def Child (dir path : Str) : Prop := ∃ e, Proper e ∧ path = dir ++ '/' :: e

/-- What the surroundings of the plugin may answer: the registry gives out the directory of
the config, if it answers at all; no file has a NUL in its path; and what is in the state
was staged. -/
structure Answers (W : Setup) (a : (c : Cmd) → Resp c) : Prop where
  registry : ∀ cfg p, a (.registryGet cfg) = .ok p → p = W.storePath cfg
  refused : ∀ f, nul ∈ f → ∃ e, a (.statImage f) = .error e
  staged : ∀ id, nul ∈ id → a (.stateGet id) = none

/-- However the surroundings answer, a stage of the volume looks only at direct children of
the directory of its store, and fails when no file can be named after the volume. -/
def StaysInside (W : Setup) (volumeID : Str) : Prop :=
  ∀ (S : Site) (req : StageRequest), req.volumeID = volumeID →
    ∀ o : ℕ → (c : Cmd) → Resp c, (∀ i, Answers W (o i)) →
      (∀ e ∈ (nodeStageVolume S req).run.events oracle o (), ∀ f, e.cmd.image? = some f →
        ∃ cfg, configFromVolumeContext req.volumeContext = .ok cfg ∧ Child (W.storePath cfg) f) ∧
      (¬ Names volumeID → ∃ e, ((nodeStageVolume S req).run.eval oracle o ()).1 = .error e)

section Inside
variable {W : Setup} {S : Site} {req : StageRequest} {cfg : Config} {mode : Mode}

theorem Reads.eq {file f : Str} {c : Cmd} (h : Reads file c) (hf : c.image? = some f) :
    f = file := by
  cases c with
  | statImage | losetupAttach | readSuperblock | imageLuks =>
    rw [← Option.some.inj hf]
    exact h
  | _ => cases hf

theorem parse_config (h : req.parse = .ok (cfg, mode)) :
    configFromVolumeContext req.volumeContext = .ok cfg := by
  unfold StageRequest.parse at h
  cases hcfg : configFromVolumeContext req.volumeContext with
  | error e =>
    rw [hcfg] at h
    split_ifs at h
  | ok cfg' =>
    rw [hcfg] at h
    cases hkeys : keysFromSecrets req.secrets with
    | error e =>
      rw [hkeys] at h
      dsimp only at h
      split_ifs at h
      cases h
      rfl
    | ok k =>
      cases hformat : formatFromParams req.volumeContext true with
      | error e =>
        rw [hkeys, hformat] at h
        dsimp only at h
        split_ifs at h
        cases h
        rfl
      | ok f =>
        rw [hkeys, hformat] at h
        dsimp only at h
        split_ifs at h <;> cases h <;> rfl

theorem join_image (hcfg : configFromVolumeContext req.volumeContext = .ok cfg)
    (hid : '/' ∉ req.volumeID) : join (W.storePath cfg) (req.volumeID ++ imageExt) =
      W.storePath cfg ++ '/' :: (req.volumeID ++ imageExt) :=
  Setup.join_storePath (configFromParams_valid hcfg) (imageName_proper hid)

/-- Under allowed answers only commands with `G` are issued, and what comes of them without
an error has `P`. -/
abbrev awp (W : Setup) (G : Cmd → Prop) {ε α : Type} (x : ExceptT ε Run α) (P : α → Prop) : Prop :=
  Prog.wpOk ⟨oracle, fun _ _ a => Answers W a, fun _ c _ => G c⟩ x (fun v _ => P v) ()

section Rules
variable {G : Cmd → Prop} {ε α : Type} {P : α → Prop}

theorem awp_orStatus {x : ExceptT Err Run α} (hx : awp W G x P) (code : Code) (context : String) :
    awp W G (orStatus code context x) P := Prog.wpOk_attempt hx

theorem awp_always {c : Cmd} {P : Resp c → Prop} (hc : G c) (h : ∀ a, Answers W a → P (a c)) :
    awp W G (always (ε := ε) (issue c)) P :=
  Prog.wpOk_always fun a ha => ⟨hc, h a ha⟩

theorem awp_of_all {C : Cmd → Prop} {x : ExceptT ε Run α} (h : x.run.All C)
    (hG : ∀ c, C c → G c) : awp W G x fun _ => True :=
  Prog.wpOk_of_all h fun _ c _ hc _ => hG c hc

theorem awp_withLock (id : VolumeID) {x : Rpc α} (hlock : G (.lock id)) (hunlock : G (.unlock id))
    (hx : awp W G x P) : awp W G (withLock id x) P := by
  unfold awp Prog.wpOk withLock
  rw [ExceptT.run_mk, Prog.wp_bind]
  intro a _
  refine ⟨hlock, ?_⟩
  rw [Prog.wp_ret, Prog.wp_bind]
  refine Prog.wp_mono ?_ hx
  intro r _ hr
  rw [Prog.wp_bind]
  intro a _
  exact ⟨hunlock, hr⟩

end Rules

/-- The files looked at are the image of the request. -/
def OwnImage (W : Setup) (req : StageRequest) (c : Cmd) : Prop :=
  ∀ f, c.image? = some f → ∃ cfg, configFromVolumeContext req.volumeContext = .ok cfg ∧
    f = join (W.storePath cfg) (req.volumeID ++ imageExt)

theorem awp_stageLocked {G : Cmd → Prop} {P : Unit → Prop}
    (hG : ∀ c : Cmd, c.image? = none → G c)
    (h : ∀ cfg mode, configFromVolumeContext req.volumeContext = .ok cfg → ∀ mounted,
      awp W G (stageUnlessStaged S req (W.storePath cfg) mode mounted) P) :
    awp W G (stageLocked S req) P := by
  unfold stageLocked
  apply Prog.wpOk_bind (P := fun parsed _ => req.parse = .ok parsed)
  · exact Prog.wpOk_known fun parsed hparsed => hparsed
  intro parsed _ hparsed
  have hcfg := parse_config hparsed
  apply Prog.wpOk_bind (P := fun backing _ => backing = W.storePath parsed.1)
  · apply awp_orStatus
    apply Prog.wpOk_attempt
    exact fun a ha => ⟨hG _ rfl, fun p hp => ha.registry _ p hp⟩
  intro backing _ hbacking
  subst hbacking
  apply Prog.wpOk_bind (P := fun _ _ => True)
  · exact Prog.wpOk_known fun _ _ => trivial
  intro _ _ _
  apply Prog.wpOk_bind (P := fun _ _ => True)
  · apply awp_orStatus
    exact awp_of_all (isMountPoint_all (P := fun c => c.image? = none) rfl rfl rfl) hG
  intro mounted _ _
  exact h parsed.1 parsed.2 hcfg mounted

theorem awp_ownImage (W : Setup) (S : Site) (req : StageRequest) :
    awp W (OwnImage W req) (stageLocked S req) fun _ => True := by
  have hquiet : ∀ c : Cmd, c.image? = none → OwnImage W req c := by
    intro c hc f hf
    rw [hc] at hf
    cases hf
  apply awp_stageLocked hquiet
  intro cfg mode hcfg mounted
  unfold stageUnlessStaged
  apply Prog.wpOk_bind (P := fun _ _ => True)
  · exact awp_always (hquiet _ rfl) fun _ _ => trivial
  intro existing _ _
  split_ifs
  · cases mode with
    | plain => exact fun _ _ => trivial
    | encrypted k f => exact awp_always (hquiet _ rfl) fun _ _ => trivial
  · apply awp_of_all (stageImage_stages S req (W.storePath cfg) mode mounted)
    intro c hc f hf
    exact ⟨cfg, hcfg, hc.2.eq hf⟩

theorem awp_refused (S : Site) (hnul : nul ∈ req.volumeID) (hslash : '/' ∉ req.volumeID) :
    awp W (fun _ => True) (stageLocked S req) fun _ => False := by
  apply awp_stageLocked fun _ _ => trivial
  intro cfg mode hcfg mounted
  unfold stageUnlessStaged
  apply Prog.wpOk_bind (P := fun m _ => m = none)
  · exact awp_always trivial fun a ha => ha.staged _ hnul
  rintro _ _ rfl
  rw [if_neg (by simp)]
  unfold stageImage
  apply Prog.wpOk_bind (P := fun _ _ => True)
  · exact awp_of_all (C := fun _ => True) (Prog.all_true _) fun _ _ => trivial
  intro _ _ _
  apply Prog.wpOk_bind (P := fun _ _ => False)
  · have hpath : nul ∈ join (W.storePath cfg) (req.volumeID ++ imageExt) := by
      rw [join_image hcfg hslash]
      simp [hnul]
    unfold Prog.wpOk statImage
    rw [ExceptT.run_mk, Prog.wp_bind]
    intro a ha
    refine ⟨trivial, ?_⟩
    obtain ⟨e, he⟩ := ha.refused _ hpath
    unfold oracle
    rw [he, Prog.wp_ret]
    dsimp only
    rw [Prog.wp_bind]
    refine Prog.wp_mono ?_ (awp_of_all (C := fun _ => True) (Prog.all_true _) fun _ _ => trivial)
    intro r _ _
    rcases r with e | _ | _ <;> exact fun _ hv => by cases hv
  · exact fun _ _ h => h.elim

theorem inside_of_noSlash {volumeID : Str} (h : '/' ∉ volumeID) : StaysInside W volumeID := by
  intro S req hid o ho
  subst hid
  by_cases hempty : req.volumeID = [] ∨ req.stagingTargetPath = []
  · unfold nodeStageVolume
    rw [if_pos hempty]
    exact ⟨fun e he => absurd he List.not_mem_nil, fun _ => ⟨_, rfl⟩⟩
  have hstage : nodeStageVolume S req = withLock req.volumeID (stageLocked S req) := if_neg hempty
  have hadmissible : (nodeStageVolume S req).run.Admissible oracle (fun _ _ a => Answers W a) o () :=
    Prog.Admissible.of_choice fun _ _ i => ho i
  rw [hstage] at hadmissible ⊢
  constructor
  · have hquiet : ∀ c : Cmd, c.image? = none → OwnImage W req c := by
      intro c hc f hf
      rw [hc] at hf
      cases hf
    have hown := awp_withLock req.volumeID (hquiet _ rfl) (hquiet _ rfl) (awp_ownImage W S req)
    intro e he f hf
    obtain ⟨cfg, hcfg, hpath⟩ := (Prog.wp_eval hown hadmissible).2 e he f hf
    refine ⟨cfg, hcfg, req.volumeID ++ imageExt, imageName_proper h, ?_⟩
    rw [hpath, join_image hcfg h]
  · intro hnames
    have hnul : nul ∈ req.volumeID := by
      by_contra hnul
      exact hnames ⟨fun he => hempty (Or.inl he), h, hnul⟩
    have hrefused := awp_withLock req.volumeID (G := fun _ => True) trivial trivial
      (awp_refused (W := W) S hnul h)
    have hr := (Prog.wp_eval hrefused hadmissible).1
    cases hres : ((withLock req.volumeID (stageLocked S req)).run.eval oracle o ()).1 with
    | error e => exact ⟨e, rfl⟩
    | ok v => exact (hr v hres).elim

/-- Nothing is wrong with the surroundings, and the image is there. -/
def good (W : Setup) : (c : Cmd) → Resp c
  | .stat _ => .ok false
  | .findmntExact _ => []
  | .findmntSources _ | .findmntDevice .. => .ok []
  | .mountInfo => .ok []
  | .losetupAttach .. => .ok 0
  | .losetupList => .ok []
  | .holders _ => .ok []
  | .dmList => .ok []
  | .luks _ _ c | .imageLuks _ c => Crypt.failed (Crypt.exit 1) c
  | .registryGet cfg => .ok (W.storePath cfg)
  | .statImage f => if nul ∈ f then .error (Crypt.exit 1) else .ok 4096
  | .readSuperblock _ => .ok none
  | .stateGet _ => none
  | .stateAll => []
  | .failedGet _ => false
  | .keysGet _ => none
  | .failedMark _ => false
  | .failedClear _ | .keysCache .. | .keysDelete _ | .lock _ | .unlock _ => ()
  | .rangeLoops devs => devs
  | .mkdirAll _ | .remove _ | .findmntTarget _ | .mount .. | .bind .. | .remountReadOnly _
  | .umount _ | .losetupDetach _ | .losetupSetCapacity _ | .cryptClose _ | .cryptResize _
  | .fsck _ | .resize2fs _ | .statStore _ | .podEvent _ | .statePut _ | .stateDelete _ => .ok ()

theorem answers_good (W : Setup) : Answers W (good W) := by
  constructor
  · intro cfg p h
    exact (Except.ok.inj h).symm
  · intro f hf
    exact ⟨_, if_pos hf⟩
  · exact fun _ _ => rfl

/-- A request for a plain volume of a local store. -/
def plainRequest (volumeID : Str) : StageRequest where
  volumeID := volumeID
  stagingTargetPath := "/stage".toList
  volumeContext := [(paramType, "local"), (paramLocalPath, "/data")]
  secrets := []
  capability := some ⟨.mount "" [], .singleNodeWriter⟩

theorem plainRequest_parse {volumeID : Str} (h : volumeID ≠ []) :
    (plainRequest volumeID).parse = .ok (.localDir "/data".toList false, .plain) := by
  unfold StageRequest.parse
  rw [if_neg (by simp [plainRequest, h])]
  rfl

/-- Run against one and the same answers, `x` ends with `v`. -/
abbrev Yields (a : (c : Cmd) → Resp c) {α : Type} (x : Rpc α) (v : α) : Prop :=
  x.run.eval oracle (fun _ => a) () = (.ok v, ())

theorem Yields.bind {a : (c : Cmd) → Resp c} {α β : Type} {x : Rpc α} {f : α → Rpc β} {v : α} {u : β}
    (hx : Yields a x v) (hf : Yields a (f v) u) : Yields a (x >>= f) u := by
  rw [Yields, ExceptT.run_bind, Prog.eval_bind, hx]
  exact hf

theorem Yields.withLock {a : (c : Cmd) → Resp c} {α : Type} {x : Rpc α} {v : α} (hx : Yields a x v)
    (id : VolumeID) : Yields a (withLock id x) v := by
  unfold Node.withLock
  rw [Yields, ExceptT.run_mk, Prog.eval_bind, Prog.eval_bind]
  have hrun : x.run.eval oracle (fun _ => a) ((issue (.lock id)).eval oracle (fun _ => a) ()).2 =
      (.ok v, ()) := hx
  rw [hrun]
  rfl

theorem yields_stage (S : Site) {volumeID : Str} (h : volumeID ≠ [])
    (hnul : nul ∉ join (W.storePath (.localDir "/data".toList false)) (volumeID ++ imageExt)) :
    Yields (good W) (nodeStageVolume S (plainRequest volumeID)) () := by
  have himage : Yields (good W) (stageImage S (plainRequest volumeID)
      (W.storePath (.localDir "/data".toList false)) .plain false) () := by
    unfold stageImage
    apply Yields.bind (v := ())
    · rfl
    apply Yields.bind (v := 4096)
    · unfold statImage
      rw [Yields, ExceptT.run_mk, Prog.eval_bind]
      have hstat : (issue (.statImage (join (W.storePath (.localDir "/data".toList false))
          ((plainRequest volumeID).volumeID ++ imageExt)))).eval oracle (fun _ => good W) () =
            (.ok 4096, ()) := congrArg (·, ()) (if_neg hnul)
      rw [hstat]
      rfl
    · rfl
  have hlocked : Yields (good W) (stageLocked S (plainRequest volumeID)) () := by
    unfold stageLocked
    apply Yields.bind (v := (.localDir "/data".toList false, .plain))
    · rw [plainRequest_parse h]
      rfl
    · exact himage
  have hstage : nodeStageVolume S (plainRequest volumeID) =
      withLock volumeID (stageLocked S (plainRequest volumeID)) := if_neg (by simp [plainRequest, h])
  rw [hstage]
  exact hlocked.withLock volumeID

end Inside
end Fileblock.Node
