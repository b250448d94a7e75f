import Fileblock.Node.Publish

/-! Which commands a stage and a re-stage issue, whatever they are answered. -/
namespace Fileblock.Node
open Go Store Interaction

/-- The commands of a stage of `id` at `path`. -/
def Stages (id : VolumeID) (path : Str) : Cmd → Prop
  | .mount _ p _ | .umount p | .mkdirAll p => p = path
  | .statePut m => m.volumeID = id ∧ m.stagePath = path
  | .keysCache id' _ _ | .failedClear id' => id' = id
  | .bind .. | .remountReadOnly _ | .remove _ | .stateDelete _ | .failedMark _ | .keysDelete _
  | .lock _ | .unlock _ => False
  | _ => True

/-- Of image files, only `file` is looked at or attached. -/
def Reads (file : Str) : Cmd → Prop
  | .statImage f | .losetupAttach f _ | .readSuperblock f | .imageLuks f _ => f = file
  | _ => True

/-- The commands of a stage from the image `file`. -/
def StagesFrom (id : VolumeID) (path file : Str) (c : Cmd) : Prop := Stages id path c ∧ Reads file c

section Footprint
variable {id : VolumeID} {path file : Str} {P : Cmd → Prop} {ε α : Type}

theorem issue_all {c : Cmd} (h : P c) : (issue c).All P := (Prog.all_perform _ _).mpr h

theorem always_all {p : Run α} (h : p.All P) : (always (ε := ε) p).run.All P :=
  h.bind fun _ => Prog.all_ret _ _

theorem orFalse_all {x : ExceptT Err Run Bool} (h : x.run.All P) : (orFalse x).All P := by
  refine h.bind fun r => ?_
  cases r <;> exact Prog.all_ret _ _

theorem isMountPoint_stages (p : Str) : (isMountPoint p).run.All (StagesFrom id path file) :=
  isMountPoint_all (P := StagesFrom id path file) ⟨trivial, trivial⟩ ⟨trivial, trivial⟩ ⟨trivial, trivial⟩

theorem unmount_stages : (unmount path).run.All (StagesFrom id path file) :=
  unmount_all (P := StagesFrom id path file) ⟨trivial, trivial⟩ ⟨trivial, trivial⟩ ⟨trivial, trivial⟩ ⟨rfl, trivial⟩

theorem sourceMounted_stages (device : Source) (host : Bool) :
    (sourceMounted device host).run.All (StagesFrom id path file) := by
  refine (issue_all (c := .findmntDevice device host) ⟨trivial, trivial⟩).bind fun r => ?_
  cases r with
  | ok rows => exact Prog.all_ret _ _
  | error e =>
    dsimp only
    split_ifs <;> exact Prog.all_ret _ _

theorem loopBusy_stages (dev : ℕ) : (loopBusy dev).run.All (StagesFrom id path file) := by
  refine Prog.all_run_bind (sourceMounted_stages _ _) fun b => ?_
  cases b with
  | true => exact Prog.all_ret _ _
  | false =>
    refine Prog.all_run_bind (always_all (orFalse_all (sourceMounted_stages _ _))) fun b => ?_
    cases b with
    | true => exact Prog.all_ret _ _
    | false =>
      exact Prog.all_run_bind (Prog.all_attempt (issue_all (c := .holders dev) ⟨trivial, trivial⟩) _)
        fun _ => Prog.all_ret _ _

theorem refuseBusy_stages (loops : List ℕ) : (refuseBusy id loops).run.All (StagesFrom id path file) := by
  induction loops with
  | nil => exact Prog.all_ret _ _
  | cons dev loops ih =>
    refine Prog.all_run_bind (orStatus_all (loopBusy_stages dev) _ _) fun b => ?_
    cases b with
    | true => exact Prog.all_ret _ _
    | false => exact ih

theorem listCrypt_stages : listCrypt.run.All (StagesFrom id path file) :=
  Prog.all_attempt (issue_all (c := .dmList) ⟨trivial, trivial⟩) _

theorem refuseOpen_stages (S : Site) (mode : Mode) :
    (refuseOpen S id mode).run.All (StagesFrom id path file) := by
  cases mode with
  | plain => exact Prog.all_ret _ _
  | encrypted k f =>
    refine Prog.all_run_bind (orStatus_all (Prog.all_run_bind listCrypt_stages
      fun _ => Prog.all_ret _ _) _ _) fun b => ?_
    cases b <;> exact Prog.all_ret _ _

theorem detachEach_stages (loops : List ℕ) : (detachEach loops).run.All (StagesFrom id path file) := by
  induction loops with
  | nil => exact Prog.all_ret _ _
  | cons dev loops ih =>
    exact Prog.all_run_bind (orStatus_all (detachLoop_all ⟨trivial, trivial⟩) _ _) fun _ => ih

theorem loopSectorSize_stages (pageSize : ℕ) (size : ℕ) (encrypted : Bool) :
    (loopSectorSize pageSize file size encrypted).run.All (StagesFrom id path file) := by
  refine Prog.all_run_bind ?_ fun _ => Prog.all_ret _ _
  cases encrypted with
  | true => exact Prog.lift_all (P := fun _ => True) (fun _ _ => ⟨trivial, rfl⟩) (Prog.all_true _)
  | false =>
    refine Prog.all_run_bind (Prog.all_attempt (issue_all (c := .readSuperblock file) ⟨trivial, rfl⟩) _)
      fun sb => ?_
    cases sb <;> exact Prog.all_ret _ _

theorem openTarget_stages (S : Site) (dev : ℕ) (mode : Mode) :
    (openTarget S id dev mode).run.All (StagesFrom id path file) := by
  cases mode with
  | plain => exact Prog.all_ret _ _
  | encrypted k f =>
    refine Prog.all_cleanup ?_ ((detachLoop_all ⟨trivial, trivial⟩).bind fun _ => Prog.all_ret _ _)
    refine Prog.all_run_bind (orStatus_all (Prog.all_attempt
      (issue_all (c := .losetupSetCapacity (some dev)) ⟨trivial, trivial⟩) _) _ _) fun _ => ?_
    refine Prog.all_run_bind (Prog.all_attempt ?_ _) fun _ => Prog.all_ret _ _
    exact Prog.lift_all (P := fun _ => True) (fun _ _ => ⟨trivial, trivial⟩) (Prog.all_true _)

theorem fsck_stages (device : Source) : (fsck device).run.All (StagesFrom id path file) := by
  refine (issue_all (c := .fsck device) ⟨trivial, trivial⟩).bind fun r => ?_
  cases r with
  | ok u => exact Prog.all_ret _ _
  | error e =>
    dsimp only
    split_ifs <;> exact Prog.all_ret _ _

theorem mountAndRecord_stages (req : StageRequest) (image : Str) (dev : ℕ)
    (cryptDev : Option String) : (mountAndRecord req image dev cryptDev).run.All
      (StagesFrom req.volumeID req.stagingTargetPath file) := by
  refine Prog.all_run_bind (orStatus_all (fsck_stages _) _ _) fun _ => ?_
  refine Prog.all_run_bind ?_ fun _ => ?_
  · cases cryptDev with
    | none => exact orStatus_all (Prog.all_attempt
        (issue_all (c := .losetupSetCapacity (some dev)) ⟨trivial, trivial⟩) _) _ _
    | some name => exact Prog.all_ret _ _
  refine Prog.all_run_bind (orStatus_all (Prog.all_attempt
    (issue_all (c := .resize2fs _) ⟨trivial, trivial⟩) _) _ _) fun _ => ?_
  refine Prog.all_run_bind (orStatus_all (Prog.all_attempt
    (issue_all (c := .mkdirAll _) ⟨rfl, trivial⟩) _) _ _) fun _ => ?_
  refine Prog.all_run_bind (orStatus_all (Prog.all_attempt
    (issue_all (c := .mount _ _ _) ⟨rfl, trivial⟩) _) _ _) fun _ => ?_
  refine Prog.all_cleanup (orStatus_all (Prog.all_attempt
    (issue_all (c := .statePut _) ⟨⟨rfl, rfl⟩, trivial⟩) _) _ _) ?_
  exact unmount_stages.bind fun _ => Prog.all_ret _ _

theorem release_stages (dev : ℕ) (cryptDev : Option String) :
    (release dev cryptDev).All (StagesFrom id path file) := by
  have hd : (ignore (detachLoop dev)).All (StagesFrom id path file) :=
    (detachLoop_all ⟨trivial, trivial⟩).bind fun _ => Prog.all_ret _ _
  cases cryptDev with
  | none => exact hd
  | some name =>
    exact Prog.All.bind (Prog.All.bind (closeCrypt_all ⟨trivial, trivial⟩) fun _ => Prog.all_ret _ _) fun _ => hd

theorem cacheKeys_stages (mode : Mode) (replace : Bool) :
    (mode.cacheKeys id replace).run.All (StagesFrom id path file) := by
  cases mode with
  | plain => exact Prog.all_ret _ _
  | encrypted k f => exact always_all (issue_all (c := .keysCache id k replace) ⟨rfl, trivial⟩)

theorem freshStage_stages (S : Site) (req : StageRequest) (image : Str) (size : ℕ)
    (loops : List ℕ) (mode : Mode) : (freshStage S req image size loops mode).run.All
      (StagesFrom req.volumeID req.stagingTargetPath image) := by
  refine Prog.all_run_bind (refuseBusy_stages _) fun _ => ?_
  refine Prog.all_run_bind (refuseOpen_stages S mode) fun _ => ?_
  refine Prog.all_run_bind (detachEach_stages _) fun _ => ?_
  refine Prog.all_run_bind (orStatus_all (loopSectorSize_stages ..) _ _) fun sector => ?_
  refine Prog.all_run_bind (Prog.all_attempt (Prog.all_attempt
    (issue_all (c := .losetupAttach image sector) ⟨trivial, rfl⟩) _) _) fun dev => ?_
  refine Prog.all_run_bind (openTarget_stages S dev mode) fun cryptDev => ?_
  refine Prog.all_run_bind (Prog.all_cleanup (mountAndRecord_stages ..) (release_stages ..)) fun _ => ?_
  exact Prog.all_run_bind (cacheKeys_stages mode true) fun _ =>
    always_all (issue_all (c := .failedClear _) ⟨rfl, trivial⟩)

theorem adoptStage_stages (S : Site) (req : StageRequest) (image : Str) (loops : List ℕ)
    (mode : Mode) : (adoptStage S req image loops mode).run.All
      (StagesFrom req.volumeID req.stagingTargetPath image) := by
  refine Prog.all_run_bind (orStatus_all ?_ _ _) fun src => ?_
  · refine Prog.all_run_bind (Prog.all_attempt (issue_all (c := .findmntSources _) ⟨trivial, trivial⟩) _)
      fun rows => ?_
    cases rows.getLast? <;> exact Prog.all_ret _ _
  refine Prog.all_run_bind ?_ fun found => ?_
  · unfold adoptable
    cases mode with
    | encrypted k f =>
      dsimp only
      split_ifs
      · exact Prog.all_run_bind (orStatus_all listCrypt_stages _ _) fun _ => Prog.all_ret _ _
      · exact Prog.all_ret _ _
    | plain => cases src <;> exact Prog.all_ret _ _
  · cases found with
    | none => exact Prog.all_ret _ _
    | some p =>
      refine Prog.all_run_bind (orStatus_all (Prog.all_attempt
        (issue_all (c := .statePut _) ⟨⟨rfl, rfl⟩, trivial⟩) _) _ _) fun _ => ?_
      exact Prog.all_run_bind (cacheKeys_stages mode true) fun _ =>
        always_all (issue_all (c := .failedClear _) ⟨rfl, trivial⟩)

theorem statImage_stages (backing image : Str) :
    (statImage backing image).run.All (StagesFrom id path image) := by
  refine (issue_all (c := .statImage image) ⟨trivial, rfl⟩).bind fun r => ?_
  cases r with
  | ok size => exact Prog.all_ret _ _
  | error e =>
    refine Prog.All.bind (isMountPoint_stages backing) fun r => ?_
    rcases r with e | _ | _ <;> exact Prog.all_ret _ _

/-- A stage reads and attaches the image of its volume and no other file. -/
theorem stageImage_stages (S : Site) (req : StageRequest) (backing : Str) (mode : Mode)
    (stageMounted : Bool) : (stageImage S req backing mode stageMounted).run.All
      (StagesFrom req.volumeID req.stagingTargetPath (join backing (req.volumeID ++ imageExt))) := by
  refine Prog.all_run_bind (orStatus_all (Prog.all_attempt
    (issue_all (c := .statStore backing) ⟨trivial, trivial⟩) _) _ _) fun _ => ?_
  refine Prog.all_run_bind (statImage_stages _ _) fun size => ?_
  refine Prog.all_run_bind (orStatus_all (findLoops_all ⟨trivial, trivial⟩) _ _) fun loops => ?_
  cases stageMounted with
  | true => exact adoptStage_stages S req _ loops mode
  | false => exact freshStage_stages S req _ size loops mode

theorem stages_of_from (file : Str) {p : Run α} (h : p.All (StagesFrom id path file)) : p.All (Stages id path) :=
  h.mono fun _ h => h.1

theorem stageLocked_stages (S : Site) (req : StageRequest) :
    (stageLocked S req).run.All (Stages req.volumeID req.stagingTargetPath) := by
  unfold stageLocked
  refine Prog.all_run_bind (Prog.all_ret _ _) fun parsed => ?_
  refine Prog.all_run_bind (orStatus_all (Prog.all_attempt
    (issue_all (c := .registryGet parsed.1) trivial) _) _ _) fun backing => ?_
  refine Prog.all_run_bind (Prog.all_ret _ _) fun _ => ?_
  refine Prog.all_run_bind (orStatus_all (stages_of_from [] (isMountPoint_stages _)) _ _) fun mounted => ?_
  refine Prog.all_run_bind (always_all (issue_all (c := .stateGet _) trivial)) fun existing => ?_
  split_ifs
  · exact stages_of_from [] (cacheKeys_stages parsed.2 false)
  · exact stages_of_from _ (stageImage_stages S req backing parsed.2 mounted)

theorem popMounts_stages (left : ℕ) : (popMounts path left).run.All (Stages id path) := by
  induction left with
  | zero =>
    refine Prog.all_run_bind (orStatus_all (stages_of_from [] (isMountPoint_stages _)) _ _) fun b => ?_
    cases b <;> exact Prog.all_ret _ _
  | succ left ih =>
    refine Prog.all_run_bind (orStatus_all (stages_of_from [] (isMountPoint_stages _)) _ _) fun b => ?_
    cases b with
    | false => exact Prog.all_ret _ _
    | true =>
      exact Prog.all_run_bind (orStatus_all (stages_of_from [] unmount_stages) _ _)
        fun _ => ih

theorem tearDown_stages (m : Mapping) : (tearDown m).run.All (Stages m.volumeID m.stagePath) := by
  unfold tearDown
  cases m.loopDev with
  | none => exact Prog.all_ret _ _
  | some dev =>
    refine Prog.all_run_bind ?_ fun _ => ?_
    · unfold closeEntry
      cases m.cryptDev with
      | none => exact Prog.all_ret _ _
      | some name => exact orStatus_all (closeCrypt_all trivial) _ _
    refine Prog.all_run_bind (orStatus_all (detachLoop_all trivial) _ _) fun _ => ?_
    exact orStatus_all (Prog.all_attempt (issue_all (c := .statePut m.blanked) ⟨rfl, rfl⟩) _) _ _

theorem restageEntry_stages (S : Site) (m : Mapping) :
    (restageEntry S m).run.All (Stages m.volumeID m.stagePath) := by
  refine Prog.all_run_bind (orStatus_all (Prog.all_attempt
    (issue_all (c := .mountInfo) trivial) _) _ _) fun entries => ?_
  refine Prog.all_run_bind (Prog.all_ret _ _) fun _ => ?_
  unfold restageUnpublished
  cases m.stageContext with
  | none =>
    exact Prog.all_run_bind (always_all (issue_all (c := .podEvent _) trivial))
      fun _ => Prog.all_ret _ _
  | some context =>
    refine Prog.all_run_bind ?_ fun secrets => ?_
    · unfold restageSecrets
      split_ifs
      · refine Prog.all_run_bind (always_all (issue_all (c := .keysGet _) trivial)) fun k => ?_
        cases k with
        | some k => exact Prog.all_ret _ _
        | none =>
          exact Prog.all_run_bind (always_all (issue_all (c := .podEvent _) trivial))
            fun _ => Prog.all_ret _ _
      · exact Prog.all_ret _ _
    · refine Prog.all_run_bind (Prog.all_attempt (popMounts_stages _) _) fun _ => ?_
      refine Prog.all_run_bind (tearDown_stages m) fun _ => ?_
      exact Prog.all_attempt (stageLocked_stages S (m.stageRequest context secrets)) _

end Footprint
end Fileblock.Node
