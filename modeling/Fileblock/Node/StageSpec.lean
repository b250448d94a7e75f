import Fileblock.Node.StageRules

/-! `stageLocked` as a whole. -/
namespace Fileblock.Node
open Go Store Interaction

variable {S : Site} {ι : Type} {V : Volumes S ι} {v : ι} {w : World}

/-- The request is one the kubelet makes for the volume. -/
structure StageRequest.For (req : StageRequest) (V : Volumes S ι) (v : ι) : Prop where
  volumeID : req.volumeID = V.id v
  path : req.stagingTargetPath ∈ V.paths v
  context : req.volumeContext = V.context v

theorem StageRequest.For.place {req : StageRequest} (h : req.For V v) :
    S.resolve req.stagingTargetPath ∈ V.places v := V.mem_places h.path

theorem StageRequest.For.parse {req : StageRequest} (h : req.For V v) {cfg : Config} {mode : Mode}
    (hp : req.parse = .ok (cfg, mode)) : cfg = V.config v := by
  unfold StageRequest.parse at hp
  rw [h.context, V.parsed v] at hp
  dsimp only at hp
  split_ifs at hp
  · cases hk : keysFromSecrets req.secrets with
    | error s => simp [hk] at hp
    | ok k =>
      cases hf : formatFromParams (V.context v) true with
      | error e => simp [hk, hf] at hp
      | ok f =>
        simp only [hk, hf, Except.ok.injEq, Prod.mk.injEq] at hp
        exact hp.1.symm
  · simp only [Except.ok.injEq, Prod.mk.injEq] at hp
    exact hp.1.symm

theorem StageRequest.For.records {req : StageRequest} (h : req.For V v) (dev : Option ℕ)
    {cryptDev : Option String} (hc : ∀ name, cryptDev = some name → name = V.mapper v) :
    (req.mapping (V.image v) dev cryptDev).Records V v :=
  ⟨h.volumeID, rfl, h.path, hc, fun _ he => (Option.some.inj he).symm.trans h.context⟩

theorem Listed.eq_nil (h : Listed V v [] w) (hp : (w.images (V.image v)).present = true) :
    w.loopsOf (V.image v) = [] :=
  List.eq_nil_iff_forall_not_mem.mpr fun l hl => List.not_mem_nil (h.known hp l hl)

theorem attached_attach (V : Volumes S ι) (v : ι) (dev : ℕ) (w : World) :
    Attached V v dev (w.attach (V.image v) dev) := by
  refine ⟨_, World.mem_loopsOf.mpr ⟨_, List.mem_append_right _ List.mem_cons_self, rfl, rfl⟩, rfl, rfl⟩

namespace Setting
variable {E : Setting V v} {b : Bool} {loops : List ℕ} {P : World → Prop}

theorem wp_watched {α : Type} {p : Run α} (hall : p.All E.watches) (hP : Steady V v P)
    (h : E.Inv b w ∧ P w) : p.wp E.regime (fun _ w => E.Inv b w ∧ P w) w :=
  wp_watch hall hP h.1 h.2 fun _ _ hi hp => ⟨hi, hp⟩

theorem watches_isOpenCrypt (name : String) : (isOpenCrypt name).run.All E.watches := by
  unfold isOpenCrypt listCrypt issue
  exact Prog.all_run_bind (Prog.all_attempt ((Prog.all_perform _ _).mpr ⟨rfl, fun _ => trivial⟩) _)
    fun _ => Prog.all_ret _ _

theorem watches_refuseOpen (id : VolumeID) (mode : Mode) :
    (refuseOpen S id mode).run.All E.watches := by
  cases mode with
  | plain => exact Prog.all_ret _ _
  | encrypted k f =>
    refine Prog.all_run_bind (Prog.all_attempt (watches_isOpenCrypt _) _) fun isOpen => ?_
    cases isOpen <;> exact Prog.all_ret _ _

theorem watches_isMountPoint (path : Str) : (isMountPoint path).run.All E.watches :=
  isMountPoint_all ⟨rfl, fun _ => trivial⟩ ⟨rfl, fun _ => trivial⟩ ⟨rfl, fun _ => trivial⟩

theorem watches_statImage (backing image : Str) : (statImage backing image).run.All E.watches := by
  unfold statImage issue
  rw [ExceptT.run_mk]
  refine Prog.All.bind ((Prog.all_perform _ _).mpr ⟨rfl, fun _ => trivial⟩) fun r => ?_
  cases r with
  | ok size => exact Prog.all_ret _ _
  | error e =>
    refine (watches_isMountPoint backing).bind fun r => ?_
    rcases r with e | (_ | _) <;> exact Prog.all_ret _ _

theorem watches_loopSectorSize (file : Str) (size : ℕ) (encrypted : Bool) :
    (loopSectorSize S.pageSize file size encrypted).run.All E.watches := by
  unfold loopSectorSize
  refine Prog.all_run_bind ?_ fun _ => Prog.all_ret _ _
  cases encrypted with
  | true => exact Prog.lift_all (fun c _ => ⟨rfl, fun _ => trivial⟩) (Prog.all_true _)
  | false =>
    refine Prog.all_run_bind (Prog.all_attempt ((Prog.all_perform _ _).mpr ⟨rfl, fun _ => trivial⟩) _)
      fun sb => ?_
    cases sb <;> exact Prog.all_ret _ _

theorem watches_mountSource (path : Str) : (mountSource path).run.All E.watches := by
  unfold mountSource shell issue
  refine Prog.all_run_bind (Prog.all_attempt ((Prog.all_perform _ _).mpr ⟨rfl, fun _ => trivial⟩) _)
    fun rows => ?_
  cases rows.getLast? <;> exact Prog.all_ret _ _

theorem wp_cacheKeys {mode : Mode} {replace : Bool} (hP : Steady V v P)
    (hs : ∀ w w', w.SameTables w' → P w → P w') (h : E.Inv b w ∧ P w) :
    (mode.cacheKeys (V.id v) replace).run.wp E.regime (fun r w => r = .ok () ∧ E.Inv b w ∧ P w) w := by
  cases mode with
  | plain => exact ⟨rfl, h⟩
  | encrypted k f =>
    unfold Mode.cacheKeys Node.cacheKeys
    rw [Prog.wp_always]
    exact wp_remember (c := .keysCache (V.id v) k replace) rfl (by simp) hP hs h.1 h.2
      (fun _ => rfl) fun _ w hi hp => ⟨rfl, hi, hp⟩

theorem wp_finish {mode : Mode} {p : Str} {Q : Except Status Unit → World → Prop}
    (hplace : p ∈ V.places v) (hi : E.Inv b w) (hp : w.mountedAt p = true)
    (hok : ∀ w, E.Over w → w.mountedAt p = true → Q (.ok ()) w) :
    Prog.wp E.regime (do
      mode.cacheKeys (V.id v) true
      always (issue (.failedClear (V.id v))) : Rpc Unit).run Q w := by
  rw [Prog.wp_run_bind]
  refine Prog.wp_mono ?_ (wp_cacheKeys (steady_mountedAt hplace) ?_ ⟨hi, hp⟩)
  · rintro r w ⟨rfl, hi, hp⟩
    dsimp only
    rw [Prog.wp_always]
    refine wp_clear (steady_mountedAt hplace) hi hp (fun _ hp => Or.inl ⟨p, hplace, hp⟩) ?_
    exact fun w failed hs hh hp => hok _ ⟨hs, hh⟩ hp
  · exact fun _ _ hs => hs.mountedAt

theorem wp_freshStage {req : StageRequest} {size : ℕ} {mode : Mode}
    {Q : Except Status Unit → World → Prop} (hreq : req.For V v) (hi : E.Inv false w)
    (hp : Listed V v loops w) (herr : ∀ e w, E.Over w → Q (.error e) w)
    (hok : ∀ w, E.Over w → w.mountedAt (S.resolve req.stagingTargetPath) = true → Q (.ok ()) w) :
    (freshStage S req (V.image v) size loops mode).run.wp E.regime Q w := by
  unfold freshStage
  rw [hreq.volumeID, Prog.wp_run_bind]
  refine wp_refuseBusy (fun e w hi => herr e w hi.over) (fun w hi hp => ?_) (fun _ h => h) hi
    ⟨hp, fun n hn => Or.inl hn⟩
  refine Prog.wp_seq (wp_watched (watches_refuseOpen _ _) (steady_idle V v loops []) ⟨hi, hp⟩)
    (fun e w h => herr e w h.1.over) fun _ w h => ?_
  rw [Prog.wp_run_bind]
  refine wp_detachEach (fun e w hi => herr e w hi.over) (fun w hi hp => ?_) h.1 h.2
  refine Prog.wp_seq ((wp_orStatus _ _ _ _ _).mpr
    (wp_watched (watches_loopSectorSize _ _ _) (steady_listed V v []) ⟨hi, hp⟩))
    (fun e w h => herr e w h.1.over) fun sector w h => ?_
  rw [Prog.wp_run_bind, Prog.wp_attempt]
  refine wp_attachLoop (steady_listed V v []) h.1 h.2 (fun w hp => hp.eq_nil)
    (fun e w hi _ => herr _ w hi.over) fun w dev hi => ?_
  dsimp only [Except.mapError]
  rw [Prog.wp_run_bind]
  refine wp_openTarget hi (attached_attach V v dev w) (fun e w hi => herr e w hi.over) ?_
  intro cryptDev w hc hi hp
  dsimp only
  rw [Prog.wp_run_bind, Prog.wp_cleanup]
  refine wp_mountAndRecord hreq.path (hreq.records (some dev) hc) ⟨hi, hp⟩ ?_ ?_
  · exact fun e w h => wp_release h.1 h.2 hc fun w hi => herr e w hi.over
  · exact fun w hi hm => wp_finish hreq.place hi hm hok

theorem wp_adoptable {src : Source} {mode : Mode}
    {Q : Except Status (Option (ℕ × Option String)) → World → Prop} (hP : Steady V v P)
    (h : E.Inv b w ∧ P w) (herr : ∀ e w, E.Inv b w ∧ P w → Q (.error e) w)
    (hnone : ∀ w, E.Inv b w ∧ P w → Q (.ok none) w)
    (hsome : ∀ dev cryptDev w, (∀ name, cryptDev = some name → name = V.mapper v) →
      E.Inv b w ∧ P w → Q (.ok (some (dev, cryptDev))) w) :
    (adoptable (S.mapperName (V.id v)) loops src mode).run.wp E.regime Q w := by
  cases mode with
  | plain =>
    cases src with
    | loop dev =>
      show Q (.ok (if dev ∈ loops then some (dev, none) else none)) w
      split_ifs
      · exact hsome dev none w (by simp) h
      · exact hnone w h
    | mapper name => exact hnone w h
    | dir path => exact hnone w h
  | encrypted k f =>
    unfold adoptable
    split_ifs
    · rw [Prog.wp_run_bind, wp_orStatus, listCrypt, Prog.wp_attempt]
      refine wp_see rfl hP h.1 h.2 (fun _ _ _ => trivial) fun w o hi hp _ => ?_
      cases (step S o .dmList w).1 with
      | error e => exact herr _ w ⟨hi, hp⟩
      | ok ms =>
        dsimp only [Except.mapError]
        rw [Prog.wp_run_pure]
        cases (ms.filter fun m => m.1 = S.mapperName (V.id v) ∧ m.2 ∈ loops).getLast? with
        | none => exact hnone w ⟨hi, hp⟩
        | some m =>
          exact hsome m.2 (some (V.mapper v)) w (fun _ he => (Option.some.inj he).symm) ⟨hi, hp⟩
    · exact hnone w h

theorem wp_adoptStage {req : StageRequest} {mode : Mode} {Q : Except Status Unit → World → Prop}
    (hreq : req.For V v) (hi : E.Inv b w)
    (hp : w.mountedAt (S.resolve req.stagingTargetPath) = true)
    (herr : ∀ e w, E.Over w → Q (.error e) w)
    (hok : ∀ w, E.Over w → w.mountedAt (S.resolve req.stagingTargetPath) = true → Q (.ok ()) w) :
    (adoptStage S req (V.image v) loops mode).run.wp E.regime Q w := by
  have hP := steady_mountedAt hreq.place
  unfold adoptStage
  refine Prog.wp_seq ((wp_orStatus _ _ _ _ _).mpr (wp_watched (watches_mountSource _) hP ⟨hi, hp⟩))
    (fun e w h => herr e w h.1.over) fun src w h => ?_
  rw [hreq.volumeID, Prog.wp_run_bind]
  refine wp_adoptable hP h (fun e w h => herr e w h.1.over) (fun w h => herr _ w h.1.over) ?_
  intro dev cryptDev w hc h
  have hput : Prog.wp E.regime (attempt (issue (.statePut (req.mapping (V.image v) (some dev) cryptDev)))
      sysErr).run (fun _ w => E.Inv b w ∧ w.mountedAt (S.resolve req.stagingTargetPath) = true) w := by
    rw [Prog.wp_attempt]
    exact wp_remember (c := .statePut _) rfl (by simp) hP (fun _ _ hs => hs.mountedAt)
      h.1 h.2 (fun _ => hreq.records (some dev) hc) fun _ w hi hp => ⟨hi, hp⟩
  exact Prog.wp_seq ((wp_orStatus _ _ _ _ _).mpr hput) (fun e w h => herr e w h.1.over)
    fun _ w h => wp_finish hreq.place h.1 h.2 hok

theorem wp_registryGet {cfg : Config} {Q : Except Status Str → World → Prop} (hP : Steady V v P)
    (h : E.Inv b w ∧ P w) (herr : ∀ e w, E.Inv b w ∧ P w → Q (.error e) w)
    (hok : ∀ w, E.Inv b w ∧ P w → Q (.ok (S.storePath cfg)) w) :
    Prog.wp E.regime (orStatus .internal "mount backing store: "
      (attempt (issue (.registryGet cfg)) sysErr)).run Q w := by
  rw [wp_orStatus, Prog.wp_attempt]
  refine wp_see rfl hP h.1 h.2 (fun _ _ _ => trivial) fun w o hi hp _ => ?_
  unfold step
  cases o.fault with
  | some e => exact herr _ w ⟨hi, hp⟩
  | none => exact hok w ⟨hi, hp⟩

theorem wp_stageImage {req : StageRequest} {mode : Mode} {stageMounted : Bool}
    {Q : Except Status Unit → World → Prop} (hreq : req.For V v)
    (h : E.Inv false w ∧
      (stageMounted = true → w.mountedAt (S.resolve req.stagingTargetPath) = true))
    (herr : ∀ e w, E.Over w → Q (.error e) w)
    (hok : ∀ w, E.Over w → w.mountedAt (S.resolve req.stagingTargetPath) = true → Q (.ok ()) w) :
    (stageImage S req (S.storePath (V.config v)) mode stageMounted).run.wp E.regime Q w := by
  have hP : Steady V v fun w =>
      stageMounted = true → w.mountedAt (S.resolve req.stagingTargetPath) = true :=
    fun w w' ht ht' hf hp hs => steady_mountedAt hreq.place w w' ht ht' hf (hp hs)
  have himage : join (S.storePath (V.config v)) (V.id v ++ imageExt) = V.image v := rfl
  unfold stageImage
  rw [hreq.volumeID, himage]
  refine Prog.wp_seq ((wp_orStatus _ _ _ _ _).mpr (wp_watched (Prog.all_attempt
    ((Prog.all_perform _ _).mpr ⟨rfl, fun _ => trivial⟩) _) hP h))
    (fun e w h => herr e w h.1.over) fun _ w h => ?_
  refine Prog.wp_seq (wp_watched (watches_statImage _ _) hP h) (fun e w h => herr e w h.1.over)
    fun size w h => ?_
  rw [Prog.wp_run_bind, wp_orStatus]
  refine wp_findLoops hP h.1 h.2 (fun e w hi _ => herr _ w hi.over) fun w hi hp => ?_
  have hlisted := hi.sane.toTidy.listed v
  cases stageMounted with
  | true => exact wp_adoptStage hreq hi (hp rfl) herr hok
  | false => exact wp_freshStage hreq hi hlisted herr hok

theorem wp_stageUnlessStaged {req : StageRequest} {mode : Mode} {stageMounted : Bool}
    {Q : Except Status Unit → World → Prop} (hreq : req.For V v)
    (h : E.Inv false w ∧
      (stageMounted = true → w.mountedAt (S.resolve req.stagingTargetPath) = true))
    (herr : ∀ e w, E.Over w → Q (.error e) w)
    (hok : ∀ w, E.Over w → w.mountedAt (S.resolve req.stagingTargetPath) = true → Q (.ok ()) w) :
    (stageUnlessStaged S req (S.storePath (V.config v)) mode stageMounted).run.wp E.regime Q w := by
  have hP : Steady V v fun w =>
      stageMounted = true → w.mountedAt (S.resolve req.stagingTargetPath) = true :=
    fun w w' ht ht' hf hp hs => steady_mountedAt hreq.place w w' ht ht' hf (hp hs)
  unfold stageUnlessStaged
  rw [Prog.wp_run_bind, Prog.wp_always]
  refine wp_see rfl hP h.1 h.2 (fun _ _ _ => trivial) fun w o hi hp _ => ?_
  dsimp only
  split_ifs with hexisting
  · have hmounted := hp (Bool.and_eq_true_iff.mp hexisting).2
    rw [hreq.volumeID]
    refine Prog.wp_mono ?_ (wp_cacheKeys (steady_mountedAt hreq.place) (fun _ _ hs => hs.mountedAt)
      ⟨hi, hmounted⟩)
    rintro r w ⟨rfl, hi, hp⟩
    exact hok w hi.over hp
  · exact wp_stageImage hreq ⟨hi, hp⟩ herr hok

/-- Whatever the request asks for and whatever fails, the operation keeps to its
volume, and success means that the staging path is mounted. -/
theorem wp_stageLocked {req : StageRequest} {Q : Except Status Unit → World → Prop}
    (hreq : req.For V v) (hi : E.Inv false w) (herr : ∀ e w, E.Over w → Q (.error e) w)
    (hok : ∀ w, E.Over w → w.mountedAt (S.resolve req.stagingTargetPath) = true → Q (.ok ()) w) :
    (stageLocked S req).run.wp E.regime Q w := by
  unfold stageLocked
  rw [Prog.wp_run_bind, Prog.wp_known]
  cases hparse : req.parse with
  | error e => exact herr e w hi.over
  | ok parsed =>
    obtain ⟨cfg, mode⟩ := parsed
    obtain rfl := hreq.parse hparse
    dsimp only
    rw [Prog.wp_run_bind]
    refine wp_registryGet (steady_true V v) ⟨hi, trivial⟩ (fun e w h => herr e w h.1.over) ?_
    intro w h
    dsimp only
    rw [Prog.wp_run_bind, Prog.wp_known]
    cases validateCapability req.capability with
    | error e => exact herr e w h.1.over
    | ok u =>
      dsimp only
      rw [Prog.wp_run_bind, wp_orStatus]
      refine wp_isMountPoint (steady_true V v) h.1 trivial (fun e w hi _ => herr _ w hi.over) ?_ ?_
      · exact fun w hi _ => wp_stageUnlessStaged hreq ⟨hi, by simp⟩ herr hok
      · exact fun w hi _ hm => wp_stageUnlessStaged hreq ⟨hi, fun _ => hm⟩ herr hok

end Setting
end Fileblock.Node
