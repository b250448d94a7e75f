import Fileblock.Node.Trial

/-! The stage as a whole: wherever it is cut off it is at one of its phases, when it fails it
has taken back what it did, and when nothing stands in its way the volume is staged. -/
namespace Fileblock.Node
open Go Store Interaction

variable {S : Site} {ι : Type} {V : Volumes S ι} {v : ι} {w w' : World} {dev : ℕ}

section Looks
variable {w₁ : World} {loops : List ℕ} {id : VolumeID}

theorem refuseBusy_observes (id : VolumeID) (loops : List ℕ) :
    (refuseBusy id loops).run.All (·.observes = true) := by
  induction loops with
  | nil => exact Prog.all_ret _ _
  | cons dev loops ih =>
    refine Prog.all_run_bind (orStatus_all (loopBusy_observes dev) _ _) fun busy => ?_
    cases busy with
    | true => exact Prog.all_ret _ _
    | false => exact ih

theorem calm_refuseBusy (h : ∀ n ∈ loops, w₁.busy n = false) :
    (refuseBusy id loops).run.wp (calm S) (fun r _ => r = .ok ()) w₁ := by
  induction loops with
  | nil => exact rfl
  | cons dev loops ih =>
    unfold refuseBusy
    rw [Prog.wp_run_bind, wp_orStatus]
    refine calm_loopBusy ?_
    rw [h dev List.mem_cons_self]
    exact ih fun n hn => h n (List.mem_cons_of_mem _ hn)

theorem refuseOpen_observes (id : VolumeID) (mode : Mode) :
    (refuseOpen S id mode).run.All (·.observes = true) := by
  cases mode with
  | plain => exact Prog.all_ret _ _
  | encrypted k f =>
    refine Prog.all_run_bind (orStatus_all (Prog.all_run_bind
      (Prog.all_attempt (issue_observes rfl) _) fun _ => Prog.all_ret _ _) _ _) fun isOpen => ?_
    cases isOpen <;> exact Prog.all_ret _ _

theorem calm_refuseOpen (mode : Mode) (h : w₁.isOpen (S.mapperName id) = false) :
    (refuseOpen S id mode).run.wp (calm S) (fun r _ => r = .ok ()) w₁ := by
  cases mode with
  | plain => exact rfl
  | encrypted k f =>
    unfold refuseOpen isOpenCrypt listCrypt
    rw [Prog.wp_run_bind, wp_orStatus, Prog.wp_run_bind, Prog.wp_attempt]
    refine calm_issue fun o _ => ?_
    show Prog.wp (calm S) (if w₁.isOpen (S.mapperName id) = true then _ else _ : Rpc Unit).run _ w₁
    rw [h]
    exact rfl

theorem calm_sectorSizeCrypt {file : Str} (hp : (w₁.images file).present = true)
    (hs : ∀ h, (w₁.images file).device.header = some h → h.sectorSize ≠ 0) :
    (sectorSizeCrypt file).run.wp (calm S) (fun r _ => ∃ n, r = .ok n ∧ True) w₁ := by
  unfold sectorSizeCrypt Crypt.sectorSize Crypt.isLuks
  rw [ExceptT.run_mk]
  refine (Prog.wp_lift _ _ _ _ _).mpr ?_
  rw [Prog.wp_run_bind, ExceptT.run_mk, Prog.wp_bind]
  intro o ho
  refine ⟨trivial, ?_⟩
  dsimp only
  rw [exec_quiet ho]
  dsimp only [execOk]
  rw [hp, if_pos rfl]
  cases hh : (w₁.images file).device.header with
  | none => exact ⟨0, rfl, trivial⟩
  | some h =>
    simp only [Crypt.execOk, Option.isSome_some, if_true]
    refine (Prog.wp_run_bind _ _ _ _).mpr ((Prog.wp_attempt _ _ _ _).mpr ?_)
    intro o ho
    refine ⟨trivial, ?_⟩
    dsimp only
    rw [exec_quiet ho]
    dsimp only [execOk]
    rw [hp, if_pos rfl]
    simp only [Crypt.execOk, hh]
    show Prog.wp _ (if h.sectorSize = 0 then _ else _ : ExceptT Err Crypt.Run ℕ).run _ w₁
    rw [if_neg (hs h hh)]
    exact ⟨_, rfl, trivial⟩

theorem calm_loopSectorSize {file : Str} {size : ℕ} {encrypted : Bool}
    (hp : (w₁.images file).present = true)
    (hs : encrypted = true → ∀ h, (w₁.images file).device.header = some h → h.sectorSize ≠ 0) :
    (loopSectorSize S.pageSize file size encrypted).run.wp (calm S) (fun r _ => ∃ n, r = .ok n ∧ True)
      w₁ := by
  unfold loopSectorSize
  rw [Prog.wp_run_bind]
  have hrec : (recordedSize file encrypted).run.wp (calm S) (fun r _ => ∃ n, r = .ok n ∧ True) w₁ := by
    cases encrypted with
    | true => exact calm_sectorSizeCrypt hp (hs rfl)
    | false =>
      unfold recordedSize fsBlockSize
      rw [Prog.wp_run_bind, Prog.wp_attempt]
      refine calm_issue fun o _ => ?_
      dsimp only [execOk]
      rw [hp, if_pos rfl]
      dsimp only [Except.mapError]
      cases (w₁.images file).superblock with
      | none => exact ⟨_, rfl, trivial⟩
      | some n => exact ⟨_, rfl, trivial⟩
  refine Prog.wp_mono ?_ hrec
  rintro r w' ⟨n, rfl, -⟩
  exact ⟨_, rfl, trivial⟩

theorem calm_statImage {backing image : Str} (hp : (w₁.images image).present = true) :
    (statImage backing image).run.wp (calm S) (fun r _ => ∃ n, r = .ok n ∧ True) w₁ := by
  unfold statImage
  rw [ExceptT.run_mk, Prog.wp_bind]
  refine calm_issue fun o _ => ?_
  dsimp only [execOk]
  rw [hp, if_pos rfl]
  exact ⟨_, rfl, trivial⟩

theorem calm_mountSource {path : Str} {src : Source}
    (h : (w₁.top (S.resolve path)).map Mount.source = some src) :
    (mountSource path).run.wp (calm S) (fun r _ => r = .ok src) w₁ := by
  have hlast : ((w₁.stack (S.resolve path)).map Mount.source).reverse.getLast? = some src := by
    rw [List.getLast?_reverse, List.head?_map, ← World.top_eq_head, h]
  unfold mountSource shell
  rw [Prog.wp_run_bind, Prog.wp_attempt]
  refine calm_issue fun o _ => ?_
  dsimp only [execOk, rowsOr]
  have hne : ((w₁.stack (S.resolve path)).map Mount.source).reverse.isEmpty = false := by
    by_contra hc
    have hnil := List.isEmpty_iff.mp (Bool.eq_true_of_not_eq_false hc)
    rw [hnil] at hlast
    cases hlast
  rw [hne, if_neg Bool.false_ne_true]
  dsimp only [Except.mapError]
  rw [hlast]
  exact rfl

end Looks

namespace Trial
variable {req : StageRequest} {mode : Mode} {T : Trial V v req mode w} {loops : List ℕ}

theorem wp_freshStage {size : ℕ} (hreq : req.For V v) (hs : Sane V w) (hp : Listed V v loops w)
    (hfree : ¬ T.fails → w.mountedAt (S.resolve req.stagingTargetPath) = false) :
    (freshStage S req (V.image v) size loops mode).run.wp T.regime T.Outcome w := by
  have hstart := TakenBack.refl V v mode w
  have hidle : ¬ T.fails → _ := fun hn => (T.fit hn).idle (hfree hn)
  unfold freshStage
  rw [hreq.volumeID, Prog.wp_run_bind]
  -- the loops that were found are idle
  refine look (K := fun r => r = .ok () → ∀ n ∈ loops, n ∈ [] ∨ w.busy n = false)
    (P := (· = .ok ())) (refuseBusy_observes _ _) hstart.midway ?_ (fun hn => ?_) ?_
  · exact known_of_alone (Q := fun r w => r = .ok () → ∀ n ∈ loops, n ∈ [] ∨ w.busy n = false)
      (refuseBusy_observes _ _) hs (Setting.wp_refuseBusy (b := true) (fun e w _ he => by cases he)
        (fun w _ hp _ => hp.2) (fun _ h => h) ⟨hs, trivial⟩ ⟨hp, fun n hn => Or.inl hn⟩)
  · refine calm_refuseBusy fun n hn' => ?_
    obtain ⟨l, hl, rfl, hf⟩ := hp.mine n hn'
    exact (hidle hn).1 l hl hf
  intro r hbusy hr
  cases r with
  | error e =>
    refine Outcome.error ?_ hstart
    by_contra hn
    cases hr hn
  | ok u =>
    have hbusy := hbusy rfl
    dsimp only
    refine look_bind (P := fun _ => True) (refuseOpen_observes _ _) hstart.midway
      (fun hn => calm_ok (calm_refuseOpen mode (hidle hn).2.1))
      (fun hf e => Outcome.error hf hstart) fun _ _ => ?_
    rw [Prog.wp_run_bind]
    refine wp_detachEach hstart hs ⟨hp, hbusy⟩ (fun hf e w' hu => Outcome.error hf hu) ?_
    intro w₀ hu hs₀ hnone hatt himg
    have hback : TakenBack V v mode w w₀ := ⟨hu, (AsGood.refl V v mode w).congr himg⟩
    refine look_bind (P := fun _ => True) (orStatus_all (loopSectorSize_observes _ _ _) _ _)
      hback.midway (fun hn => ?_) (fun hf e => Outcome.error hf hback) fun sector _ => ?_
    · rw [wp_orStatus]
      refine Prog.wp_mono ?_ (calm_loopSectorSize (by rw [himg]; exact (T.fit hn).present) ?_)
      · rintro r w' ⟨n, rfl, -⟩
        exact ⟨n, rfl, trivial⟩
      · intro he
        cases mode with
        | plain => cases he
        | encrypted k f =>
          rw [himg]
          exact ((hidle hn).2.2 : Crypt.Device.Usable _ _).sector
    rw [Prog.wp_run_bind, Prog.wp_attempt]
    unfold attachLoop
    rw [Prog.wp_attempt]
    refine issue hback.midway (fun hf o e _ _ => Outcome.error hf hback) fun o => ?_
    dsimp only [execOk]
    split_ifs with hpresent
    · have hattach : Attaching V v w w₀ (w₀.freeDev o.pick) := by
        refine ⟨hu, hs₀.toTidy, w₀.freeDev_free o.pick, fun l hl hf => ?_, hatt, by rw [himg]⟩
        have hnil := hnone.eq_nil hpresent
        have hmem := World.mem_loopsOf.mpr ⟨l, hl, hf, rfl⟩
        rw [hnil] at hmem
        cases hmem
      have hheld : Held V v mode w w₀ (w₀.freeDev o.pick)
          { (w₀.images (V.image v)).device with mapped := false }
          (w₀.attach (V.image v) (w₀.freeDev o.pick)) :=
        ⟨hattach, .attach V v w₀ _, fun h => (himg ▸ h : mode.Usable _).setMapped false⟩
      show (openTarget S (V.id v) _ mode >>= fun _ => _).run.wp T.regime _ _
      rw [Prog.wp_run_bind]
      refine wp_openTarget hheld rfl (fun hn => hheld.usable (hidle hn).2.2)
        (fun hf e w' h => Outcome.error hf h) fun d w₁ h hd hfs => ?_
      dsimp only
      rw [Prog.wp_run_bind, Prog.wp_cleanup]
      refine wp_mountAndRecord h hd hfs ?_ ?_
      · exact fun hf e w₂ h => Prog.wp_mono (fun _ w' hb => Outcome.error hf hb) (wp_release h hd)
      · intro w₂ w₃ hst hfile hstate
        refine Prog.wp_mono ?_ (wp_finish (I := fun w' => Staging V v req mode w w₀ w₂ _ d w' ∧
          w'.stateFile = w₃.state ∧ w'.state = w₃.state) (fun w' h => h.1.midway) ?_
          ⟨hst, hfile, rfl⟩)
        · rintro r w' ⟨rfl, hst, hfile, hs'⟩
          refine Or.inr ⟨rfl, hst.midway, fun _ => ⟨_, hst.visible, hfile.trans hs'.symm,
            req.mapping (V.image v) _ _, ?_, rfl, rfl⟩⟩
          rw [hs', hstate, ← hreq.volumeID]
          exact Mapping.get_put w.state (req.mapping (V.image v) _ _)
        · rintro w' keys failed ⟨hst, hf, hs'⟩
          exact ⟨hst.congr rfl rfl rfl rfl rfl rfl, hf, hs'⟩
    · refine Outcome.error ?_ hback
      by_contra hn
      rw [himg, (T.fit hn).present] at hpresent
      exact hpresent rfl

end Trial

/-! A volume that is mounted already. -/

theorem Coherent.loop_of_volume (h : Coherent V w) {dev dev' : ℕ} (ho : V.Owns w v (.loop dev))
    (ho' : V.Owns w v (.loop dev')) : dev = dev' := by
  obtain ⟨l, hl, rfl, hf⟩ := ho
  obtain ⟨l', hl', rfl, hf'⟩ := ho'
  rw [h.file_unique hl hl' (hf.trans hf'.symm)]

theorem wp_adoptable {A : World → Cmd → Choice → Prop} {name : String} {loops : List ℕ}
    {src : Source} {mode : Mode} :
    (adoptable name loops src mode).run.wp ⟨exec S, A, fun _ _ _ => True⟩
      (fun r _ => ∀ x, r = .ok (some x) → x.1 ∈ loops ∧ x.2 = mode.cryptDev name) w := by
  cases mode with
  | plain =>
    cases src with
    | loop dev =>
      intro x hx
      change Except.ok (if dev ∈ loops then some (dev, none) else none) = .ok (some x) at hx
      split_ifs at hx with hd
      · cases hx
        exact ⟨hd, rfl⟩
      · cases hx
    | mapper name => exact fun x hx => by cases hx
    | dir path => exact fun x hx => by cases hx
  | encrypted k f =>
    unfold adoptable
    split_ifs with hsrc
    · unfold listCrypt
      refine (Prog.wp_run_bind _ _ _ _).mpr ((Prog.wp_attempt _ _ _ _).mpr
        ((Prog.wp_attempt _ _ _ _).mpr fun o _ => ⟨trivial, ?_⟩))
      cases (exec S o .dmList w).1 with
      | error e => exact fun x hx => by cases hx
      | ok ms =>
        intro x hx
        change Except.ok (Option.map (fun m => (m.2, some name))
          (ms.filter fun m => m.1 = name ∧ m.2 ∈ loops).getLast?) = .ok (some x) at hx
        cases hlast : (ms.filter fun m => m.1 = name ∧ m.2 ∈ loops).getLast? with
        | none =>
          rw [hlast] at hx
          cases hx
        | some m =>
          rw [hlast] at hx
          cases hx
          have hm := List.mem_filter.mp (List.mem_of_getLast? hlast)
          exact ⟨(by simpa using hm.2 : m.1 = name ∧ m.2 ∈ loops).2, rfl⟩
    · exact fun x hx => by cases hx

theorem calm_adoptable {name : String} {loops : List ℕ} {mode : Mode} (hd : dev ∈ loops)
    (hm : ∀ n, mode.cryptDev name = some n → (n, dev) ∈ w.dm) :
    (adoptable name loops (stageTarget dev (mode.cryptDev name)) mode).run.wp (calm S)
      (fun r _ => ∃ x, r = .ok (some x)) w := by
  cases mode with
  | plain =>
    show ∃ x, Except.ok (if dev ∈ loops then some (dev, none) else none) = .ok (some x)
    rw [if_pos hd]
    exact ⟨_, rfl⟩
  | encrypted k f =>
    show Prog.wp (calm S) (if Source.mapper name = .mapper name then _ else _ : Rpc _).run _ w
    rw [if_pos rfl, Prog.wp_run_bind, wp_orStatus]
    unfold listCrypt
    rw [Prog.wp_attempt]
    refine calm_issue fun o _ => ?_
    show ∃ x, Except.ok (Option.map (fun m => (m.2, some name))
      (w.dm.filter fun m => m.1 = name ∧ m.2 ∈ loops).getLast?) = .ok (some x)
    have hmem : (name, dev) ∈ w.dm.filter fun m => m.1 = name ∧ m.2 ∈ loops :=
      List.mem_filter.mpr ⟨hm name rfl, by simpa using hd⟩
    cases hlast : (w.dm.filter fun m => m.1 = name ∧ m.2 ∈ loops).getLast? with
    | none => exact absurd (List.getLast?_eq_none_iff.mp hlast) (List.ne_nil_of_mem hmem)
    | some m => exact ⟨_, rfl⟩

namespace Noted
variable {req : StageRequest} {mode : Mode} {w₁ : World}

theorem refl (req : StageRequest) (mode : Mode) (hm : w.mountedAt (S.resolve req.stagingTargetPath) = true) :
    Noted V v req mode w w := ⟨hm, rfl, rfl, rfl, rfl, fun _ h => Or.inl h⟩

theorem midway (h : Noted V v req mode w w₁) : Midway V v req mode w w₁ :=
  ⟨(AsGood.refl V v mode w).congr h.images, .noted h⟩

theorem congr (h : Noted V v req mode w w₁) (hl : w'.loops = w₁.loops) (hd : w'.dm = w₁.dm)
    (hi : w'.images = w₁.images) (hm : w'.mounts = w₁.mounts) (hs : w'.state = w₁.state)
    (hf : w'.stateFile = w₁.stateFile) : Noted V v req mode w w' := by
  refine ⟨h.mountedAt, hl.trans h.loops, hd.trans h.dm, hi.trans h.images, hm.trans h.mounts, ?_⟩
  rw [hs, hf]
  exact h.entries

theorem put (h : Noted V v req mode w w₁) (ho : V.Owns w v (.loop dev)) :
    Noted V v req mode w { w₁ with
      state := Mapping.put w₁.state
        (req.mapping (V.image v) (some dev) (mode.cryptDev (V.mapper v)))
      stateFile := Mapping.put w₁.state
        (req.mapping (V.image v) (some dev) (mode.cryptDev (V.mapper v))) } := by
  refine ⟨h.mountedAt, h.loops, h.dm, h.images, h.mounts, fun m hm => ?_⟩
  rcases List.mem_cons.mp ((or_self_iff).mp hm) with rfl | hm
  · exact Or.inr ⟨dev, ho, rfl⟩
  · exact h.entries m (Or.inl (List.mem_of_mem_filter hm))

theorem visible {place : Str} (h : Noted V v req mode w w₁) (hv : Visible V v place mode dev w) :
    Visible V v place mode dev w₁ := by
  obtain ⟨l, hl, hd, hf⟩ := hv.owns
  refine ⟨⟨l, h.loops ▸ hl, hd, hf⟩, ?_, fun name hn => h.dm ▸ hv.mapping name hn⟩
  unfold World.top
  rw [h.mounts]
  exact hv.top

end Noted

namespace Trial
variable {req : StageRequest} {mode : Mode} {T : Trial V v req mode w} {loops : List ℕ}

theorem wp_adoptStage (hreq : req.For V v) (hs : Sane V w) (hp : Listed V v loops w)
    (hm : w.mountedAt (S.resolve req.stagingTargetPath) = true) :
    (adoptStage S req (V.image v) loops mode).run.wp T.regime T.Outcome w := by
  have hstart := TakenBack.refl V v mode w
  have hvisible : ¬ T.fails → _ := fun hn => (T.fit hn).visible hm
  unfold adoptStage
  rw [hreq.volumeID]
  refine look_bind (P := fun src => ∃ dev, Visible V v (S.resolve req.stagingTargetPath) mode dev w ∧
      src = stageTarget dev (mode.cryptDev (V.mapper v)))
    (orStatus_all (mountSource_observes _) _ _)
    hstart.midway (fun hn => ?_) (fun hf e => Outcome.error hf hstart) fun src hsrc => ?_
  · obtain ⟨dev, hv, -⟩ := hvisible hn
    rw [wp_orStatus]
    refine Prog.wp_mono ?_ (calm_mountSource hv.top)
    rintro r w' rfl
    exact ⟨_, rfl, dev, hv, rfl⟩
  rw [Prog.wp_run_bind]
  refine look (K := fun r => ∀ x, r = .ok (some x) → x.1 ∈ loops ∧ x.2 = mode.cryptDev (V.mapper v))
    (P := fun r => ∃ x, r = .ok (some x)) (adoptable_observes _ _ _ _) hstart.midway wp_adoptable
    (fun hn => ?_) fun r hk hr => ?_
  · obtain ⟨dev, hv, rfl⟩ := hsrc hn
    refine calm_adoptable ?_ hv.mapping
    obtain ⟨l, hl, hd⟩ := World.owns_loop.mp hv.owns
    exact hd ▸ hp.known (T.fit hn).present l hl
  · cases r with
    | error e =>
      refine Outcome.error ?_ hstart
      by_contra hn
      obtain ⟨x, hx⟩ := hr hn
      cases hx
    | ok found =>
      cases found with
      | none =>
        refine Outcome.error ?_ hstart
        by_contra hn
        obtain ⟨x, hx⟩ := hr hn
        cases hx
      | some x =>
        obtain ⟨dev, cryptDev⟩ := x
        obtain ⟨hd, rfl⟩ := hk _ rfl
        have ho : V.Owns w v (.loop dev) := hp.mine dev hd
        dsimp only
        rw [Prog.wp_run_bind, wp_orStatus, Prog.wp_attempt]
        refine issue hstart.midway (fun _ o e _ hc => absurd hc (by simp [Cmd.cleans])) fun o => ?_
        have hput := (Noted.refl req mode hm).put ho
        refine Prog.wp_mono ?_ (wp_finish (I := fun w' => Noted V v req mode w w' ∧
          w'.stateFile = w'.state ∧ w'.state = Mapping.put w.state
            (req.mapping (V.image v) (some dev) (mode.cryptDev (V.mapper v))))
          (fun w' h => h.1.midway) ?_ ⟨hput, rfl, rfl⟩)
        · rintro r w' ⟨rfl, hn', hfile, hst⟩
          refine Or.inr ⟨rfl, hn'.midway, fun hn => ?_⟩
          obtain ⟨dev', hv, -⟩ := hvisible hn
          obtain rfl := hs.toCoherent.loop_of_volume hv.owns ho
          refine ⟨dev', hn'.visible hv, hfile, req.mapping (V.image v) _ _, ?_, rfl, rfl⟩
          rw [hst, ← hreq.volumeID]
          exact Mapping.get_put w.state (req.mapping (V.image v) _ _)
        · rintro w' keys failed ⟨hn', hfile, hst⟩
          exact ⟨hn'.congr rfl rfl rfl rfl rfl rfl, hfile, hst⟩

theorem wp_stageImage {stageMounted : Bool} (hreq : req.For V v) (hs : Sane V w)
    (hyes : stageMounted = true → w.mountedAt (S.resolve req.stagingTargetPath) = true)
    (hcalm : ¬ T.fails → stageMounted = w.mountedAt (S.resolve req.stagingTargetPath)) :
    (stageImage S req (S.storePath (V.config v)) mode stageMounted).run.wp T.regime T.Outcome w := by
  have hstart := TakenBack.refl V v mode w
  have himage : join (S.storePath (V.config v)) (V.id v ++ imageExt) = V.image v := rfl
  unfold stageImage
  rw [hreq.volumeID, himage]
  refine look_bind (P := fun _ => True) (orStatus_all (Prog.all_attempt (issue_observes rfl) _) _ _)
    hstart.midway (fun _ => ?_) (fun hf e => Outcome.error hf hstart) fun _ _ => ?_
  · rw [wp_orStatus, Prog.wp_attempt]
    exact calm_issue fun o _ => ⟨(), rfl, trivial⟩
  refine look_bind (P := fun _ => True) (statImage_observes _ _) hstart.midway
    (fun hn => calm_statImage (T.fit hn).present) (fun hf e => Outcome.error hf hstart)
    fun size _ => ?_
  rw [Prog.wp_run_bind, wp_orStatus]
  unfold findBacking findLoops listLoops shell
  rw [Prog.wp_run_bind, Prog.wp_attempt]
  refine issue hstart.midway (fun hf o e _ _ => Outcome.error hf hstart) fun o => ?_
  cases stageMounted with
  | true => exact wp_adoptStage hreq hs (hs.toTidy.listed v) (hyes rfl)
  | false =>
    exact wp_freshStage hreq hs (hs.toTidy.listed v) fun hn => (hcalm hn).symm

theorem wp_stageUnlessStaged {stageMounted : Bool} (hreq : req.For V v) (hs : Sane V w)
    (hyes : stageMounted = true → w.mountedAt (S.resolve req.stagingTargetPath) = true)
    (hcalm : ¬ T.fails → stageMounted = w.mountedAt (S.resolve req.stagingTargetPath)) :
    (stageUnlessStaged S req (S.storePath (V.config v)) mode stageMounted).run.wp T.regime
      T.Outcome w := by
  have hstart := TakenBack.refl V v mode w
  have hrest : Prog.wp T.regime (do
      if (Mapping.get w.state (V.id v)).any (·.stagePath = req.stagingTargetPath) &&
          stageMounted then
        mode.cacheKeys req.volumeID false
      else stageImage S req (S.storePath (V.config v)) mode stageMounted : Rpc Unit).run
      T.Outcome w := by
    split_ifs with hstaged
    · obtain ⟨hentry, hmounted⟩ := Bool.and_eq_true_iff.mp hstaged
      have hm := hyes hmounted
      obtain ⟨m, hget⟩ : ∃ m, Mapping.get w.state (V.id v) = some m := by
        cases hget : Mapping.get w.state (V.id v) with
        | none =>
          rw [hget] at hentry
          cases hentry
        | some m => exact ⟨m, rfl⟩
      have hdone : ∀ keys, T.Outcome (.ok ()) { w with keys } := by
        intro keys
        have hn : Noted V v req mode w { w with keys } :=
          (Noted.refl req mode hm).congr rfl rfl rfl rfl rfl rfl
        refine Or.inr ⟨rfl, hn.midway, fun hc => ?_⟩
        obtain ⟨dev, hv, hent⟩ := (T.fit hc).visible hm
        exact ⟨dev, hn.visible hv, (T.fit hc).filed, m, hget, hent m hget⟩
      cases mode with
      | plain => exact hdone w.keys
      | encrypted k f =>
        have hcache : ∀ o,
            T.Outcome (.ok ()) (execOk S o (.keysCache req.volumeID k false) w).2 := by
          intro o
          dsimp only [execOk]
          split_ifs
          · exact hdone w.keys
          · exact hdone _
        show (always (Node.issue (.keysCache req.volumeID k false)) : Rpc Unit).run.wp T.regime _ w
        rw [Prog.wp_always]
        exact issue hstart.midway (fun _ o e _ _ => hcache o) fun o => hcache o
    · exact wp_stageImage hreq hs hyes hcalm
  unfold stageUnlessStaged
  rw [Prog.wp_run_bind, Prog.wp_always]
  rw [← hreq.volumeID] at hrest
  exact issue hstart.midway (fun _ o e _ _ => hrest) fun o => hrest

/-- A stage as a whole, for a caller that holds the lock. -/
theorem wp_stageLocked (hreq : req.For V v) (hs : Sane V w)
    (hmode : ∀ cfg m, req.parse = .ok (cfg, m) → m = mode) :
    (stageLocked S req).run.wp T.regime T.Outcome w := by
  have hstart := TakenBack.refl V v mode w
  unfold stageLocked
  rw [Prog.wp_run_bind, Prog.wp_known]
  cases hparse : req.parse with
  | error e =>
    refine Outcome.error ?_ hstart
    by_contra hn
    exact absurd (hparse.symm.trans (T.fit hn).parse) (by simp)
  | ok parsed =>
    obtain ⟨cfg, m⟩ := parsed
    obtain rfl := hreq.parse hparse
    obtain rfl := hmode _ _ hparse
    dsimp only
    rw [Prog.wp_run_bind, wp_orStatus, Prog.wp_attempt]
    refine issue hstart.midway (fun hf o e _ _ => Outcome.error hf hstart) fun o => ?_
    dsimp only [execOk, Except.mapError]
    rw [Prog.wp_run_bind, Prog.wp_known]
    cases hcap : validateCapability req.capability with
    | error e =>
      refine Outcome.error ?_ hstart
      by_contra hn
      exact absurd (hcap.symm.trans (T.fit hn).capability) (by simp)
    | ok u =>
      dsimp only
      rw [Prog.wp_run_bind, wp_orStatus]
      refine look (K := fun r => r = .ok true → w.mountedAt (S.resolve req.stagingTargetPath) = true)
        (P := (· = .ok (w.mountedAt (S.resolve req.stagingTargetPath)))) (isMountPoint_observes _) hstart.midway
        ?_ (fun hn => ?_) ?_
      · exact known_of_alone (Q := fun r w => r = .ok true → w.mountedAt (S.resolve req.stagingTargetPath) = true)
          (isMountPoint_observes _) hs (Setting.wp_isMountPoint (b := true) (P := fun _ => True)
            (steady_true V v) ⟨hs, trivial⟩ trivial (fun e w _ _ h => by cases h)
            (fun w _ _ h => by cases h) (fun w _ _ h _ => h))
      · have hpath := (T.fit hn).printed
        refine calm_isMountPoint hpath (fun hm => ?_) (by rw [hpath.canonical])
        obtain ⟨m, hmem, ht⟩ := World.mountedAt_iff.mp hm
        exact ht ▸ hs.paths m hmem
      · intro r hk hr
        cases r with
        | error e =>
          refine Outcome.error ?_ hstart
          by_contra hn
          cases hr hn
        | ok b =>
          refine wp_stageUnlessStaged hreq hs (fun hb => hk (congrArg Except.ok hb)) fun hn => ?_
          exact Except.ok.inj (hr hn)

end Trial

end Fileblock.Node
