import Fileblock.Controller.Filed
import Fileblock.Node.Inside

/-! Which image files the requests look at, create, truncate and remove: direct children of the
directory of their store. -/
namespace Fileblock.Controller
open Go Store Interaction
open Registry (Setup Caller CheckRes MountName Targets)
open Image (imageFile sidecarFile validateVolumeID)
open Node (Names Child nul)

/-- The file that a command looks at, creates or removes; `truncate` goes by the file that was
opened. -/
def Cmd.image? : Cmd → Option Str
  | .image root (.stat name) | .image root (.openFile name) | .image root (.mkfs name)
  | .image root (.remove name) => some (join root name)
  | _ => none

/-- A config that some parameters give. -/
def Accepted (cfg : Config) : Prop := ∃ params, configFromParams params = .ok cfg

def InDirectory : Image.Cmd → Prop
  | .stat name | .openFile name | .mkfs name | .remove name => Proper name
  | _ => True

section Images
variable {root volumeID : Str}

theorem names_of_valid (h : validateVolumeID volumeID = .ok ()) : Names volumeID := by
  unfold validateVolumeID at h
  split_ifs at h with hne hany
  have hno : ∀ c ∈ ['/', '\\', Char.ofNat 0], c ∉ volumeID := by
    intro c hc hmem
    exact hany (List.any_eq_true.mpr ⟨c, hmem, by simpa using hc⟩)
  exact ⟨hne, hno _ (by simp), hno _ (by simp [nul])⟩

theorem proper_imageFile (h : validateVolumeID volumeID = .ok ()) : Proper (imageFile volumeID) :=
  imageName_proper (names_of_valid h).2.1

theorem proper_sidecarFile (h : validateVolumeID volumeID = .ok ()) : Proper (sidecarFile volumeID) := by
  have hlen : 5 ≤ (sidecarFile volumeID).length := by simp [sidecarFile]
  constructor
  · intro he
    simp [he] at hlen
  · intro he
    simp [he] at hlen
  · intro he
    simp [he] at hlen
  · intro hs
    rcases List.mem_append.mp hs with hs | hs
    · exact (names_of_valid h).2.1 hs
    · exact absurd hs (by decide)

theorem issue_inDirectory {c : Image.Cmd} (h : InDirectory c) : (Image.issue c).All InDirectory :=
  (Prog.all_perform _ _).mpr h

theorem new_inDirectory : (Image.new root).run.All InDirectory :=
  Prog.all_run_bind (Prog.all_attempt (issue_inDirectory (c := .statRoot) trivial) _)
    fun _ => Prog.all_ret _ _

theorem truncateSparse_inDirectory {name : Str} (h : Proper name) (size : ℤ) :
    (Image.truncateSparse root name size).run.All InDirectory :=
  Prog.all_run_bind (Prog.all_attempt (issue_inDirectory (c := .openFile name) h) _) fun ino =>
    Prog.all_attempt (issue_inDirectory (c := .truncate ino size) trivial) _

theorem create_inDirectory (capacity : ℤ) (unformatted : Bool) :
    (Image.create root volumeID capacity unformatted).run.All InDirectory := by
  unfold Image.create
  cases hid : validateVolumeID volumeID with
  | error e => exact Prog.all_ret _ _
  | ok _ =>
    have hname := proper_imageFile hid
    refine Prog.all_run_bind (Prog.all_ret _ _) fun _ => ?_
    refine Prog.all_run_bind (Prog.all_ret _ _) fun _ => ?_
    refine Prog.all_run_bind (Prog.all_attempt (issue_inDirectory (c := .stat _) hname) _)
      fun found => ?_
    cases found with
    | some size => exact Prog.all_ret _ _
    | none =>
      refine Prog.all_run_bind (Prog.all_attempt (truncateSparse_inDirectory hname _) _) fun _ => ?_
      cases unformatted with
      | true => exact Prog.all_ret _ _
      | false =>
        refine Prog.all_run_bind (Prog.all_cleanup ?_ ?_) fun _ => Prog.all_ret _ _
        · exact Prog.all_attempt (issue_inDirectory (c := .mkfs _) hname) _
        · exact (issue_inDirectory (c := .remove _) hname).bind fun _ => Prog.all_ret _ _

theorem delete_inDirectory : (Image.delete volumeID).run.All InDirectory := by
  unfold Image.delete
  cases hid : validateVolumeID volumeID with
  | error e => exact Prog.all_ret _ _
  | ok _ =>
    refine Prog.all_run_bind (Prog.all_ret _ _) fun _ => ?_
    refine Prog.all_run_bind (Prog.all_attempt
      (issue_inDirectory (c := .remove _) (proper_imageFile hid)) _) fun _ => ?_
    refine Prog.all_run_bind ?_ fun _ => Prog.all_ret _ _
    exact (issue_inDirectory (c := .remove _) (proper_sidecarFile hid)).bind
      fun _ => Prog.all_ret _ _

theorem get_inDirectory : (Image.get root volumeID).run.All InDirectory := by
  unfold Image.get
  cases hid : validateVolumeID volumeID with
  | error e => exact Prog.all_ret _ _
  | ok _ =>
    refine Prog.all_run_bind (Prog.all_ret _ _) fun _ => ?_
    refine Prog.all_run_bind (Prog.all_attempt
      (issue_inDirectory (c := .stat _) (proper_imageFile hid)) _) fun found => ?_
    cases found <;> exact Prog.all_ret _ _

theorem resize_inDirectory (capacity : ℤ) :
    (Image.resize root volumeID capacity).run.All InDirectory := by
  unfold Image.resize
  cases hid : validateVolumeID volumeID with
  | error e =>
    unfold Image.get
    rw [hid]
    exact Prog.all_ret _ _
  | ok _ =>
    refine Prog.all_run_bind get_inDirectory fun found => ?_
    split_ifs
    · exact Prog.all_ret _ _
    · exact Prog.all_ret _ _
    · exact Prog.all_run_bind (truncateSparse_inDirectory (proper_imageFile hid) _)
        fun _ => Prog.all_ret _ _

end Images

section Machine
variable {P : Type} [DecidableEq P] {W : Setup} {place : Source → Str → P} {w : World P}
  {resolved : Config → Prop} {cfg : Config} {t : Caller} {ε α : Type}

/-- The caches lead where the registry mounts things, and hold configs that were accepted. -/
structure Sound (W : Setup) (w : World P) : Prop where
  mounted : Targets W w.reg.mounted
  configs : ∀ id cfg, w.reg.configs.lookup id = some cfg → Accepted cfg

/-- What is cached is sound, and files are looked at in the directory of a resolved config. -/
def Keeps (W : Setup) (resolved : Config → Prop) : Cmd → Prop
  | .registry _ (.putMounted m path) => MountName m ∧ path = W.target m
  | .registry _ (.putStore _ _ cfg) => Accepted cfg
  | .image root c => InDirectory c ∧ ∃ cfg, Accepted cfg ∧ resolved cfg ∧ root = W.storePath cfg
  | _ => True

theorem Sound.exec (h : Sound W w) {c : Cmd} (hc : Keeps W resolved c) (o : Choice) :
    Sound W (Controller.exec W place o c w).2 := by
  cases c with
  | registry t c =>
    by_cases hidle : Idle c
    · obtain ⟨hm, -, hconfigs, -, -⟩ := exec_idle W place t hidle o w
      constructor
      · rw [hm]
        exact h.mounted
      · rw [hconfigs]
        exact h.configs
    · cases c with
      | evict m path =>
        constructor
        · intro m' p hp
          change ((arrived w.reg o).mounted.erase m).lookup m' = some p at hp
          rw [arrived_mounted] at hp
          by_cases hm : m' = m
          · rw [hm, AList.lookup_erase] at hp
            cases hp
          · rw [AList.lookup_erase_ne hm] at hp
            exact h.mounted m' p hp
        · intro id cfg hp
          change (arrived w.reg o).configs.lookup id = some cfg at hp
          rw [arrived_configs] at hp
          exact h.configs id cfg hp
      | mount target cfg =>
        have hmaps : ∀ s : Registry.State,
            (Registry.exec t ⟨o.fault, o.timeout⟩ (.mount target cfg) s).2.mounted = s.mounted ∧
            (Registry.exec t ⟨o.fault, o.timeout⟩ (.mount target cfg) s).2.configs = s.configs := by
          intro s
          simp only [Registry.exec, Registry.act]
          split_ifs <;> exact ⟨rfl, rfl⟩
        obtain ⟨hm, hconfigs⟩ := hmaps (arrived w.reg o)
        constructor
        · exact hm.trans (arrived_mounted _ _) ▸ h.mounted
        · exact hconfigs.trans (arrived_configs _ _) ▸ h.configs
      | putMounted m path =>
        constructor
        · intro m' p hp
          change ((arrived w.reg o).mounted.insert m path).lookup m' = some p at hp
          rw [arrived_mounted] at hp
          by_cases hm : m' = m
          · rw [hm, AList.lookup_insert] at hp
            rw [hm, ← Option.some.inj hp]
            exact hc
          · rw [AList.lookup_insert_ne hm] at hp
            exact h.mounted m' p hp
        · intro id cfg hp
          change (arrived w.reg o).configs.lookup id = some cfg at hp
          rw [arrived_configs] at hp
          exact h.configs id cfg hp
      | putStore id sub cfg =>
        constructor
        · intro m p hp
          change (arrived w.reg o).mounted.lookup m = some p at hp
          rw [arrived_mounted] at hp
          exact h.mounted m p hp
        · intro id' cfg' hp
          change ((arrived w.reg o).configs.insert id cfg).lookup id' = some cfg' at hp
          rw [arrived_configs] at hp
          by_cases hid : id' = id
          · rw [hid, AList.lookup_insert] at hp
            rw [← Option.some.inj hp]
            exact hc
          · rw [AList.lookup_insert_ne hid] at hp
            exact h.configs id' cfg' hp
      | _ => exact absurd trivial hidle
  | configByStoreID id => exact h
  | mountedPaths => exact h
  | image root c => exact ⟨h.mounted, h.configs⟩

/-- While the caches are sound, only commands with `Keeps` are issued, and what comes of them
without an error has `Q`. -/
abbrev swp (W : Setup) (place : Source → Str → P) (resolved : Config → Prop)
    (x : ExceptT ε Run α) (Q : α → World P → Prop) (w : World P) : Prop :=
  Prog.wpOk ⟨Controller.exec W place, fun w _ _ => Sound W w, fun _ c _ => Keeps W resolved c⟩ x Q w

/-- The same for a part of `Get`. -/
abbrev kwp (W : Setup) (place : Source → Str → P) (resolved : Config → Prop) (t : Caller)
    (p : Registry.Run α) (Q : α → World P → Prop) (w : World P) : Prop :=
  p.wp ⟨fun o c w => Controller.exec W place o (.registry t c) w, fun w _ _ => Sound W w,
    fun _ c _ => Keeps W resolved (.registry t c)⟩ Q w

/-- The same for a part that may fail. -/
abbrev kwpOk (W : Setup) (place : Source → Str → P) (resolved : Config → Prop) (t : Caller)
    (x : ExceptT ε Registry.Run α) (Q : α → World P → Prop) (w : World P) : Prop :=
  Prog.wpOk ⟨fun o c w => Controller.exec W place o (.registry t c) w, fun w _ _ => Sound W w,
    fun _ c _ => Keeps W resolved (.registry t c)⟩ x Q w

theorem kwp_of_idle {p : Registry.Run α} (h : p.All Idle) :
    kwp W place resolved t p (fun _ _ => True) w := by
  refine Prog.wp_of_all (I := fun _ => True) ?_ h trivial
  intro w c o hc _ _
  refine ⟨?_, trivial⟩
  cases c with
  | evict | mount | putMounted | putStore => exact hc.elim
  | _ => trivial

theorem stillMounted_idle (m path : Str) : (Registry.stillMounted W m path).All Idle := by
  have hissue : ∀ {c : Registry.Cmd}, Idle c → (Registry.issue c).All Idle :=
    fun hc => (Prog.all_perform _ _).mpr hc
  unfold Registry.stillMounted
  split_ifs
  · refine Prog.All.bind ?_ fun r => ?_
    · refine (hissue (c := .openSlot m) trivial).bind fun slot => ?_
      split_ifs
      · refine Prog.All.bind ?_ fun _ => Prog.all_ret _ _
        refine (hissue (c := .poll m slot.1) trivial).bind fun b => ?_
        cases b
        · exact Prog.all_ret _ _
        · exact hissue (c := .clearCheck m) trivial
      · refine (hissue (c := .start m slot.1 path) trivial).bind fun _ => ?_
        refine (hissue (c := .await m slot.1) trivial).bind fun r => ?_
        cases r
        · exact Prog.all_ret _ _
        · exact (hissue (c := .clearCheck m) trivial).bind fun _ => Prog.all_ret _ _
    · rcases r with _ | _ | _ <;> exact Prog.all_ret _ _
  · exact Prog.all_ret _ _

theorem kwp_verified (m : Str) : kwp W place resolved t (Registry.verified W m)
    (fun r _ => ∀ path, r = some path → path = W.target m) w := by
  unfold Registry.verified
  rw [kwp, Prog.wp_bind]
  intro o hsound
  refine ⟨trivial, ?_⟩
  have hr : (Controller.exec W place o (.registry t (.cached m)) w).1 =
      w.reg.mounted.lookup m := by
    simp [Controller.exec, Registry.exec, Registry.act]
  rw [Prog.wp_ret, hr]
  cases hm : w.reg.mounted.lookup m with
  | none =>
    intro path hp
    cases hp
  | some path =>
    have htarget := (hsound.mounted m path hm).2
    dsimp only
    rw [Prog.wp_bind]
    refine Prog.wp_mono ?_ (kwp_of_idle (stillMounted_idle m path))
    intro b w' _
    cases b with
    | true =>
      intro p hp
      rw [← Option.some.inj hp]
      exact htarget
    | false =>
      rw [if_neg (by simp), Prog.wp_bind]
      intro o _
      refine ⟨trivial, ?_⟩
      intro p hp
      cases hp

theorem kwp_mountFresh (cfg : Config) :
    kwpOk W place resolved t (Registry.mountFresh W cfg) (fun path _ => path = W.target (cfg.mountID W.hash)) w := by
  unfold Registry.mountFresh
  dsimp only
  apply Prog.wpOk_bind (P := fun _ _ => True)
  · apply Prog.wpOk_attempt
    exact fun o _ => ⟨trivial, fun _ _ => trivial⟩
  intro _ w _
  apply Prog.wpOk_bind (P := fun _ _ => True)
  · exact Prog.wpOk_known fun _ _ => trivial
  intro _ w _
  apply Prog.wpOk_bind (P := fun _ _ => True)
  · apply Prog.wpOk_attempt
    exact fun o _ => ⟨trivial, fun _ _ => trivial⟩
  intro _ w _
  apply Prog.wpOk_bind (P := fun _ _ => True)
  · apply Prog.wpOk_always
    exact fun o _ => ⟨⟨W.mountName cfg, rfl⟩, trivial⟩
  intro _ w _ path hpath
  exact (Except.ok.inj hpath).symm

theorem kwp_storeDir (cfg : Config) :
    kwpOk W place resolved t (Registry.storeDir W cfg (W.target (cfg.mountID W.hash))) (fun sub _ => sub = W.storePath cfg) w := by
  unfold Registry.storeDir
  by_cases hsub : cfg.subDir = []
  · have hpath : W.storePath cfg = W.target (cfg.mountID W.hash) := if_pos hsub
    rw [if_pos hsub, hpath]
    intro path hp
    exact (Except.ok.inj hp).symm
  · have hpath : W.storePath cfg = join (W.target (cfg.mountID W.hash)) cfg.subDir := if_neg hsub
    rw [if_neg hsub, hpath]
    dsimp only
    apply Prog.wpOk_bind (P := fun _ _ => True)
    · apply Prog.wpOk_always
      exact fun o _ => ⟨trivial, trivial⟩
    intro seen w _
    have hend : ∀ w : World P, kwpOk W place resolved t
        (pure (join (W.target (cfg.mountID W.hash)) cfg.subDir) : ExceptT Err Registry.Run Str)
        (fun sub _ => sub = join (W.target (cfg.mountID W.hash)) cfg.subDir) w := by
      intro w path hp
      exact (Except.ok.inj hp).symm
    cases seen with
    | true => exact hend w
    | false =>
      apply Prog.wpOk_bind (P := fun _ _ => True)
      · apply Prog.wpOk_attempt
        exact fun o _ => ⟨trivial, fun _ _ => trivial⟩
      exact fun _ w _ => hend w

variable (place) in
theorem kwp_getLocked (hcfg : Accepted cfg) :
    kwpOk W place resolved t (Registry.getLocked W cfg) (fun root _ => root = W.storePath cfg) w := by
  have hrest : ∀ path (w : World P), path = W.target (cfg.mountID W.hash) →
      kwpOk W place resolved t (do
        let sub ← Registry.storeDir W cfg path
        always (Registry.issue (.putStore (cfg.storeID W.hash) sub cfg))
        pure sub) (fun root _ => root = W.storePath cfg) w := by
    intro path w hpath
    subst hpath
    apply Prog.wpOk_bind (kwp_storeDir cfg)
    intro sub w hsub
    subst hsub
    apply Prog.wpOk_bind (P := fun _ _ => True)
    · apply Prog.wpOk_always
      exact fun o _ => ⟨hcfg, trivial⟩
    intro _ w _ root hroot
    exact (Except.ok.inj hroot).symm
  unfold Registry.getLocked
  apply Prog.wpOk_bind (P := fun r _ => ∀ path, r = some path → path = W.target (cfg.mountID W.hash))
  · exact Prog.wpOk_always (kwp_verified _)
  intro found w hfound
  cases found with
  | none => exact Prog.wpOk_bind (kwp_mountFresh cfg) hrest
  | some path => exact hrest path w (hfound path rfl)

theorem wp_registryGet (hcfg : Accepted cfg) :
    (registryGet W cfg).wp ⟨Controller.exec W place, fun w _ _ => Sound W w,
      fun _ c _ => Keeps W resolved c⟩ (fun r _ => ∀ root, r = .ok root → root = W.storePath cfg) w := by
  apply (Prog.wp_lift _ _ _ _ _).mpr
  unfold Registry.get
  rw [Prog.wp_bind]
  intro o _
  refine ⟨trivial, ?_⟩
  rw [Prog.wp_ret, Prog.wp_bind]
  refine Prog.wp_mono ?_ (kwp_getLocked place hcfg)
  intro r w hr
  rw [Prog.wp_bind]
  intro o _
  exact ⟨trivial, hr⟩

theorem wp_inStore {x : ExceptT ε Image.Run α} (hx : x.run.All InDirectory) (hcfg : Accepted cfg)
    (hres : resolved cfg) :
    (inStore (W.storePath cfg) x).wp ⟨Controller.exec W place, fun w _ _ => Sound W w,
      fun _ c _ => Keeps W resolved c⟩ (fun _ _ => True) w := by
  have hall : (inStore (W.storePath cfg) x).All (Keeps W resolved) :=
    Prog.lift_all (fun c hc => ⟨hc, cfg, hcfg, hres, rfl⟩) hx
  exact Prog.wp_of_all (I := fun _ => True) (fun _ _ _ hc _ _ => ⟨hc, trivial⟩) hall trivial

theorem swp_inStore {x : ExceptT ε Image.Run α} {δ : Type} {f : ε → δ} (hx : x.run.All InDirectory)
    (hcfg : Accepted cfg) (hres : resolved cfg) :
    swp W place resolved (attempt (inStore (W.storePath cfg) x) f) (fun _ _ => True) w := by
  apply Prog.wpOk_attempt
  exact Prog.wp_mono (fun _ _ _ _ _ => trivial) (wp_inStore hx hcfg hres)

/-- What checks the volume ID first comes to nothing with one that names no file. -/
theorem swp_checked {x : ExceptT ε Image.Run α} {δ : Type} {f : ε → δ} (volumeID : Str)
    (hx : x.run.All InDirectory)
    (hcheck : ∀ e, validateVolumeID volumeID = .error e → ∃ e', x.run = .ret (.error e'))
    (hcfg : Accepted cfg) (hres : resolved cfg) :
    swp W place resolved (attempt (inStore (W.storePath cfg) x) f) (fun _ _ => Names volumeID) w := by
  cases hid : validateVolumeID volumeID with
  | ok _ =>
    apply Prog.wpOk_attempt
    exact Prog.wp_mono (fun _ _ _ _ _ => names_of_valid hid) (wp_inStore hx hcfg hres)
  | error e =>
    obtain ⟨e', he'⟩ := hcheck e hid
    apply Prog.wpOk_attempt
    unfold inStore
    rw [he']
    intro v hv
    cases hv

theorem createChecks_name {req : CreateVolumeRequest} {r : Config × Bool}
    (h : createChecks req = .ok r) : req.name ≠ [] := by
  intro hname
  unfold createChecks require at h
  rw [if_neg (by simp [hname])] at h
  cases h

theorem swp_createVolume (req : CreateVolumeRequest) :
    swp W place (fun cfg => configFromParams req.params = .ok cfg) (createVolume W req)
      (fun _ _ => Names req.name) w := by
  unfold createVolume
  apply Prog.wpOk_bind (P := fun r _ => createChecks req = .ok r)
  · exact Prog.wpOk_known fun r hr => hr
  rintro ⟨cfg, encrypted⟩ w hchecks
  have hparams := createChecks_config hchecks
  have hcfg : Accepted cfg := ⟨_, hparams⟩
  dsimp only
  apply Prog.wpOk_bind (P := fun root _ => root = W.storePath cfg)
  · exact Prog.wpOk_attempt (wp_registryGet hcfg)
  intro root w hroot
  subst hroot
  apply Prog.wpOk_bind (P := fun _ _ => True)
  · exact swp_inStore new_inDirectory hcfg hparams
  intro _ w _
  apply Prog.wpOk_bind (P := fun _ _ => True)
  · exact Prog.wpOk_known fun _ _ => trivial
  intro capacity w _
  apply Prog.wpOk_bind (P := fun _ _ => True)
  · exact Prog.wpOk_known fun _ _ => trivial
  intro _ w _
  apply Prog.wpOk_bind (P := fun id _ => volumeIDFromName W.hash cfg req.name = .ok id)
  · exact Prog.wpOk_known fun id hid => hid
  intro volumeID w hid
  apply Prog.wpOk_bind (P := fun _ _ => True)
  · exact swp_inStore (create_inDirectory capacity encrypted) hcfg hparams
  intro _ w _ _ _
  refine ⟨createChecks_name hchecks, (volumeIDFromName_ok hid).1, ?_⟩
  intro hnul
  unfold volumeIDFromName at hid
  rw [if_pos (List.any_eq_true.mpr ⟨nul, hnul, by decide⟩)] at hid
  cases hid

/-- The config that a volume ID leads to. -/
def Resolved (w : World P) (volumeID : Str) (cfg : Config) : Prop :=
  ∃ id, parseStoreIDFromVolumeID volumeID = .ok id ∧ w.reg.configs.lookup id = some cfg

theorem parseStoreID_notFound {volumeID : Str} {e : Status}
    (h : parseStoreIDFromVolumeID volumeID = .error e) : e.code = .notFound := by
  unfold parseStoreIDFromVolumeID at h
  split at h
  · cases h
    rfl
  · split at h
    · cases h
    · cases h
      rfl

theorem wp_imageManager (volumeID : Str) :
    (imageManagerForVolumeID W volumeID).run.wp ⟨Controller.exec W place, fun w _ _ => Sound W w,
      fun _ c _ => Keeps W (Resolved w volumeID) c⟩ (fun r _ =>
        match r with
        | .ok root => ∃ cfg, Accepted cfg ∧ Resolved w volumeID cfg ∧ root = W.storePath cfg
        | .error e => e.code = .notFound ↔ ¬ ∃ cfg, Resolved w volumeID cfg) w := by
  unfold imageManagerForVolumeID
  rw [Prog.wp_run_bind, Prog.wp_known]
  cases hparse : parseStoreIDFromVolumeID volumeID with
  | error e =>
    refine iff_of_true (parseStoreID_notFound hparse) ?_
    rintro ⟨cfg, id, hid, -⟩
    rw [hparse] at hid
    cases hid
  | ok id =>
    dsimp only
    rw [Prog.wp_run_bind, Prog.wp_always]
    intro o hsound
    refine ⟨trivial, ?_⟩
    have hr : (Controller.exec W place o (.configByStoreID id) w).1 = w.reg.configs.lookup id := rfl
    rw [Prog.wp_ret, hr]
    cases hlookup : w.reg.configs.lookup id with
    | none =>
      refine iff_of_true rfl ?_
      rintro ⟨cfg, id', hid, hcfg⟩
      rw [hparse] at hid
      cases hid
      rw [hlookup] at hcfg
      cases hcfg
    | some cfg =>
      have hcfg := hsound.configs id cfg hlookup
      have hres : Resolved w volumeID cfg := ⟨id, hparse, hlookup⟩
      dsimp only
      rw [Prog.wp_run_bind, Prog.wp_attempt]
      refine Prog.wp_mono ?_ (wp_registryGet hcfg)
      intro r w' hr
      cases r with
      | error e => exact iff_of_false (by simp) fun h => h ⟨cfg, hres⟩
      | ok root =>
        obtain rfl := hr root rfl
        dsimp only [Except.mapError]
        rw [Prog.wp_run_bind, Prog.wp_attempt]
        refine Prog.wp_mono ?_ (wp_inStore new_inDirectory hcfg hres)
        intro r w'' _
        cases r with
        | error e => exact iff_of_false (by simp) fun h => h ⟨cfg, hres⟩
        | ok _ => exact ⟨cfg, hcfg, hres, rfl⟩

theorem swp_imageManager (volumeID : Str) :
    swp W place (Resolved w volumeID) (imageManagerForVolumeID W volumeID)
      (fun root _ => ∃ cfg, Accepted cfg ∧ Resolved w volumeID cfg ∧ root = W.storePath cfg) w := by
  refine Prog.wp_mono ?_ (wp_imageManager volumeID)
  intro r w' hr root hroot
  subst hroot
  exact hr

theorem get_checked (root : Str) {volumeID : Str} {e : Err} (h : validateVolumeID volumeID = .error e) :
    ∃ e', (Image.get root volumeID).run = .ret (.error e') := by
  unfold Image.get
  rw [h]
  exact ⟨e, rfl⟩

theorem swp_controllerExpandVolume (volumeID : Str) (capacity : Option CapacityRange) :
    swp W place (Resolved w volumeID) (controllerExpandVolume W volumeID capacity)
      (fun _ _ => Names volumeID) w := by
  unfold controllerExpandVolume
  apply Prog.wpOk_bind (P := fun _ w' => w = w')
  · exact Prog.wpOk_known fun _ _ => rfl
  rintro _ _ rfl
  apply Prog.wpOk_bind (P := fun _ w' => w = w')
  · exact Prog.wpOk_known fun _ _ => rfl
  rintro _ _ rfl
  apply Prog.wpOk_bind (P := fun _ w' => w = w')
  · exact Prog.wpOk_known fun _ _ => rfl
  rintro size _ rfl
  apply Prog.wpOk_bind (swp_imageManager volumeID)
  rintro _ w' ⟨cfg, hcfg, hres, rfl⟩
  apply Prog.wpOk_bind (P := fun _ _ => Names volumeID)
  · apply swp_checked volumeID (resize_inDirectory size) _ hcfg hres
    intro e he
    obtain ⟨e', hget⟩ := get_checked (W.storePath cfg) he
    refine ⟨e', ?_⟩
    unfold Image.resize
    rw [ExceptT.run_bind, hget]
    rfl
  intro _ _ hnames _ _
  exact hnames

theorem swp_validateVolumeCapabilities (volumeID : Str) (capabilities : List Node.Capability) :
    swp W place (Resolved w volumeID) (validateVolumeCapabilities W volumeID capabilities)
      (fun _ _ => Names volumeID) w := by
  unfold validateVolumeCapabilities
  apply Prog.wpOk_bind (P := fun _ w' => w = w')
  · exact Prog.wpOk_known fun _ _ => rfl
  rintro _ _ rfl
  apply Prog.wpOk_bind (P := fun _ w' => w = w')
  · exact Prog.wpOk_known fun _ _ => rfl
  rintro _ _ rfl
  apply Prog.wpOk_bind (swp_imageManager volumeID)
  rintro _ w' ⟨cfg, hcfg, hres, rfl⟩
  apply Prog.wpOk_bind (P := fun _ _ => Names volumeID)
  · exact swp_checked volumeID get_inDirectory (fun e he => get_checked _ he) hcfg hres
  intro _ _ hnames
  cases validateCapabilities capabilities <;> exact fun _ _ => hnames

/-- `DeleteVolume` answers that a volume is gone when its ID leads to no store. -/
theorem wp_deleteVolume (volumeID : Str) :
    (deleteVolume W volumeID).run.wp ⟨Controller.exec W place, fun w _ _ => Sound W w,
      fun _ c _ => Keeps W (Resolved w volumeID) c⟩ (fun r _ => ¬ Names volumeID →
        ((∃ e, r = .error e) ↔ volumeID = [] ∨ ∃ cfg, Resolved w volumeID cfg)) w := by
  unfold deleteVolume
  rw [Prog.wp_run_bind, Prog.wp_known]
  by_cases hempty : volumeID = []
  · have hrequire : require (volumeID ≠ []) ⟨.invalidArgument, "volumeId is required"⟩ =
        .error ⟨.invalidArgument, "volumeId is required"⟩ := if_neg (not_not.mpr hempty)
    rw [hrequire]
    exact fun _ => iff_of_true ⟨_, rfl⟩ (Or.inl hempty)
  · have hrequire : require (volumeID ≠ []) ⟨.invalidArgument, "volumeId is required"⟩ = .ok () :=
      if_pos hempty
    rw [hrequire]
    dsimp only
    rw [Prog.wp_run_bind, Prog.wp_always]
    refine Prog.wp_mono ?_ (wp_imageManager volumeID)
    intro r w' hr
    cases r with
    | error e =>
      dsimp only at hr ⊢
      rw [Prog.wp_known]
      intro _
      by_cases hcode : e.code = .notFound
      · rw [if_pos hcode]
        refine iff_of_false (by simp) ?_
        rintro (h | h)
        · exact hempty h
        · exact hr.mp hcode h
      · rw [if_neg hcode]
        exact iff_of_true ⟨e, rfl⟩ (Or.inr (not_not.mp fun h => hcode (hr.mpr h)))
    | ok root =>
      obtain ⟨cfg, hcfg, hres, rfl⟩ := hr
      dsimp only
      refine Prog.wp_mono ?_ (swp_checked volumeID delete_inDirectory ?_ hcfg hres)
      · intro r w'' hr hnames
        refine iff_of_true ?_ (Or.inr ⟨cfg, hres⟩)
        cases r with
        | error e => exact ⟨e, rfl⟩
        | ok v => exact absurd (hr v rfl) hnames
      · intro e he
        unfold Image.delete
        rw [he]
        exact ⟨e, rfl⟩

theorem wp_serve (r : Request) :
    (r.serve W).wp ⟨Controller.exec W place, fun w _ _ => Sound W w,
      fun _ c _ => Keeps W (fun _ => True) c⟩ (fun _ _ => True) w := by
  have hkeeps : ∀ {resolved : Config → Prop} {c : Cmd}, Keeps W resolved c →
      Keeps W (fun _ => True) c := by
    intro resolved c hc
    cases c with
    | image root c =>
      obtain ⟨hdir, cfg, hcfg, -, hroot⟩ := hc
      exact ⟨hdir, cfg, hcfg, trivial, hroot⟩
    | registry t c => cases c <;> exact hc
    | _ => trivial
  have hmap : ∀ {α : Type} (f : α → Reply) {p : ExceptT Status Run α} {resolved : Config → Prop}
      {Q : Except Status α → World P → Prop},
      p.run.wp ⟨Controller.exec W place, fun w _ _ => Sound W w,
        fun _ c _ => Keeps W resolved c⟩ Q w →
      (f <$> p).run.wp ⟨Controller.exec W place, fun w _ _ => Sound W w,
        fun _ c _ => Keeps W (fun _ => True) c⟩ (fun _ _ => True) w := by
    intro α f p resolved Q hp
    rw [ExceptT.run_map, ← bind_pure_comp]
    apply (Prog.wp_bind _ _ _ _).mpr
    refine Prog.wp_weaken (fun _ _ _ h => h) (fun _ _ _ _ h => hkeeps h)
      (Prog.wp_mono (fun _ _ _ => trivial) hp)
  cases r with
  | create req => exact hmap _ (swp_createVolume req)
  | delete v => exact hmap _ (wp_deleteVolume v)
  | expand v capacity => exact hmap _ (swp_controllerExpandVolume v capacity)

theorem Sound.run {resolved : Config → Prop} {p : Run α} {Q : α → World P → Prop}
    (hp : p.wp ⟨Controller.exec W place, fun w _ _ => Sound W w,
      fun _ c _ => Keeps W resolved c⟩ Q w) (h : Sound W w) (o : ℕ → Choice) (stop : Option ℕ) :
    Sound W (p.halt (Controller.exec W place) o w stop).2 ∧
      (∀ e ∈ p.issued (Controller.exec W place) o w stop, Keeps W resolved e.cmd) ∧
      ∀ a, (p.halt (Controller.exec W place) o w stop).1 = some a →
        Q a (p.halt (Controller.exec W place) o w stop).2 := by
  have hstep : ∀ (w : World P) (c : Cmd) (o : Choice), True → Keeps W resolved c → Sound W w →
      Sound W (Controller.exec W place o c w).2 := fun _ _ o _ hc hs => hs.exec hc o
  have hfree : p.wp ⟨Controller.exec W place, fun _ _ _ => True,
      fun _ c _ => Keeps W resolved c⟩ Q w := by
    apply Prog.wp_assume hstep _ h
    exact Prog.wp_weaken (fun _ _ _ hs => hs.1) (fun _ _ _ _ hc => hc) hp
  obtain ⟨hsound, hissued, hend⟩ := Prog.wp_halt hstep hfree h stop fun _ _ => trivial
  exact ⟨hsound, fun e he => (hissued e he).1, hend⟩

theorem Reachable.sound {all recent : List (Config × Str)}
    (h : Reachable W place Set.univ all recent w) : Sound W w := by
  induction h with
  | first files =>
    constructor
    · intro m p hp
      cases hp
    · intro id cfg hp
      cases hp
  | serve r o _ _ ih => exact (Sound.run (wp_serve r) ih o none).1
  | die r o n entries check _ _ ih =>
    constructor
    · exact Registry.targets_adoptExisting entries check
    · intro id cfg hp
      cases hp
  | restart entries check _ ih =>
    constructor
    · exact Registry.targets_adoptExisting entries check
    · intro id cfg hp
      cases hp
  | lose m n _ ih =>
    unfold World.lose
    constructor
    · dsimp only
      split_ifs <;> exact ih.mounted
    · dsimp only
      split_ifs <;> exact ih.configs

/-- The files that a request looks at, creates or removes are direct children of the directory
of a config that it resolved. -/
def Inside (W : Setup) (place : Source → Str → P) (resolved : Config → Prop)
    (x : ExceptT Status Run α) (o : ℕ → Choice) (w : World P) : Prop :=
  ∀ e ∈ x.run.events (Controller.exec W place) o w, ∀ f, e.cmd.image? = some f →
    ∃ cfg, resolved cfg ∧ Child (W.storePath cfg) f

def Refuses (W : Setup) (place : Source → Str → P) (x : ExceptT Status Run α) (o : ℕ → Choice)
    (w : World P) : Prop :=
  ∃ e, (x.run.eval (Controller.exec W place) o w).1 = .error e

theorem Keeps.child {c : Cmd} (h : Keeps W resolved c) {f : Str} (hf : c.image? = some f) :
    ∃ cfg, resolved cfg ∧ Child (W.storePath cfg) f := by
  cases c with
  | image root c =>
    obtain ⟨hdir, cfg, ⟨params, hparams⟩, hres, rfl⟩ := h
    have hchild : ∀ name, Proper name → some (join (W.storePath cfg) name) = some f →
        Child (W.storePath cfg) f := by
      intro name hname he
      rw [← Option.some.inj he]
      exact ⟨name, hname, Setup.join_storePath (configFromParams_valid hparams) hname⟩
    cases c with
    | stat name | openFile name | mkfs name | remove name =>
      exact ⟨cfg, hres, hchild name hdir hf⟩
    | _ => cases hf
  | _ => cases hf

theorem inside_of_wp {x : ExceptT Status Run α} {Q : Except Status α → World P → Prop}
    (hx : x.run.wp ⟨Controller.exec W place, fun w _ _ => Sound W w,
      fun _ c _ => Keeps W resolved c⟩ Q w) (h : Sound W w) (o : ℕ → Choice) :
    Inside W place resolved x o w ∧ Q (x.run.eval (Controller.exec W place) o w).1
      (x.run.eval (Controller.exec W place) o w).2 := by
  obtain ⟨-, hissued, hend⟩ := Sound.run hx h o none
  exact ⟨fun e he f hf => (hissued e he).child hf, hend _ rfl⟩

theorem refuses_of_swp {x : ExceptT Status Run α} {N : Prop} {o : ℕ → Choice}
    (h : ∀ a, (x.run.eval (Controller.exec W place) o w).1 = .ok a → N) (hN : ¬ N) :
    Refuses W place x o w := by
  unfold Refuses
  cases hr : (x.run.eval (Controller.exec W place) o w).1 with
  | error e => exact ⟨e, rfl⟩
  | ok a => exact absurd (h a hr) hN

/-- With a slash in the ID of a volume, its stage can end well. -/
theorem staysInside_iff {volumeID : Str} (hnul : nul ∉ volumeID) :
    (∀ W : Setup, Node.StaysInside W volumeID) ↔ '/' ∉ volumeID := by
  constructor
  · intro h hslash
    have hpath : nul ∉ join (Registry.smallSite.storePath (.localDir "/data".toList false))
        (volumeID ++ imageExt) := by
      intro hmem
      rcases mem_join hmem with hmem | hmem | hmem | hmem
      · exact absurd hmem (by decide +kernel)
      · rcases List.mem_append.mp hmem with hmem | hmem
        · exact hnul hmem
        · exact absurd hmem (by decide)
      · exact absurd hmem (by decide)
      · exact absurd hmem (by decide)
    have hok := Node.yields_stage plainSite (List.ne_nil_of_mem hslash) hpath
    obtain ⟨e, he⟩ := (h _ plainSite (Node.plainRequest volumeID) rfl _
      fun _ => Node.answers_good _).2
      fun hnames => hnames.2.1 hslash
    rw [hok] at he
    cases he
  · exact fun h W => Node.inside_of_noSlash h

/-- Which files the requests act on, in every run of the controller and under all answers that
a node may meet. The controller stays in the directory of the store and refuses what can
name no file there, apart from a `DeleteVolume` whose ID leads to no store. The node does so for
an ID without a slash, and for no other that the system takes as a name. -/
theorem imagePaths_inside {all recent : List (Config × Str)}
    (hw : Reachable W place Set.univ all recent w) (o : ℕ → Choice) (volumeID : Str) :
    (∀ req : CreateVolumeRequest,
      Inside W place (fun cfg => configFromParams req.params = .ok cfg) (createVolume W req) o w ∧
      (¬ Names req.name → Refuses W place (createVolume W req) o w)) ∧
    (∀ capacity, Inside W place (Resolved w volumeID)
        (controllerExpandVolume W volumeID capacity) o w ∧
      (¬ Names volumeID → Refuses W place (controllerExpandVolume W volumeID capacity) o w)) ∧
    (∀ capabilities, Inside W place (Resolved w volumeID)
        (validateVolumeCapabilities W volumeID capabilities) o w ∧
      (¬ Names volumeID → Refuses W place (validateVolumeCapabilities W volumeID capabilities) o w)) ∧
    (Inside W place (Resolved w volumeID) (deleteVolume W volumeID) o w ∧
      (¬ Names volumeID → (Refuses W place (deleteVolume W volumeID) o w ↔
        volumeID = [] ∨ ∃ cfg, Resolved w volumeID cfg))) ∧
    ('/' ∉ volumeID → ∀ W, Node.StaysInside W volumeID) ∧
    (nul ∉ volumeID → ((∀ W, Node.StaysInside W volumeID) ↔ '/' ∉ volumeID)) := by
  have hsound := hw.sound
  refine ⟨?_, ?_, ?_, ?_, fun h W => Node.inside_of_noSlash h, fun h => staysInside_iff h⟩
  · intro req
    obtain ⟨hinside, hok⟩ := inside_of_wp (swp_createVolume req) hsound o
    exact ⟨hinside, refuses_of_swp hok⟩
  · intro capacity
    obtain ⟨hinside, hok⟩ := inside_of_wp (swp_controllerExpandVolume volumeID capacity) hsound o
    exact ⟨hinside, refuses_of_swp hok⟩
  · intro capabilities
    obtain ⟨hinside, hok⟩ :=
      inside_of_wp (swp_validateVolumeCapabilities volumeID capabilities) hsound o
    exact ⟨hinside, refuses_of_swp hok⟩
  · exact inside_of_wp (wp_deleteVolume volumeID) hsound o

end Machine

/-- A volume beside the directory of its store. -/
def beside : Str := "../x".toList

theorem imagePaths_inside_beside :
    Refuses Registry.smallSite (fun _ _ => ()) (controllerExpandVolume Registry.smallSite beside none)
      (fun _ => smooth) (bare fun _ => ⟨∅, 0⟩) ∧ ¬ ∀ W, Node.StaysInside W beside := by
  have hw : Reachable Registry.smallSite (fun _ _ => ()) Set.univ [] [] (bare fun _ => ⟨∅, 0⟩) :=
    .first _
  have h := imagePaths_inside hw (fun _ => smooth) beside
  refine ⟨(h.2.1 none).2 fun hnames => hnames.2.1 (by decide), ?_⟩
  intro hstays
  exact (h.2.2.2.2.2 (by decide)).mp hstays (by decide)

/-- The image that is attached is not in the directory of the store. -/
theorem stage_attaches_beside :
    Node.Answers Registry.smallSite (Node.good Registry.smallSite) ∧
    Registry.smallSite.storePath (.localDir "/data".toList false) = "/s/000000000000".toList ∧
    (∃ e ∈ (Node.nodeStageVolume plainSite (Node.plainRequest beside)).run.events oracle
      (fun _ => Node.good Registry.smallSite) (), e.cmd.image? = some "/s/x.img".toList) ∧
    ((Node.nodeStageVolume plainSite (Node.plainRequest beside)).run.eval oracle
      (fun _ => Node.good Registry.smallSite) ()).1 = .ok () :=
  ⟨Node.answers_good _, by decide +kernel, by decide +kernel, by decide +kernel⟩

end Fileblock.Controller
