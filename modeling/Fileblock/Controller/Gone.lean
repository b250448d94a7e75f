import Fileblock.Controller.Inside

/-! What a `DeleteVolume` that succeeds has done, in every run of a controller: with mounts
lost, processes that die and registries that start anew. -/
namespace Fileblock.Controller
open Go Store Interaction
open Registry (Setup Caller CheckRes)
open Image (imageFile sidecarFile)

/-- No config of `K` passes for `cfg` by its mount ID or its store ID. -/
structure Unmistaken (W : Setup) (K : Set Config) (cfg : Config) : Prop where
  source : ∀ c ∈ K, c.mountID W.hash = cfg.mountID W.hash → sourceOf c = sourceOf cfg
  store : ∀ c ∈ K, c.storeID W.hash = cfg.storeID W.hash →
    c.mountID W.hash = cfg.mountID W.hash ∧ c.subDir = cfg.subDir

section Registry
variable {W : Setup} {K : Set Config} {cfg : Config} {t : Caller}

/-- Configs of `K` are mounted and cached under their IDs. -/
def Maps (W : Setup) (K : Set Config) : Cmd → Prop
  | .registry t (.mount _ cfg) => cfg ∈ K ∧ cfg.mountID W.hash = t.mountID
  | .registry _ (.putStore id _ cfg) => cfg ∈ K ∧ cfg.storeID W.hash = id
  | _ => True

theorem maps_of_idle {c : Registry.Cmd} (h : Idle c) : Maps W K (.registry t c) := by
  cases c with
  | mount | putStore => exact h.elim
  | _ => trivial

theorem issue_maps {c : Registry.Cmd} (h : Maps W K (.registry t c)) :
    (Registry.issue c).All fun c => Maps W K (.registry t c) := (Prog.all_perform _ _).mpr h

theorem verified_maps (m : Str) :
    (Registry.verified W m).All fun c => Maps W K (.registry t c) := by
  apply (issue_maps (c := .cached m) trivial).bind
  intro r
  cases r with
  | none => exact Prog.all_ret _ _
  | some path =>
    apply ((stillMounted_idle m path).mono fun c hc => maps_of_idle hc).bind
    intro mounted
    cases mounted with
    | true => exact Prog.all_ret _ _
    | false => exact (issue_maps (c := .evict m path) trivial).bind fun _ => Prog.all_ret _ _

theorem mkdirAll_maps (path : Str) :
    (Registry.mkdirAll path).run.All fun c => Maps W K (.registry t c) :=
  Prog.all_attempt (issue_maps (c := .mkdirAll path) trivial) _

theorem mountFresh_maps (hc : cfg ∈ K) (ht : cfg.mountID W.hash = t.mountID) :
    (Registry.mountFresh W cfg).run.All fun c => Maps W K (.registry t c) := by
  apply Prog.all_run_bind (mkdirAll_maps _)
  intro _
  apply Prog.all_run_bind (Prog.all_ret _ _)
  intro _
  apply Prog.all_run_bind (Prog.all_attempt (issue_maps (c := .mount _ cfg) ⟨hc, ht⟩) _)
  intro _
  apply Prog.all_run_bind ((issue_maps (c := .putMounted _ _) trivial).bind
    fun _ => Prog.all_ret _ _)
  intro _
  exact Prog.all_ret _ _

theorem storeDir_maps (path : Str) :
    (Registry.storeDir W cfg path).run.All fun c => Maps W K (.registry t c) := by
  unfold Registry.storeDir
  split_ifs
  · exact Prog.all_ret _ _
  · apply Prog.all_run_bind ((issue_maps (c := .seen _) trivial).bind fun _ => Prog.all_ret _ _)
    intro seen
    cases seen with
    | true => exact Prog.all_ret _ _
    | false => exact Prog.all_run_bind (mkdirAll_maps _) fun _ => Prog.all_ret _ _

theorem registryGet_maps (hc : cfg ∈ K) : (registryGet W cfg).All (Maps W K) := by
  let t : Caller := ⟨0, cfg.mountID W.hash⟩
  have hlocked : (Registry.getLocked W cfg).run.All fun c => Maps W K (.registry t c) := by
    have hrest : ∀ path, (do
        let sub ← Registry.storeDir W cfg path
        always (Registry.issue (.putStore (cfg.storeID W.hash) sub cfg))
        pure sub : ExceptT Err Registry.Run Str).run.All fun c => Maps W K (.registry t c) := by
      intro path
      apply Prog.all_run_bind (storeDir_maps path)
      intro sub
      apply Prog.all_run_bind ((issue_maps (c := .putStore _ sub cfg) ⟨hc, rfl⟩).bind
        fun _ => Prog.all_ret _ _)
      intro _
      exact Prog.all_ret _ _
    apply Prog.all_run_bind ((verified_maps _).bind fun _ => Prog.all_ret _ _)
    intro found
    cases found with
    | none => exact Prog.all_run_bind (mountFresh_maps hc rfl) hrest
    | some path => exact hrest path
  apply Prog.lift_all (P := fun c => Maps W K (.registry t c)) (fun c hc => hc)
  apply (issue_maps (c := .lock _) trivial).bind
  intro _
  apply hlocked.bind
  intro r
  apply (issue_maps (c := .unlock _) trivial).bind
  intro _
  exact Prog.all_ret _ _

end Registry

section Mapped
variable {P : Type} [DecidableEq P] {W : Setup} {place : Source → Str → P} {K : Set Config}
  {w : World P} {cfg : Config} {α ε : Type}

/-- What is mounted and what is cached are configs of `K`, under their IDs. -/
structure Mapped (W : Setup) (K : Set Config) (w : World P) : Prop where
  mounts : ∀ m, ∀ c ∈ w.mounts m, c ∈ K ∧ c.mountID W.hash = m
  configs : ∀ id c, w.reg.configs.lookup id = some c → c ∈ K ∧ c.storeID W.hash = id

theorem Mapped.exec (h : Mapped W K w) {c : Cmd} (hc : Maps W K c) (o : Choice) :
    Mapped W K (Controller.exec W place o c w).2 := by
  cases c with
  | registry t c =>
    by_cases hidle : Idle c
    · obtain ⟨-, -, hconfigs, hmounts, -⟩ := exec_idle W place t hidle o w
      constructor
      · rw [hmounts]
        exact h.mounts
      · rw [hconfigs]
        exact h.configs
    · cases c with
      | evict m path =>
        refine ⟨h.mounts, ?_⟩
        intro id c hp
        change (arrived w.reg o).configs.lookup id = some c at hp
        rw [arrived_configs] at hp
        exact h.configs id c hp
      | mount target cfg =>
        constructor
        · intro m c hmem
          change c ∈ (if _ then Function.update w.mounts t.mountID (cfg :: w.mounts t.mountID)
            else w.mounts) m at hmem
          split_ifs at hmem
          · by_cases hm : m = t.mountID
            · rw [hm, Function.update_self] at hmem
              obtain rfl | hmem := List.mem_cons.mp hmem
              · exact ⟨hc.1, hc.2.trans hm.symm⟩
              · exact h.mounts m c (hm ▸ hmem)
            · rw [Function.update_of_ne hm] at hmem
              exact h.mounts m c hmem
          · exact h.mounts m c hmem
        · have hsame : ∀ s : Registry.State, (Registry.exec t ⟨o.fault, o.timeout⟩
              (.mount target cfg) s).2.configs = s.configs := by
            intro s
            simp only [Registry.exec, Registry.act]
            split_ifs <;> rfl
          have hconfigs := (hsame (arrived w.reg o)).trans (arrived_configs w.reg o)
          intro id c hp
          exact h.configs id c (hconfigs ▸ hp)
      | putMounted m path =>
        refine ⟨h.mounts, ?_⟩
        intro id c hp
        change (arrived w.reg o).configs.lookup id = some c at hp
        rw [arrived_configs] at hp
        exact h.configs id c hp
      | putStore id sub cfg =>
        refine ⟨h.mounts, ?_⟩
        intro id' c hp
        change ((arrived w.reg o).configs.insert id cfg).lookup id' = some c at hp
        rw [arrived_configs] at hp
        by_cases hid : id' = id
        · rw [hid, AList.lookup_insert] at hp
          rw [← Option.some.inj hp, hid]
          exact hc
        · rw [AList.lookup_insert_ne hid] at hp
          exact h.configs id' c hp
      | _ => exact absurd trivial hidle
  | configByStoreID id => exact h
  | mountedPaths => exact h
  | image root c => exact ⟨h.mounts, h.configs⟩

/-- While what is cached is of `K`, so is what is mounted and cached next. -/
abbrev cwpOk (W : Setup) (place : Source → Str → P) (K : Set Config) (x : ExceptT ε Run α)
    (Q : α → World P → Prop) (w : World P) : Prop :=
  Prog.wpOk ⟨Controller.exec W place, fun w _ _ => Mapped W K w, fun _ c _ => Maps W K c⟩ x Q w

theorem cwpOk_attempt {δ : Type} {p : Run (Except δ α)} {f : δ → ε} (h : p.All (Maps W K)) :
    cwpOk W place K (attempt p f) (fun _ _ => True) w :=
  Prog.wpOk_of_all (Prog.all_attempt h f) fun _ _ _ hc _ => hc

theorem inStore_maps (root : Str) (x : ExceptT ε Image.Run α) : (inStore root x).All (Maps W K) :=
  Prog.lift_all (fun _ _ => trivial) (Prog.all_true x.run)

theorem cwpOk_createVolume {req : CreateVolumeRequest}
    (h : ∀ cfg, configFromParams req.params = .ok cfg → cfg ∈ K) :
    cwpOk W place K (createVolume W req) (fun _ _ => True) w := by
  unfold createVolume
  apply Prog.wpOk_bind (P := fun r _ => createChecks req = .ok r)
  · exact Prog.wpOk_known fun r hr => hr
  rintro ⟨cfg, encrypted⟩ w hchecks
  have hc := h cfg (createChecks_config hchecks)
  apply Prog.wpOk_bind (cwpOk_attempt (registryGet_maps hc))
  intro root w _
  apply Prog.wpOk_bind (cwpOk_attempt (inStore_maps root _))
  intro _ w _
  apply Prog.wpOk_bind (P := fun _ _ => True) (Prog.wpOk_known fun _ _ => trivial)
  intro capacity w _
  apply Prog.wpOk_bind (P := fun _ _ => True) (Prog.wpOk_known fun _ _ => trivial)
  intro _ w _
  apply Prog.wpOk_bind (P := fun _ _ => True) (Prog.wpOk_known fun _ _ => trivial)
  intro volumeID w _
  apply Prog.wpOk_bind (cwpOk_attempt (inStore_maps root _))
  exact fun _ _ _ _ _ => trivial

theorem cwpOk_imageManager (volumeID : Str) :
    cwpOk W place K (imageManagerForVolumeID W volumeID) (fun _ _ => True) w := by
  unfold imageManagerForVolumeID
  apply Prog.wpOk_bind (P := fun _ _ => True) (Prog.wpOk_known fun _ _ => trivial)
  intro id w _
  apply Prog.wpOk_bind (P := fun r _ => ∀ cfg, r = some cfg → cfg ∈ K)
  · apply Prog.wpOk_always
    intro o hmapped
    refine ⟨trivial, ?_⟩
    intro cfg hr
    exact (hmapped.configs id cfg hr).1
  intro r w hr
  cases r with
  | none =>
    intro _ hb
    cases hb
  | some cfg =>
    apply Prog.wpOk_bind (cwpOk_attempt (registryGet_maps (hr cfg rfl)))
    intro root w _
    apply Prog.wpOk_bind (cwpOk_attempt (inStore_maps root _))
    exact fun _ _ _ _ _ => trivial

theorem cwpOk_controllerExpandVolume (volumeID : Str) (capacity : Option CapacityRange) :
    cwpOk W place K (controllerExpandVolume W volumeID capacity) (fun _ _ => True) w := by
  unfold controllerExpandVolume
  apply Prog.wpOk_bind (P := fun _ _ => True) (Prog.wpOk_known fun _ _ => trivial)
  intro _ w _
  apply Prog.wpOk_bind (P := fun _ _ => True) (Prog.wpOk_known fun _ _ => trivial)
  intro _ w _
  apply Prog.wpOk_bind (P := fun _ _ => True) (Prog.wpOk_known fun _ _ => trivial)
  intro size w _
  apply Prog.wpOk_bind (cwpOk_imageManager volumeID)
  intro root w _
  apply Prog.wpOk_bind (cwpOk_attempt (inStore_maps root _))
  exact fun _ _ _ _ _ => trivial

theorem cwpOk_deleteVolume (volumeID : Str) :
    cwpOk W place K (deleteVolume W volumeID) (fun _ _ => True) w := by
  unfold deleteVolume
  apply Prog.wpOk_bind (P := fun _ _ => True) (Prog.wpOk_known fun _ _ => trivial)
  intro _ w _
  apply Prog.wpOk_bind (P := fun _ _ => True)
  · apply Prog.wpOk_always
    exact Prog.wp_mono (fun _ _ _ => trivial) (cwpOk_imageManager volumeID)
  intro r w _
  cases r with
  | error e => exact Prog.wpOk_known fun _ _ => trivial
  | ok root => exact cwpOk_attempt (inStore_maps root _)

theorem wp_serve_maps {r : Request} (hr : r.Uses K) :
    (r.serve W).wp ⟨Controller.exec W place, fun w _ _ => Mapped W K w,
      fun _ c _ => Maps W K c⟩ (fun _ _ => True) w := by
  have hmap : ∀ {α : Type} (f : α → Reply) {x : ExceptT Status Run α},
      cwpOk W place K x (fun _ _ => True) w →
      (f <$> x).run.wp ⟨Controller.exec W place, fun w _ _ => Mapped W K w,
        fun _ c _ => Maps W K c⟩ (fun _ _ => True) w := by
    intro α f x hx
    rw [ExceptT.run_map, ← bind_pure_comp]
    apply (Prog.wp_bind _ _ _ _).mpr
    exact Prog.wp_mono (fun _ _ _ => trivial) hx
  cases r with
  | create req => exact hmap _ (cwpOk_createVolume hr)
  | delete v => exact hmap _ (cwpOk_deleteVolume v)
  | expand v capacity => exact hmap _ (cwpOk_controllerExpandVolume v capacity)

theorem Mapped.run {p : Run α} {Q : α → World P → Prop}
    (hp : p.wp ⟨Controller.exec W place, fun w _ _ => Mapped W K w, fun _ c _ => Maps W K c⟩ Q w)
    (h : Mapped W K w) (o : ℕ → Choice) (stop : Option ℕ) :
    Mapped W K (p.halt (Controller.exec W place) o w stop).2 := by
  have hstep : ∀ (w : World P) (c : Cmd) (o : Choice), True → Maps W K c → Mapped W K w →
      Mapped W K (Controller.exec W place o c w).2 := fun _ _ o _ hc hs => hs.exec hc o
  have hfree : p.wp ⟨Controller.exec W place, fun _ _ _ => True, fun _ c _ => Maps W K c⟩ Q w := by
    apply Prog.wp_assume hstep _ h
    exact Prog.wp_weaken (fun _ _ _ hs => hs.1) (fun _ _ _ _ hc => hc) hp
  exact (Prog.wp_halt hstep hfree h stop fun _ _ => trivial).1

theorem Reachable.mapped {all recent : List (Config × Str)}
    (h : Reachable W place K all recent w) : Mapped W K w := by
  have hrestart : ∀ {w : World P}, Mapped W K w → ∀ entries check,
      Mapped W K (w.restart W entries check) := by
    intro w h entries check
    refine ⟨h.mounts, ?_⟩
    intro id c hp
    cases hp
  induction h with
  | first files =>
    constructor
    · intro m c hmem
      cases hmem
    · intro id c hp
      cases hp
  | serve r o _ hr ih => exact ih.run (wp_serve_maps hr) o none
  | die r o n entries check _ hr ih => exact hrestart (ih.run (wp_serve_maps hr) o (some n)) _ _
  | restart entries check _ ih => exact hrestart ih _ _
  | lose m n _ ih =>
    unfold World.lose
    constructor
    · intro m' c hmem
      dsimp only at hmem
      by_cases hm : m' = m
      · rw [hm, Function.update_self] at hmem
        rw [hm]
        exact ih.mounts m c (List.mem_of_mem_drop hmem)
      · rw [Function.update_of_ne hm] at hmem
        exact ih.mounts m' c hmem
    · dsimp only
      split_ifs <;> exact ih.configs

theorem Reachable.mono {K' : Set Config} (hK : K ⊆ K') {all recent : List (Config × Str)}
    (h : Reachable W place K all recent w) : Reachable W place K' all recent w := by
  have huses : ∀ {r : Request}, r.Uses K → r.Uses K' := by
    intro r hr
    cases r with
    | create req => exact fun cfg hcfg => hK (hr cfg hcfg)
    | _ => trivial
  induction h with
  | first files => exact .first files
  | serve r o _ hr ih => exact .serve r o ih (huses hr)
  | die r o n entries check _ hr ih => exact .die r o n entries check ih (huses hr)
  | restart entries check _ ih => exact .restart entries check ih
  | lose m n _ ih => exact .lose m n ih

/-- With any answers at all. -/
abbrev fwp (W : Setup) (place : Source → Str → P) (p : Run α) (Q : α → World P → Prop)
    (w : World P) : Prop :=
  p.wp ⟨Controller.exec W place, fun _ _ _ => True, fun _ _ _ => True⟩ Q w

theorem fwp_of_invariant {A G : World P → Cmd → Choice → Prop} {I : World P → Prop}
    (hA : ∀ w c o, I w → A w c o)
    (hG : ∀ w c o, G w c o → I w → I (Controller.exec W place o c w).2) {p : Run α}
    {Q : α → World P → Prop} (hp : p.wp ⟨Controller.exec W place, A, G⟩ Q w) (h : I w) :
    fwp W place p (fun a w' => Q a w' ∧ I w') w := by
  have hassumed : p.wp ⟨Controller.exec W place, fun _ _ _ => True, G⟩ Q w := by
    apply Prog.wp_assume (fun w c o _ hg hi => hG w c o hg hi) _ h
    exact Prog.wp_weaken (fun w c o hs => hA w c o hs.1) (fun _ _ _ _ hg => hg) hp
  exact Prog.wp_weaken (fun _ _ _ h => h) (fun _ _ _ _ _ => trivial)
    (Prog.wp_invariant (fun w c o _ hg hi => hG w c o hg hi) hassumed h)

theorem fwp_imageManager (hsound : Sound W w) (hmapped : Mapped W K w) (v : Str) :
    fwp W place (imageManagerForVolumeID W v).run (fun r w' => Mapped W K w' ∧
      match r with
      | .ok root => ∃ cfg, Resolved w v cfg ∧ root = W.storePath cfg
      | .error e => e.code = .notFound ↔ ¬ ∃ cfg, Resolved w v cfg) w := by
  have hpath : fwp W place (imageManagerForVolumeID W v).run _ w :=
    fwp_of_invariant (fun _ _ _ h => h) (fun _ _ o hc h => h.exec hc o) (wp_imageManager v) hsound
  have hmaps : fwp W place (imageManagerForVolumeID W v).run _ w :=
    fwp_of_invariant (fun _ _ _ h => h) (fun _ _ o hc h => h.exec hc o) (cwpOk_imageManager v)
      hmapped
  refine Prog.wp_mono ?_ (Prog.wp_both (fun _ _ _ h _ => h) hpath hmaps)
  rintro r w' ⟨⟨hr, -⟩, -, hm⟩
  refine ⟨hm, ?_⟩
  cases r with
  | error e => exact hr
  | ok root =>
    obtain ⟨cfg, -, hres, hroot⟩ := hr
    exact ⟨cfg, hres, hroot⟩

variable (W place) in
theorem lookup_remove (root name : Str) (o : Choice) (w : World P) :
    let a := Controller.exec W place o (.image root (.remove name)) w
    ((∃ b, a.1 = .ok b) → (a.2.files (w.dir W place root)).files.lookup name = none) ∧
      ∀ d name', name' ≠ name → (a.2.files d).files.lookup name' = (w.files d).files.lookup name' := by
  have hfiles : ∀ d, (Controller.exec W place o (.image root (.remove name)) w).2.files d =
      if d = w.dir W place root then (Image.exec ⟨o.fault, o.isDir, o.subdirs⟩ (.remove name)
        (w.files (w.dir W place root))).2 else w.files d := by
    intro d
    exact Function.update_apply ..
  constructor
  · rintro ⟨b, hb⟩
    rw [hfiles, if_pos rfl]
    change (Image.exec ⟨o.fault, o.isDir, o.subdirs⟩ (.remove name) _).1 = .ok b at hb
    unfold Image.exec at hb ⊢
    cases hf : o.fault with
    | some e =>
      rw [hf] at hb
      cases hb
    | none => exact AList.lookup_erase _ _
  · intro d name' hne
    rw [hfiles]
    split_ifs with hd
    · rw [hd]
      unfold Image.exec
      cases o.fault with
      | some e => rfl
      | none => exact AList.lookup_erase_ne hne
    · rfl

theorem imageFile_ne_sidecarFile (v v' : Str) : imageFile v ≠ sidecarFile v' := by
  intro he
  have hlast := congrArg List.getLast? he
  unfold imageFile sidecarFile imageExt at hlast
  rw [List.getLast?_append, List.getLast?_append] at hlast
  exact absurd (Option.some.inj hlast) (by decide)

theorem fwp_delete (root v : Str) : fwp W place (inStore root (Image.delete v))
    (fun r w' => ∀ a, r = .ok a →
      (w'.files (w.dir W place root)).files.lookup (imageFile v) = none) w := by
  let exec' : Choice → (c : Image.Cmd) → World P → Image.Resp c × World P :=
    fun o c w => Controller.exec W place o (.image root c) w
  let G : World P → Image.Cmd → Choice → Prop := fun _ _ _ => True
  let Gone : World P → Prop := fun w' =>
    (w'.files (w.dir W place root)).files.lookup (imageFile v) = none
  have hdelete : Prog.wpOk ⟨exec', G, G⟩ (Image.delete v) (fun _ w' => Gone w') w := by
    unfold Image.delete
    apply Prog.wpOk_bind (P := fun _ w' => w = w')
    · exact Prog.wpOk_known fun _ _ => rfl
    rintro _ _ rfl
    apply Prog.wpOk_bind (P := fun _ w' => Gone w')
    · apply Prog.wpOk_attempt
      intro o _
      refine ⟨trivial, ?_⟩
      intro b hb
      exact (lookup_remove W place root (imageFile v) o w).1 ⟨b, hb⟩
    intro _ w' hgone
    apply Prog.wpOk_bind (P := fun _ w' => Gone w')
    · apply Prog.wpOk_always
      intro o _
      refine ⟨trivial, ?_⟩
      have hother := (lookup_remove W place root (sidecarFile v) o w').2 (w.dir W place root)
        (imageFile v) (imageFile_ne_sidecarFile v v)
      exact hother.trans hgone
    intro _ w' hgone _ _
    exact hgone
  exact (Prog.wp_lift _ _ _ _ _).mpr hdelete

/-! A `Get` that returns a path has the store mounted: what was lost has been mounted again. -/

/-- A check of the mount answers in time that nothing is mounted. -/
def Denied (W : Setup) (place : Source → Str → P) (m : Str) (w : World P) (c : Cmd) (o : Choice) :
    Prop :=
  match c with
  | .registry t (.await m' ch) => m' = m →
      (Controller.exec W place o (.registry t (.await m' ch)) w).1 = some (.ok false)
  | _ => True

instance (W : Setup) (place : Source → Str → P) (m : Str) (w : World P) (c : Cmd) (o : Choice) :
    Decidable (Denied W place m w c o) := by
  unfold Denied
  split <;> infer_instance

/-- The registry takes a mount for granted that is lost. -/
def Lost (m : Str) (w : World P) : Prop := w.mounts m = [] ∧ w.reg.mounted.lookup m ≠ none

/-- The loss of a mount is noticed: there is a checker, no check of the mount is in flight, and
the one that the request starts answers in time that nothing is mounted. -/
structure Noticed (W : Setup) (place : Source → Str → P) (m : Str) (p : Run α) (o : ℕ → Choice)
    (w : World P) : Prop where
  checker : W.checker = true
  idle : w.reg.checking m = none
  denied : p.Admissible (Controller.exec W place) (Denied W place m) o w

section Remount
variable {m : Str} {t : Caller} {noticed : Prop}

/-- What is known before the check: that a loss would be noticed. -/
def Watched (W : Setup) (noticed : Prop) (m : Str) (w : World P) : Prop :=
  Lost m w → noticed ∧ W.checker = true ∧ w.reg.checking m = none

/-- A part of a request whose checks are denied when a loss is to be noticed. -/
abbrev nwp (W : Setup) (place : Source → Str → P) (noticed : Prop) (m : Str) (p : Run α)
    (Q : α → World P → Prop) (w : World P) : Prop :=
  p.wp ⟨Controller.exec W place, fun w c o => noticed → Denied W place m w c o,
    fun _ _ _ => True⟩ Q w

abbrev mwp (W : Setup) (place : Source → Str → P) (noticed : Prop) (m : Str) (t : Caller)
    (p : Registry.Run α) (Q : α → World P → Prop) (w : World P) : Prop :=
  p.wp ⟨fun o c w => Controller.exec W place o (.registry t c) w,
    fun w c o => noticed → Denied W place m w (.registry t c) o, fun _ _ _ => True⟩ Q w

abbrev mwpOk (W : Setup) (place : Source → Str → P) (noticed : Prop) (m : Str) (t : Caller)
    (x : ExceptT ε Registry.Run α) (Q : α → World P → Prop) (w : World P) : Prop :=
  Prog.wpOk ⟨fun o c w => Controller.exec W place o (.registry t c) w,
    fun w c o => noticed → Denied W place m w (.registry t c) o, fun _ _ _ => True⟩ x Q w

theorem mounts_exec (h : w.mounts m ≠ []) (c : Cmd) (o : Choice) :
    (Controller.exec W place o c w).2.mounts m ≠ [] := by
  cases c with
  | registry t c =>
    change mountsAfter t o c w.mounts m ≠ []
    unfold mountsAfter
    cases c with
    | mount target cfg =>
      dsimp only
      split_ifs
      · by_cases hm : m = t.mountID
        · rw [hm, Function.update_self]
          exact List.cons_ne_nil _ _
        · rwa [Function.update_of_ne hm]
      · exact h
    | _ => exact h
  | _ => exact h

theorem nwp_mounts (h : w.mounts m ≠ []) (p : Run α) :
    nwp W place noticed m p (fun _ w' => w'.mounts m ≠ []) w :=
  Prog.wp_of_all (I := fun w' : World P => w'.mounts m ≠ [])
    (fun _ c o _ _ h => ⟨trivial, mounts_exec h c o⟩) (Prog.all_true p) h

theorem mwp_mounts (h : w.mounts m ≠ []) (p : Registry.Run α) :
    mwp W place noticed m t p (fun _ w' => w'.mounts m ≠ []) w :=
  Prog.wp_of_all (I := fun w' : World P => w'.mounts m ≠ [])
    (fun _ c o _ _ h => ⟨trivial, mounts_exec h (.registry t c) o⟩) (Prog.all_true p) h

theorem arrived_checking (s : Registry.State) (o : Choice) :
    (arrived s o).checking = s.checking := by
  unfold arrived
  induction o.answers generalizing s with
  | nil => rfl
  | cons a l ih =>
    rw [List.foldl_cons, ih]
    unfold arrive
    split_ifs <;> rfl

theorem Watched.exec (h : Watched W noticed m w) {c : Registry.Cmd} (hc : Idle c)
    (hslot : ∀ o s, (Registry.act t o c s).2.checking = s.checking) (o : Choice) :
    Watched W noticed m (Controller.exec W place o (.registry t c) w).2 := by
  obtain ⟨hmounted, -, -, hmounts, -⟩ := exec_idle W place t hc o w
  rintro ⟨hm, hcached⟩
  rw [hmounts] at hm
  rw [hmounted] at hcached
  obtain ⟨hnoticed, hchecker, hidle⟩ := h ⟨hm, hcached⟩
  refine ⟨hnoticed, hchecker, ?_⟩
  change (Registry.act t ⟨o.fault, o.timeout⟩ c (arrived w.reg o)).2.checking m = none
  rw [hslot, arrived_checking]
  exact hidle

theorem mwp_stillMounted (hn : noticed) (hchecker : W.checker = true)
    (hidle : w.reg.checking m = none) (path : Str) :
    mwp W place noticed m t (Registry.stillMounted W m path) (fun b _ => b = false) w := by
  unfold Registry.stillMounted Registry.checkMountPoint
  rw [if_pos hchecker, mwp, Prog.wp_bind, Prog.wp_bind]
  intro o _
  refine ⟨trivial, ?_⟩
  have hslot : (Controller.exec W place o (.registry t (.openSlot m)) w).1 =
      ((arrived w.reg o).made m, false) := by
    simp [Controller.exec, Registry.exec, Registry.act, arrived_checking, hidle]
  rw [hslot]
  unfold Registry.ownCheck
  rw [Prog.wp_ret, if_neg Bool.false_ne_true, Prog.wp_bind]
  intro o _
  refine ⟨trivial, ?_⟩
  rw [Prog.wp_ret, Prog.wp_bind]
  intro o ho
  refine ⟨trivial, ?_⟩
  rw [Prog.wp_ret, ho hn rfl]
  exact fun _ _ => ⟨trivial, rfl⟩

theorem mwp_verified (h : Watched W noticed m w) : mwp W place noticed m t (Registry.verified W m)
    (fun r w' => r = none ∨ w'.mounts m ≠ []) w := by
  by_cases hm : w.mounts m = []
  · unfold Registry.verified
    rw [mwp, Prog.wp_bind]
    intro o _
    refine ⟨trivial, ?_⟩
    have hw : Watched W noticed m (Controller.exec W place o (.registry t (.cached m)) w).2 :=
      h.exec (c := .cached m) trivial (fun _ _ => rfl) o
    obtain ⟨hmounted, -, -, hmounts, -⟩ := exec_idle W place t (c := .cached m) trivial o w
    have hr : (Controller.exec W place o (.registry t (.cached m)) w).1 =
        w.reg.mounted.lookup m := by
      simp [Controller.exec, Registry.exec, Registry.act]
    rw [Prog.wp_ret, hr]
    cases hl : w.reg.mounted.lookup m with
    | none => exact Or.inl rfl
    | some path =>
      obtain ⟨hn, hchecker, hidle⟩ := hw ⟨hmounts ▸ hm, by rw [hmounted, hl]; simp⟩
      dsimp only
      rw [Prog.wp_bind]
      refine Prog.wp_mono ?_ (mwp_stillMounted hn hchecker hidle path)
      rintro b w' rfl
      rw [if_neg Bool.false_ne_true, Prog.wp_bind]
      exact fun _ _ => ⟨trivial, Or.inl rfl⟩
  · exact Prog.wp_mono (fun _ _ h => Or.inr h) (mwp_mounts hm _)

theorem mwp_any (p : Registry.Run α) (w : World P) :
    mwp W place noticed m t p (fun _ _ => True) w :=
  Prog.wp_of_all (I := fun _ => True) (fun _ _ _ _ _ _ => ⟨trivial, trivial⟩) (Prog.all_true p)
    trivial

theorem mwp_mountFresh (ht : t.mountID = cfg.mountID W.hash) :
    mwpOk W place noticed m t (Registry.mountFresh W cfg)
      (fun _ w' => w'.mounts (cfg.mountID W.hash) ≠ []) w := by
  unfold Registry.mountFresh
  dsimp only
  apply Prog.wpOk_bind (P := fun _ _ => True)
  · exact Prog.wp_mono (fun _ _ _ _ _ => trivial) (mwp_any _ _)
  intro _ w _
  apply Prog.wpOk_bind (P := fun _ _ => True)
  · exact Prog.wpOk_known fun _ _ => trivial
  intro _ w _
  apply Prog.wpOk_bind (P := fun _ w' => w'.mounts (cfg.mountID W.hash) ≠ [])
  · apply Prog.wpOk_attempt
    refine fun o _ => ⟨trivial, fun a ha => ?_⟩
    change mountsAfter t o (.mount (join W.root (cfg.mountID W.hash)) cfg) w.mounts _ ≠ []
    have hok : o.fault.isNone = true := by
      cases hf : o.fault with
      | none => rfl
      | some e => simp [Controller.exec, Registry.exec, Registry.act, Registry.okUnless, hf] at ha
    simp [mountsAfter, hok, ht]
  intro _ w hm
  apply Prog.wpOk_bind (P := fun _ w' => w'.mounts (cfg.mountID W.hash) ≠ [])
  · exact Prog.wpOk_always fun o _ => ⟨trivial, mounts_exec hm (.registry t _) o⟩
  exact fun _ w hm _ _ => hm

theorem mwp_getLocked (ht : t.mountID = cfg.mountID W.hash)
    (h : Watched W noticed (cfg.mountID W.hash) w) :
    mwpOk W place noticed (cfg.mountID W.hash) t (Registry.getLocked W cfg)
      (fun _ w' => w'.mounts (cfg.mountID W.hash) ≠ []) w := by
  unfold Registry.getLocked
  apply Prog.wpOk_bind (P := fun r w' => r = none ∨ w'.mounts (cfg.mountID W.hash) ≠ [])
  · exact Prog.wpOk_always (mwp_verified h)
  intro r w hr
  cases r with
  | none =>
    apply Prog.wpOk_bind (mwp_mountFresh ht)
    intro path w hm
    exact Prog.wp_mono (fun _ _ hm _ _ => hm) (mwp_mounts hm _)
  | some path =>
    have hm := hr.resolve_left (by simp)
    exact Prog.wp_mono (fun _ _ hm _ _ => hm) (mwp_mounts hm _)

theorem nwp_registryGet (h : Watched W noticed (cfg.mountID W.hash) w) :
    nwp W place noticed (cfg.mountID W.hash) (registryGet W cfg)
      (fun r w' => ∀ root, r = .ok root → w'.mounts (cfg.mountID W.hash) ≠ []) w := by
  apply (Prog.wp_lift _ _ _ _ _).mpr
  let t : Caller := ⟨0, cfg.mountID W.hash⟩
  unfold Registry.get
  rw [Prog.wp_bind]
  intro o _
  refine ⟨trivial, ?_⟩
  have hw : Watched W noticed _
      (Controller.exec W place o (.registry t (.lock (cfg.mountID W.hash))) w).2 :=
    h.exec (c := .lock _) trivial (fun _ _ => rfl) o
  rw [Prog.wp_ret, Prog.wp_bind]
  refine Prog.wp_mono ?_ (mwp_getLocked (t := t) rfl hw)
  intro r w' hr
  rw [Prog.wp_bind]
  exact fun o _ => ⟨trivial, fun root hroot => hr root hroot⟩

theorem nwp_imageManager {v : Str} (hres : Resolved w v cfg)
    (h : Watched W noticed (cfg.mountID W.hash) w) :
    nwp W place noticed (cfg.mountID W.hash) (imageManagerForVolumeID W v).run
      (fun r w' => ∀ root, r = .ok root → w'.mounts (cfg.mountID W.hash) ≠ []) w := by
  obtain ⟨id, hid, hlookup⟩ := hres
  unfold imageManagerForVolumeID
  rw [nwp, Prog.wp_run_bind, Prog.wp_known, hid]
  dsimp only
  rw [Prog.wp_run_bind, Prog.wp_always]
  intro o _
  refine ⟨trivial, ?_⟩
  have hr : (Controller.exec W place o (.configByStoreID id) w).1 = some cfg := hlookup
  rw [Prog.wp_ret, hr]
  dsimp only
  rw [Prog.wp_run_bind, Prog.wp_attempt]
  refine Prog.wp_mono ?_ (nwp_registryGet h)
  intro r w' hr
  cases r with
  | error e =>
    intro root hroot
    cases hroot
  | ok root => exact Prog.wp_mono (fun _ _ hm _ _ => hm) (nwp_mounts (hr root rfl) _)

/-- A delete that succeeds has removed the image, if the store is known and the loss of its
mount would be noticed. -/
theorem nwp_deleteVolume (hsound : Sound W w) (hmapped : Mapped W K w)
    (hK : ∀ c ∈ K, c.mountID W.hash = cfg.mountID W.hash → sourceOf c = sourceOf cfg) {v : Str}
    (hres : Resolved w v cfg) (h : Watched W noticed (cfg.mountID W.hash) w) :
    nwp W place noticed (cfg.mountID W.hash) (deleteVolume W v).run (fun r w' => r = .ok () →
      (w'.files (.backing (place (sourceOf cfg) cfg.subDir))).files.lookup (imageFile v) = none)
      w := by
  unfold deleteVolume
  rw [nwp, Prog.wp_run_bind, Prog.wp_known]
  by_cases hempty : v ≠ []
  · have hrequire : require (v ≠ []) ⟨.invalidArgument, "volumeId is required"⟩ = .ok () :=
      if_pos hempty
    rw [hrequire]
    dsimp only
    rw [Prog.wp_run_bind, Prog.wp_always]
    have hresolved : nwp W place noticed (cfg.mountID W.hash) (imageManagerForVolumeID W v).run _ w :=
      Prog.wp_weaken (fun _ _ _ _ => trivial) (fun _ _ _ _ h => h)
        (fwp_imageManager hsound hmapped v)
    refine Prog.wp_mono ?_ (Prog.wp_both (fun _ _ _ h _ => h) hresolved (nwp_imageManager hres h))
    rintro r w₁ ⟨⟨hmapped₁, hr⟩, hmounted⟩
    cases r with
    | error e =>
      have hcode : e.code ≠ .notFound := fun h => hr.mp h ⟨cfg, hres⟩
      dsimp only
      rw [Prog.wp_known, if_neg hcode]
      intro h
      cases h
    | ok root =>
      obtain ⟨cfg', ⟨id, hid, hlookup⟩, rfl⟩ := hr
      obtain ⟨id', hid', hlookup'⟩ := hres
      -- both are what the store ID of the volume leads to
      obtain rfl : id = id' := Except.ok.inj (hid.symm.trans hid')
      obtain rfl : cfg' = cfg := Option.some.inj (hlookup.symm.trans hlookup')
      have hsources : ∀ c ∈ w₁.mounts (cfg'.mountID W.hash), sourceOf c = sourceOf cfg' := by
        intro c hc
        obtain ⟨hc, hm⟩ := hmapped₁.mounts _ c hc
        exact hK c hc hm
      have hdir : w₁.dir W place (W.storePath cfg') =
          .backing (place (sourceOf cfg') cfg'.subDir) :=
        (dir_of_mounted hsources (hsound.configs id cfg' hlookup) (hmounted _ rfl)).1
      dsimp only
      rw [Prog.wp_attempt]
      refine Prog.wp_mono ?_ (Prog.wp_weaken (fun _ _ _ _ => trivial) (fun _ _ _ _ h => h)
        (fwp_delete (W.storePath cfg') v))
      intro r w' hr hok
      cases r with
      | error e => cases hok
      | ok a =>
        rw [← hdir]
        exact hr a rfl
  · have hrequire : require (v ≠ []) ⟨.invalidArgument, "volumeId is required"⟩ =
        .error ⟨.invalidArgument, "volumeId is required"⟩ := if_neg hempty
    rw [hrequire]
    intro h
    cases h

end Remount

/-- Only files of the volume are removed, and none is made. -/
def Removes (v : Str) : Cmd → Prop
  | .image _ c => c = .remove (imageFile v) ∨ c = .remove (sidecarFile v) ∨ c = .statRoot
  | _ => True

theorem inStore_removes {v root : Str} {x : ExceptT ε Image.Run α}
    (hx : x.run.All fun c => Removes v (.image root c)) : (inStore root x).All (Removes v) :=
  Prog.lift_all (P := fun c => Removes v (.image root c)) (fun _ hc => hc) hx

theorem delete_removes (v root : Str) :
    (Image.delete v).run.All fun c => Removes v (.image root c) := by
  have hissue : ∀ {c : Image.Cmd}, Removes v (.image root c) →
      (Image.issue c).All fun c => Removes v (.image root c) := fun h => (Prog.all_perform _ _).mpr h
  apply Prog.all_run_bind (Prog.all_ret _ _)
  intro _
  apply Prog.all_run_bind (Prog.all_attempt (hissue (c := .remove (imageFile v)) (.inl rfl)) _)
  intro _
  apply Prog.all_run_bind ((hissue (c := .remove (sidecarFile v)) (.inr (.inl rfl))).bind
    fun _ => Prog.all_ret _ _)
  intro _
  exact Prog.all_ret _ _

theorem deleteVolume_removes (v : Str) : (deleteVolume W v).run.All (Removes v) := by
  have hnew : ∀ root, (Image.new root).run.All fun c => Removes v (.image root c) := by
    intro root
    have hstat : (Image.issue .statRoot).All fun c => Removes v (.image root c) :=
      (Prog.all_perform _ _).mpr (.inr (.inr rfl))
    exact Prog.all_run_bind (Prog.all_attempt hstat _) fun _ => Prog.all_ret _ _
  have hget : ∀ cfg, (registryGet W cfg).All (Removes v) :=
    fun cfg => Prog.lift_all (fun _ _ => trivial) (Prog.all_true (Registry.get W cfg))
  have hmanager : (imageManagerForVolumeID W v).run.All (Removes v) := by
    apply Prog.all_run_bind (Prog.all_ret _ _)
    intro id
    have hlook : (issue (.configByStoreID id)).All (Removes v) := (Prog.all_perform _ _).mpr trivial
    apply Prog.all_run_bind (hlook.bind fun _ => Prog.all_ret _ _)
    intro r
    cases r with
    | none => exact Prog.all_ret _ _
    | some cfg =>
      apply Prog.all_run_bind (Prog.all_attempt (hget cfg) _)
      intro root
      apply Prog.all_run_bind (Prog.all_attempt (inStore_removes (hnew root)) _)
      intro _
      exact Prog.all_ret _ _
  apply Prog.all_run_bind (Prog.all_ret _ _)
  intro _
  apply Prog.all_run_bind (hmanager.bind fun _ => Prog.all_ret _ _)
  intro r
  cases r with
  | error e => exact Prog.all_ret _ _
  | ok root => exact Prog.all_attempt (inStore_removes (delete_removes v root)) _

theorem Removes.exec {c : Cmd} {v v' : Str} (hc : Removes v c) (hne : v' ≠ v) (d : Dir P)
    (o : Choice) (w : World P) :
    ((Controller.exec W place o c w).2.files d).files.lookup (imageFile v') =
      (w.files d).files.lookup (imageFile v') := by
  cases c with
  | image root c =>
    rcases hc with rfl | rfl | rfl
    · exact (lookup_remove W place root _ o w).2 d _ fun he => hne (Image.imageFile_injective he)
    · exact (lookup_remove W place root _ o w).2 d _ (imageFile_ne_sidecarFile v' v)
    · change ((Function.update w.files _ (w.files _)) d).files.lookup _ = _
      rw [Function.update_eq_self]
  | _ => rfl

theorem fwp_deleteVolume_others (v : Str) : fwp W place (deleteVolume W v).run (fun _ w' =>
    ∀ d v', v' ≠ v → (w'.files d).files.lookup (imageFile v') =
      (w.files d).files.lookup (imageFile v')) w := by
  apply Prog.wp_of_all (I := fun w' : World P => ∀ d v', v' ≠ v →
    (w'.files d).files.lookup (imageFile v') = (w.files d).files.lookup (imageFile v'))
    _ (deleteVolume_removes v)
  · exact fun _ _ _ => rfl
  · intro w' c o hc _ h
    refine ⟨trivial, ?_⟩
    intro d v' hne
    rw [hc.exec hne, h d v' hne]

theorem fwp_create (root v : Str) (capacity : ℤ) (unformatted : Bool) :
    fwp W place (inStore root (Image.create root v capacity unformatted))
      (fun r _ => ∀ found, r = .ok found → found.volumeID = v) w := by
  let exec' : Choice → (c : Image.Cmd) → World P → Image.Resp c × World P :=
    fun o c w => Controller.exec W place o (.image root c) w
  let G : World P → Image.Cmd → Choice → Prop := fun _ _ _ => True
  have hany : ∀ {β δ : Type} (x : ExceptT δ Image.Run β) (w : World P),
      Prog.wpOk ⟨exec', G, G⟩ x (fun _ _ => True) w :=
    fun x w => Prog.wpOk_of_all (Prog.all_true x.run) fun _ _ _ _ _ => trivial
  have hpure : ∀ (found : Image.Metadata) (w : World P), found.volumeID = v →
      Prog.wpOk ⟨exec', G, G⟩ (pure found : ExceptT Image.CreateError Image.Run Image.Metadata)
        (fun found _ => found.volumeID = v) w := by
    intro found w hfound found' hr
    rw [← Except.ok.inj hr]
    exact hfound
  have hcreate : Prog.wpOk ⟨exec', G, G⟩ (Image.create root v capacity unformatted)
      (fun found _ => found.volumeID = v) w := by
    unfold Image.create
    apply Prog.wpOk_bind (hany _ _)
    intro _ w _
    apply Prog.wpOk_bind (hany _ _)
    intro _ w _
    apply Prog.wpOk_bind (hany _ _)
    intro found w _
    cases found with
    | some size =>
      dsimp only
      split_ifs
      · exact Prog.wpOk_known fun found hr => by cases hr
      · exact Prog.wpOk_known fun found hr => by rw [← Except.ok.inj hr]
    | none =>
      apply Prog.wpOk_bind (hany _ _)
      intro _ w _
      cases unformatted with
      | true => exact hpure _ w rfl
      | false =>
        apply Prog.wpOk_bind (hany _ _)
        exact fun _ w _ => hpure _ w rfl
  exact (Prog.wp_lift _ _ _ _ _).mpr hcreate

theorem fwp_createVolume (req : CreateVolumeRequest) :
    fwp W place (createVolume W req).run (fun r _ => ∀ v, r = .ok v →
      ∃ cfg, configFromParams req.params = .ok cfg ∧
        volumeIDFromName W.hash cfg req.name = .ok v.volumeID) w := by
  have hany : ∀ {β δ : Type} (x : ExceptT δ Run β) (w : World P),
      Prog.wpOk ⟨Controller.exec W place, fun _ _ _ => True, fun _ _ _ => True⟩ x
        (fun _ _ => True) w :=
    fun x w => Prog.wpOk_of_all (Prog.all_true x.run) fun _ _ _ _ _ => trivial
  change Prog.wpOk ⟨Controller.exec W place, fun _ _ _ => True, fun _ _ _ => True⟩
    (createVolume W req) (fun v _ => ∃ cfg, configFromParams req.params = .ok cfg ∧
        volumeIDFromName W.hash cfg req.name = .ok v.volumeID) w
  unfold createVolume
  apply Prog.wpOk_bind (P := fun r _ => createChecks req = .ok r)
  · exact Prog.wpOk_known fun r hr => hr
  rintro ⟨cfg, encrypted⟩ w hchecks
  apply Prog.wpOk_bind (hany _ _)
  intro root w _
  apply Prog.wpOk_bind (hany _ _)
  intro _ w _
  apply Prog.wpOk_bind (hany _ _)
  intro capacity w _
  apply Prog.wpOk_bind (hany _ _)
  intro _ w _
  apply Prog.wpOk_bind (P := fun v _ => volumeIDFromName W.hash cfg req.name = .ok v)
  · exact Prog.wpOk_known fun v hv => hv
  intro volumeID w hid
  apply Prog.wpOk_bind (P := fun found _ => found.volumeID = volumeID)
  · exact Prog.wpOk_attempt (fwp_create root volumeID capacity encrypted)
  intro found w hfound v hv
  refine ⟨cfg, createChecks_config hchecks, ?_⟩
  rw [← Except.ok.inj hv, hfound]
  exact hid

theorem fwp_serve_issued {r : Request} (hr : r.Uses K) :
    fwp W place (r.serve W) (fun a _ => ∀ cfg v, (cfg, v) ∈ issued r a →
      cfg ∈ K ∧ parseStoreIDFromVolumeID v = .ok (cfg.storeID W.hash)) w := by
  cases r with
  | create req =>
    change fwp W place (Reply.created <$> createVolume W req).run _ w
    rw [ExceptT.run_map, ← bind_pure_comp]
    apply (Prog.wp_bind _ _ _ _).mpr
    refine Prog.wp_mono ?_ (fwp_createVolume req)
    intro a w' ha cfg v hv
    cases a with
    | error e => cases hv
    | ok vol =>
      obtain ⟨cfg', hcfg', hid⟩ := ha vol rfl
      have hissued : issued (.create req) (.ok (.created vol)) = [(cfg', vol.volumeID)] := by
        simp [issued, hcfg']
      have hmem : (cfg, v) ∈ issued (.create req) (.ok (.created vol)) := hv
      rw [hissued, List.mem_singleton] at hmem
      cases hmem
      exact ⟨hr cfg hcfg', parseStoreID_of_hex W.hash_length W.hash_hex hid⟩
  | delete id =>
    refine Prog.wp_mono (Q := fun _ _ => True) ?_ ?_
    · intro a _ _ cfg v hv
      cases hv
    · exact Prog.wp_of_all (I := fun _ => True) (fun _ _ _ _ _ _ => ⟨trivial, trivial⟩)
        (Prog.all_true _) trivial
  | expand id capacity =>
    refine Prog.wp_mono (Q := fun _ _ => True) ?_ ?_
    · intro a _ _ cfg v hv
      cases hv
    · exact Prog.wp_of_all (I := fun _ => True) (fun _ _ _ _ _ _ => ⟨trivial, trivial⟩)
        (Prog.all_true _) trivial

theorem Reachable.issued {all recent : List (Config × Str)} (h : Reachable W place K all recent w)
    {v : Str} (hv : (cfg, v) ∈ all) :
    cfg ∈ K ∧ parseStoreIDFromVolumeID v = .ok (cfg.storeID W.hash) := by
  induction h with
  | first files => cases hv
  | serve r o _ hr ih =>
    obtain hv | hv := List.mem_append.mp hv
    · exact (Prog.wp_eval (fwp_serve_issued hr) fun _ _ => trivial).1 cfg v hv
    · exact ih hv
  | die r o n entries check _ _ ih => exact ih hv
  | restart entries check _ ih => exact ih hv
  | lose m n _ ih => exact ih hv

/-- Whatever the controller has been through, a delete that succeeds leaves the images of other
volumes alone. When it was of a store that this process has got before and that no other
passes for, whose mount is there or whose loss is noticed, it has removed the image. -/
theorem deleteVolume_gone {all recent : List (Config × Str)}
    (hw : Reachable W place K all recent w) {v : Str} (hv : (cfg, v) ∈ all) {o : ℕ → Choice}
    (hok : ((deleteVolume W v).run.eval (Controller.exec W place) o w).1 = .ok ()) :
    let w' := ((deleteVolume W v).run.eval (Controller.exec W place) o w).2
    (∀ d v', v' ≠ v → (w'.files d).files.lookup (imageFile v') =
      (w.files d).files.lookup (imageFile v')) ∧
    (Unmistaken W K cfg → w.reg.configs.lookup (cfg.storeID W.hash) ≠ none →
      (Lost (cfg.mountID W.hash) w →
        Noticed W place (cfg.mountID W.hash) (deleteVolume W v).run o w) →
      (w'.files (.backing (place (sourceOf cfg) cfg.subDir))).files.lookup (imageFile v) =
        none) := by
  obtain ⟨hcK, hparse⟩ := hw.issued hv
  have hsound := (hw.mono (Set.subset_univ K)).sound
  have hmapped := hw.mapped
  refine ⟨(Prog.wp_eval (fwp_deleteVolume_others v) fun _ _ => trivial).1, ?_⟩
  intro hK hknown hlost
  obtain ⟨cfg', hlookup⟩ := Option.ne_none_iff_exists'.mp hknown
  obtain ⟨hcK', hid⟩ := hmapped.configs _ cfg' hlookup
  -- the store may have been got with other mount options
  obtain ⟨hm, hsub⟩ := hK.store cfg' hcK' hid
  have hsource := hK.source cfg' hcK' hm
  rw [← hm] at hlost
  have hwatched : Watched W (Lost (cfg'.mountID W.hash) w) (cfg'.mountID W.hash) w :=
    fun h => ⟨h, (hlost h).checker, (hlost h).idle⟩
  have hsources : ∀ c ∈ K, c.mountID W.hash = cfg'.mountID W.hash → sourceOf c = sourceOf cfg' :=
    fun c hc he => (hK.source c hc (he.trans hm)).trans hsource.symm
  have hgone := (Prog.wp_eval (nwp_deleteVolume hsound hmapped hsources ⟨_, hparse, hlookup⟩
    hwatched) fun e he h => (hlost h).denied e he).1 hok
  rwa [hsource, hsub] at hgone

end Mapped

section Examples

def filedWorld : World Unit :=
  (((Request.create (teamRequest 8192)).serve Registry.smallSite).eval
    (exec Registry.smallSite fun _ _ => ()) (fun _ => smooth) (bare fun _ => ⟨∅, 0⟩)).2

theorem reachable_filedWorld : Reachable Registry.smallSite (fun _ _ => ()) {Registry.team}
    [(Registry.team, teamVolume)] [(Registry.team, teamVolume)] filedWorld := by
  have hfirst : Reachable Registry.smallSite (fun _ _ => ()) {Registry.team} [] []
      (bare fun _ => ⟨∅, 0⟩) := .first _
  exact .serve (.create (teamRequest 8192)) (fun _ => smooth) hfirst
    fun cfg hcfg => (Except.ok.inj hcfg).symm

theorem unmistaken_team : Unmistaken Registry.smallSite {Registry.team} Registry.team := by
  constructor
  · intro c hc _
    rw [Set.mem_singleton_iff.mp hc]
  · intro c hc _
    rw [Set.mem_singleton_iff.mp hc]
    exact ⟨rfl, rfl⟩

def lostWorld : World Unit := filedWorld.lose Registry.zeros 1

theorem reachable_lostWorld : Reachable Registry.smallSite (fun _ _ => ()) {Registry.team}
    [(Registry.team, teamVolume)] [(Registry.team, teamVolume)] lostWorld :=
  .lose Registry.zeros 1 reachable_filedWorld

/-- A check that is running answers that nothing is mounted. -/
def noticing : Choice := { smooth with answers := [(Registry.zeros, 0, .ok false)] }

def deletedWorld (o : Choice) : Except Status Unit × World Unit :=
  (deleteVolume Registry.smallSite teamVolume).run.eval (exec Registry.smallSite fun _ _ => ())
    (fun _ => o) lostWorld

theorem deleteVolume_gone_remounted :
    lostWorld.mounts Registry.zeros = [] ∧
    (lostWorld.files (.backing ())).files.lookup (imageFile teamVolume) ≠ none ∧
    ((deletedWorld noticing).2.files (.backing ())).files.lookup (imageFile teamVolume) = none := by
  refine ⟨by decide +kernel, by decide +kernel, ?_⟩
  have hnoticed : Noticed Registry.smallSite (fun _ _ => ()) Registry.zeros
      (deleteVolume Registry.smallSite teamVolume).run (fun _ => noticing) lostWorld := by
    refine ⟨rfl, rfl, ?_⟩
    unfold Prog.Admissible
    decide +kernel
  exact (deleteVolume_gone reachable_lostWorld List.mem_cons_self (by decide +kernel)).2
    unmistaken_team (by decide +kernel) fun _ => hnoticed

/-- A process that has not seen the store answers that the volume is gone. -/
theorem deleteVolume_after_restart :
    Reachable Registry.smallSite (fun _ _ => ()) {Registry.team} [(Registry.team, teamVolume)] []
      (filedWorld.restart Registry.smallSite [] fun _ => .ok true) ∧
    ((deleteVolume Registry.smallSite teamVolume).run.eval (exec Registry.smallSite fun _ _ => ())
      (fun _ => smooth) (filedWorld.restart Registry.smallSite [] fun _ => .ok true)).1 = .ok () ∧
    (((deleteVolume Registry.smallSite teamVolume).run.eval (exec Registry.smallSite fun _ _ => ())
      (fun _ => smooth) (filedWorld.restart Registry.smallSite [] fun _ => .ok true)).2.files
        (.backing ())).files.lookup (imageFile teamVolume) ≠ none :=
  ⟨.restart [] _ reachable_filedWorld, rfl, by decide +kernel⟩

/-- A check that is given up passes for a yes, and the image is looked for in the directory
that the mount has left behind. -/
theorem deleteVolume_unnoticed :
    (deletedWorld { smooth with timeout := true }).1 = .ok () ∧
    ((deletedWorld { smooth with timeout := true }).2.files (.backing ())).files.lookup
      (imageFile teamVolume) ≠ none :=
  ⟨by decide +kernel, by decide +kernel⟩

def exportRequest (name server path options subDir : Str) : Request :=
  .create ⟨name, [⟨.mount "" [], .singleNodeWriter⟩],
    [(paramType, "nfs"), (paramNFSServer, server), (paramNFSPath, path),
      (paramNFSMountOptions, options), (paramNFSSubDir, subDir)], some ⟨8192, 0⟩, none⟩

def afterRequest (W : Setup) (r : Request) (o : Choice) (w : World (Source × Str)) :
    World (Source × Str) :=
  ((r.serve W).eval (exec W Prod.mk) (fun _ => o) w).2

/-- A delete of the volume succeeds and leaves its image. -/
def Leaks (W : Setup) (cfg : Config) (v : Str) (o : Choice) (w : World (Source × Str)) : Prop :=
  let r := (deleteVolume W v).run.eval (exec W Prod.mk) (fun _ => o) w
  r.1 = .ok () ∧
    (r.2.files (.backing (sourceOf cfg, cfg.subDir))).files.lookup (imageFile v) ≠ none

instance (W : Setup) (cfg : Config) (v : Str) (o : Choice) (w : World (Source × Str)) :
    Decidable (Leaks W cfg v o w) := inferInstanceAs (Decidable (_ ∧ _))

/-- An export that has the IDs of another is mounted in its place, after a loss. -/
def mistakenSource : World (Source × Str) :=
  afterRequest Registry.smallSite (exportRequest "q" "nas|/x" "/y" [] []) noticing
    ((afterRequest Registry.smallSite (exportRequest "p" "nas" "/x|/y" [] []) smooth
      (bare fun _ => ⟨∅, 0⟩)).lose Registry.zeros 1)

theorem mistakenSource_leaks :
    (∃ all recent, Reachable Registry.smallSite Prod.mk Set.univ all recent mistakenSource ∧
      (.nfs "nas" "/x|/y" [] [], teamVolume) ∈ all) ∧
    mistakenSource.mounts Registry.zeros ≠ [] ∧
    Leaks Registry.smallSite (.nfs "nas" "/x|/y" [] []) teamVolume
      { smooth with answers := [(Registry.zeros, 1, .ok true)] } mistakenSource := by
  have hfirst : Reachable Registry.smallSite Prod.mk Set.univ [] [] (bare fun _ => ⟨∅, 0⟩) :=
    .first _
  have hlost := (hfirst.serve (exportRequest "p" "nas" "/x|/y" [] []) (fun _ => smooth)
    fun _ _ => trivial).lose Registry.zeros 1
  have hreach := hlost.serve (exportRequest "q" "nas|/x" "/y" [] []) (fun _ => noticing)
    fun _ _ => trivial
  exact ⟨⟨_, _, hreach, by decide +kernel⟩, by decide +kernel, by decide +kernel⟩

/-- A site that tells the mounts with options `ro` and `ro|team` apart. -/
def barSite : Setup :=
  { Registry.smallSite with
    hash := fun key => List.replicate 12 (if key.getLast? = some 'o' then '1' else '0')
    hash_length := fun _ => List.length_replicate
    hash_hex := fun key c hc => by
      rw [List.eq_of_mem_replicate hc]
      split_ifs <;> rfl }

/-- A directory of an export has the store ID of the export with another option. -/
def mistakenStore : World (Source × Str) :=
  afterRequest barSite (exportRequest "q" "a" "b" "ro" "team") smooth
    (afterRequest barSite (exportRequest "p" "a" "b" "ro|team" []) smooth (bare fun _ => ⟨∅, 0⟩))

theorem mistakenStore_leaks :
    (∃ all recent, Reachable barSite Prod.mk Set.univ all recent mistakenStore ∧
      (.nfs "a" "b" "ro|team" [], teamVolume) ∈ all) ∧
    Leaks barSite (.nfs "a" "b" "ro|team" []) teamVolume smooth mistakenStore := by
  have hfirst : Reachable barSite Prod.mk Set.univ [] [] (bare fun _ => ⟨∅, 0⟩) := .first _
  have hreach := (hfirst.serve (exportRequest "p" "a" "b" "ro|team" []) (fun _ => smooth)
    fun _ _ => trivial).serve (exportRequest "q" "a" "b" "ro" "team") (fun _ => smooth)
    fun _ _ => trivial
  exact ⟨⟨_, _, hreach, by decide +kernel⟩, by decide +kernel⟩

end Examples
end Fileblock.Controller
