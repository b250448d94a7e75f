import Fileblock.Controller.Retry

/-! What holds of a controller process between two requests, as long as no mount is lost:
its maps lead to the stores they name, and every image is in the directory of its store. -/
namespace Fileblock.Controller
open Go Store Interaction
open Registry (Setup Caller CheckRes)
open Image (imageFile)

/-- Configs that can be told apart: their mounts by what they mount, their stores by where
these are, and their directories by the paths that lead there. -/
structure Distinct {P : Type} (W : Setup) (place : Source → Str → P) (K : Set Config) : Prop where
  accepted : ∀ c ∈ K, ∃ params, configFromParams params = .ok c
  sources : ∀ c ∈ K, ∀ c' ∈ K, c.mountID W.hash = c'.mountID W.hash → sourceOf c = sourceOf c'
  stores : ∀ c ∈ K, ∀ c' ∈ K, c.storeID W.hash = c'.storeID W.hash →
    c.mountID W.hash = c'.mountID W.hash ∧ c.subDir = c'.subDir
  places : ∀ c ∈ K, ∀ c' ∈ K, ∀ sub ∈ [[], c.subDir], ∀ sub' ∈ [[], c'.subDir],
    place (sourceOf c) sub = place (sourceOf c') sub' →
      c.mountID W.hash = c'.mountID W.hash ∧ sub = sub'

section Filed
variable {P : Type} [DecidableEq P] {W : Setup} {place : Source → Str → P} {K : Set Config}
  {w w' : World P} {t : Caller} {o : Choice} {cfg : Config}

/-- The maps are right, and so is the place of every image. -/
structure Filed (W : Setup) (place : Source → Str → P) (K : Set Config) (w : World P) : Prop where
  cached : ∀ m p, w.reg.mounted.lookup m = some p → p = W.target m ∧ w.mounts m ≠ []
  mounts : ∀ m, ∀ c ∈ w.mounts m, c ∈ K ∧ c.mountID W.hash = m
  stores : ∀ id p, w.reg.stores.lookup id = some p →
    ∃ c ∈ K, c.storeID W.hash = id ∧ p = W.storePath c ∧ w.mounts (c.mountID W.hash) ≠ []
  configs : ∀ id c, w.reg.configs.lookup id = some c → c ∈ K ∧ c.storeID W.hash = id
  images : ∀ d v f, (w.files d).files.lookup (imageFile v) = some f →
    ∃ c ∈ K, parseStoreIDFromVolumeID v = .ok (c.storeID W.hash) ∧
      w.reg.stores.lookup (c.storeID W.hash) = some (W.storePath c) ∧
      d = .backing (place (sourceOf c) c.subDir)

/-- A store that `Get` has given out. -/
def Known (W : Setup) (cfg : Config) (w : World P) : Prop :=
  w.reg.stores.lookup (cfg.storeID W.hash) = some (W.storePath cfg)

omit [DecidableEq P] in
theorem dir_of_mounted (hsources : ∀ c ∈ w.mounts (cfg.mountID W.hash), sourceOf c = sourceOf cfg)
    (hcfg : ∃ params, configFromParams params = .ok cfg) (hm : w.mounts (cfg.mountID W.hash) ≠ []) :
    w.dir W place (W.storePath cfg) = .backing (place (sourceOf cfg) cfg.subDir) ∧
      w.dir W place (W.target (cfg.mountID W.hash)) = .backing (place (sourceOf cfg) []) := by
  have hname := W.mountName cfg
  obtain ⟨top, rest, hstack⟩ := List.exists_cons_of_ne_nil hm
  have hsource : sourceOf top = sourceOf cfg := hsources top (hstack ▸ List.mem_cons_self)
  -- the twelve characters after the root are the mount ID
  have hlead : ∀ tail : Str, w.dir W place (W.target (cfg.mountID W.hash) ++ tail) =
      .backing (place (sourceOf cfg) (tail.drop 1)) := by
    intro tail
    have htake : (cfg.mountID W.hash ++ tail).take 12 = cfg.mountID W.hash := by
      rw [← hname.length]
      exact List.take_left
    have hdrop : (cfg.mountID W.hash ++ tail).drop 13 = tail.drop 1 := by
      have h13 : 13 = (cfg.mountID W.hash).length + 1 := by rw [hname.length]
      rw [h13, ← List.drop_drop, List.drop_left]
    unfold World.dir
    rw [Setup.target_eq hname, List.append_assoc, cutPrefix_append]
    dsimp only
    rw [htake, hstack]
    dsimp only
    rw [hdrop, hsource]
  have htarget := hlead []
  rw [List.append_nil] at htarget
  refine ⟨?_, htarget⟩
  obtain ⟨params, hparams⟩ := hcfg
  by_cases hsub : cfg.subDir = []
  · have hs : W.storePath cfg = W.target (cfg.mountID W.hash) := if_pos hsub
    rw [hs, hsub]
    exact htarget
  · rw [Setup.storePath_of_subDir (configFromParams_valid hparams) hsub]
    exact hlead ('/' :: cfg.subDir)

omit [DecidableEq P] in
theorem Filed.dir (hK : Distinct W place K) (h : Filed W place K w) (hc : cfg ∈ K)
    (hm : w.mounts (cfg.mountID W.hash) ≠ []) :
    w.dir W place (W.storePath cfg) = .backing (place (sourceOf cfg) cfg.subDir) ∧
      w.dir W place (W.target (cfg.mountID W.hash)) = .backing (place (sourceOf cfg) []) := by
  apply dir_of_mounted _ (hK.accepted cfg hc) hm
  intro c hmem
  obtain ⟨hcK, hid⟩ := h.mounts _ c hmem
  exact hK.sources c hcK cfg hc hid

omit [DecidableEq P] in
theorem Distinct.storePath (hK : Distinct W place K) {c c' : Config} (hc : c ∈ K) (hc' : c' ∈ K)
    (h : c.storeID W.hash = c'.storeID W.hash) : W.storePath c = W.storePath c' := by
  obtain ⟨hm, hs⟩ := hK.stores c hc c' hc' h
  unfold Setup.storePath
  rw [hm, hs]

omit [DecidableEq P] in
theorem Filed.of_same (h : Filed W place K w) (hmounted : w'.reg.mounted = w.reg.mounted)
    (hstores : w'.reg.stores = w.reg.stores) (hconfigs : w'.reg.configs = w.reg.configs)
    (hmounts : w'.mounts = w.mounts) (hfiles : w'.files = w.files) : Filed W place K w' := by
  refine ⟨?_, ?_, ?_, ?_, ?_⟩
  · rw [hmounted, hmounts]
    exact h.cached
  · rw [hmounts]
    exact h.mounts
  · rw [hstores, hmounts]
    exact h.stores
  · rw [hconfigs]
    exact h.configs
  · rw [hfiles, hstores]
    exact h.images

/-- The sections and calls of `Get` that change neither maps nor mounts. -/
def Idle : Registry.Cmd → Prop
  | .evict .. | .mount .. | .putMounted .. | .putStore .. => False
  | _ => True

variable (W place t) in
theorem exec_idle {c : Registry.Cmd} (hc : Idle c) (o : Choice) (w : World P) :
    let w' := (exec W place o (.registry t c) w).2
    w'.reg.mounted = w.reg.mounted ∧ w'.reg.stores = w.reg.stores ∧
      w'.reg.configs = w.reg.configs ∧ w'.mounts = w.mounts ∧ w'.files = w.files := by
  have hreg : ∀ s : Registry.State,
      (Registry.exec t ⟨o.fault, o.timeout⟩ c s).2.mounted = s.mounted ∧
      (Registry.exec t ⟨o.fault, o.timeout⟩ c s).2.stores = s.stores ∧
      (Registry.exec t ⟨o.fault, o.timeout⟩ c s).2.configs = s.configs := by
    intro s
    cases c with
    | evict | mount | putMounted | putStore => exact hc.elim
    | openSlot m =>
      simp only [Registry.exec, Registry.act]
      cases s.checking m <;> exact ⟨rfl, rfl, rfl⟩
    | poll m ch =>
      simp only [Registry.exec, Registry.act]
      cases (s.chan m ch).answer <;> exact ⟨rfl, rfl, rfl⟩
    | await m ch =>
      simp only [Registry.exec, Registry.act]
      cases o.timeout <;> exact ⟨rfl, rfl, rfl⟩
    | lock | unlock | cached | start | clearCheck | mkdirAll | seen => exact ⟨rfl, rfl, rfl⟩
  have hmounts : mountsAfter t o c w.mounts = w.mounts := by
    cases c with
    | mount => exact hc.elim
    | _ => rfl
  obtain ⟨h1, h2, h3⟩ := hreg (arrived w.reg o)
  exact ⟨h1.trans (arrived_mounted _ _), h2.trans (arrived_stores _ _),
    h3.trans (arrived_configs _ _), hmounts, rfl⟩

/-- Known between two commands of a `Get` for `cfg`. -/
structure Getting (W : Setup) (place : Source → Str → P) (K : Set Config) (cfg : Config)
    (here : Bool) (w : World P) : Prop where
  filed : Filed W place K w
  mounted : here = true → w.mounts (cfg.mountID W.hash) ≠ []

theorem Getting.exec {here : Bool} (h : Getting W place K cfg here w) {c : Registry.Cmd}
    (hc : Idle c) (o : Choice) :
    Getting W place K cfg here (Controller.exec W place o (.registry t c) w).2 := by
  obtain ⟨h1, h2, h3, h4, h5⟩ := exec_idle W place t hc o w
  refine ⟨h.filed.of_same h1 h2 h3 h4 h5, ?_⟩
  rw [h4]
  exact h.mounted

/-- The weakest precondition of a part of `Get` whose checks deny no mount. -/
abbrev rwp (W : Setup) (place : Source → Str → P) (t : Caller) {α : Type} (p : Registry.Run α)
    (Q : α → World P → Prop) (w : World P) : Prop :=
  p.wp ⟨fun o c w => Controller.exec W place o (.registry t c) w,
    fun _ _ o => ∀ m, Affirmed m o, fun _ _ _ => True⟩ Q w

theorem rwp_issue {here : Bool} {c : Registry.Cmd} {Q : Registry.Resp c → World P → Prop}
    (h : Getting W place K cfg here w) (hc : Idle c)
    (hq : ∀ o, Getting W place K cfg here (exec W place o (.registry t c) w).2 →
      Q (exec W place o (.registry t c) w).1 (exec W place o (.registry t c) w).2) :
    rwp W place t (Registry.issue c) Q w :=
  fun o _ => ⟨trivial, hq o (h.exec hc o)⟩

theorem rwp_verified (h : Getting W place K cfg false w) :
    rwp W place t (Registry.verified W (cfg.mountID W.hash)) (fun r w' =>
      match r with
      | none => Getting W place K cfg false w'
      | some p => p = W.target (cfg.mountID W.hash) ∧ Getting W place K cfg true w') w := by
  apply (Prog.wp_bind _ _ _ _).mpr
  apply rwp_issue (c := .cached _) h trivial
  intro o h'
  have hr : (exec W place o (.registry t (.cached (cfg.mountID W.hash))) w).1 =
      w.reg.mounted.lookup (cfg.mountID W.hash) := by
    simp [exec, Registry.exec, Registry.act]
  have hmounts : (exec W place o (.registry t (.cached (cfg.mountID W.hash))) w).2.mounts =
      w.mounts := rfl
  rw [hr]
  cases hp : w.reg.mounted.lookup (cfg.mountID W.hash) with
  | none => exact h'
  | some p =>
    obtain ⟨rfl, hne⟩ := h.filed.cached _ p hp
    have hhere : Getting W place K cfg true
        (exec W place o (.registry t (.cached (cfg.mountID W.hash))) w).2 :=
      ⟨h'.filed, fun _ => hmounts ▸ hne⟩
    apply (Prog.wp_bind _ _ _ _).mpr
    refine Prog.wp_mono ?_ (wp_stillMounted (I := Getting W place K cfg true)
      (fun _ _ _ ho => ho _) ?_ hhere)
    · rintro r w' ⟨rfl, h''⟩
      exact ⟨rfl, h''⟩
    · intro w c o hc _ h
      refine h.exec ?_ o
      cases c <;> trivial

theorem rwp_mkdirAll {here : Bool} (h : Getting W place K cfg here w) (path : Str)
    {Q : Except Err Unit → World P → Prop}
    (hq : ∀ r w, Getting W place K cfg here w → Q r w) :
    rwp W place t (Registry.mkdirAll path).run Q w := by
  unfold Registry.mkdirAll
  rw [rwp, Prog.wp_attempt]
  apply rwp_issue (c := .mkdirAll _) h trivial
  intro o h'
  exact hq _ _ h'

omit [DecidableEq P] in
theorem Filed.mount (h : Filed W place K w) (hc : cfg ∈ K)
    (hmounts : w'.mounts = Function.update w.mounts (cfg.mountID W.hash)
      (cfg :: w.mounts (cfg.mountID W.hash)))
    (hmounted : w'.reg.mounted = w.reg.mounted) (hstores : w'.reg.stores = w.reg.stores)
    (hconfigs : w'.reg.configs = w.reg.configs) (hfiles : w'.files = w.files) :
    Filed W place K w' := by
  have hne : ∀ m, w.mounts m ≠ [] → w'.mounts m ≠ [] := by
    intro m hm
    rw [hmounts]
    by_cases he : m = cfg.mountID W.hash
    · rw [he, Function.update_self]
      exact List.cons_ne_nil _ _
    · rw [Function.update_of_ne he]
      exact hm
  refine ⟨?_, ?_, ?_, ?_, ?_⟩
  · intro m p hp
    rw [hmounted] at hp
    obtain ⟨hpath, hm⟩ := h.cached m p hp
    exact ⟨hpath, hne m hm⟩
  · intro m c hmem
    rw [hmounts] at hmem
    by_cases he : m = cfg.mountID W.hash
    · rw [he, Function.update_self] at hmem
      rcases List.mem_cons.mp hmem with rfl | hmem
      · exact ⟨hc, he.symm⟩
      · rw [he]
        exact h.mounts _ c hmem
    · rw [Function.update_of_ne he] at hmem
      exact h.mounts m c hmem
  · intro id p hp
    rw [hstores] at hp
    obtain ⟨c, hcK, hid, hpath, hm⟩ := h.stores id p hp
    exact ⟨c, hcK, hid, hpath, hne _ hm⟩
  · rw [hconfigs]
    exact h.configs
  · rw [hfiles, hstores]
    exact h.images

theorem Getting.mount (h : Getting W place K cfg false w) (hc : cfg ∈ K)
    (ht : t.mountID = cfg.mountID W.hash) (target : Str) (o : Choice) :
    Getting W place K cfg o.fault.isNone (Controller.exec W place o
      (.registry t (.mount target cfg)) w).2 := by
  have hreg : ∀ s : Registry.State,
      (Registry.exec t ⟨o.fault, o.timeout⟩ (.mount target cfg) s).2.mounted = s.mounted ∧
      (Registry.exec t ⟨o.fault, o.timeout⟩ (.mount target cfg) s).2.stores = s.stores ∧
      (Registry.exec t ⟨o.fault, o.timeout⟩ (.mount target cfg) s).2.configs = s.configs := by
    intro s
    simp only [Registry.exec, Registry.act]
    split_ifs <;> exact ⟨rfl, rfl, rfl⟩
  obtain ⟨h1, h2, h3⟩ := hreg (arrived w.reg o)
  have h1' := h1.trans (arrived_mounted _ _)
  have h2' := h2.trans (arrived_stores _ _)
  have h3' := h3.trans (arrived_configs _ _)
  by_cases hl : (o.fault.isNone || o.landed) = true
  · have hmounts : (Controller.exec W place o (.registry t (.mount target cfg)) w).2.mounts =
        Function.update w.mounts (cfg.mountID W.hash) (cfg :: w.mounts (cfg.mountID W.hash)) := by
      rw [← ht]
      exact if_pos hl
    refine ⟨h.filed.mount hc hmounts h1' h2' h3' rfl, fun _ => ?_⟩
    rw [hmounts, Function.update_self]
    exact List.cons_ne_nil _ _
  · have hmounts : (Controller.exec W place o (.registry t (.mount target cfg)) w).2.mounts =
        w.mounts := if_neg hl
    refine ⟨h.filed.of_same h1' h2' h3' hmounts rfl, fun hf => ?_⟩
    rw [hf] at hl
    exact absurd rfl hl

theorem Getting.putMounted (h : Getting W place K cfg true w) (o : Choice) :
    Getting W place K cfg true (Controller.exec W place o
      (.registry t (.putMounted (cfg.mountID W.hash) (W.target (cfg.mountID W.hash)))) w).2 := by
  refine ⟨⟨?_, h.filed.mounts, ?_, ?_, ?_⟩, h.mounted⟩
  · intro m p hp
    change ((arrived w.reg o).mounted.insert _ _).lookup m = some p at hp
    rw [arrived_mounted] at hp
    by_cases he : m = cfg.mountID W.hash
    · subst he
      rw [AList.lookup_insert] at hp
      exact ⟨(Option.some.inj hp).symm, h.mounted rfl⟩
    · rw [AList.lookup_insert_ne he] at hp
      exact h.filed.cached m p hp
  · intro id p hp
    change (arrived w.reg o).stores.lookup id = some p at hp
    rw [arrived_stores] at hp
    exact h.filed.stores id p hp
  · intro id c hp
    change (arrived w.reg o).configs.lookup id = some c at hp
    rw [arrived_configs] at hp
    exact h.filed.configs id c hp
  · intro d v f hf
    obtain ⟨c, hcK, hparse, hstore, hd⟩ := h.filed.images d v f hf
    refine ⟨c, hcK, hparse, ?_, hd⟩
    change (arrived w.reg o).stores.lookup _ = _
    rw [arrived_stores]
    exact hstore

theorem Getting.putStore (hK : Distinct W place K) (h : Getting W place K cfg true w) (hc : cfg ∈ K)
    (o : Choice) :
    Getting W place K cfg true (Controller.exec W place o
      (.registry t (.putStore (cfg.storeID W.hash) (W.storePath cfg) cfg)) w).2 ∧
    Known W cfg (Controller.exec W place o
      (.registry t (.putStore (cfg.storeID W.hash) (W.storePath cfg) cfg)) w).2 := by
  have hknown : ∀ id, ((arrived w.reg o).stores.insert (cfg.storeID W.hash)
      (W.storePath cfg)).lookup id =
        if id = cfg.storeID W.hash then some (W.storePath cfg) else w.reg.stores.lookup id := by
    intro id
    rw [arrived_stores]
    split_ifs with he
    · rw [he, AList.lookup_insert]
    · rw [AList.lookup_insert_ne he]
  refine ⟨⟨⟨?_, h.filed.mounts, ?_, ?_, ?_⟩, h.mounted⟩, ?_⟩
  · intro m p hp
    change (arrived w.reg o).mounted.lookup m = some p at hp
    rw [arrived_mounted] at hp
    exact h.filed.cached m p hp
  · intro id p hp
    have hp' := (hknown id).symm.trans hp
    split_ifs at hp' with he
    · exact ⟨cfg, hc, he.symm, (Option.some.inj hp').symm, h.mounted rfl⟩
    · exact h.filed.stores id p hp'
  · intro id c hp
    change ((arrived w.reg o).configs.insert (cfg.storeID W.hash) cfg).lookup id = some c at hp
    rw [arrived_configs] at hp
    by_cases he : id = cfg.storeID W.hash
    · subst he
      rw [AList.lookup_insert] at hp
      rw [← Option.some.inj hp]
      exact ⟨hc, rfl⟩
    · rw [AList.lookup_insert_ne he] at hp
      exact h.filed.configs id c hp
  · intro d v f hf
    obtain ⟨c, hcK, hparse, hstore, hd⟩ := h.filed.images d v f hf
    refine ⟨c, hcK, hparse, (hknown _).trans ?_, hd⟩
    split_ifs with he
    · rw [hK.storePath hcK hc he]
    · exact hstore
  · exact (hknown _).trans (if_pos rfl)

theorem rwp_mountFresh (h : Getting W place K cfg false w) (hc : cfg ∈ K)
    (ht : t.mountID = cfg.mountID W.hash) :
    rwp W place t (Registry.mountFresh W cfg).run (fun r w' =>
      match r with
      | .error _ => Getting W place K cfg false w'
      | .ok p => p = W.target (cfg.mountID W.hash) ∧ Getting W place K cfg true w') w := by
  have hany : ∀ {here : Bool} {w}, Getting W place K cfg here w → Getting W place K cfg false w :=
    fun h => ⟨h.filed, fun hf => by cases hf⟩
  unfold Registry.mountFresh
  rw [rwp, Prog.wp_run_bind]
  apply rwp_mkdirAll h
  intro r w h
  cases r with
  | error e => exact h
  | ok _ =>
    apply (Prog.wp_run_bind _ _ _ _).mpr
    rw [Prog.wp_known]
    cases Registry.mounterFor W cfg with
    | error e => exact h
    | ok _ =>
      apply (Prog.wp_run_bind _ _ _ _).mpr
      apply (Prog.wp_attempt _ _ _ _).mpr
      intro o _
      refine ⟨trivial, ?_⟩
      have h' := h.mount hc ht (W.target (cfg.mountID W.hash)) o
      cases hf : o.fault with
      | some e =>
        have hr : (exec W place o (.registry t (.mount (W.target (cfg.mountID W.hash)) cfg)) w).1 =
            .error e := by
          simp [exec, Registry.exec, Registry.act, hf, Registry.okUnless]
        unfold Setup.target at hr h'
        simp only [hr]
        exact hany h'
      | none =>
        have hr : (exec W place o (.registry t (.mount (W.target (cfg.mountID W.hash)) cfg)) w).1 =
            .ok () := by
          simp [exec, Registry.exec, Registry.act, hf, Registry.okUnless]
        rw [hf] at h'
        unfold Setup.target at hr h'
        simp only [hr]
        apply (Prog.wp_run_bind _ _ _ _).mpr
        apply (Prog.wp_always _ _ _).mpr
        intro o _
        exact ⟨trivial, rfl, h'.putMounted o⟩

theorem rwp_storeDir (h : Getting W place K cfg true w) :
    rwp W place t (Registry.storeDir W cfg (W.target (cfg.mountID W.hash))).run (fun r w' =>
      Getting W place K cfg true w' ∧ ∀ p, r = .ok p → p = W.storePath cfg) w := by
  unfold Registry.storeDir Setup.storePath
  split_ifs
  · exact ⟨h, fun p hp => (Except.ok.inj hp).symm⟩
  · rw [rwp, Prog.wp_run_bind, Prog.wp_always]
    apply rwp_issue (c := .seen _) h trivial
    intro o h'
    generalize (exec W place o (.registry t (.seen (cfg.storeID W.hash))) w).1 = seen
    cases seen with
    | false =>
      apply (Prog.wp_run_bind (Registry.mkdirAll _) _ _ _).mpr
      apply rwp_mkdirAll h'
      intro r w h
      cases r with
      | error e => exact ⟨h, fun p hp => by cases hp⟩
      | ok _ => exact ⟨h, fun p hp => (Except.ok.inj hp).symm⟩
    | true => exact ⟨h', fun p hp => (Except.ok.inj hp).symm⟩

/-- What is known after a `Get`. -/
structure Got (W : Setup) (place : Source → Str → P) (K : Set Config) (cfg : Config)
    (r : Except Err Str) (w : World P) : Prop where
  filed : Filed W place K w
  known : ∀ p, r = .ok p → p = W.storePath cfg ∧ Known W cfg w

omit [DecidableEq P] in
theorem Getting.got {here : Bool} (h : Getting W place K cfg here w) (e : Err) :
    Got W place K cfg (.error e) w := by
  refine ⟨h.filed, ?_⟩
  intro p hp
  cases hp

theorem rwp_unlock {r : Except Err Str} (h : Got W place K cfg r w) :
    rwp W place t (do
      Registry.issue (.unlock (cfg.mountID W.hash))
      pure r) (Got W place K cfg) w := by
  apply (Prog.wp_bind _ _ _ _).mpr
  intro o _
  obtain ⟨h1, h2, h3, h4, h5⟩ :=
    exec_idle W place t (c := .unlock (cfg.mountID W.hash)) trivial o w
  refine ⟨trivial, h.filed.of_same h1 h2 h3 h4 h5, ?_⟩
  intro p hp
  refine ⟨(h.known p hp).1, ?_⟩
  unfold Known
  rw [h2]
  exact (h.known p hp).2

theorem rwp_store (hK : Distinct W place K) (hc : cfg ∈ K) (h : Getting W place K cfg true w) :
    rwp W place t (do
      let sub ← Registry.storeDir W cfg (W.target (cfg.mountID W.hash))
      always (Registry.issue (.putStore (cfg.storeID W.hash) sub cfg))
      pure sub : ExceptT Err Registry.Run Str).run (Got W place K cfg) w := by
  apply (Prog.wp_run_bind _ _ _ _).mpr
  apply Prog.wp_mono _ (rwp_storeDir h)
  rintro r w ⟨h, hr⟩
  cases r with
  | error e => exact h.got e
  | ok sub =>
    obtain rfl := hr sub rfl
    apply (Prog.wp_run_bind _ _ _ _).mpr
    apply (Prog.wp_always _ _ _).mpr
    intro o _
    obtain ⟨h', hknown⟩ := h.putStore hK hc o
    refine ⟨trivial, h'.filed, ?_⟩
    intro p hp
    exact ⟨(Except.ok.inj hp).symm, hknown⟩

/-- `Get` keeps the maps right, and gives out stores that it knows. -/
theorem rwp_get (hK : Distinct W place K) (hc : cfg ∈ K) (ht : t.mountID = cfg.mountID W.hash)
    (h : Filed W place K w) :
    rwp W place t (Registry.get W cfg) (Got W place K cfg) w := by
  have hstart : Getting W place K cfg false w := ⟨h, fun hf => by cases hf⟩
  unfold Registry.get
  apply (Prog.wp_bind _ _ _ _).mpr
  apply rwp_issue (c := .lock _) hstart trivial
  intro o h
  apply (Prog.wp_bind _ _ _ _).mpr
  refine Prog.wp_mono (Q := Got W place K cfg) (fun r w h => rwp_unlock h) ?_
  unfold Registry.getLocked
  rw [Prog.wp_run_bind, Prog.wp_always]
  apply Prog.wp_mono _ (rwp_verified h)
  intro r w h
  cases r with
  | some p =>
    obtain ⟨rfl, h⟩ := h
    exact rwp_store hK hc h
  | none =>
    apply (Prog.wp_run_bind (Registry.mountFresh W cfg) _ _ _).mpr
    apply Prog.wp_mono _ (rwp_mountFresh h hc ht)
    intro r w h
    cases r with
    | error e => exact h.got e
    | ok p =>
      obtain ⟨rfl, h⟩ := h
      exact rwp_store hK hc h

/-- The weakest precondition of a request whose checks deny no mount. -/
abbrev qwp (W : Setup) (place : Source → Str → P) {α : Type} (p : Run α)
    (Q : α → World P → Prop) (w : World P) : Prop :=
  p.wp ⟨exec W place, fun _ _ o => ∀ m, Affirmed m o, fun _ _ _ => True⟩ Q w

theorem qwp_registryGet (hK : Distinct W place K) (hc : cfg ∈ K) (h : Filed W place K w) :
    qwp W place (registryGet W cfg) (Got W place K cfg) w := by
  have hget : rwp W place ⟨0, cfg.mountID W.hash⟩ (Registry.get W cfg) (Got W place K cfg) w :=
    rwp_get hK hc rfl h
  exact (Prog.wp_lift _ _ _ _ _).mpr hget

/-- The only files that an operation makes are images of volumes of the store. -/
def Opens (storeID : Str) (c : Image.Cmd) : Prop :=
  ∀ name, c = .openFile name → ∃ v, name = imageFile v ∧ parseStoreIDFromVolumeID v = .ok storeID

omit [DecidableEq P] in
theorem Filed.mounted (hK : Distinct W place K) (h : Filed W place K w) (hc : cfg ∈ K)
    (hknown : Known W cfg w) : w.mounts (cfg.mountID W.hash) ≠ [] := by
  obtain ⟨c, hcK, hid, -, hm⟩ := h.stores _ _ hknown
  rw [← (hK.stores c hcK cfg hc hid).1]
  exact hm

theorem Filed.image (hK : Distinct W place K) (h : Filed W place K w) (hc : cfg ∈ K)
    (hknown : Known W cfg w) {c : Image.Cmd} (hop : Opens (cfg.storeID W.hash) c) (o : Choice) :
    Filed W place K (exec W place o (.image (W.storePath cfg) c) w).2 := by
  have hdir := (h.dir hK hc (h.mounted hK hc hknown)).1
  refine ⟨h.cached, h.mounts, h.stores, h.configs, ?_⟩
  intro d v' f hf
  change (Function.update w.files (w.dir W place (W.storePath cfg)) _ d).files.lookup _ = _ at hf
  by_cases hd : d = w.dir W place (W.storePath cfg)
  · rw [hd, Function.update_self] at hf
    rcases Image.exec_names hf with ⟨f', hf'⟩ | hopen
    · rw [hd]
      exact h.images _ v' f' hf'
    · obtain ⟨v, hname, hv⟩ := hop _ hopen
      rw [Image.imageFile_injective hname, hd, hdir]
      exact ⟨cfg, hc, hv, hknown, rfl⟩
  · rw [Function.update_of_ne hd] at hf
    exact h.images d v' f hf

/-- Known while a request works in the directory of its store. -/
structure Working (W : Setup) (place : Source → Str → P) (K : Set Config) (cfg : Config)
    (w : World P) : Prop where
  filed : Filed W place K w
  known : Known W cfg w

theorem qwp_inStore (hK : Distinct W place K) (hc : cfg ∈ K) {α ε : Type}
    {x : ExceptT ε Image.Run α} (hx : x.run.All (Opens (cfg.storeID W.hash)))
    (h : Working W place K cfg w) :
    qwp W place (inStore (W.storePath cfg) x) (fun _ w => Working W place K cfg w) w := by
  apply (Prog.wp_lift _ _ _ _ _).mpr
  refine Prog.wp_of_all (I := Working W place K cfg) ?_ hx h
  intro w c o hop _ h
  exact ⟨trivial, h.filed.image hK hc h.known hop o, h.known⟩

end Filed

section Requests

variable {id v root : Str}

theorem opens_of_ne {c : Image.Cmd} (h : ∀ name, c ≠ .openFile name) : Opens id c :=
  fun name he => absurd he (h name)

theorem issue_opens {c : Image.Cmd} (h : Opens id c) : (Image.issue c).All (Opens id) :=
  (Prog.all_perform _ _).mpr h

theorem new_opens : (Image.new root).run.All (Opens id) := by
  unfold Image.new
  have hstat : (Image.issue .statRoot).All (Opens id) := issue_opens (opens_of_ne (by simp))
  exact Prog.all_run_bind (Prog.all_attempt hstat _) fun _ => Prog.all_ret _ _

theorem stat_opens {ε : Type} (name : Str) (f : Err → ε) :
    (attempt (Image.issue (.stat name)) f).run.All (Opens id) :=
  Prog.all_attempt (issue_opens (opens_of_ne (by simp))) f

theorem truncateSparse_opens (hv : parseStoreIDFromVolumeID v = .ok id) (size : ℤ) :
    (Image.truncateSparse root (imageFile v) size).run.All (Opens id) := by
  unfold Image.truncateSparse
  have hopen : (Image.issue (.openFile (imageFile v))).All (Opens id) := by
    apply issue_opens
    intro name he
    cases he
    exact ⟨v, rfl, hv⟩
  apply Prog.all_run_bind (Prog.all_attempt hopen _)
  intro ino
  exact Prog.all_attempt (issue_opens (opens_of_ne (by simp))) _

theorem create_opens (hv : parseStoreIDFromVolumeID v = .ok id) (capacity : ℤ) (unformatted : Bool) :
    (Image.create root v capacity unformatted).run.All (Opens id) := by
  unfold Image.create
  apply Prog.all_run_bind (Prog.all_ret _ _)
  intro _
  apply Prog.all_run_bind (Prog.all_ret _ _)
  intro _
  apply Prog.all_run_bind (stat_opens _ _)
  intro found
  cases found with
  | some size => exact Prog.all_ret _ _
  | none =>
    apply Prog.all_run_bind (Prog.all_attempt (truncateSparse_opens hv _) _)
    intro _
    cases unformatted with
    | true => exact Prog.all_ret _ _
    | false =>
      have hmkfs : (Image.issue (.mkfs (imageFile v))).All (Opens id) :=
        issue_opens (opens_of_ne (by simp))
      have hremove : (Image.issue (.remove (imageFile v))).All (Opens id) :=
        issue_opens (opens_of_ne (by simp))
      apply Prog.all_run_bind
      · exact Prog.all_cleanup (Prog.all_attempt hmkfs _)
          (Prog.All.bind hremove fun _ => Prog.all_ret _ _)
      · intro _
        exact Prog.all_ret _ _

theorem delete_opens : (Image.delete v).run.All (Opens id) := by
  have hremove : ∀ name, (Image.issue (.remove name)).All (Opens id) :=
    fun _ => issue_opens (opens_of_ne (by simp))
  unfold Image.delete
  apply Prog.all_run_bind (Prog.all_ret _ _)
  intro _
  apply Prog.all_run_bind (Prog.all_attempt (hremove _) _)
  intro _
  apply Prog.all_run_bind (Prog.All.bind (hremove _) fun _ => Prog.all_ret _ _)
  intro _
  exact Prog.all_ret _ _

theorem resize_opens (hv : parseStoreIDFromVolumeID v = .ok id) (capacity : ℤ) :
    (Image.resize root v capacity).run.All (Opens id) := by
  have hget : (Image.get root v).run.All (Opens id) := by
    unfold Image.get
    apply Prog.all_run_bind (Prog.all_ret _ _)
    intro _
    apply Prog.all_run_bind (stat_opens _ _)
    intro found
    cases found <;> exact Prog.all_ret _ _
  unfold Image.resize
  apply Prog.all_run_bind hget
  intro found
  split_ifs
  · exact Prog.all_ret _ _
  · exact Prog.all_ret _ _
  · apply Prog.all_run_bind (truncateSparse_opens hv _)
    intro _
    exact Prog.all_ret _ _

variable {P : Type} [DecidableEq P] {W : Setup} {place : Source → Str → P} {K : Set Config}
  {w : World P} {cfg : Config}

theorem createChecks_config {req : CreateVolumeRequest} {encrypted : Bool}
    (h : createChecks req = .ok (cfg, encrypted)) : configFromParams req.params = .ok cfg := by
  unfold createChecks at h
  cases h1 : require (req.name ≠ []) ⟨.invalidArgument, "name is required"⟩ with
  | error e =>
    rw [h1] at h
    cases h
  | ok _ =>
    cases h2 : validateCapabilities req.capabilities with
    | error e =>
      rw [h1, h2] at h
      cases h
    | ok _ =>
      cases h3 : configFromParams req.params with
      | error e =>
        rw [h1, h2, h3] at h
        cases h
      | ok c =>
        rw [h1, h2, h3] at h
        cases h4 : encryptedFromParams req.params with
        | error e =>
          rw [h4] at h
          cases h
        | ok b =>
          rw [h4] at h
          cases h5 : Node.formatFromParams req.params b with
          | error e =>
            simp [h5, bind, Except.bind, Except.mapError] at h
          | ok f =>
            simp [h5, bind, Except.bind, Except.mapError, pure, Except.pure] at h
            rw [h.1]

theorem qwp_check {α β : Type} {r : Except Status α} {f : α → ExceptT Status Run β}
    (h : Filed W place K w)
    (hf : ∀ a, r = .ok a → qwp W place (f a).run (fun _ w => Filed W place K w) w) :
    qwp W place (known r >>= f).run (fun _ w => Filed W place K w) w := by
  apply (Prog.wp_run_bind _ _ _ _).mpr
  rw [Prog.wp_known]
  cases r with
  | error e => exact h
  | ok a => exact hf a rfl

/-- A part that fails ends the request; another goes on in the directory of the store. -/
theorem qwp_work {α β ε : Type} {p : Run (Except ε α)} {g : ε → Status}
    {f : α → ExceptT Status Run β}
    (hp : qwp W place p (fun _ w => Working W place K cfg w) w)
    (hf : ∀ a w, Working W place K cfg w →
      qwp W place (f a).run (fun _ w => Filed W place K w) w) :
    qwp W place (attempt p g >>= f).run (fun _ w => Filed W place K w) w := by
  apply (Prog.wp_run_bind _ _ _ _).mpr
  apply (Prog.wp_attempt _ _ _ _).mpr
  apply Prog.wp_mono _ hp
  intro r w hw
  cases r with
  | error e => exact hw.filed
  | ok a => exact hf a w hw

theorem qwp_gotten {β : Type} (hK : Distinct W place K) (hc : cfg ∈ K) (h : Filed W place K w)
    {g : Err → Status} {f : Str → ExceptT Status Run β} {Q : Except Status β → World P → Prop}
    (herr : ∀ e w, Filed W place K w → Q (.error e) w)
    (hf : ∀ w, Working W place K cfg w → qwp W place (f (W.storePath cfg)).run Q w) :
    qwp W place (attempt (registryGet W cfg) g >>= f).run Q w := by
  apply (Prog.wp_run_bind _ _ _ _).mpr
  apply (Prog.wp_attempt _ _ _ _).mpr
  apply Prog.wp_mono _ (qwp_registryGet hK hc h)
  intro r w hgot
  cases r with
  | error e => exact herr _ w hgot.filed
  | ok root =>
    obtain ⟨rfl, hknown⟩ := hgot.known root rfl
    exact hf w ⟨hgot.filed, hknown⟩

theorem qwp_createVolume (hK : Distinct W place K) {req : CreateVolumeRequest}
    (hreq : ∀ cfg, configFromParams req.params = .ok cfg → cfg ∈ K) (h : Filed W place K w) :
    qwp W place (createVolume W req).run (fun _ w => Filed W place K w) w := by
  unfold createVolume
  apply qwp_check h
  rintro ⟨cfg, encrypted⟩ hchecks
  have hc : cfg ∈ K := hreq cfg (createChecks_config hchecks)
  apply qwp_gotten hK hc h (fun e w h => h)
  intro w hw
  apply qwp_work (qwp_inStore hK hc new_opens hw)
  intro _ w hw
  apply qwp_check hw.filed
  intro capacity _
  apply qwp_check hw.filed
  intro _ _
  apply qwp_check hw.filed
  intro v hname
  have hv := parseStoreID_of_hex W.hash_length W.hash_hex hname
  apply qwp_work (qwp_inStore hK hc (create_opens hv capacity encrypted) hw)
  intro found w hw
  exact hw.filed

/-- What the search for a volume leaves: where it succeeds, a mounted store, and the one that the
ID of the volume names. -/
structure Located (W : Setup) (place : Source → Str → P) (K : Set Config) (v : Str)
    (r : Except Status Str) (w : World P) : Prop where
  filed : Filed W place K w
  found : ∀ root, r = .ok root → ∃ cfg ∈ K, root = W.storePath cfg ∧ Known W cfg w ∧
    parseStoreIDFromVolumeID v = .ok (cfg.storeID W.hash)

omit [DecidableEq P] in
theorem Located.error (h : Filed W place K w) (v : Str) (e : Status) :
    Located W place K v (.error e) w := by
  constructor
  · exact h
  · intro root hr
    cases hr

theorem qwp_imageManagerForVolumeID (hK : Distinct W place K) (h : Filed W place K w) :
    qwp W place (imageManagerForVolumeID W v).run (Located W place K v) w := by
  unfold imageManagerForVolumeID
  apply (Prog.wp_run_bind _ _ _ _).mpr
  rw [Prog.wp_known]
  cases hparse : parseStoreIDFromVolumeID v with
  | error e => exact Located.error h v e
  | ok id =>
    apply (Prog.wp_run_bind _ _ _ _).mpr
    apply (Prog.wp_always _ _ _).mpr
    intro o _
    refine ⟨trivial, ?_⟩
    have hlook : exec W place o (.configByStoreID id) w = (w.reg.configs.lookup id, w) := rfl
    simp only [hlook]
    cases hl : w.reg.configs.lookup id with
    | none => exact Located.error h v _
    | some cfg =>
      obtain ⟨hc, rfl⟩ := h.configs id cfg hl
      apply qwp_gotten hK hc h (fun e w h => Located.error h v e)
      intro w hw
      apply (Prog.wp_run_bind _ _ _ _).mpr
      apply (Prog.wp_attempt _ _ _ _).mpr
      apply Prog.wp_mono _ (qwp_inStore hK hc new_opens hw)
      intro r w hw
      cases r with
      | error e => exact Located.error hw.filed v _
      | ok _ =>
        constructor
        · exact hw.filed
        · intro root hr
          exact ⟨cfg, hc, (Except.ok.inj hr).symm, hw.known, hparse⟩

theorem qwp_deleteVolume (hK : Distinct W place K) (h : Filed W place K w) :
    qwp W place (deleteVolume W v).run (fun _ w => Filed W place K w) w := by
  unfold deleteVolume
  apply qwp_check h
  intro _ _
  apply (Prog.wp_run_bind _ _ _ _).mpr
  apply (Prog.wp_always _ _ _).mpr
  apply Prog.wp_mono _ (qwp_imageManagerForVolumeID hK h)
  intro r w h
  cases r with
  | error e => exact h.filed
  | ok root =>
    obtain ⟨cfg, hc, rfl, hknown, -⟩ := h.found root rfl
    apply (Prog.wp_attempt _ _ _ _).mpr
    apply Prog.wp_mono _ (qwp_inStore hK hc delete_opens ⟨h.filed, hknown⟩)
    intro _ w hw
    exact hw.filed

theorem qwp_controllerExpandVolume (hK : Distinct W place K) (h : Filed W place K w)
    (capacity : Option CapacityRange) :
    qwp W place (controllerExpandVolume W v capacity).run (fun _ w => Filed W place K w) w := by
  unfold controllerExpandVolume
  apply qwp_check h
  intro _ _
  apply qwp_check h
  intro _ _
  apply qwp_check h
  intro size _
  apply (Prog.wp_run_bind _ _ _ _).mpr
  apply Prog.wp_mono _ (qwp_imageManagerForVolumeID hK h)
  intro r w h
  cases r with
  | error e => exact h.filed
  | ok root =>
    obtain ⟨cfg, hc, rfl, hknown, hv⟩ := h.found root rfl
    apply qwp_work (qwp_inStore hK hc (resize_opens hv size) ⟨h.filed, hknown⟩)
    intro found w hw
    exact hw.filed

/-- Every request leaves the maps right and the images in their places. -/
theorem qwp_serve (hK : Distinct W place K) {r : Request} (hr : r.Uses K) (h : Filed W place K w) :
    qwp W place (r.serve W) (fun _ w => Filed W place K w) w := by
  have hmap : ∀ {α : Type} (f : α → Reply) {p : ExceptT Status Run α},
      qwp W place p.run (fun _ w => Filed W place K w) w →
      qwp W place (f <$> p).run (fun _ w => Filed W place K w) w := by
    intro α f p hp
    rw [ExceptT.run_map, ← bind_pure_comp]
    exact (Prog.wp_bind _ _ _ _).mpr hp
  cases r with
  | create req => exact hmap _ (qwp_createVolume hK hr h)
  | delete v => exact hmap _ (qwp_deleteVolume hK h)
  | expand v capacity => exact hmap _ (qwp_controllerExpandVolume hK h capacity)

omit [DecidableEq P] in
theorem filed_bare {files : Dir P → Image.Directory}
    (hempty : ∀ d v, (files d).files.lookup (imageFile v) = none) :
    Filed W place K (bare files) := by
  refine ⟨?_, ?_, ?_, ?_, ?_⟩
  · intro m p h
    cases h
  · intro m c h
    cases h
  · intro id p h
    cases h
  · intro id c h
    cases h
  · intro d v f h
    rw [show (bare files).files d = files d from rfl, hempty d v] at h
    cases h

end Requests
end Fileblock.Controller
