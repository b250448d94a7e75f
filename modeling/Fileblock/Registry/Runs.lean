import Fileblock.Registry.Schedule

/-! The registry over whole runs: every interleaving of `Get` calls, from a registry
that has just adopted the mounts it found. -/
namespace Fileblock.Registry
open Go Store Interaction

/-- A new registry with the mounts it adopted. -/
def initial (mounted : StrMap Str) (live : Str → Bool) : State where
  mounted := mounted
  stores := ∅
  configs := ∅
  checking _ := none
  made _ := 0
  chan _ _ := ⟨[], false, none⟩
  holder _ := none
  live := live
  log := []

def begin (W : Setup) (entries : List (Str × Bool)) (check : Str → CheckRes)
    (live : Str → Bool) : Calls :=
  ⟨initial (adoptExisting W entries check) live, fun _ => none⟩

def Reachable (W : Setup) (K : Set Config) (answers : State → Str → ℕ → CheckRes → Prop)
    (loses : Str → Prop) (P : Calls) : Prop :=
  ∃ entries check live, (system W K answers loses).Steps (begin W entries check live) P

section Reach
variable {W : Setup} {K : Set Config} {answers : State → Str → ℕ → CheckRes → Prop}
  {loses : Str → Prop} {P P' : Calls}

/-- What the registry caches for a mount is where it mounts it. -/
def Targets (W : Setup) (mounted : StrMap Str) : Prop :=
  ∀ m p, mounted.lookup m = some p → MountName m ∧ p = W.target m

theorem targets_adopt {check : Str → CheckRes} {mounted : StrMap Str} (h : Targets W mounted)
    (e : Str × Bool) : Targets W (adopt W check mounted e) := by
  unfold adopt
  split_ifs with hc
  · simp only [Bool.and_eq_true, decide_eq_true_eq, List.all_eq_true] at hc
    intro m p hp
    by_cases hm : m = e.1
    · subst hm
      rw [AList.lookup_insert, Option.some.injEq] at hp
      exact ⟨⟨hc.1.1.2, hc.1.2⟩, hp.symm⟩
    · rw [AList.lookup_insert_ne hm] at hp
      exact h m p hp
  · exact h

theorem targets_adoptExisting (entries : List (Str × Bool)) (check : Str → CheckRes) :
    Targets W (adoptExisting W entries check) := by
  have hall : ∀ mounted, Targets W mounted → Targets W (entries.foldl (adopt W check) mounted) := by
    induction entries with
    | nil => exact fun _ h => h
    | cons e entries ih => exact fun mounted h => ih _ (targets_adopt h e)
  exact hall ∅ fun m p h => by simp at h

theorem inv_initial {mounted : StrMap Str} {live : Str → Bool}
    (h : Targets W mounted) : Inv W K (initial mounted live) := by
  refine ⟨⟨h, ?_, ?_⟩, fun m => ⟨?_, ?_, ?_, ?_, fun _ => ⟨?_, ?_, ?_⟩⟩⟩
  · intro id cfg hc
    simp [initial] at hc
  · intro _ id p hp
    simp [initial] at hp
  · intro ch _
    simp [initial]
  · intro ch hch
    cases hch
  · intro ch hch
    cases hch
  · intro ch r hr
    cases hr
  · intro ch hch
    cases hch
  · intro t ch b r hd
    cases hd
  · intro t ch b hd
    cases hd

theorem safe_begin (entries : List (Str × Bool)) (check : Str → CheckRes) (live : Str → Bool) :
    (contract W K answers loses).Safe (begin W entries check live) := by
  refine ⟨inv_initial (targets_adoptExisting entries check), ?_⟩
  intro t p hp
  cases hp

theorem safe_steps (h : (contract W K answers loses).Safe P)
    (hs : (system W K answers loses).Steps P P') : (contract W K answers loses).Safe P' := by
  refine h.steps ?_ hs
  rintro t p s ⟨cfg, hk, rfl, hm⟩ -
  exact wp_get hk hm

theorem Reachable.safe (h : Reachable W K answers loses P) :
    (contract W K answers loses).Safe P := by
  obtain ⟨entries, check, live, hs⟩ := h
  exact safe_steps (safe_begin entries check live) hs

theorem reachable_of_schedule {moves : List Move} {entries : List (Str × Bool)}
    {check : Str → CheckRes} {live : Str → Bool} (hm : ∀ mv ∈ moves, mv.Allowed W K answers)
    (h : (schedule W moves (begin W entries check live)).isSome) :
    Reachable W K answers loses (Option.get _ h) :=
  ⟨entries, check, live, steps_of_schedule hm (Option.some_get h).symm⟩

/-- What a call promises where it stands, unless it has to wait there. -/
theorem Reachable.issues (h : Reachable W K answers loses P) {t : Caller} {c : Cmd}
    {k : Resp c → Run (Except Err Str)} (hp : P.prog t = some (.call c k))
    (hl : ∀ m, c ≠ .lock m) (hen : ∃ o, Enabled t P.state c o) :
    MountName t.mountID ∧ P.state.holder t.mountID = some t.num ∧ Promise W K t P.state c := by
  obtain ⟨o, ho⟩ := hen
  obtain ⟨hname, hlock | hrest⟩ := h.safe.issues hp ho
  · exact absurd hlock (hl _)
  · exact ⟨hname, hrest⟩

/-! The maps. -/

theorem Maps.evicted_iff {s : State} {m id p : Str} (h : Maps W K s) (hK : Orderly W K)
    (hm : MountName m) : (evictStores (W.target m) s.stores).lookup id = some p ↔
      s.stores.lookup id = some p ∧
        ∀ cfg, s.configs.lookup id = some cfg → cfg.mountID W.hash ≠ m := by
  cases hp : s.stores.lookup id with
  | none => simp [evictStores, StrMap.lookup_dropWhere, hp]
  | some q =>
    obtain ⟨cfg, hcfg, -⟩ := h.stores hK id q hp
    rw [h.lookup_evictStores hK hm hcfg, hp]
    by_cases hne : cfg.mountID W.hash = m
    · simp [hne, hcfg]
    · simp [hne, hcfg]

theorem configs_exec {t : Caller} {o : Choice} {c : Cmd} {s : State} (hi : Inv W K s)
    (hK : Orderly W K) (hg : Guarantee W K t s c) {id : Str} {cfg : Config}
    (h : s.configs.lookup id = some cfg) :
    (exec t o c s).2.configs.lookup id = some cfg := by
  obtain ⟨-, rfl | ⟨-, hp⟩⟩ := hg
  · exact h
  · cases c with
    | openSlot m => cases hc : s.checking m <;> simpa [exec, act, hc] using h
    | poll m ch => cases hc : (s.chan m ch).answer <;> simpa [exec, act, hc, State.setChan] using h
    | await m ch => cases hc : o.timeout <;> simpa [exec, act, hc, State.setChan] using h
    | mount target cfg => cases hc : o.fault <;> simpa [exec, act, hc] using h
    | putStore id' sub cfg' =>
      obtain ⟨hk', -, rfl, -⟩ := hp
      change (s.configs.insert (cfg'.storeID W.hash) cfg').lookup id = some cfg
      by_cases hid : id = cfg'.storeID W.hash
      · obtain ⟨hk, hcid⟩ := hi.maps.configs id cfg h
        rw [hid, AList.lookup_insert, hK.distinct hk' hk (hid.symm.trans hcid.symm)]
      · rw [AList.lookup_insert_ne hid, h]
    | _ => exact h

theorem configs_steps (hK : Orderly W K) (h : (contract W K answers loses).Safe P)
    (hs : (system W K answers loses).Steps P P') {id : Str} {cfg : Config}
    (hc : P.state.configs.lookup id = some cfg) : P'.state.configs.lookup id = some cfg := by
  induction hs with
  | refl => exact hc
  | @tail Q Q' hs hstep ih =>
    have hsafe := safe_steps h hs
    cases hstep with
    | start t p hfree hp => exact ih
    | call t c k o hprog hen => exact configs_exec hsafe.1 hK (hsafe.issues hprog hen) ih
    | env s he =>
      rcases he with ⟨m, ch, r, -, -, rfl⟩ | ⟨m, -, rfl⟩
      · exact ih
      · exact ih

theorem mountedPaths_nodup (stores mounted : List Str) : (mountedPaths stores mounted).Nodup := by
  unfold mountedPaths
  refine List.foldlRecOn (motive := List.Nodup) _ _ List.nodup_nil ?_
  intro out hout p _
  split_ifs with hp
  · exact hout
  · exact hout.append (List.nodup_singleton p) (by simpa using hp)

theorem mem_mountedPaths (stores mounted : List Str) (p : Str) :
    p ∈ mountedPaths stores mounted ↔ p ∈ stores ∨ p ∈ mounted := by
  have hfold : ∀ l out : List Str,
      p ∈ l.foldl (fun out p => if out.contains p then out else out ++ [p]) out ↔
        p ∈ out ∨ p ∈ l := by
    intro l
    induction l with
    | nil => simp
    | cons q l ih =>
      intro out
      rw [List.foldl_cons, ih, List.mem_cons]
      split_ifs with hq
      · constructor
        · rintro (h | h)
          · exact Or.inl h
          · exact Or.inr (Or.inr h)
        · rintro (h | rfl | h)
          · exact Or.inl h
          · exact Or.inl (List.contains_iff_mem.mp hq)
          · exact Or.inr h
      · rw [List.mem_append, List.mem_singleton, or_assoc]
  unfold mountedPaths
  rw [hfold, List.mem_append]
  simp

/-- In every run, with configs of distinct store IDs, the maps agree with each other
and with what was mounted and made; an eviction takes the stores of its mount and no
others; a config once known stays known; and `MountedPaths` lists each path once. -/
theorem registry_consistent (hK : Orderly W K) (h : Reachable W K answers loses P) :
    (∀ m p, P.state.mounted.lookup m = some p → p = join W.root m) ∧
    (∀ id p, P.state.stores.lookup id = some p → ∃ cfg path,
      P.state.configs.lookup id = some cfg ∧ cfg.storeID W.hash = id ∧
      P.state.mounted.lookup (cfg.mountID W.hash) = some path ∧
      p = (if cfg.subDir = [] then path else join path cfg.subDir) ∧
      (cfg.subDir ≠ [] → ∃ t : Caller, .did t (.mkdirAll p) (.ok ()) ∈
        since (Event.mounts (cfg.mountID W.hash)) P.state.log)) ∧
    (∀ t m path k o, P.prog t = some (.call (.evict m path) k) → ∀ id p,
      (exec t o (.evict m path) P.state).2.stores.lookup id = some p ↔
        P.state.stores.lookup id = some p ∧
          ∀ cfg, P.state.configs.lookup id = some cfg → cfg.mountID W.hash ≠ m) ∧
    (∀ P', (system W K answers loses).Steps P P' → ∀ id cfg,
      P.state.configs.lookup id = some cfg → P'.state.configs.lookup id = some cfg) ∧
    (∀ stores mounted, stores.Perm P.state.stores.values → mounted.Perm P.state.mounted.values →
      (mountedPaths stores mounted).Nodup ∧ ∀ p, p ∈ mountedPaths stores mounted ↔
        (∃ id, P.state.stores.lookup id = some p) ∨ ∃ m, P.state.mounted.lookup m = some p) := by
  have hmaps := h.safe.1.maps
  refine ⟨?_, ?_, ?_, ?_, ?_⟩
  · intro m p hp
    exact (hmaps.mounted m p hp).2
  · intro id p hp
    obtain ⟨cfg, hcfg, hmount, rfl, hmade⟩ := hmaps.stores hK id p hp
    exact ⟨cfg, _, hcfg, (hmaps.configs id cfg hcfg).2, hmount, rfl, hmade⟩
  · intro t m path k o hp id p
    obtain ⟨hname, -, rfl, rfl, -⟩ := h.issues hp (by simp) ⟨⟨none, false⟩, trivial⟩
    exact hmaps.evicted_iff hK hname
  · intro P' hs id cfg hc
    exact configs_steps hK h.safe hs hc
  · intro stores mounted hst hmt
    refine ⟨mountedPaths_nodup stores mounted, ?_⟩
    intro p
    rw [mem_mountedPaths, hst.mem_iff, hmt.mem_iff, StrMap.mem_values, StrMap.mem_values]

end Reach

/-- A call has made the store; the check of the next one finds no mount. -/
def evicting : List Move := calls 0 9 ++ calls 1 4 ++ .answer zeros 0 (.ok false) :: goes 1 2

theorem evicting_allowed {mv : Move} (h : mv ∈ evicting) :
    mv.Allowed smallSite {team} fun _ _ _ _ => True := by
  rcases List.mem_append.mp h with h | h
  · rcases List.mem_append.mp h with h | h
    · exact calls_allowed h
    · exact calls_allowed h
  · rcases List.mem_cons.mp h with rfl | h
    · exact fun _ => trivial
    · exact calls_allowed (List.mem_cons_of_mem _ h)

theorem registry_consistent_evicting : ∃ P : Calls,
    Reachable smallSite {team} (fun _ _ _ _ => True) (fun _ => False) P ∧
    (∃ p, P.state.stores.lookup zeros = some p ∧
      p ∈ mountedPaths P.state.stores.values P.state.mounted.values) ∧
    ∃ path k, P.prog (caller 1) = some (.call (.evict zeros path) k) ∧
      ∀ o p, (exec (caller 1) o (.evict zeros path) P.state).2.stores.lookup zeros ≠ some p := by
  have hP := @reachable_of_schedule smallSite {team} (fun _ _ _ _ => True) (fun _ => False)
    evicting [] (fun _ => .ok true) (fun _ => false) (fun mv h => evicting_allowed h) rfl
  obtain ⟨-, -, hevict, -, hpaths⟩ := registry_consistent orderly_team hP
  refine ⟨_, hP, ⟨join (join smallSite.root zeros) ['c'], rfl, ?_⟩, join smallSite.root zeros, _, rfl, ?_⟩
  · exact ((hpaths _ _ (List.Perm.refl _) (List.Perm.refl _)).2 _).mpr (Or.inl ⟨zeros, rfl⟩)
  · intro o p hp
    exact ((hevict (caller 1) zeros _ _ o rfl zeros p).mp hp).2 team rfl rfl

end Fileblock.Registry
