import Fileblock.Go.Join
import Fileblock.Registry.Program

/-! What holds of the registry between any two critical sections: the cached paths,
the stores on them, and the slot for a running check. -/
namespace Fileblock.Registry
open Go Store Interaction

/-- The name of a mount directory. -/
structure MountName (m : Str) : Prop where
  length : m.length = 12
  hex : ∀ c ∈ m, isHex c = true

theorem MountName.proper {m : Str} (h : MountName m) : Proper m := by
  refine ⟨?_, ?_, ?_, ?_⟩
  · rintro rfl
    exact absurd h.length (by simp)
  · rintro rfl
    exact absurd h.length (by simp)
  · rintro rfl
    exact absurd h.length (by simp)
  · intro hs
    exact isHex_ne_slash (h.hex _ hs) rfl

namespace Setup
variable (W : Setup)

theorem mountName (cfg : Config) : MountName (cfg.mountID W.hash) :=
  ⟨W.hash_length _, W.hash_hex _⟩

def target (m : Str) : Str := join W.root m

def storePath (cfg : Config) : Str :=
  if cfg.subDir = [] then W.target (cfg.mountID W.hash)
  else join (W.target (cfg.mountID W.hash)) cfg.subDir

variable {W} {m m' : Str} {cfg : Config}

theorem target_eq (h : MountName m) : W.target m = dirPrefix W.root ++ m := join_proper W.root h.proper

theorem target_injective (h : MountName m) (h' : MountName m') (he : W.target m = W.target m') :
    m = m' := by
  rw [target_eq h, target_eq h'] at he
  exact List.append_cancel_left he

theorem storePath_of_subDir (hv : cfg.Valid) (hn : cfg.subDir ≠ []) :
    W.storePath cfg = W.target (cfg.mountID W.hash) ++ '/' :: cfg.subDir := by
  obtain ⟨ss, hss, hsub⟩ := hv
  have hne : ss ≠ [] := by
    rintro rfl
    exact hn (by simpa using hsub)
  unfold storePath
  rw [if_neg hn, hsub]
  exact join_join W.root (W.mountName cfg).proper hss hne

theorem join_storePath (hv : cfg.Valid) {e : Str} (he : Proper e) :
    join (W.storePath cfg) e = W.storePath cfg ++ '/' :: e := by
  have hroot : ∀ fs : List Str, (∀ x ∈ fs, Proper x) → fs ≠ [] →
      join (W.target (cfg.mountID W.hash)) (['/'].intercalate fs) =
        W.target (cfg.mountID W.hash) ++ '/' :: ['/'].intercalate fs :=
    fun fs hfs hn => join_join W.root (W.mountName cfg).proper hfs hn
  by_cases hn : cfg.subDir = []
  · have hs : W.storePath cfg = W.target (cfg.mountID W.hash) := if_pos hn
    rw [hs]
    simpa using hroot [e] (by simpa using he) (List.cons_ne_nil _ _)
  · have hs := storePath_of_subDir (W := W) hv hn
    obtain ⟨ss, hss, hsub⟩ := hv
    have hne : ss ≠ [] := by
      rintro rfl
      exact hn (by simpa using hsub)
    have htarget : W.target (cfg.mountID W.hash) ≠ [] := by
      rw [target_eq (W.mountName cfg)]
      simp [(W.mountName cfg).proper.ne_nil]
    have hall : ∀ x ∈ ss ++ [e], Proper x := by
      intro x hx
      rcases List.mem_append.mp hx with hx | hx
      · exact hss x hx
      · rw [List.mem_singleton.mp hx]
        exact he
    have hstep : join (W.storePath cfg) e =
        join (W.target (cfg.mountID W.hash)) (['/'].intercalate (ss ++ [e])) := by
      have hone := join_eq (p := W.storePath cfg) (by rw [hs]; simp)
        (show ∀ x ∈ [e], Proper x by simpa using he) (List.cons_ne_nil _ _)
      rw [List.intercalate_singleton] at hone
      rw [hone, join_eq htarget hall (by simp), hs, hsub, isAbs_append htarget,
        kept_append htarget hss hne]
      simp
    rw [hstep, hroot _ hall (by simp), intercalate_append hne (List.cons_ne_nil _ _), hs, hsub]
    simp

theorem storePath_eq (hv : cfg.Valid) : W.storePath cfg = W.target (cfg.mountID W.hash) ∨
    W.storePath cfg = W.target (cfg.mountID W.hash) ++ '/' :: cfg.subDir := by
  by_cases hn : cfg.subDir = []
  · exact Or.inl (if_pos hn)
  · exact Or.inr (storePath_of_subDir hv hn)

theorem under_storePath (hm : MountName m) (hv : cfg.Valid) :
    under (W.target m) (W.storePath cfg) = true ↔ cfg.mountID W.hash = m := by
  have hm' := W.mountName cfg
  have hlen : m.length = (cfg.mountID W.hash).length := hm.length.trans hm'.length.symm
  unfold under
  rw [Bool.or_eq_true, decide_eq_true_eq, hasPrefix_iff]
  constructor
  · intro h
    rcases storePath_eq hv with hs | hs <;> rw [hs, target_eq hm, target_eq hm'] at h
    · rcases h with h | h
      · exact List.append_cancel_left h
      · rw [List.append_assoc, List.prefix_append_right_inj] at h
        have := h.length_le
        simp at this
        omega
    · rcases h with h | h
      · rw [List.append_assoc, List.append_cancel_left_eq] at h
        have := congrArg List.length h
        simp at this
        omega
      · rw [List.append_assoc, List.append_assoc, List.prefix_append_right_inj] at h
        obtain ⟨rest, hr⟩ := h
        rw [List.append_assoc] at hr
        exact (List.append_inj hr hlen).1.symm
  · rintro rfl
    rcases storePath_eq hv with hs | hs
    · exact Or.inl hs
    · right
      rw [hs]
      exact ⟨cfg.subDir, by simp⟩

end Setup

/-! Stretches of the history, newest event first. -/

/-- The events after the last one with `p`. -/
def since (p : Event → Bool) (log : List Event) : List Event := log.takeWhile fun e => !p e

theorem since_cons_of_not {p : Event → Bool} {e : Event} (h : p e = false) (log : List Event) :
    since p (e :: log) = e :: since p log := by
  simp [since, h]

theorem mem_since_append {p : Event → Bool} {new log : List Event} {e : Event}
    (hn : ∀ x ∈ new, p x = false) (he : e ∈ since p log) : e ∈ since p (new ++ log) := by
  induction new with
  | nil => exact he
  | cons x new ih =>
    rw [List.cons_append, since_cons_of_not (hn x List.mem_cons_self)]
    exact List.mem_cons_of_mem _ (ih fun y hy => hn y (List.mem_cons_of_mem _ hy))

theorem mem_since_cons {p : Event → Bool} {x e : Event} {log : List Event} (hn : p x = false)
    (he : e ∈ since p log) : e ∈ since p (x :: log) :=
  @mem_since_append p [x] log e (by simpa using hn) he

def Event.locks (m : Str) : Event → Bool
  | .did _ (.lock m') _ => m' = m
  | _ => false

def Event.mounts (m : Str) : Event → Bool
  | .did t (.mount _ _) r => decide (t.mountID = m) && r.toOption.isSome
  | _ => false

def Event.opens (m : Str) : Event → Bool
  | .did _ (.openSlot m') _ => m' = m
  | _ => false

/-- The store's directory was made on the mount it is on. -/
def Made (W : Setup) (cfg : Config) (log : List Event) : Prop :=
  ∃ t : Caller, .did t (.mkdirAll (W.storePath cfg)) (.ok ()) ∈
    since (Event.mounts (cfg.mountID W.hash)) log

theorem Made.append {W : Setup} {cfg : Config} {new log : List Event} (h : Made W cfg log)
    (hn : ∀ e ∈ new, e.mounts (cfg.mountID W.hash) = false) : Made W cfg (new ++ log) := by
  obtain ⟨t, ht⟩ := h
  exact ⟨t, mem_since_append hn ht⟩

theorem Made.cons {W : Setup} {cfg : Config} {e : Event} {log : List Event} (h : Made W cfg log)
    (he : e.mounts (cfg.mountID W.hash) = false) : Made W cfg (e :: log) :=
  @Made.append W cfg [e] log h (by simpa using he)

/-- Configs as they are parsed, with store IDs of their own. -/
structure Orderly (W : Setup) (K : Set Config) : Prop where
  valid : ∀ c ∈ K, c.Valid
  distinct : Set.InjOn (Config.storeID W.hash) K

/-- What holds of the maps; `K` are the configs in use. -/
structure Maps (W : Setup) (K : Set Config) (s : State) : Prop where
  mounted : ∀ m p, s.mounted.lookup m = some p → MountName m ∧ p = W.target m
  configs : ∀ id cfg, s.configs.lookup id = some cfg → cfg ∈ K ∧ cfg.storeID W.hash = id
  stores : Orderly W K → ∀ id p, s.stores.lookup id = some p → ∃ cfg, s.configs.lookup id = some cfg ∧
    s.mounted.lookup (cfg.mountID W.hash) = some (W.target (cfg.mountID W.hash)) ∧
    p = W.storePath cfg ∧ (cfg.subDir ≠ [] → Made W cfg s.log)

namespace Maps
variable {W : Setup} {K : Set Config} {s s' : State} {m : Str} {cfg : Config}

theorem frame (h : Maps W K s) (hm : s'.mounted = s.mounted) (hst : s'.stores = s.stores)
    (hc : s'.configs = s.configs) {e : Event} (hl : s'.log = e :: s.log)
    (he : ∀ m, e.mounts m = false) : Maps W K s' := by
  constructor
  · rw [hm]
    exact h.mounted
  · rw [hc]
    exact h.configs
  · intro hK id p hp
    rw [hst] at hp
    obtain ⟨cfg, hcfg, hmount, hpath, hmade⟩ := h.stores hK id p hp
    refine ⟨cfg, hc ▸ hcfg, hm ▸ hmount, hpath, fun hsub => ?_⟩
    rw [hl]
    exact (hmade hsub).cons (he _)

theorem mount (h : Maps W K s) (hnone : s.mounted.lookup m = none) {e : Event}
    (he : ∀ m', e.mounts m' = true → m' = m) (hm : s'.mounted = s.mounted)
    (hst : s'.stores = s.stores) (hc : s'.configs = s.configs) (hl : s'.log = e :: s.log) :
    Maps W K s' := by
  constructor
  · rw [hm]
    exact h.mounted
  · rw [hc]
    exact h.configs
  · intro hK id p hp
    rw [hst] at hp
    obtain ⟨cfg, hcfg, hmount, hpath, hmade⟩ := h.stores hK id p hp
    refine ⟨cfg, hc ▸ hcfg, hm ▸ hmount, hpath, fun hsub => ?_⟩
    rw [hl]
    refine (hmade hsub).cons ?_
    rw [← Bool.not_eq_true]
    intro hev
    rw [he _ hev, hnone] at hmount
    cases hmount

theorem putMounted (h : Maps W K s) (hm : MountName m)
    (hmm : s'.mounted = s.mounted.insert m (W.target m)) (hst : s'.stores = s.stores)
    (hc : s'.configs = s.configs) {e : Event} (he : ∀ m, e.mounts m = false)
    (hl : s'.log = e :: s.log) : Maps W K s' := by
  constructor
  · intro m' p hp
    rw [hmm] at hp
    by_cases hne : m' = m
    · subst hne
      rw [AList.lookup_insert, Option.some.injEq] at hp
      exact ⟨hm, hp.symm⟩
    · rw [AList.lookup_insert_ne hne] at hp
      exact h.mounted m' p hp
  · rw [hc]
    exact h.configs
  · intro hK id p hp
    rw [hst] at hp
    obtain ⟨cfg, hcfg, hmount, hpath, hmade⟩ := h.stores hK id p hp
    refine ⟨cfg, hc ▸ hcfg, ?_, hpath, fun hsub => ?_⟩
    · rw [hmm]
      by_cases hne : cfg.mountID W.hash = m
      · rw [hne, AList.lookup_insert]
      · rw [AList.lookup_insert_ne hne, hmount]
    · rw [hl]
      exact (hmade hsub).cons (he _)

/-- What an eviction leaves in the map of stores. -/
theorem lookup_evictStores (h : Maps W K s) (hK : Orderly W K) (hm : MountName m) {id : Str}
    (hcfg : s.configs.lookup id = some cfg) : (evictStores (W.target m) s.stores).lookup id =
      if cfg.mountID W.hash = m then none else s.stores.lookup id := by
  unfold evictStores
  rw [StrMap.lookup_dropWhere]
  cases hp : s.stores.lookup id with
  | none => simp
  | some p =>
    obtain ⟨cfg', hcfg', -, rfl, -⟩ := h.stores hK id p hp
    obtain rfl : cfg' = cfg := by
      rw [hcfg] at hcfg'
      exact (Option.some.inj hcfg').symm
    have hu := Setup.under_storePath (W := W) hm (hK.valid cfg' (h.configs id cfg' hcfg).1)
    by_cases hne : cfg'.mountID W.hash = m
    · rw [if_pos hne, Option.filter_some, hu.mpr hne]
      rfl
    · have : under (W.target m) (W.storePath cfg') = false := by
        rw [← Bool.not_eq_true, hu]
        exact hne
      rw [if_neg hne, Option.filter_some, this]
      rfl

theorem evict (h : Maps W K s) (hm : MountName m)
    (hmm : s'.mounted = s.mounted.erase m) (hst : s'.stores = evictStores (W.target m) s.stores)
    (hc : s'.configs = s.configs) {e : Event} (he : ∀ m, e.mounts m = false)
    (hl : s'.log = e :: s.log) : Maps W K s' := by
  constructor
  · intro m' p hp
    rw [hmm] at hp
    by_cases hne : m' = m
    · subst hne
      rw [AList.lookup_erase] at hp
      cases hp
    · rw [AList.lookup_erase_ne hne] at hp
      exact h.mounted m' p hp
  · rw [hc]
    exact h.configs
  · intro hK id p hp
    rw [hst] at hp
    have hold : s.stores.lookup id = some p := by
      unfold evictStores at hp
      rw [StrMap.lookup_dropWhere, Option.filter_eq_some_iff] at hp
      exact hp.1
    obtain ⟨cfg, hcfg, hmount, hpath, hmade⟩ := h.stores hK id p hold
    rw [h.lookup_evictStores hK hm hcfg] at hp
    split_ifs at hp with hne
    refine ⟨cfg, hc ▸ hcfg, ?_, hpath, fun hsub => ?_⟩
    · rw [hmm, AList.lookup_erase_ne hne, hmount]
    · rw [hl]
      exact (hmade hsub).cons (he _)

theorem putStore (h : Maps W K s) (hk : cfg ∈ K)
    (hmount : s.mounted.lookup (cfg.mountID W.hash) = some (W.target (cfg.mountID W.hash)))
    (hmade : Orderly W K → cfg.subDir ≠ [] → Made W cfg s.log) (hm : s'.mounted = s.mounted)
    (hst : s'.stores = s.stores.insert (cfg.storeID W.hash) (W.storePath cfg))
    (hc : s'.configs = s.configs.insert (cfg.storeID W.hash) cfg) {e : Event}
    (he : ∀ m, e.mounts m = false) (hl : s'.log = e :: s.log) : Maps W K s' := by
  constructor
  · rw [hm]
    exact h.mounted
  · intro id c hcl
    rw [hc] at hcl
    by_cases hne : id = cfg.storeID W.hash
    · subst hne
      rw [AList.lookup_insert, Option.some.injEq] at hcl
      exact hcl ▸ ⟨hk, rfl⟩
    · rw [AList.lookup_insert_ne hne] at hcl
      exact h.configs id c hcl
  · intro hK id p hp
    rw [hst] at hp
    rw [hm, hc, hl]
    by_cases hne : id = cfg.storeID W.hash
    · subst hne
      rw [AList.lookup_insert, Option.some.injEq] at hp
      refine ⟨cfg, AList.lookup_insert _, hmount, hp.symm, fun hsub => ?_⟩
      exact (hmade hK hsub).cons (he _)
    · rw [AList.lookup_insert_ne hne] at hp
      obtain ⟨c, hcl, hmc, hpath, hmd⟩ := h.stores hK id p hp
      refine ⟨c, (AList.lookup_insert_ne hne).trans hcl, hmc, hpath, fun hsub => ?_⟩
      exact (hmd hsub).cons (he _)

end Maps
end Fileblock.Registry
