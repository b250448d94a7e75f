import Fileblock.Go.Join
import Fileblock.Loop.Reconcile

/-! What a run of the reconciler comes to, whatever order the maps are ranged over in. -/
namespace Fileblock.Loop
open Go Store Interaction

section Runs
variable {T T' : Tables} {root : Str}

namespace Tables
variable (T root)

def live : StrMap Str :=
  StrMap.fill Attachment.device Attachment.backFile (T.loops.map Attachment.trimmed)

def backing : StrMap Str := StrMap.fill CryptMapping.name CryptMapping.backing T.mappings

/-- The entries that are not stale. -/
def kept : List Mapping := T.state.filter fun e => !stale T.live T.backing e

def strayMapping (m : CryptMapping) : Bool :=
  !(T.kept.any (fun e => e.cryptDev ≠ [] && base e.cryptDev = m.name) || !ours root T.live m.backing)

def strayLoop (dev : Str) : Bool :=
  !(T.kept.any (·.loopDev = dev) || !ours root T.live dev)

end Tables

/-- What a run makes of the tables. -/
structure Settled (root : Str) (T T' : Tables) : Prop where
  state : T'.state = T.kept
  mappings : T'.mappings = T.mappings.filter fun m => !T.strayMapping root m
  loops : T'.loops = T.loops.filter fun a => !T.strayLoop root a.device
  acts : ∃ devs : List Str, devs.Perm T.live.keys ∧
    T'.acts = ((devs.filter (T.strayLoop root)).map Act.detach).reverse ++
      ((T.mappings.filter (T.strayMapping root)).map fun m => Act.close m.name).reverse ++ T.acts

/-- The weakest precondition over tables whose commands all succeed. -/
abbrev twp {β : Type} (p : Run β) (Q : β → Tables → Prop) (T : Tables) : Prop :=
  p.wp ⟨exec, fun _ _ _ => True, fun _ _ _ => True⟩ Q T

theorem twp_issue {c : Cmd} {Q : Resp c → Tables → Prop}
    (h : ∀ o, Q (exec o c T).1 (exec o c T).2) : twp (issue c) Q T :=
  fun o _ => ⟨trivial, h o⟩

theorem twp_drop {f : Mapping → Bool} {all : List Mapping} {l b : StrMap Str}
    (hf : ∀ e, stale l b e = f e) (hall : all.Perm T.state) {Q : Unit → Tables → Prop}
    (hq : ∀ T', T'.state = T.state.filter (fun e => !f e) → T'.loops = T.loops →
      T'.mappings = T.mappings → T'.acts = T.acts → Q () T') :
    twp (Prog.each (dropIfStale l b) all) Q T := by
  have hnodup : T.state.Nodup := T.keyed.of_map _
  refine Prog.wp_each (I := fun bs T' => bs.Nodup ∧ bs ⊆ T.state ∧
    T'.state = T.state.filter (fun e => !f e || decide (e ∈ bs)) ∧ T'.loops = T.loops ∧
    T'.mappings = T.mappings ∧ T'.acts = T.acts) ?_ ?_ ?_
  · rintro e bs T' ⟨hn, hsub, hst, hl, hm, ha⟩
    obtain ⟨he, hn⟩ := List.nodup_cons.mp hn
    have hmem := hsub List.mem_cons_self
    have hsub' : bs ⊆ T.state := fun x hx => hsub (List.mem_cons_of_mem _ hx)
    unfold dropIfStale
    rw [hf]
    split_ifs with hs
    · rw [Prog.wp_bind]
      refine twp_issue fun o => ⟨hn, hsub', ?_, hl, hm, ha⟩
      change T'.state.filter (fun x => x.volumeID ≠ e.volumeID) = _
      rw [hst, List.filter_filter]
      refine List.filter_congr fun x hx => ?_
      by_cases hxe : x = e
      · subst hxe
        simp [hs, he]
      · have hid : x.volumeID ≠ e.volumeID := fun h => hxe (List.inj_on_of_nodup_map T.keyed hx hmem h)
        simp [hid, hxe]
    · refine ⟨hn, hsub', ?_, hl, hm, ha⟩
      rw [hst]
      refine List.filter_congr fun x _ => ?_
      by_cases hxe : x = e
      · subst hxe
        simp [hs]
      · simp [hxe]
  · rintro T' ⟨-, -, hst, hl, hm, ha⟩
    exact hq T' (by simpa using hst) hl hm ha
  · refine ⟨hall.nodup_iff.mpr hnodup, hall.subset, ?_, rfl, rfl, rfl⟩
    rw [List.filter_eq_self.mpr]
    intro x hx
    simp [hall.mem_iff.mpr hx]

theorem twp_close {f : CryptMapping → Bool} {kept : List Mapping} {l : StrMap Str}
    (hf : ∀ m, (kept.any (fun e => e.cryptDev ≠ [] && base e.cryptDev = m.name) ||
      !ours root l m.backing) = !f m) {Q : Unit → Tables → Prop}
    (hq : ∀ T', T'.mappings = T.mappings.filter (fun m => !f m) →
      T'.acts = ((T.mappings.filter f).map fun m => Act.close m.name).reverse ++ T.acts →
      T'.state = T.state → T'.loops = T.loops → Q () T') :
    twp (Prog.each (closeOrphan root l kept) T.mappings) Q T := by
  refine Prog.wp_each (I := fun ms T' => ∃ done, T.mappings = done ++ ms ∧
    T'.mappings = done.filter (fun m => !f m) ++ ms ∧
    T'.acts = ((done.filter f).map fun m => Act.close m.name).reverse ++ T.acts ∧
    T'.state = T.state ∧ T'.loops = T.loops) ?_ ?_ ⟨[], rfl, rfl, rfl, rfl, rfl⟩
  · rintro m ms T' ⟨done, hd, hm, ha, hst, hl⟩
    unfold closeOrphan
    rw [hf]
    cases hfm : f m with
    | false => exact ⟨done ++ [m], by simp [hd], by simp [hm, hfm], by simp [ha, hfm], hst, hl⟩
    | true =>
      rw [if_neg (by simp), Prog.wp_bind]
      refine twp_issue fun o => ⟨done ++ [m], by simp [hd], ?_, by simp [exec, ha, hfm], hst, hl⟩
      have hnames := T.named
      rw [hd, List.map_append, List.map_cons] at hnames
      have hother : ∀ x, x ∈ done ∨ x ∈ ms → x.name ≠ m.name := by
        intro x hx hname
        rw [List.nodup_middle, List.nodup_cons, ← List.map_append] at hnames
        exact hnames.1 (hname ▸ List.mem_map_of_mem (List.mem_append.mpr hx))
      change T'.mappings.filter (fun x => x.name ≠ m.name) = _
      have hdone : (done.filter fun x => !f x).filter (fun x => x.name ≠ m.name) =
          done.filter fun x => !f x :=
        List.filter_eq_self.mpr fun x hx =>
          decide_eq_true (hother x (Or.inl (List.mem_of_mem_filter hx)))
      have hms : ms.filter (fun x => x.name ≠ m.name) = ms :=
        List.filter_eq_self.mpr fun x hx => decide_eq_true (hother x (Or.inr hx))
      rw [hm, List.filter_append, List.filter_cons, if_neg (by simp), hdone, hms]
      simp [hfm]
  · rintro T' ⟨done, hd, hm, ha, hst, hl⟩
    obtain rfl : done = T.mappings := by simpa using hd.symm
    exact hq T' (by simpa using hm) ha hst hl

theorem twp_detach {g : Str → Bool} {kept : List Mapping} {l : StrMap Str} {devs : List Str}
    (hg : ∀ dev, (kept.any (·.loopDev = dev) || !ours root l dev) = !g dev)
    {Q : Unit → Tables → Prop}
    (hq : ∀ T', T'.loops = T.loops.filter (fun a => !(decide (a.device ∈ devs) && g a.device)) →
      T'.acts = ((devs.filter g).map Act.detach).reverse ++ T.acts →
      T'.state = T.state → T'.mappings = T.mappings → Q () T') :
    twp (Prog.each (detachOrphan root l kept) devs) Q T := by
  refine Prog.wp_each (I := fun ds T' => ∃ done, devs = done ++ ds ∧
    T'.loops = T.loops.filter (fun a => !(decide (a.device ∈ done) && g a.device)) ∧
    T'.acts = ((done.filter g).map Act.detach).reverse ++ T.acts ∧
    T'.state = T.state ∧ T'.mappings = T.mappings) ?_ ?_ ⟨[], rfl, by simp, rfl, rfl, rfl⟩
  · rintro d ds T' ⟨done, hd, hl, ha, hst, hm⟩
    unfold detachOrphan
    rw [hg]
    cases hgd : g d with
    | false =>
      refine ⟨done ++ [d], by simp [hd], ?_, by simp [ha, hgd], hst, hm⟩
      rw [hl]
      refine List.filter_congr fun a _ => ?_
      by_cases had : a.device = d
      · simp [had, hgd]
      · simp [had]
    | true =>
      rw [if_neg (by simp), Prog.wp_bind]
      refine twp_issue fun o => ⟨done ++ [d], by simp [hd], ?_, by simp [exec, ha, hgd], hst, hm⟩
      change T'.loops.filter (fun a => a.device ≠ d) = _
      rw [hl, List.filter_filter]
      refine List.filter_congr fun a _ => ?_
      by_cases had : a.device = d
      · simp [had, hgd]
      · simp [had]
  · rintro T' ⟨done, hd, hl, ha, hst, hm⟩
    obtain rfl : done = devs := by simpa using hd.symm
    exact hq T' hl ha hst hm

/-- The three passes, from tables that have not changed since they were listed. -/
theorem twp_passes {Q : Unit → Tables → Prop} (hq : ∀ T', Settled root T T' → Q () T') :
    twp (passes root (T.loops.map Attachment.trimmed) T.mappings) Q T := by
  unfold passes twp
  rw [Prog.wp_bind]
  refine twp_issue fun o => ?_
  rw [Prog.wp_bind]
  refine twp_drop (fun e => rfl) (anyOrder_perm T.state o.pick) fun T₁ hst₁ hl₁ hm₁ ha₁ => ?_
  rw [Prog.wp_bind]
  refine twp_issue fun o => ?_
  have hperm : (exec o .stateAll T₁).1.Perm T.kept := by
    rw [← show T₁.state = T.kept from hst₁]
    exact anyOrder_perm _ _
  rw [Prog.wp_bind]
  change twp _ _ T₁
  rw [← hm₁]
  refine twp_close (f := T.strayMapping root) ?_ fun T₂ hm₂ ha₂ hst₂ hl₂ => ?_
  · intro m
    rw [hperm.any_eq]
    simp [Tables.strayMapping, Tables.live]
  rw [Prog.wp_bind]
  refine twp_issue fun o' => ?_
  change twp _ _ T₂
  have hdevs : (exec o' (.rangeLive T.live.keys) T₂).1.Perm T.live.keys := anyOrder_perm _ _
  refine twp_detach (g := T.strayLoop root) ?_ fun T₃ hl₃ ha₃ hst₃ hm₃ => ?_
  · intro dev
    rw [hperm.any_eq]
    simp [Tables.strayLoop, Tables.live]
  refine hq T₃ ⟨hst₃.trans (hst₂.trans hst₁), ?_, ?_, _, hdevs, ?_⟩
  · rw [hm₃, hm₂, hm₁]
  · rw [hl₃, hl₂, hl₁]
    refine List.filter_congr fun a ha => ?_
    have hmem : a.device ∈ (exec o' (.rangeLive T.live.keys) T₂).1 :=
      hdevs.mem_iff.mpr ((StrMap.mem_keys_fill _ _ _ _).mpr
        ⟨a.trimmed, List.mem_map_of_mem ha, rfl⟩)
    have hin := decide_eq_true hmem
    exact congrArg not ((congrArg (· && _) hin).trans (Bool.true_and _))
  · rw [ha₃, ha₂, ha₁, hm₁, List.append_assoc]
    rfl

theorem settled_run (o : ℕ → Choice) : (T.run root o).1 = .ok () ∧ Settled root T (T.run root o).2 := by
  have hwp : twp (reconcile true root).run (fun r T' => r = .ok () ∧ Settled root T T') T := by
    unfold reconcile list listMappings twp
    rw [Prog.wp_run_bind, Prog.wp_run_bind, Prog.wp_attempt]
    refine twp_issue fun o => ?_
    change twp _ _ T
    unfold twp
    rw [Prog.wp_run_pure]
    dsimp only
    rw [if_pos rfl, Prog.wp_run_bind, Prog.wp_attempt]
    refine twp_issue fun o => ?_
    change twp _ _ T
    unfold twp
    rw [Prog.wp_always]
    exact twp_passes fun T' h => ⟨rfl, h⟩
  exact (Prog.wp_eval hwp fun _ _ => trivial).1

/-! The same in the words of the tables. -/

/-- The path is below the root, element by element. -/
def Under (root path : Str) : Prop :=
  ∃ rest, rest ≠ [] ∧ split (clean path) '/' = split (clean root) '/' ++ rest

theorem under_iff {path : Str} :
    Under root path ↔ hasPrefix (clean path) (clean root ++ ['/']) = true := by
  rw [hasPrefix_iff]
  constructor
  · rintro ⟨rest, hrest, hs⟩
    have hp := congrArg (['/'].intercalate ·) hs
    simp only [split, List.intercalate_splitOn] at hp
    rw [intercalate_append (List.splitOn_ne_nil _ _) hrest, List.intercalate_splitOn] at hp
    exact ⟨_, hp.symm⟩
  · rintro ⟨rest, hp⟩
    refine ⟨split rest '/', List.splitOn_ne_nil _ _, ?_⟩
    rw [← hp, List.append_assoc]
    exact split_append _ _ _

namespace Tables

/-- The back-file of an attached loop, without the kernel's mark on unlinked files. -/
def backFile (T : Tables) (dev : Str) : Option Str :=
  ((T.loops.filter (·.device = dev)).getLast?).map fun a => trimSuffix a.backFile deletedSuffix

/-- The tables bear the entry out. -/
def Keeps (T : Tables) (e : Mapping) : Prop :=
  (∃ back, T.backFile e.loopDev = some back ∧ backs back e.imagePath = true) ∧
    (e.cryptDev ≠ [] → ⟨base e.cryptDev, e.loopDev⟩ ∈ T.mappings)

/-- The device is attached to a file of ours. -/
def Ours (root : Str) (T : Tables) (dev : Str) : Prop :=
  ∃ back, T.backFile dev = some back ∧ (Under root back ∨ disconnectedImage back = true)

def StrayMapping (root : Str) (T : Tables) (m : CryptMapping) : Prop :=
  T.Ours root m.backing ∧
    ∀ e ∈ T.state, T.Keeps e → e.cryptDev ≠ [] → base e.cryptDev ≠ m.name

def StrayLoop (root : Str) (T : Tables) (dev : Str) : Prop :=
  T.Ours root dev ∧ ∀ e ∈ T.state, T.Keeps e → e.loopDev ≠ dev

theorem lookup_live (T : Tables) (dev : Str) : T.live.lookup dev = T.backFile dev := by
  unfold live backFile
  rw [StrMap.lookup_fill, List.filter_map, List.getLast?_map, Option.map_map]
  rfl

theorem lookup_backing {name backing : Str} :
    T.backing.lookup name = some backing ↔ ⟨name, backing⟩ ∈ T.mappings := by
  unfold Tables.backing
  rw [StrMap.lookup_fill, Option.map_eq_some_iff]
  constructor
  · rintro ⟨m, hm, rfl⟩
    obtain ⟨hmem, hname⟩ := List.mem_filter.mp (List.mem_of_getLast? hm)
    rw [decide_eq_true_eq] at hname
    exact hname ▸ hmem
  · intro hmem
    have hfilter : ⟨name, backing⟩ ∈ T.mappings.filter (·.name = name) := by simpa using hmem
    obtain ⟨m, hm⟩ := Option.isSome_iff_exists.mp
      (List.getLast?_isSome.mpr (List.ne_nil_of_mem hfilter))
    obtain ⟨hmem', hname⟩ := List.mem_filter.mp (List.mem_of_getLast? hm)
    rw [decide_eq_true_eq] at hname
    have hsame := List.inj_on_of_nodup_map T.named hmem' hmem hname
    exact ⟨m, hm, by rw [hsame]⟩

theorem not_stale_iff {e : Mapping} : stale T.live T.backing e = false ↔ T.Keeps e := by
  unfold stale Keeps
  rw [lookup_live, Bool.or_eq_false_iff]
  refine and_congr ?_ ?_
  · cases T.backFile e.loopDev <;> simp
  · rw [Bool.and_eq_false_imp, decide_eq_true_eq]
    refine imp_congr_right fun _ => ?_
    rw [← lookup_backing]
    cases T.backing.lookup (base e.cryptDev) <;> simp

theorem mem_kept {e : Mapping} : e ∈ T.kept ↔ e ∈ T.state ∧ T.Keeps e := by
  unfold kept
  rw [List.mem_filter, Bool.not_eq_true', not_stale_iff]

theorem ours_iff {dev : Str} : ours root T.live dev = true ↔ T.Ours root dev := by
  unfold ours Ours
  rw [lookup_live]
  cases T.backFile dev <;> simp [under_iff]

theorem strayMapping_iff {m : CryptMapping} :
    T.strayMapping root m = true ↔ T.StrayMapping root m := by
  unfold strayMapping StrayMapping
  rw [← ours_iff, Bool.not_eq_true', Bool.or_eq_false_iff, Bool.not_eq_false', List.any_eq_false,
    and_comm]
  refine and_congr_right fun _ => ?_
  constructor
  · intro h e he hk hc hn
    exact h e (mem_kept.mpr ⟨he, hk⟩) (by simp [hc, hn])
  · intro h e he hb
    simp only [Bool.and_eq_true, decide_eq_true_eq] at hb
    exact h e (mem_kept.mp he).1 (mem_kept.mp he).2 hb.1 hb.2

theorem strayLoop_iff {dev : Str} : T.strayLoop root dev = true ↔ T.StrayLoop root dev := by
  unfold strayLoop StrayLoop
  rw [← ours_iff, Bool.not_eq_true', Bool.or_eq_false_iff, Bool.not_eq_false', List.any_eq_false,
    and_comm]
  refine and_congr_right fun _ => ?_
  constructor
  · intro h e he hk hd
    exact h e (mem_kept.mpr ⟨he, hk⟩) (decide_eq_true hd)
  · intro h e he hb
    exact h e (mem_kept.mp he).1 (mem_kept.mp he).2 (of_decide_eq_true hb)

end Tables

namespace Settled

theorem mem_state (h : Settled root T T') {e : Mapping} :
    e ∈ T'.state ↔ e ∈ T.state ∧ T.Keeps e := by
  rw [h.state, Tables.mem_kept]

theorem mem_mappings (h : Settled root T T') {m : CryptMapping} :
    m ∈ T'.mappings ↔ m ∈ T.mappings ∧ ¬ T.StrayMapping root m := by
  rw [h.mappings, List.mem_filter, Bool.not_eq_true', ← Bool.not_eq_true, Tables.strayMapping_iff]

theorem mem_loops (h : Settled root T T') {a : Attachment} :
    a ∈ T'.loops ↔ a ∈ T.loops ∧ ¬ T.StrayLoop root a.device := by
  rw [h.loops, List.mem_filter, Bool.not_eq_true', ← Bool.not_eq_true, Tables.strayLoop_iff]

theorem backFile (h : Settled root T T') (dev : Str) :
    T'.backFile dev = if T.strayLoop root dev then none else T.backFile dev := by
  unfold Tables.backFile
  rw [h.loops, List.filter_filter]
  cases hs : T.strayLoop root dev with
  | true =>
    rw [if_pos rfl, List.filter_eq_nil_iff.mpr]
    · rfl
    · intro a _ hb
      simp only [Bool.and_eq_true, decide_eq_true_eq, Bool.not_eq_true'] at hb
      rw [hb.1, hs] at hb
      cases hb.2
  | false =>
    rw [if_neg (by simp)]
    congr 2
    refine List.filter_congr fun a _ => ?_
    by_cases hd : a.device = dev
    · simp [hd, hs]
    · simp [hd]

theorem keeps (h : Settled root T T') {e : Mapping} (he : e ∈ T.state) (hk : T.Keeps e) :
    T'.Keeps e := by
  obtain ⟨⟨back, hback, hb⟩, hc⟩ := hk
  have hloop : T.strayLoop root e.loopDev = false := by
    rw [← Bool.not_eq_true, Tables.strayLoop_iff]
    exact fun hs => hs.2 e he ⟨⟨back, hback, hb⟩, hc⟩ rfl
  refine ⟨⟨back, ?_, hb⟩, ?_⟩
  · rw [h.backFile, hloop]
    exact hback
  · intro hne
    refine h.mem_mappings.mpr ⟨hc hne, ?_⟩
    exact fun hs => hs.2 e he ⟨⟨back, hback, hb⟩, hc⟩ hne rfl

theorem ours (h : Settled root T T') {dev : Str} (ho : T'.Ours root dev) :
    T.Ours root dev ∧ ¬ T.StrayLoop root dev := by
  obtain ⟨back, hback, hb⟩ := ho
  rw [h.backFile] at hback
  split_ifs at hback with hs
  refine ⟨⟨back, hback, hb⟩, ?_⟩
  rwa [← Tables.strayLoop_iff]

/-- Settled tables have no stray loops, … -/
theorem no_strayLoop (h : Settled root T T') (dev : Str) : ¬ T'.StrayLoop root dev := by
  rintro ⟨ho, hall⟩
  obtain ⟨ho, hs⟩ := h.ours ho
  apply hs
  refine ⟨ho, ?_⟩
  intro e he hk
  exact hall e (h.mem_state.mpr ⟨he, hk⟩) (h.keeps he hk)

/-- … no stray mappings, … -/
theorem no_strayMapping (h : Settled root T T') {m : CryptMapping} (hm : m ∈ T'.mappings) :
    ¬ T'.StrayMapping root m := by
  rintro ⟨ho, hall⟩
  apply (h.mem_mappings.mp hm).2
  refine ⟨(h.ours ho).1, ?_⟩
  intro e he hk
  exact hall e (h.mem_state.mpr ⟨he, hk⟩) (h.keeps he hk)

/-- … and no stale entries: a run on them changes nothing. -/
theorem again (h : Settled root T T') {T'' : Tables} (h' : Settled root T' T'') : T'' = T' := by
  have hloop : ∀ dev, T'.strayLoop root dev = false := by
    intro dev
    rw [← Bool.not_eq_true, Tables.strayLoop_iff]
    exact h.no_strayLoop dev
  have hmap : ∀ m ∈ T'.mappings, T'.strayMapping root m = false := by
    intro m hm
    rw [← Bool.not_eq_true, Tables.strayMapping_iff]
    exact h.no_strayMapping hm
  apply Tables.ext
  · rw [h'.state]
    refine List.filter_eq_self.mpr fun e he => ?_
    obtain ⟨he, hk⟩ := h.mem_state.mp he
    rw [Tables.not_stale_iff.mpr (h.keeps he hk)]
    rfl
  · rw [h'.loops]
    refine List.filter_eq_self.mpr fun a _ => ?_
    rw [hloop]
    rfl
  · rw [h'.mappings]
    refine List.filter_eq_self.mpr fun m hm => ?_
    rw [hmap m hm]
    rfl
  · obtain ⟨devs, -, ha⟩ := h'.acts
    rw [ha, List.filter_eq_nil_iff.mpr, List.filter_eq_nil_iff.mpr]
    · rfl
    · intro m hm
      simp [hmap m hm]
    · intro dev _
      simp [hloop dev]

theorem acts_exact (h : Settled root T T') : ∃ closes detaches : List Str,
    T'.acts = (closes.map Act.close ++ detaches.map Act.detach).reverse ++ T.acts ∧
    closes.Nodup ∧ detaches.Nodup ∧
    (∀ name, name ∈ closes ↔ ∃ m ∈ T.mappings, m.name = name ∧ T.StrayMapping root m) ∧
    ∀ dev, dev ∈ detaches ↔ T.StrayLoop root dev := by
  obtain ⟨devs, hdevs, ha⟩ := h.acts
  refine ⟨(T.mappings.filter (T.strayMapping root)).map CryptMapping.name,
    devs.filter (T.strayLoop root), ?_, ?_, ?_, ?_, ?_⟩
  · rw [ha, List.reverse_append, List.map_map]
    rfl
  · exact T.named.sublist (List.filter_sublist.map _)
  · exact (hdevs.nodup_iff.mpr T.live.keys_nodup).filter _
  · intro name
    simp only [List.mem_map, List.mem_filter, Tables.strayMapping_iff]
    constructor
    · rintro ⟨m, ⟨hm, hs⟩, hn⟩
      exact ⟨m, hm, hn, hs⟩
    · rintro ⟨m, hm, hn, hs⟩
      exact ⟨m, ⟨hm, hs⟩, hn⟩
  · intro dev
    rw [List.mem_filter, Tables.strayLoop_iff, hdevs.mem_iff]
    refine and_iff_right_of_imp ?_
    rintro ⟨⟨back, hback, -⟩, -⟩
    rw [← AList.mem_keys, ← AList.lookup_isSome, Tables.lookup_live, hback]
    rfl

end Settled

/-- On every three tables, with every command succeeding: the entries that are left are
those the tables bear out; exactly the stray mappings of ours are closed, and then
exactly the stray loops of ours are detached, each once; what a kept entry names and
what is not ours is left alone; the order in which the maps are ranged over makes no
difference to the tables; and a second run changes nothing. -/
theorem reconcile_exact (root : Str) (T : Tables) (o : ℕ → Choice) :
    (T.run root o).1 = .ok () ∧
    (∀ e, e ∈ (T.run root o).2.state ↔ e ∈ T.state ∧ T.Keeps e) ∧
    (∀ m, m ∈ (T.run root o).2.mappings ↔ m ∈ T.mappings ∧ ¬ T.StrayMapping root m) ∧
    (∀ a, a ∈ (T.run root o).2.loops ↔ a ∈ T.loops ∧ ¬ T.StrayLoop root a.device) ∧
    (∃ closes detaches : List Str, (T.run root o).2.acts =
        (closes.map Act.close ++ detaches.map Act.detach).reverse ++ T.acts ∧
      closes.Nodup ∧ detaches.Nodup ∧
      (∀ name, name ∈ closes ↔ ∃ m ∈ T.mappings, m.name = name ∧ T.StrayMapping root m) ∧
      ∀ dev, dev ∈ detaches ↔ T.StrayLoop root dev) ∧
    (∀ e ∈ T.state, T.Keeps e → ¬ T.StrayLoop root e.loopDev ∧ (e.cryptDev ≠ [] →
      ∀ m ∈ T.mappings, m.name = base e.cryptDev → ¬ T.StrayMapping root m)) ∧
    (∀ o', (T.run root o').2.state = (T.run root o).2.state ∧
      (T.run root o').2.mappings = (T.run root o).2.mappings ∧
      (T.run root o').2.loops = (T.run root o).2.loops) ∧
    ∀ o', (T.run root o).2.run root o' = (.ok (), (T.run root o).2) := by
  obtain ⟨hok, h⟩ := @settled_run T root o
  refine ⟨hok, fun e => h.mem_state, fun m => h.mem_mappings, fun a => h.mem_loops, h.acts_exact,
    ?_, ?_, ?_⟩
  · intro e he hk
    exact ⟨fun hs => hs.2 e he hk rfl, fun hne m _ hn hs => hs.2 e he hk hne hn.symm⟩
  · intro o'
    have h' := (@settled_run T root o').2
    exact ⟨h'.state.trans h.state.symm, h'.mappings.trans h.mappings.symm,
      h'.loops.trans h.loops.symm⟩
  · intro o'
    obtain ⟨hok', h'⟩ := @settled_run (T.run root o).2 root o'
    exact Prod.ext hok' (h.again h')

end Runs
end Fileblock.Loop
