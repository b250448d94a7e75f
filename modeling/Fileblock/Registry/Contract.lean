import Fileblock.Interaction.Threads
import Fileblock.Registry.Slots

/-! Interleavings of `Get` calls, checks that answer or hang, and mounts that are
lost, and what the calls promise each other: whoever holds the lock of a mount is the
only one to touch what belongs to it. -/
namespace Fileblock.Registry
open Go Store Interaction

def State.answer (s : State) (m : Str) (ch : ℕ) (r : CheckRes) : State :=
  { s.setChan m ch { s.chan m ch with running := false, answer := some r } with
    log := .answered m ch r :: s.log }

def State.lose (s : State) (m : Str) : State :=
  { s with live := Function.update s.live m false }

/-- The registry under any number of `Get` calls on the configs `K`. `answers` says
what a running check may answer, `loses` which mounts may be lost. -/
def system (W : Setup) (K : Set Config) (answers : State → Str → ℕ → CheckRes → Prop)
    (loses : Str → Prop) : System Caller Cmd Choice State (Except Err Str) Resp where
  exec := exec
  enabled := Enabled
  env s s' :=
    (∃ m ch r, (s.chan m ch).running = true ∧ answers s m ch r ∧ s' = s.answer m ch r) ∨
    ∃ m, loses m ∧ s' = s.lose m
  start t p := ∃ cfg ∈ K, p = get W cfg ∧ t.mountID = cfg.mountID W.hash

/-- The events of the `Get` that holds the lock of `m`. -/
def current (m : Str) (log : List Event) : List Event := since (Event.locks m) log

/-- This `Get` started a check, and that check answered it that nothing is mounted. -/
def Refuted (t : Caller) (log : List Event) : Prop :=
  ∃ ch path, .did t (.start t.mountID ch path) () ∈ current t.mountID log ∧
    .answered t.mountID ch (.ok false) ∈ current t.mountID log ∧
    .did t (.await t.mountID ch) (some (.ok false)) ∈ current t.mountID log

/-- This `Get` found nothing cached, or evicted what was on the word of its own check. -/
def Uncached (t : Caller) (log : List Event) : Prop :=
  .did t (.cached t.mountID) none ∈ current t.mountID log ∨
    Refuted t log ∧ ∃ path, .did t (.evict t.mountID path) () ∈ current t.mountID log

def Unused (m : Str) (ch : ℕ) (s : State) : Prop :=
  (s.chan m ch).running = false ∧ ∀ r, .answered m ch r ∉ s.log

/-- What the caller that holds the lock promises when it issues a command. -/
def Promise (W : Setup) (K : Set Config) (t : Caller) (s : State) : Cmd → Prop
  | .lock _ => False
  | .unlock m | .openSlot m => m = t.mountID ∧ Tidy s m
  | .cached m | .poll m _ | .await m _ => m = t.mountID
  | .start m ch path => m = t.mountID ∧ s.checking m = some ch ∧
      Unused m ch s ∧ s.mounted.lookup m = some path
  | .clearCheck m => m = t.mountID ∧ ∀ ch, s.checking m = some ch → (s.chan m ch).running = false
  | .evict m path => m = t.mountID ∧ path = W.target m ∧ Refuted t s.log
  | .mkdirAll _ | .seen _ => True
  | .mount target cfg => cfg ∈ K ∧ cfg.mountID W.hash = t.mountID ∧ target = W.target t.mountID ∧
      s.mounted.lookup t.mountID = none ∧ Uncached t s.log
  | .putMounted m path => m = t.mountID ∧ path = W.target m ∧ ∃ e ∈ s.log, e.mounts m = true
  | .putStore id sub cfg => cfg ∈ K ∧ cfg.mountID W.hash = t.mountID ∧ id = cfg.storeID W.hash ∧
      sub = W.storePath cfg ∧ s.mounted.lookup t.mountID = some (W.target t.mountID) ∧
      (Orderly W K → cfg.subDir ≠ [] → Made W cfg s.log)

/-- A lock is taken for the caller's mount; all else is done with the lock held. -/
def Guarantee (W : Setup) (K : Set Config) (t : Caller) (s : State) (c : Cmd) : Prop :=
  MountName t.mountID ∧
    (c = .lock t.mountID ∨ s.holder t.mountID = some t.num ∧ Promise W K t s c)

/-- A channel as it was, or with the answer it waited for. -/
def Chan.Later (x y : Chan) : Prop :=
  y = x ∨ x.running = true ∧ ∃ r, y = { x with running := false, answer := some r }

/-- What others leave alone of a mount whose lock they do not hold: everything but the
answers of its checks. -/
structure Untouched (W : Setup) (K : Set Config) (m : Str) (s s' : State) : Prop where
  holder : s'.holder m = s.holder m
  mounted : s'.mounted.lookup m = s.mounted.lookup m
  checking : s'.checking m = s.checking m
  made : s'.made m = s.made m
  stores : Orderly W K → ∀ cfg ∈ K, cfg.mountID W.hash = m →
    s'.stores.lookup (cfg.storeID W.hash) = s.stores.lookup (cfg.storeID W.hash)
  chan : ∀ ch, (s.chan m ch).Later (s'.chan m ch)
  log : ∃ new, s'.log = new ++ s.log ∧
    (∀ e ∈ new, e.locks m = false ∧ e.mounts m = false ∧ e.opens m = false) ∧
    ∀ ch r, .answered m ch r ∈ new → (s.chan m ch).running = true ∧
      s'.chan m ch = { s.chan m ch with running := false, answer := some r }

namespace Untouched
variable {W : Setup} {K : Set Config} {m : Str} {s s' s'' : State}

theorem refl (W : Setup) (K : Set Config) (m : Str) (s : State) : Untouched W K m s s :=
  ⟨rfl, rfl, rfl, rfl, fun _ _ _ _ => rfl, fun _ => Or.inl rfl, [], rfl, by simp, by simp⟩

theorem trans (h : Untouched W K m s s') (h' : Untouched W K m s' s'') : Untouched W K m s s'' := by
  obtain ⟨new, hl, hn, ha⟩ := h.log
  obtain ⟨new', hl', hn', ha'⟩ := h'.log
  refine ⟨h'.holder.trans h.holder, h'.mounted.trans h.mounted, h'.checking.trans h.checking,
    h'.made.trans h.made, fun hK cfg hc hm => (h'.stores hK cfg hc hm).trans (h.stores hK cfg hc hm), ?_,
    new' ++ new, by rw [hl', hl, List.append_assoc], ?_, ?_⟩
  · intro ch
    rcases h.chan ch with he | ⟨hr, r, he⟩
    · have := h'.chan ch
      rwa [he] at this
    · rcases h'.chan ch with he' | ⟨hr', -⟩
      · exact Or.inr ⟨hr, r, he'.trans he⟩
      · rw [he] at hr'
        cases hr'
  · intro e he
    rcases List.mem_append.mp he with he | he
    · exact hn' e he
    · exact hn e he
  · intro ch r he
    rcases List.mem_append.mp he with he | he
    · obtain ⟨hr, hc⟩ := ha' ch r he
      rcases h.chan ch with he' | ⟨-, r', he'⟩
      · rw [he'] at hr hc
        exact ⟨hr, hc⟩
      · rw [he'] at hr
        cases hr
    · obtain ⟨hr, hc⟩ := ha ch r he
      refine ⟨hr, ?_⟩
      rcases h'.chan ch with he' | ⟨hr', -⟩
      · rw [he', hc]
      · rw [hc] at hr'
        cases hr'

end Untouched

section Effect
variable {W : Setup} {K : Set Config} {t : Caller} {o : Choice} {c : Cmd} {s : State} {m : Str}

theorem act_log (t : Caller) (o : Choice) (c : Cmd) (s : State) : (act t o c s).2.log = s.log := by
  cases c with
  | openSlot m => cases h : s.checking m <;> simp [act, h]
  | poll m ch => cases h : (s.chan m ch).answer <;> simp [act, h, State.setChan]
  | await m ch => cases h : o.timeout <;> simp [act, h, State.setChan]
  | mount target cfg => cases h : o.fault <;> simp [act, h]
  | _ => rfl

theorem exec_log (t : Caller) (o : Choice) (c : Cmd) (s : State) :
    (exec t o c s).2.log = .did t c (exec t o c s).1 :: s.log := by
  change Event.did t c (act t o c s).1 :: (act t o c s).2.log = _
  rw [act_log]
  rfl

structure Apart (s s' : State) (m : Str) : Prop where
  holder : s'.holder m = s.holder m
  mounted : s'.mounted.lookup m = s.mounted.lookup m
  checking : s'.checking m = s.checking m
  made : s'.made m = s.made m
  chan : s'.chan m = s.chan m

theorem Guarantee.apart (hg : Guarantee W K t s c) (hm : m ≠ t.mountID) :
    Apart s (exec t o c s).2 m := by
  obtain ⟨-, rfl | ⟨-, hp⟩⟩ := hg
  · constructor <;> simp [exec, act, hm]
  · cases c with
    | lock => exact hp.elim
    | unlock m' =>
      obtain ⟨rfl, -⟩ := hp
      constructor <;> simp [exec, act, hm]
    | openSlot m' =>
      obtain ⟨rfl, -⟩ := hp
      cases h : s.checking t.mountID <;> constructor <;> simp [exec, act, h, hm]
    | poll m' ch =>
      obtain rfl := hp
      cases h : (s.chan t.mountID ch).answer <;> constructor <;>
        simp [exec, act, h, hm, State.setChan]
    | start m' ch path =>
      obtain ⟨rfl, -⟩ := hp
      constructor <;> simp [exec, act, hm, State.setChan]
    | await m' ch =>
      obtain rfl := hp
      cases h : o.timeout <;> constructor <;> simp [exec, act, h, hm, State.setChan]
    | clearCheck m' =>
      obtain ⟨rfl, -⟩ := hp
      constructor <;> simp [exec, act, hm]
    | evict m' path =>
      obtain ⟨rfl, -⟩ := hp
      constructor <;> simp [exec, act, AList.lookup_erase_ne hm]
    | putMounted m' path =>
      obtain ⟨rfl, -⟩ := hp
      constructor <;> simp [exec, act, AList.lookup_insert_ne hm]
    | mount target cfg => cases h : o.fault <;> constructor <;> simp [exec, act, h]
    | cached => constructor <;> rfl
    | mkdirAll => constructor <;> rfl
    | seen => constructor <;> rfl
    | putStore => constructor <;> rfl

theorem Guarantee.event (hg : Guarantee W K t s c) (hm : m ≠ t.mountID) (r : Resp c) :
    (Event.did t c r).locks m = false ∧ (Event.did t c r).mounts m = false ∧
      (Event.did t c r).opens m = false := by
  obtain ⟨-, rfl | ⟨-, hp⟩⟩ := hg
  · simp [Event.locks, Event.mounts, Event.opens, hm.symm]
  · cases c with
    | lock => exact hp.elim
    | openSlot m' =>
      obtain ⟨rfl, -⟩ := hp
      simp [Event.locks, Event.mounts, Event.opens, hm.symm]
    | mount => simp [Event.locks, Event.mounts, Event.opens, hm.symm]
    | _ => exact ⟨rfl, rfl, rfl⟩

/-- The registry between two sections. -/
structure Inv (W : Setup) (K : Set Config) (s : State) : Prop where
  maps : Maps W K s
  slot : ∀ m, Slot s m

theorem Inv.exec_maps (h : Inv W K s) (hg : Guarantee W K t s c) :
    Maps W K (exec t o c s).2 := by
  have hl := exec_log t o c s
  obtain ⟨hname, rfl | ⟨-, hp⟩⟩ := hg
  · exact h.maps.frame rfl rfl rfl hl fun _ => rfl
  · cases c with
    | lock => exact hp.elim
    | unlock m => exact h.maps.frame rfl rfl rfl hl fun _ => rfl
    | cached m => exact h.maps.frame rfl rfl rfl hl fun _ => rfl
    | openSlot m =>
      refine h.maps.frame ?_ ?_ ?_ hl (fun _ => rfl) <;>
        cases hc : s.checking m <;> simp [exec, act, hc]
    | poll m ch =>
      refine h.maps.frame ?_ ?_ ?_ hl (fun _ => rfl) <;>
        cases hc : (s.chan m ch).answer <;> simp [exec, act, hc, State.setChan]
    | start m ch path => exact h.maps.frame rfl rfl rfl hl fun _ => rfl
    | await m ch =>
      refine h.maps.frame ?_ ?_ ?_ hl (fun _ => rfl) <;>
        cases hc : o.timeout <;> simp [exec, act, hc, State.setChan]
    | clearCheck m => exact h.maps.frame rfl rfl rfl hl fun _ => rfl
    | evict m path =>
      obtain ⟨rfl, rfl, -⟩ := hp
      exact h.maps.evict hname rfl rfl rfl (fun _ => rfl) hl
    | mkdirAll path => exact h.maps.frame rfl rfl rfl hl fun _ => rfl
    | mount target cfg =>
      obtain ⟨-, -, -, hnone, -⟩ := hp
      refine h.maps.mount hnone ?_ ?_ ?_ ?_ hl
      · intro m' he
        simp only [Event.mounts, Bool.and_eq_true, decide_eq_true_eq] at he
        exact he.1.symm
      all_goals cases hc : o.fault <;> simp [exec, act, hc]
    | putMounted m path =>
      obtain ⟨rfl, rfl, -⟩ := hp
      exact h.maps.putMounted hname rfl rfl rfl (fun _ => rfl) hl
    | seen id => exact h.maps.frame rfl rfl rfl hl fun _ => rfl
    | putStore id sub cfg =>
      obtain ⟨hk, hm, rfl, rfl, hmount, hmade⟩ := hp
      exact h.maps.putStore hk (hm ▸ hmount) hmade rfl rfl rfl (fun _ => rfl) hl

theorem Inv.exec_slot (h : Inv W K s) (hg : Guarantee W K t s c) :
    Slot (exec t o c s).2 t.mountID := by
  have hl := exec_log t o c s
  have hnot : ∀ ch r, Event.did t c (exec t o c s).1 ≠ .answered t.mountID ch r := fun _ _ => by simp
  have hslot := h.slot t.mountID
  obtain ⟨hname, rfl | ⟨hheld, hp⟩⟩ := hg
  · have hs : SameSlot s (exec t o (.lock t.mountID) s).2 t.mountID :=
      ⟨rfl, rfl, rfl, _, hl, hnot⟩
    refine hs.slot hslot ?_
    simp [exec, act]
  · have hbusy : s.holder t.mountID ≠ none := by simp [hheld]
    have hsame : ∀ {s' : State}, SameSlot s s' t.mountID → s'.holder t.mountID = s.holder t.mountID →
        Slot s' t.mountID := by
      intro s' hs hh
      exact hs.slot hslot fun hn => absurd (hh.symm.trans hn) hbusy
    cases c with
    | lock => exact hp.elim
    | unlock m =>
      obtain ⟨rfl, htidy⟩ := hp
      have hs : SameSlot s (exec t o (.unlock t.mountID) s).2 t.mountID :=
        ⟨rfl, rfl, rfl, _, hl, hnot⟩
      exact hs.slot hslot fun _ => htidy.cons hs hl rfl
    | openSlot m =>
      obtain ⟨rfl, -⟩ := hp
      cases hc : s.checking t.mountID with
      | some ch =>
        refine hsame ⟨?_, ?_, ?_, _, hl, hnot⟩ ?_ <;> simp [exec, act, hc]
      | none =>
        refine hslot.take hc ?_ ?_ ?_ hl hnot ?_ <;> simp [exec, act, hc, hbusy]
    | poll m ch =>
      obtain rfl := hp
      cases hc : (s.chan t.mountID ch).answer with
      | none => refine hsame ⟨?_, ?_, ?_, _, hl, hnot⟩ ?_ <;> simp [exec, act, hc]
      | some r =>
        refine hslot.receive ch ?_ ?_ ?_ hl hnot ?_ <;>
          simp [exec, act, hc, State.setChan, hbusy]
    | start m ch path =>
      obtain ⟨rfl, hch, hnew, -⟩ := hp
      refine hslot.start hch hnew.2 path ?_ ?_ ?_ hl hnot ?_ <;>
        simp [exec, act, State.setChan, hbusy]
    | await m ch =>
      obtain rfl := hp
      cases hc : o.timeout with
      | true => refine hsame ⟨?_, ?_, ?_, _, hl, hnot⟩ ?_ <;> simp [exec, act, hc]
      | false =>
        refine hslot.receive ch ?_ ?_ ?_ hl hnot ?_ <;>
          simp [exec, act, hc, State.setChan, hbusy]
    | clearCheck m =>
      obtain ⟨rfl, hover⟩ := hp
      refine hslot.clear hover ?_ ?_ ?_ hl hnot ?_ <;> simp [exec, act, hbusy]
    | mount target cfg =>
      refine hsame ⟨?_, ?_, ?_, _, hl, hnot⟩ ?_ <;> cases hc : o.fault <;> simp [exec, act, hc]
    | cached m => exact hsame ⟨rfl, rfl, rfl, _, hl, hnot⟩ rfl
    | evict m path => exact hsame ⟨rfl, rfl, rfl, _, hl, hnot⟩ rfl
    | mkdirAll path => exact hsame ⟨rfl, rfl, rfl, _, hl, hnot⟩ rfl
    | putMounted m path => exact hsame ⟨rfl, rfl, rfl, _, hl, hnot⟩ rfl
    | seen id => exact hsame ⟨rfl, rfl, rfl, _, hl, hnot⟩ rfl
    | putStore id sub cfg => exact hsame ⟨rfl, rfl, rfl, _, hl, hnot⟩ rfl

theorem Inv.exec (h : Inv W K s) (hg : Guarantee W K t s c) :
    Inv W K (exec t o c s).2 := by
  refine ⟨h.exec_maps hg, ?_⟩
  intro m
  by_cases hm : m = t.mountID
  · exact hm ▸ h.exec_slot hg
  · have ha := hg.apart (o := o) hm
    have hl := exec_log t o c s
    have he := hg.event hm (Registry.exec t o c s).1
    have hs : SameSlot s (Registry.exec t o c s).2 m :=
      ⟨ha.checking, ha.made, ha.chan, _, hl, by simp⟩
    refine hs.slot (h.slot m) fun hn => ?_
    exact ((h.slot m).idle (ha.holder.symm.trans hn)).cons hs hl he.2.2

theorem Inv.exec_stores (h : Inv W K s) (hK : Orderly W K) (hg : Guarantee W K t s c) {cfg : Config}
    (hcfg : cfg ∈ K) (hm : cfg.mountID W.hash ≠ t.mountID) :
    (Registry.exec t o c s).2.stores.lookup (cfg.storeID W.hash) =
      s.stores.lookup (cfg.storeID W.hash) := by
  obtain ⟨hname, rfl | ⟨-, hp⟩⟩ := hg
  · rfl
  · cases c with
    | lock => exact hp.elim
    | openSlot m => cases hc : s.checking m <;> simp [Registry.exec, act, hc]
    | poll m ch => cases hc : (s.chan m ch).answer <;> simp [Registry.exec, act, hc, State.setChan]
    | await m ch => cases hc : o.timeout <;> simp [Registry.exec, act, hc, State.setChan]
    | mount target cfg => cases hc : o.fault <;> simp [Registry.exec, act, hc]
    | evict m path =>
      obtain ⟨rfl, rfl, -⟩ := hp
      change (evictStores (W.target t.mountID) s.stores).lookup _ = _
      cases hp : s.stores.lookup (cfg.storeID W.hash) with
      | none =>
        unfold evictStores
        rw [StrMap.lookup_dropWhere, hp]
        rfl
      | some p =>
        obtain ⟨cfg', hcfg', -⟩ := h.maps.stores hK _ p hp
        obtain ⟨hk', hid⟩ := h.maps.configs _ cfg' hcfg'
        obtain rfl : cfg' = cfg := hK.distinct hk' hcfg hid
        rw [h.maps.lookup_evictStores hK hname hcfg', if_neg hm, hp]
    | putStore id sub cfg' =>
      obtain ⟨hk', hm', rfl, -⟩ := hp
      have hne : cfg.storeID W.hash ≠ cfg'.storeID W.hash := by
        intro he
        exact hm (hK.distinct hcfg hk' he ▸ hm')
      exact AList.lookup_insert_ne hne
    | _ => rfl

theorem Inv.exec_untouched (h : Inv W K s) (hg : Guarantee W K t s c) (hm : m ≠ t.mountID) :
    Untouched W K m s (Registry.exec t o c s).2 := by
  have ha := hg.apart (o := o) hm
  have hl := exec_log t o c s
  refine ⟨ha.holder, ha.mounted, ha.checking, ha.made, ?_, ?_, [_], hl, ?_, ?_⟩
  · intro hK cfg hcfg hcm
    exact h.exec_stores hK hg hcfg (hcm ▸ hm)
  · intro ch
    exact Or.inl (congrFun ha.chan ch)
  · intro e he
    exact List.mem_singleton.mp he ▸ hg.event hm _
  · simp

theorem Inv.answer (h : Inv W K s) {ch : ℕ} (hrun : (s.chan m ch).running = true) (r : CheckRes) :
    Inv W K (s.answer m ch r) := by
  refine ⟨h.maps.frame rfl rfl rfl (e := .answered m ch r) rfl fun _ => rfl, ?_⟩
  intro m'
  by_cases hm : m' = m
  · subst hm
    have hslot := h.slot m'
    obtain ⟨hch, -, -⟩ := hslot.running ch hrun
    have hlt := hslot.made ch hch
    have hchan : ∀ ch', (s.answer m' ch r).chan m' ch' =
        if ch' = ch then { s.chan m' ch with running := false, answer := some r }
        else s.chan m' ch' := by
      intro ch'
      simp [State.answer, State.setChan, Function.update_apply]
    have hlog : ∀ ch' r', ch' ≠ ch →
        (.answered m' ch' r' ∈ (s.answer m' ch r).log ↔ .answered m' ch' r' ∈ s.log) := by
      intro ch' r' hne
      simp [State.answer, hne]
    refine ⟨?_, hslot.made, ?_, ?_, ?_⟩
    · intro ch' hch'
      have hne : ch' ≠ ch := by
        rintro rfl
        exact absurd hch' (by simpa [State.answer, State.setChan] using hlt)
      obtain ⟨h1, h2, h3⟩ := hslot.fresh ch' hch'
      rw [hchan, if_neg hne]
      exact ⟨h1, h2, fun r' hr => h3 r' ((hlog ch' r' hne).mp hr)⟩
    · intro ch' hch'
      rw [hchan] at hch'
      split_ifs at hch' with hne
      obtain ⟨h1, -, -⟩ := hslot.running ch' hch'
      rw [hch, Option.some.injEq] at h1
      exact absurd h1.symm hne
    · intro ch' r' hr
      rw [hchan] at hr
      split_ifs at hr with hne
      · obtain rfl := Option.some.inj hr
        rw [hne]
        exact List.mem_cons_self
      · exact (hlog ch' r' hne).mpr (hslot.answer ch' r' hr)
    · intro hfree
      have htidy := hslot.idle hfree
      refine ⟨?_, htidy.drained.cons rfl rfl rfl, htidy.started.cons rfl rfl⟩
      intro ch' hch'
      obtain rfl : ch = ch' := Option.some.inj (hch.symm.trans hch')
      rw [hchan, if_pos rfl]
      exact ⟨Or.inr (by simp), fun _ _ => by simp⟩
  · have hs : SameSlot s (s.answer m ch r) m' :=
      ⟨rfl, rfl, by simp [State.answer, State.setChan, hm], _, rfl, by simp [Ne.symm hm]⟩
    exact hs.slot (h.slot m') fun hn => ((h.slot m').idle hn).cons hs rfl rfl

theorem answer_untouched {m' : Str} {ch : ℕ} (hrun : (s.chan m' ch).running = true) (r : CheckRes) :
    Untouched W K m s (s.answer m' ch r) := by
  refine ⟨rfl, rfl, rfl, rfl, fun _ _ _ _ => rfl, ?_, [_], rfl, ?_, ?_⟩
  · intro ch'
    by_cases hm : m = m'
    · subst hm
      by_cases hc : ch' = ch
      · subst hc
        exact Or.inr ⟨hrun, r, by simp [State.answer, State.setChan]⟩
      · exact Or.inl (by simp [State.answer, State.setChan, hc])
    · exact Or.inl (by simp [State.answer, State.setChan, hm])
  · intro e he
    rw [List.mem_singleton.mp he]
    exact ⟨rfl, rfl, rfl⟩
  · intro ch' r' he
    obtain ⟨rfl, rfl, rfl⟩ := Event.answered.inj (List.mem_singleton.mp he)
    exact ⟨hrun, by simp [State.answer, State.setChan]⟩

theorem Inv.lose (h : Inv W K s) (m : Str) : Inv W K (s.lose m) :=
  ⟨⟨h.maps.mounted, h.maps.configs, h.maps.stores⟩, fun m' =>
    ⟨(h.slot m').fresh, (h.slot m').made, (h.slot m').running, (h.slot m').answer,
      fun hn => ⟨((h.slot m').idle hn).ok, ((h.slot m').idle hn).drained,
        ((h.slot m').idle hn).started⟩⟩⟩

theorem lose_untouched (m' : Str) : Untouched W K m s (s.lose m') :=
  ⟨rfl, rfl, rfl, rfl, fun _ _ _ _ => rfl, fun _ => Or.inl rfl, [], rfl, by simp, by simp⟩

end Effect

def contract (W : Setup) (K : Set Config) (answers : State → Str → ℕ → CheckRes → Prop)
    (loses : Str → Prop) : (system W K answers loses).Contract where
  inv := Inv W K
  rely t s s' := s.holder t.mountID = some t.num → Untouched W K t.mountID s s'
  guarantee := Guarantee W K
  post _ _ _ := True
  rely_refl t s _ := .refl W K t.mountID s
  rely_trans t s s' s'' h h' hh := (h hh).trans (h' ((h hh).holder.trans hh))
  post_rely _ _ _ _ _ h := h
  exec_inv t s c o hi _ hg := hi.exec hg
  exec_rely t t' s c o hne hi hen hg hh := by
    refine hi.exec_untouched hg ?_
    intro hm
    obtain ⟨-, rfl | ⟨hheld, -⟩⟩ := hg
    · rw [hm, show s.holder t.mountID = none from hen] at hh
      cases hh
    · rw [hm, hheld, Option.some.injEq] at hh
      exact hne (by cases t; cases t'; simp_all)
  env_inv s s' hi he := by
    rcases he with ⟨m, ch, r, hrun, -, rfl⟩ | ⟨m, -, rfl⟩
    · exact hi.answer hrun r
    · exact hi.lose m
  env_rely t s s' hi he _ := by
    rcases he with ⟨m, ch, r, hrun, -, rfl⟩ | ⟨m, -, rfl⟩
    · exact answer_untouched hrun r
    · exact lose_untouched m

end Fileblock.Registry
