import Fileblock.Registry.Locked

/-! `Get` keeps the contract, part by part. -/
namespace Fileblock.Registry
open Go Store Interaction

section GetSpec
variable {W : Setup} {K : Set Config} {t : Caller} {s : State}

theorem wp_clearCheck {L : State → Prop}
    (hL : Stable W K t.mountID L) {ch : ℕ} {Q : Unit → State → Prop}
    (hq : ∀ s o, L s → s.checking t.mountID = some ch →
      (exec t o (.clearCheck t.mountID) s).2.checking t.mountID = none →
      Q () (exec t o (.clearCheck t.mountID) s).2)
    (hs : L s) (hslot : s.checking t.mountID = some ch)
    (hquiet : (s.chan t.mountID ch).running = false) :
    (issue (.clearCheck t.mountID)).wp (locked W K t) Q s := by
  refine wp_issue (by simp)
    (hL.and ((stable_checking (some ch)).and (stable_quiet ch))) ?_ ⟨hs, hslot, hquiet⟩
  rintro s o ⟨hs, hslot, hquiet⟩ - -
  refine ⟨⟨rfl, ?_⟩, hq s o hs hslot ?_⟩
  · intro ch' hch'
    obtain rfl : ch = ch' := Option.some.inj (hslot.symm.trans hch')
    exact hquiet
  · simp [exec, act]

theorem wp_drain {path : Option Str} {ch : ℕ}
    (hmount : s.mounted.lookup t.mountID = path) (hslot : s.checking t.mountID = some ch)
    (hok : SlotOk s t.mountID)
    (hlast : LastOpen t.mountID (.did t (.openSlot t.mountID) (ch, true)) s) :
    (drain t.mountID ch).wp (locked W K t)
      (fun _ s => Tidy s t.mountID ∧ s.mounted.lookup t.mountID = path) s := by
  unfold drain
  rw [Prog.wp_bind]
  refine wp_issue (by simp) ((stable_mounted path).and
    ((stable_checking (some ch)).and (stable_slotOk.and (stable_lastOpen _)))) ?_
    ⟨hmount, hslot, hok, hlast⟩
  rintro s o ⟨hmount, hslot, hok, b, hb⟩ hi -
  refine ⟨rfl, ?_⟩
  have hst : Started s t.mountID := by
    intro t' ch' b' hd
    rw [hb] at hd
    simp at hd
  cases ha : (s.chan t.mountID ch).answer with
  | some r =>
    have hquiet : (s.chan t.mountID ch).running = false := by
      rw [← Bool.not_eq_true]
      intro hr
      rw [((hi.slot t.mountID).running ch hr).2.1] at ha
      cases ha
    have hr : exec t o (.poll t.mountID ch) s = (true, { s.setChan t.mountID ch
        { s.chan t.mountID ch with answer := none } with
          log := .did t (.poll t.mountID ch) true :: s.log }) := by
      simp [exec, act, ha, State.setChan]
    rw [hr, if_pos rfl]
    refine wp_clearCheck ((stable_mounted path).and stable_started) ?_
      ⟨hmount, hst.cons rfl rfl⟩ hslot ?_
    · rintro s o ⟨hm, hst⟩ _ hfree
      exact ⟨tidy_of_free hfree (hst.cons (exec_log ..) rfl), hm⟩
    · simpa [State.setChan] using hquiet
  | none =>
    have hr : exec t o (.poll t.mountID ch) s =
        (false, { s with log := .did t (.poll t.mountID ch) false :: s.log }) := by
      simp [exec, act, ha]
    rw [hr, if_neg (by simp)]
    rw [Prog.wp_pure]
    refine ⟨⟨?_, ?_, hst.cons rfl rfl⟩, hmount⟩
    · have hs : SameSlot s { s with log := .did t (.poll t.mountID ch) false :: s.log } t.mountID :=
        ⟨rfl, rfl, rfl, _, rfl, by simp⟩
      exact hs.slotOk hok
    · intro t' ch' b' r hd hans
      have hopen : (Event.did t (.poll t.mountID ch) false).opens t.mountID = false := rfl
      rw [List.dropWhile_cons, hopen] at hd
      rw [hb] at hd
      simp only [Bool.not_false, if_true, List.cons.injEq, Event.did.injEq, true_and,
        heq_eq_eq, Prod.mk.injEq, and_true] at hd
      obtain ⟨⟨-, rfl⟩, rfl⟩ := hd
      refine absurd ha ((hok ch hslot).2 r ?_)
      have hsub : b ⊆ s.log := by
        intro x hx
        exact (List.dropWhile_sublist _).subset (hb ▸ List.mem_cons_of_mem _ hx)
      exact hsub hans

/-- A check of the caller's own is under way, or has answered. -/
structure Awaiting (t : Caller) (ch : ℕ) (path : Str) (s : State) : Prop where
  mounted : s.mounted.lookup t.mountID = some path
  slot : s.checking t.mountID = some ch
  tidy : Tidy s t.mountID
  answers : AnswersNow t.mountID ch s
  started : .did t (.start t.mountID ch path) () ∈ current t.mountID s.log

theorem stable_awaiting {ch : ℕ} {path : Str} : Stable W K t.mountID (Awaiting t ch path) :=
  fun s s' h hu => ⟨stable_mounted _ s s' h.mounted hu, stable_checking _ s s' h.slot hu,
    stable_tidy s s' h.tidy hu, stable_answersNow ch s s' h.answers hu,
    stable_current _ s s' h.started hu⟩

theorem awaiting_of_start {o : Choice} {path : Str} {ch : ℕ}
    (hmount : s.mounted.lookup t.mountID = some path) (hslot : s.checking t.mountID = some ch)
    (hnew : ∀ r, .answered t.mountID ch r ∉ s.log)
    (hlast : LastOpen t.mountID (.did t (.openSlot t.mountID) (ch, false)) s) :
    Awaiting t ch path (exec t o (.start t.mountID ch path) s).2 := by
  have hanswered : ∀ r, .answered t.mountID ch r ∉
      (exec t o (.start t.mountID ch path) s).2.log := by
    intro r hr
    rw [exec_log] at hr
    exact hnew r (by simpa using hr)
  have hopen : (exec t o (.start t.mountID ch path) s).2.log.dropWhile
      (fun e => !e.opens t.mountID) = s.log.dropWhile fun e => !e.opens t.mountID := rfl
  obtain ⟨b, hb⟩ := hlast
  refine ⟨hmount, hslot, ⟨?_, ?_, ?_⟩, ?_, ?_⟩
  · intro ch' hch'
    obtain rfl : ch = ch' := Option.some.inj (hslot.symm.trans hch')
    refine ⟨Or.inl (by simp [exec, act, State.setChan]), ?_⟩
    intro r hr
    exact absurd hr (hanswered r)
  · intro t' ch' b' r hd _
    rw [hopen, hb] at hd
    simp at hd
  · intro t' ch' b' hd
    rw [hopen, hb] at hd
    simp only [List.cons.injEq, Event.did.injEq, true_and, heq_eq_eq, Prod.mk.injEq,
      and_true] at hd
    obtain ⟨⟨rfl, rfl⟩, -⟩ := hd
    rw [exec_log, since_cons_of_not rfl]
    exact ⟨path, List.mem_cons_self⟩
  · intro r hr
    exact absurd hr (hanswered r)
  · rw [exec_log, current_cons rfl]
    exact List.mem_cons_self

theorem wp_ownCheck {path : Str} {ch : ℕ}
    (hmount : s.mounted.lookup t.mountID = some path) (hslot : s.checking t.mountID = some ch)
    (hnew : Unused t.mountID ch s)
    (hlast : LastOpen t.mountID (.did t (.openSlot t.mountID) (ch, false)) s) :
    (ownCheck t.mountID ch path).wp (locked W K t)
      (fun r s => Tidy s t.mountID ∧ s.mounted.lookup t.mountID = some path ∧
        (r = some (.ok false) → Refuted t s.log)) s := by
  unfold ownCheck
  rw [Prog.wp_bind]
  refine wp_issue (by simp) ((stable_mounted (some path)).and
    ((stable_checking (some ch)).and ((stable_unused ch).and (stable_lastOpen _)))) ?_
    ⟨hmount, hslot, hnew, hlast⟩
  rintro s o ⟨hmount, hslot, hnew, hlast⟩ - -
  refine ⟨⟨rfl, hslot, hnew, hmount⟩, ?_⟩
  rw [Prog.wp_bind]
  refine wp_issue (by simp) stable_awaiting ?_
    (awaiting_of_start hmount hslot hnew.2 hlast)
  intro s o h hi hen
  refine ⟨rfl, ?_⟩
  have hl := exec_log t o (.await t.mountID ch) s
  cases hto : o.timeout with
  | true =>
    have hr : exec t o (.await t.mountID ch) s =
        (none, { s with log := .did t (.await t.mountID ch) none :: s.log }) := by
      simp [exec, act, hto]
    rw [hr]
    rw [Prog.wp_pure]
    exact ⟨h.tidy.cons ⟨rfl, rfl, rfl, _, rfl, by simp⟩ rfl rfl, h.mounted, by simp⟩
  | false =>
    obtain hto' | ha := hen
    · rw [hto] at hto'
      cases hto'
    obtain ⟨r, ha⟩ := Option.ne_none_iff_exists'.mp ha
    have hquiet : (s.chan t.mountID ch).running = false := by
      rw [← Bool.not_eq_true]
      intro hr
      rw [((hi.slot t.mountID).running ch hr).2.1] at ha
      cases ha
    have hans := h.answers r ((hi.slot t.mountID).answer ch r ha)
    have hr : exec t o (.await t.mountID ch) s = (some r, { s.setChan t.mountID ch
        { s.chan t.mountID ch with answer := none } with
          log := .did t (.await t.mountID ch) (some r) :: s.log }) := by
      simp [exec, act, hto, ha, State.setChan]
    rw [hr]
    rw [Prog.wp_bind]
    refine wp_clearCheck ((stable_mounted (some path)).and (stable_started.and
      ((stable_current (.did t (.start t.mountID ch path) ())).and
        ((stable_current (.answered t.mountID ch r)).and
          (stable_current (.did t (.await t.mountID ch) (some r))))))) ?_ ?_ h.slot ?_
    · rintro s o ⟨hm, hstarted, hst, hans, haw⟩ _ hfree
      rw [Prog.wp_pure]
      refine ⟨tidy_of_free hfree (hstarted.cons (exec_log ..) rfl), hm, ?_⟩
      intro hno
      obtain rfl := Option.some.inj hno
      refine ⟨ch, path, ?_, ?_, ?_⟩ <;> rw [exec_log, current_cons rfl] <;>
        exact List.mem_cons_of_mem _ ‹_›
    · refine ⟨h.mounted, h.tidy.started.cons rfl rfl, ?_, ?_, ?_⟩
      · exact mem_since_cons rfl h.started
      · exact mem_since_cons rfl hans
      · change _ ∈ current t.mountID (_ :: s.log)
        rw [current_cons rfl]
        exact List.mem_cons_self
    · simpa [State.setChan] using hquiet

theorem wp_checkMountPoint {path : Str} (htidy : Tidy s t.mountID)
    (hmount : s.mounted.lookup t.mountID = some path) :
    (checkMountPoint t.mountID path).wp (locked W K t)
      (fun r s => Tidy s t.mountID ∧ s.mounted.lookup t.mountID = some path ∧
        (r = some (.ok false) → Refuted t s.log)) s := by
  unfold checkMountPoint
  rw [Prog.wp_bind]
  refine wp_issue (by simp)
    (stable_tidy.and (stable_mounted (some path))) ?_ ⟨htidy, hmount⟩
  rintro s o ⟨htidy, hmount⟩ hi -
  refine ⟨⟨rfl, htidy⟩, ?_⟩
  have hlast : ∀ r, LastOpen t.mountID (.did t (.openSlot t.mountID) r)
      { s with log := .did t (.openSlot t.mountID) r :: s.log } := by
    intro r
    exact ⟨s.log, by simp [Event.opens]⟩
  cases hslot : s.checking t.mountID with
  | some ch =>
    have hr : exec t o (.openSlot t.mountID) s =
        ((ch, true), { s with log := .did t (.openSlot t.mountID) (ch, true) :: s.log }) := by
      simp [exec, act, hslot]
    have hs : SameSlot s { s with log := .did t (.openSlot t.mountID) (ch, true) :: s.log }
        t.mountID := ⟨rfl, rfl, rfl, _, rfl, by simp⟩
    rw [hr, if_pos rfl]
    rw [Prog.wp_bind]
    refine Prog.wp_mono ?_ (wp_drain hmount hslot (hs.slotOk htidy.ok) (hlast _))
    intro _ s h
    rw [Prog.wp_pure]
    exact ⟨h.1, h.2, by simp⟩
  | none =>
    obtain ⟨hidle, -, hnew⟩ := (hi.slot t.mountID).fresh (s.made t.mountID) le_rfl
    have hr : (exec t o (.openSlot t.mountID) s).1 = (s.made t.mountID, false) := by
      simp [exec, act, hslot]
    rw [hr, if_neg (by simp)]
    refine wp_ownCheck ?_ ?_ ⟨?_, ?_⟩ ?_
    · simpa [exec, act, hslot] using hmount
    · simp [exec, act, hslot]
    · simpa [exec, act, hslot] using hidle
    · simpa [exec_log] using hnew
    · rw [← hr]
      exact ⟨s.log, by simp [exec_log, Event.opens]⟩

/-- Only a check of the caller's own makes it give up the cached path. -/
theorem wp_stillMounted {path : Str} (htidy : Tidy s t.mountID)
    (hmount : s.mounted.lookup t.mountID = some path) :
    (stillMounted W t.mountID path).wp (locked W K t)
      (fun b s => Tidy s t.mountID ∧ s.mounted.lookup t.mountID = some path ∧
        (b = false → Refuted t s.log)) s := by
  unfold stillMounted
  split_ifs
  · rw [Prog.wp_bind]
    refine Prog.wp_mono ?_ (wp_checkMountPoint htidy hmount)
    rintro r s ⟨htidy, hmount, hno⟩
    rcases r with _ | _ | mounted
    · rw [Prog.wp_pure]
      exact ⟨htidy, hmount, by simp⟩
    · rw [Prog.wp_pure]
      exact ⟨htidy, hmount, by simp⟩
    · rw [Prog.wp_pure]
      exact ⟨htidy, hmount, fun hf => hno (by rw [hf])⟩
  · rw [Prog.wp_pure]
    exact ⟨htidy, hmount, by simp⟩

/-- What `verified` leaves: a path that is cached, or nothing. -/
def Verified (W : Setup) (t : Caller) (r : Option Str) (s : State) : Prop :=
  Tidy s t.mountID ∧ s.mounted.lookup t.mountID = r ∧
    match r with
    | some path => path = W.target t.mountID
    | none => Uncached t s.log

theorem wp_verified (htidy : Tidy s t.mountID) :
    (verified W t.mountID).wp (locked W K t) (Verified W t) s := by
  unfold verified
  rw [Prog.wp_bind]
  refine wp_issue (by simp) stable_tidy ?_ htidy
  intro s o htidy hi _
  refine ⟨rfl, ?_⟩
  have hl := exec_log t o (.cached t.mountID) s
  have htidy' := htidy.exec (t := t) (o := o) (c := .cached t.mountID) rfl
  have hr : (exec t o (.cached t.mountID) s).1 = s.mounted.lookup t.mountID := rfl
  cases hm : s.mounted.lookup t.mountID with
  | none =>
    rw [hr, hm]
    rw [Prog.wp_pure]
    refine ⟨htidy', hm, Or.inl ?_⟩
    rw [hl, hr, hm, current_cons rfl]
    exact List.mem_cons_self
  | some path =>
    obtain ⟨-, rfl⟩ := hi.maps.mounted _ _ hm
    rw [hr, hm]
    rw [Prog.wp_bind]
    refine Prog.wp_mono ?_ (wp_stillMounted htidy' hm)
    rintro b s ⟨htidy, hm, hno⟩
    cases b with
    | true =>
      rw [if_pos rfl, Prog.wp_pure]
      exact ⟨htidy, hm, rfl⟩
    | false =>
      rw [if_neg Bool.false_ne_true, Prog.wp_bind]
      refine wp_issue (by simp) (stable_tidy.and stable_refuted) ?_
        ⟨htidy, hno rfl⟩
      rintro s o ⟨htidy, hno⟩ - -
      refine ⟨⟨rfl, rfl, hno⟩, ?_⟩
      rw [Prog.wp_pure]
      refine ⟨htidy.exec rfl, ?_, Or.inr ⟨?_, W.target t.mountID, ?_⟩⟩
      · exact AList.lookup_erase _ _
      · rw [exec_log]
        exact hno.cons rfl
      · rw [exec_log, current_cons rfl]
        exact List.mem_cons_self

variable {cfg : Config}

theorem wp_mkdirAll {L : State → Prop}
    (hL : Stable W K t.mountID L) {path : Str} {Q : Except Err Unit → State → Prop}
    (hq : ∀ s (o : Choice), L s →
      Q ((okUnless o.fault).mapError (.wrap ("mkdir " ++ showPath path)))
        (exec t o (.mkdirAll path) s).2) (hs : L s) :
    (mkdirAll path).run.wp (locked W K t) Q s := by
  unfold mkdirAll
  rw [Prog.wp_attempt]
  refine wp_issue (by simp) hL ?_ hs
  intro s o hs _ _
  exact ⟨trivial, hq s o hs⟩

theorem wp_mountFresh (hk : cfg ∈ K) (hm : cfg.mountID W.hash = t.mountID)
    (htidy : Tidy s t.mountID) (hnone : s.mounted.lookup t.mountID = none)
    (hunc : Uncached t s.log) :
    (mountFresh W cfg).run.wp (locked W K t) (fun r s => Tidy s t.mountID ∧
      ∀ path, r = .ok path → path = W.target t.mountID ∧
        s.mounted.lookup t.mountID = some (W.target t.mountID)) s := by
  unfold mountFresh
  rw [hm]
  rw [Prog.wp_run_bind]
  refine wp_mkdirAll
    (stable_tidy.and ((stable_mounted none).and stable_uncached)) ?_ ⟨htidy, hnone, hunc⟩
  rintro s o ⟨htidy, hnone, hunc⟩
  have htidy' := htidy.exec (t := t) (o := o) (c := .mkdirAll (join W.root t.mountID)) rfl
  cases hf : okUnless o.fault with
  | error e => exact ⟨htidy', by simp⟩
  | ok u =>
    dsimp only [Except.mapError]
    rw [Prog.wp_run_bind, Prog.wp_known]
    cases mounterFor W cfg with
    | error e => exact ⟨htidy', by simp⟩
    | ok u =>
      dsimp only
      rw [Prog.wp_run_bind, Prog.wp_attempt]
      refine wp_issue (by simp) (stable_tidy.and ((stable_mounted none).and stable_uncached)) ?_
        ⟨htidy', hnone, hunc.cons rfl⟩
      rintro s o ⟨htidy, hnone, hunc⟩ - -
      refine ⟨⟨hk, hm, rfl, hnone, hunc⟩, ?_⟩
      have htidy' := htidy.exec (t := t) (o := o) (c := .mount (join W.root t.mountID) cfg) rfl
      cases hr : (exec t o (.mount (join W.root t.mountID) cfg) s).1 with
      | error e => exact ⟨htidy', by simp⟩
      | ok u =>
        have hdone : ∃ e ∈ (exec t o (.mount (join W.root t.mountID) cfg) s).2.log,
            e.mounts t.mountID = true := by
          rw [exec_log, hr]
          exact ⟨_, List.mem_cons_self, by simp [Event.mounts, Except.toOption]⟩
        rw [Prog.wp_run_bind, Prog.wp_always]
        refine wp_issue (by simp)
          (stable_tidy.and (stable_happened _)) ?_ ⟨htidy', hdone⟩
        rintro s o ⟨htidy, hdone⟩ - -
        refine ⟨⟨rfl, rfl, hdone⟩, htidy.exec rfl, ?_⟩
        rintro path hp
        exact ⟨(Except.ok.inj hp).symm, AList.lookup_insert _⟩

theorem Inv.made_of_seen (hi : Inv W K s) (hK : Orderly W K) (hk : cfg ∈ K)
    (hseen : (s.stores.lookup (cfg.storeID W.hash)).isSome = true) (hsub : cfg.subDir ≠ []) :
    Made W cfg s.log := by
  obtain ⟨p, hp⟩ := Option.isSome_iff_exists.mp hseen
  obtain ⟨cfg', hcfg', -, -, hmade⟩ := hi.maps.stores hK _ p hp
  obtain ⟨hk', hid⟩ := hi.maps.configs _ cfg' hcfg'
  obtain rfl : cfg' = cfg := hK.distinct hk' hk hid
  exact hmade hsub

theorem wp_storeDir (hk : cfg ∈ K) (hm : cfg.mountID W.hash = t.mountID)
    (htidy : Tidy s t.mountID)
    (hmount : s.mounted.lookup t.mountID = some (W.target t.mountID)) :
    (storeDir W cfg (W.target t.mountID)).run.wp (locked W K t) (fun r s => Tidy s t.mountID ∧
      ∀ sub, r = .ok sub → sub = W.storePath cfg ∧
        s.mounted.lookup t.mountID = some (W.target t.mountID) ∧
        (Orderly W K → cfg.subDir ≠ [] → Made W cfg s.log)) s := by
  unfold storeDir
  split_ifs with hsub
  · rw [Prog.wp_run_pure]
    refine ⟨htidy, ?_⟩
    intro sub hr
    refine ⟨?_, hmount, fun _ h => absurd hsub h⟩
    rw [← Except.ok.inj hr, Setup.storePath, if_pos hsub, hm]
  · have hpath : join (W.target t.mountID) cfg.subDir = W.storePath cfg := by
      rw [Setup.storePath, if_neg hsub, hm]
    rw [hpath]
    rw [Prog.wp_run_bind, Prog.wp_always]
    refine wp_issue (by simp)
      (stable_tidy.and (stable_mounted (some (W.target t.mountID)))) ?_ ⟨htidy, hmount⟩
    rintro s o ⟨htidy, hmount⟩ hi -
    refine ⟨trivial, ?_⟩
    have htidy' := htidy.exec (t := t) (o := o) (c := .seen (cfg.storeID W.hash)) rfl
    have hr : (exec t o (.seen (cfg.storeID W.hash)) s).1 =
        (s.stores.lookup (cfg.storeID W.hash)).isSome := rfl
    cases hseen : (s.stores.lookup (cfg.storeID W.hash)).isSome with
    | true =>
      rw [hr, hseen]
      dsimp only
      rw [if_neg (by decide), Prog.wp_run_pure]
      refine ⟨htidy', ?_⟩
      intro sub hsb
      exact ⟨(Except.ok.inj hsb).symm, hmount,
        fun hK h => (hi.made_of_seen hK hk hseen h).cons rfl⟩
    | false =>
      rw [hr, hseen]
      dsimp only
      rw [if_pos (by decide), Prog.wp_run_bind]
      refine wp_mkdirAll
        (stable_tidy.and (stable_mounted (some (W.target t.mountID)))) ?_ ⟨htidy', hmount⟩
      rintro s o ⟨htidy, hmount⟩
      have htidy' := htidy.exec (t := t) (o := o) (c := .mkdirAll (W.storePath cfg)) rfl
      cases hf : okUnless o.fault with
      | error e => exact ⟨htidy', by simp⟩
      | ok u =>
        dsimp only [Except.mapError]
        rw [Prog.wp_run_pure]
        refine ⟨htidy', ?_⟩
        intro sub hsb
        refine ⟨(Except.ok.inj hsb).symm, hmount, fun _ _ => ⟨t, ?_⟩⟩
        rw [exec_log, since_cons_of_not rfl]
        exact hf ▸ List.mem_cons_self

theorem wp_getLocked (hk : cfg ∈ K) (hm : cfg.mountID W.hash = t.mountID)
    (htidy : Tidy s t.mountID) :
    (getLocked W cfg).run.wp (locked W K t) (fun _ s => Tidy s t.mountID) s := by
  have hrest : ∀ s, Tidy s t.mountID →
      s.mounted.lookup t.mountID = some (W.target t.mountID) →
      Prog.wp (locked W K t) (do
        let sub ← storeDir W cfg (W.target t.mountID)
        always (issue (.putStore (cfg.storeID W.hash) sub cfg))
        pure sub : ExceptT Err Run Str).run (fun _ s => Tidy s t.mountID) s := by
    intro s htidy hmount
    rw [Prog.wp_run_bind]
    refine Prog.wp_mono ?_ (wp_storeDir hk hm htidy hmount)
    rintro (e | sub) s ⟨htidy, hok⟩
    · exact htidy
    · obtain ⟨rfl, hmount, hmade⟩ := hok sub rfl
      have hst : Stable W K t.mountID fun s => Orderly W K → cfg.subDir ≠ [] → Made W cfg s.log :=
        fun s s' h hu hK hsub => stable_madeDir hm s s' (h hK hsub) hu
      dsimp only
      rw [Prog.wp_run_bind, Prog.wp_always]
      refine wp_issue (by simp)
        (stable_tidy.and ((stable_mounted (some (W.target t.mountID))).and hst)) ?_
        ⟨htidy, hmount, hmade⟩
      rintro s o ⟨htidy, hmount, hmade⟩ - -
      exact ⟨⟨hk, hm, rfl, rfl, hmount, hmade⟩, htidy.exec rfl⟩
  unfold getLocked
  rw [hm, Prog.wp_run_bind, Prog.wp_always]
  refine Prog.wp_mono ?_ (wp_verified htidy)
  rintro (_ | path) s ⟨htidy, hmount, hr⟩
  · dsimp only
    rw [Prog.wp_run_bind]
    refine Prog.wp_mono ?_ (wp_mountFresh hk hm htidy hmount hr)
    rintro (e | path) s ⟨htidy, hok⟩
    · exact htidy
    · obtain ⟨rfl, hmount⟩ := hok path rfl
      exact hrest s htidy hmount
  · subst hr
    dsimp only
    rw [Prog.wp_run_bind, Prog.wp_run_pure]
    exact hrest s htidy hmount

/-- A call of `Get` keeps the contract, wherever it starts. -/
theorem wp_get {answers : State → Str → ℕ → CheckRes → Prop} {loses : Str → Prop} (hk : cfg ∈ K)
    (hm : t.mountID = cfg.mountID W.hash) :
    (get W cfg).wp ((contract W K answers loses).regime t) (fun _ _ => True) s := by
  have hname : MountName t.mountID := hm ▸ W.mountName cfg
  unfold get
  rw [← hm, Prog.wp_bind]
  refine System.Contract.wp_perform (L := fun _ => True) (fun _ _ _ _ => trivial) ?_ trivial
  intro s o _ hi hen
  refine ⟨⟨hname, Or.inl rfl⟩, ?_⟩
  have htidy : Tidy (exec t o (.lock t.mountID) s).2 t.mountID :=
    Tidy.exec ((hi.slot t.mountID).idle hen) rfl
  have hheld : (exec t o (.lock t.mountID) s).2.holder t.mountID = some t.num := by
    simp [exec, act]
  change Prog.wp _ _ _ (exec t o (.lock t.mountID) s).2
  rw [Prog.wp_bind]
  refine Prog.wp_mono ?_ (wp_locked hname (wp_getLocked hk hm.symm htidy) hheld)
  rintro r s ⟨hheld, htidy⟩
  rw [Prog.wp_bind]
  refine System.Contract.wp_perform
    (L := fun s => s.holder t.mountID = some t.num ∧ Tidy s t.mountID) ?_ ?_ ⟨hheld, htidy⟩
  · rintro s s' ⟨hheld, htidy⟩ hr
    have hu := hr hheld
    exact ⟨hu.holder.trans hheld, stable_tidy s s' htidy hu⟩
  · rintro s o ⟨hheld, htidy⟩ - -
    exact ⟨⟨hname, Or.inr ⟨hheld, rfl, htidy⟩⟩, trivial⟩

end GetSpec
end Fileblock.Registry
