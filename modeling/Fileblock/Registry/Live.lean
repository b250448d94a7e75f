import Fileblock.Node.Tools
import Fileblock.Registry.Runs

/-! A mount that stays: what its checks can answer, and whether the registry ever
mounts over it. -/
namespace Fileblock.Registry
open Go Store Interaction

/-- What the commands of `IsMountPoint` may answer while `path` is mounted. They may
fail in any way but two: it is not missing, and no mount above it is missing. -/
def Mounted (path : Str) : (c : Node.Cmd) → Node.Resp c → Prop
  | .stat p, r => p = path → r ≠ .ok false
  | .findmntTarget p, r => p = path → ∀ e, r = .error e → e.exitCode ≠ 1
  | _, _ => True

/-- The exact lookup prints the row of the target. -/
def Confirmed (path : Str) : (c : Node.Cmd) → Node.Resp c → Prop
  | .findmntExact p, rows => p = path → ∃ line ∈ rows, trimSpace line = path
  | _, _ => True

/-- The checks of `m` are those of `mount.Mounter`: while `m` is mounted, they answer
what comes of commands that answer as `Mounted` and `A` allow. -/
def wired (m : Str) (A : Str → (c : Node.Cmd) → Node.Resp c → Prop) (s : State) (m' : Str) (ch : ℕ)
    (r : CheckRes) : Prop :=
  m' = m → s.live m = true → (Node.isMountPoint (s.chan m ch).path).run.Returns
    (fun c a => Mounted (s.chan m ch).path c a ∧ A (s.chan m ch).path c a) r

theorem not_denied {path : Str} {r : CheckRes} (h : (Node.isMountPoint path).run.Returns
    (fun c a => Mounted path c a ∧ Confirmed path c a) r) : r ≠ .ok false := by
  unfold Node.isMountPoint Node.issue at h
  rw [ExceptT.run_mk, Prog.returns_bind] at h
  obtain ⟨found, hf, h⟩ := h
  have hstat := (Prog.returns_perform.mp hf).1 rfl
  rcases found with e | (_ | _)
  · obtain rfl : _ = r := h
    simp
  · exact absurd rfl hstat
  · rw [Prog.returns_bind] at h
    obtain ⟨found, hf, h⟩ := h
    have htarget := (Prog.returns_perform.mp hf).1 rfl
    cases found with
    | error e =>
      dsimp only at h
      rw [if_neg (htarget e rfl)] at h
      obtain rfl : _ = r := h
      simp
    | ok u =>
      dsimp only at h
      rw [Prog.returns_bind] at h
      obtain ⟨rows, hf, h⟩ := h
      obtain ⟨line, hl, ht⟩ := (Prog.returns_perform.mp hf).2 rfl
      obtain rfl : _ = r := h
      have hany : (rows.any fun line => trimSpace line = path) = true :=
        List.any_eq_true.mpr ⟨line, hl, by simpa using ht⟩
      simp [hany]

/-- Nothing has denied the mount of `m`, and it is there whenever it is cached, checked
or has been made. -/
structure Kept (m : Str) (s : State) : Prop where
  cached : s.mounted.lookup m ≠ none → s.live m = true
  made : (∃ e ∈ s.log, e.mounts m = true) → s.live m = true
  running : ∀ ch, (s.chan m ch).running = true → s.live m = true
  undenied : ∀ ch, .answered m ch (.ok false) ∉ s.log

section Kept
variable {W : Setup} {K : Set Config} {t : Caller} {o : Choice} {c : Cmd} {s : State} {m : Str}

theorem live_exec (h : s.live m = true) : (exec t o c s).2.live m = true := by
  cases c with
  | openSlot m => cases hc : s.checking m <;> simpa [exec, act, hc] using h
  | poll m ch => cases hc : (s.chan m ch).answer <;> simpa [exec, act, hc, State.setChan] using h
  | await m ch => cases hc : o.timeout <;> simpa [exec, act, hc, State.setChan] using h
  | mount target cfg =>
    cases hc : o.fault
    · by_cases hm : m = t.mountID
      · simp [exec, act, hc, hm]
      · simpa [exec, act, hc, hm] using h
    · simpa [exec, act, hc] using h
  | _ => exact h

theorem live_of_mounts {r : Resp c} (hr : (exec t o c s).1 = r)
    (h : (Event.did t c r).mounts m = true) : (exec t o c s).2.live m = true := by
  cases c with
  | mount target cfg =>
    simp only [Event.mounts, Bool.and_eq_true, decide_eq_true_eq] at h
    obtain ⟨rfl, hok⟩ := h
    cases hc : o.fault with
    | none => simp [exec, act, hc]
    | some e =>
      subst hr
      simp [exec, act, hc, okUnless, Except.toOption] at hok
  | _ => cases h

theorem Kept.not_evicted (h : Kept m s) {path : Str} (hg : Guarantee W K t s (.evict m path)) :
    False := by
  obtain ⟨-, hl | ⟨-, rfl, -, ch, p, -, hans, -⟩⟩ := hg
  · cases hl
  · exact h.undenied ch ((List.takeWhile_sublist _).subset hans)

theorem Kept.exec_cached (h : Kept m s) (hg : Guarantee W K t s c)
    (hc : s.mounted.lookup m ≠ none) : (exec t o c s).2.mounted.lookup m ≠ none := by
  cases c with
  | openSlot m' => cases he : s.checking m' <;> simpa [exec, act, he] using hc
  | poll m' ch => cases he : (s.chan m' ch).answer <;> simpa [exec, act, he, State.setChan] using hc
  | await m' ch => cases he : o.timeout <;> simpa [exec, act, he, State.setChan] using hc
  | mount target cfg => cases he : o.fault <;> simpa [exec, act, he] using hc
  | evict m' path =>
    have hne : m ≠ m' := by
      rintro rfl
      exact h.not_evicted hg
    change (s.mounted.erase m').lookup m ≠ none
    rwa [AList.lookup_erase_ne hne]
  | putMounted m' path =>
    change (s.mounted.insert m' path).lookup m ≠ none
    by_cases hne : m = m'
    · simp [hne]
    · rwa [AList.lookup_insert_ne hne]
  | _ => exact hc

theorem Kept.exec_live (h : Kept m s) (hg : Guarantee W K t s c)
    (hc : (exec t o c s).2.mounted.lookup m ≠ none) : (exec t o c s).2.live m = true := by
  by_cases hm : m = t.mountID
  · subst hm
    cases c with
    | putMounted m' path =>
      obtain ⟨-, hl | ⟨-, rfl, -, hmade⟩⟩ := hg
      · cases hl
      · exact live_exec (h.made hmade)
    | evict m' path =>
      obtain ⟨-, hl | ⟨-, rfl, -, -⟩⟩ := hg
      · cases hl
      · exact absurd (AList.lookup_erase _ _) hc
    | openSlot m' =>
      refine live_exec (h.cached ?_)
      cases he : s.checking m' <;> simpa [exec, act, he] using hc
    | poll m' ch =>
      refine live_exec (h.cached ?_)
      cases he : (s.chan m' ch).answer <;> simpa [exec, act, he, State.setChan] using hc
    | await m' ch =>
      refine live_exec (h.cached ?_)
      cases he : o.timeout <;> simpa [exec, act, he, State.setChan] using hc
    | mount target cfg =>
      refine live_exec (h.cached ?_)
      cases he : o.fault <;> simpa [exec, act, he] using hc
    | _ => exact live_exec (h.cached hc)
  · rw [(hg.apart (o := o) hm).mounted] at hc
    exact live_exec (h.cached hc)

theorem Kept.exec_running (h : Kept m s) (hg : Guarantee W K t s c) {ch : ℕ}
    (hr : ((exec t o c s).2.chan m ch).running = true) : (exec t o c s).2.live m = true := by
  by_cases hm : m = t.mountID
  · subst hm
    cases c with
    | start m' ch' path =>
      obtain ⟨-, hl | ⟨-, rfl, -, -, hmount⟩⟩ := hg
      · cases hl
      · exact live_exec (h.cached (by simp [hmount]))
    | openSlot m' =>
      refine live_exec (h.running ch ?_)
      cases he : s.checking m' <;> simpa [exec, act, he] using hr
    | poll m' ch' =>
      obtain ⟨-, hl | ⟨-, rfl⟩⟩ := hg
      · cases hl
      refine live_exec (h.running ch ?_)
      by_cases hch : ch = ch' <;> cases he : (s.chan t.mountID ch').answer <;>
        simpa [exec, act, he, hch, State.setChan] using hr
    | await m' ch' =>
      obtain ⟨-, hl | ⟨-, rfl⟩⟩ := hg
      · cases hl
      refine live_exec (h.running ch ?_)
      by_cases hch : ch = ch' <;> cases he : o.timeout <;>
        simpa [exec, act, he, hch, State.setChan] using hr
    | mount target cfg =>
      refine live_exec (h.running ch ?_)
      cases he : o.fault <;> simpa [exec, act, he] using hr
    | _ => exact live_exec (h.running ch hr)
  · rw [(hg.apart (o := o) hm).chan] at hr
    exact live_exec (h.running ch hr)

theorem Kept.exec (h : Kept m s) (hg : Guarantee W K t s c) : Kept m (exec t o c s).2 := by
  refine ⟨h.exec_live hg, ?_, fun ch => h.exec_running hg, ?_⟩
  · rw [exec_log]
    rintro ⟨e, he, hm⟩
    rcases List.mem_cons.mp he with rfl | he
    · exact live_of_mounts rfl hm
    · exact live_exec (h.made ⟨e, he, hm⟩)
  · intro ch hans
    rw [exec_log] at hans
    exact h.undenied ch (by simpa using hans)

theorem Kept.answer (h : Kept m s) {m' : Str} {ch : ℕ} {r : CheckRes}
    (hr : m' = m → r ≠ .ok false) : Kept m (s.answer m' ch r) := by
  refine ⟨h.cached, ?_, ?_, ?_⟩
  · rintro ⟨e, he, hm⟩
    rcases List.mem_cons.mp he with rfl | he
    · cases hm
    · exact h.made ⟨e, he, hm⟩
  · intro ch' hrun
    refine h.running ch' ?_
    by_cases hm : m = m'
    · subst hm
      by_cases hc : ch' = ch
      · subst hc
        simp [State.answer, State.setChan] at hrun
      · simpa [State.answer, State.setChan, hc] using hrun
    · simpa [State.answer, State.setChan, hm] using hrun
  · intro ch' hans
    rcases List.mem_cons.mp hans with he | hans
    · obtain ⟨rfl, -, rfl⟩ := Event.answered.inj he
      exact hr rfl rfl
    · exact h.undenied ch' hans

theorem Kept.lose (h : Kept m s) {m' : Str} (hne : m' ≠ m) : Kept m (s.lose m') := by
  have hl : (s.lose m').live m = s.live m := Function.update_of_ne hne.symm _ _
  exact ⟨hl ▸ h.cached, hl ▸ h.made, hl ▸ h.running, h.undenied⟩

theorem Kept.step {P P' : Calls} (hsafe : (contract W K (wired m Confirmed) (· ≠ m)).Safe P)
    (h : Kept m P.state) (hs : (system W K (wired m Confirmed) (· ≠ m)).Step P P') :
    Kept m P'.state ∧
      (P.state.mounted.lookup m ≠ none → P'.state.mounted.lookup m ≠ none) := by
  cases hs with
  | start t p hfree hp => exact ⟨h, id⟩
  | call t c k o hprog hen =>
    have hg := hsafe.issues hprog hen
    exact ⟨h.exec hg, h.exec_cached hg⟩
  | env s he =>
    rcases he with ⟨m', ch, r, hrun, hans, rfl⟩ | ⟨m', hne, rfl⟩
    · refine ⟨h.answer ?_, id⟩
      rintro rfl
      exact not_denied (hans rfl (h.running ch hrun))
    · exact ⟨h.lose hne, id⟩

theorem Kept.steps {P P' : Calls} (hsafe : (contract W K (wired m Confirmed) (· ≠ m)).Safe P)
    (h : Kept m P.state) (hs : (system W K (wired m Confirmed) (· ≠ m)).Steps P P') :
    Kept m P'.state ∧
      (P.state.mounted.lookup m ≠ none → P'.state.mounted.lookup m ≠ none) := by
  induction hs with
  | refl => exact ⟨h, id⟩
  | tail hs hstep ih =>
    obtain ⟨hk, hc⟩ := Kept.step (safe_steps hsafe hs) ih.1 hstep
    exact ⟨hk, fun h => hc (ih.2 h)⟩

theorem kept_begin {entries : List (Str × Bool)} {check : Str → CheckRes} {live : Str → Bool}
    (hl : (adoptExisting W entries check).lookup m ≠ none → live m = true) :
    Kept m (begin W entries check live).state := by
  refine ⟨hl, ?_, ?_, ?_⟩
  · rintro ⟨e, he, -⟩
    cases he
  · intro ch hr
    cases hr
  · intro ch hans
    cases hans

end Kept

/-- The registry mounts over `m`, or gives it up, while it has it. -/
def MountsOver (W : Setup) (m : Str) (P : Calls) : Prop :=
  ∃ t, (∃ cfg k, P.prog t = some (.call (.mount (W.target m) cfg) k)) ∨
    ∃ path k, P.prog t = some (.call (.evict m path) k)

/-- Over a mount that stays, once it is cached: as long as the exact lookup of every
check prints the row of the target, the registry neither gives it up nor mounts over
it. -/
theorem never_mounts_over {W : Setup} {K : Set Config} {m : Str} {entries : List (Str × Bool)}
    {check : Str → CheckRes} {live : Str → Bool} {P P' : Calls}
    (hl : (adoptExisting W entries check).lookup m ≠ none → live m = true)
    (hs : (system W K (wired m Confirmed) (· ≠ m)).Steps (begin W entries check live) P)
    (hc : P.state.mounted.lookup m ≠ none)
    (hs' : (system W K (wired m Confirmed) (· ≠ m)).Steps P P') : ¬ MountsOver W m P' := by
  have hsafe := safe_steps (safe_begin entries check live) hs
  have hsafe' := safe_steps hsafe hs'
  have hkept := (Kept.steps (safe_begin entries check live) (kept_begin hl) hs).1
  obtain ⟨hkept', hc'⟩ := Kept.steps hsafe hkept hs'
  rintro ⟨t, ⟨cfg, k, hp⟩ | ⟨path, k, hp⟩⟩
  · obtain ⟨hname, hlock | ⟨-, -, -, ht, hnone, -⟩⟩ :=
      hsafe'.issues (o := (⟨none, false⟩ : Choice)) hp trivial
    · cases hlock
    · obtain ⟨p, hcp⟩ := Option.ne_none_iff_exists'.mp (hc' hc)
      have hm := Setup.target_injective (hsafe'.1.maps.mounted m p hcp).1 hname ht
      exact hc' hc (hm ▸ hnone)
  · exact hkept'.not_evicted (hsafe'.issues (o := (⟨none, false⟩ : Choice)) hp trivial)

theorem denied (s : State) (m : Str) (ch : ℕ) :
    wired m (fun _ _ _ => True) s m ch (.ok false) := by
  intro _ _
  refine ⟨.ok true, ⟨fun _ => by simp, trivial⟩, .ok (), ⟨fun _ => by simp, trivial⟩, [],
    ⟨trivial, trivial⟩, rfl⟩

theorem undecided (A : Str → (c : Node.Cmd) → Node.Resp c → Prop) (e : ExecError) (s : State)
    (m : Str) (ch : ℕ) (hA : ∀ path, A path (.stat path) (.error e)) :
    wired m A s m ch (.error (Node.sysErr e)) := by
  intro _ _
  exact ⟨.error e, ⟨fun _ => by simp, hA _⟩, rfl⟩

/-- The second call, with what its check answers, up to where it would mount. -/
def rechecked (r : CheckRes) (k : ℕ) : List Move := calls 1 4 ++ .answer zeros 0 r :: goes 1 k

theorem rechecked_allowed {answers : State → Str → ℕ → CheckRes → Prop} {r : CheckRes} {k : ℕ}
    (hr : ∀ s, answers s zeros 0 r) {mv : Move} (h : mv ∈ rechecked r k) :
    mv.Allowed smallSite {team} answers := by
  rcases List.mem_append.mp h with h | h
  · exact calls_allowed h
  · rcases List.mem_cons.mp h with rfl | h
    · exact hr
    · exact calls_allowed (List.mem_cons_of_mem _ h)

def cachedSite : Calls :=
  (schedule smallSite (calls 0 9) (begin smallSite [] (fun _ => .ok true) fun _ => false)).get rfl

theorem cachedSite_mounted : cachedSite.state.mounted.lookup zeros = some (smallSite.target zeros) := rfl

theorem never_mounts_over_undecided : ∃ P' : Calls,
    (system smallSite {team} (wired zeros Confirmed) (· ≠ zeros)).Steps cachedSite P' ∧
    (∃ ch e, .answered zeros ch (.error e) ∈ P'.state.log) ∧ ¬ MountsOver smallSite zeros P' := by
  have hs : (system smallSite {team} (wired zeros Confirmed) (· ≠ zeros)).Steps
      (begin smallSite [] (fun _ => .ok true) fun _ => false) cachedSite :=
    steps_of_schedule (fun _ h => calls_allowed h) (Option.some_get rfl).symm
  have hs' : (system smallSite {team} (wired zeros Confirmed) (· ≠ zeros)).Steps cachedSite
      ((schedule smallSite (rechecked (.error (Node.sysErr ⟨-1, []⟩)) 5) cachedSite).get rfl) :=
    steps_of_schedule (fun _ h => rechecked_allowed (fun s => undecided _ _ s _ _ fun _ => trivial) h)
      (Option.some_get rfl).symm
  refine ⟨_, hs', ⟨0, _, List.mem_of_getElem? (i := 5) rfl⟩, ?_⟩
  exact never_mounts_over (fun h => absurd rfl h) hs (by simp [cachedSite_mounted]) hs'

/-- The exact lookup of the second check fails and prints nothing: the registry gives
up a mount that is there and mounts over it. -/
theorem mounts_over_live : ∃ P' : Calls,
    (system smallSite {team} (wired zeros fun _ _ _ => True) (· ≠ zeros)).Steps
      (begin smallSite [] (fun _ => .ok true) fun _ => false) cachedSite ∧
    cachedSite.state.mounted.lookup zeros = some (smallSite.target zeros) ∧
    (system smallSite {team} (wired zeros fun _ _ _ => True) (· ≠ zeros)).Steps cachedSite P' ∧
    P'.state.live zeros = true ∧
    ∃ t cfg k, P'.prog t = some (.call (.mount (smallSite.target zeros) cfg) k) := by
  refine ⟨(schedule smallSite (rechecked (.ok false) 4) cachedSite).get rfl, ?_, rfl, ?_, rfl,
    caller 1, team, _, rfl⟩
  · exact steps_of_schedule (fun _ h => calls_allowed h) (Option.some_get rfl).symm
  · exact steps_of_schedule (fun _ h => rechecked_allowed (fun s => denied s _ _) h)
      (Option.some_get rfl).symm

end Fileblock.Registry
