import Fileblock.Registry.Contract

/-! What a `Get` knows while it holds the lock of its mount: facts that withstand
everything the other calls do, and rules for the commands issued under the lock. -/
namespace Fileblock.Registry
open Go Store Interaction

section Stable
variable (W : Setup) (K : Set Config) (m : Str)

/-- A fact about `m` that holders of other locks, and checks that answer, leave true. -/
def Stable (L : State → Prop) : Prop := ∀ s s', L s → Untouched W K m s s' → L s'

variable {W K m}

theorem Stable.and {L L' : State → Prop} (h : Stable W K m L) (h' : Stable W K m L') :
    Stable W K m fun s => L s ∧ L' s :=
  fun s s' hs hu => ⟨h s s' hs.1 hu, h' s s' hs.2 hu⟩

theorem stable_mounted (p : Option Str) : Stable W K m fun s => s.mounted.lookup m = p :=
  fun _ _ h hu => hu.mounted.trans h

theorem stable_checking (ch : Option ℕ) : Stable W K m fun s => s.checking m = ch :=
  fun _ _ h hu => hu.checking.trans h

theorem stable_quiet (ch : ℕ) : Stable W K m fun s => (s.chan m ch).running = false := by
  intro s s' h hu
  rcases hu.chan ch with he | ⟨hr, -⟩
  · rw [he]
    exact h
  · rw [h] at hr
    cases hr

theorem stable_slotOk : Stable W K m fun s => SlotOk s m := by
  intro s s' h hu ch hch
  rw [hu.checking] at hch
  obtain ⟨h1, h2⟩ := h ch hch
  obtain ⟨new, hl, -, ha⟩ := hu.log
  constructor
  · rcases hu.chan ch with he | ⟨-, r, he⟩
    · rw [he]
      exact h1
    · exact Or.inr (by simp [he])
  · intro r hr
    rw [hl] at hr
    rcases List.mem_append.mp hr with hr | hr
    · rw [(ha ch r hr).2]
      simp
    · rcases hu.chan ch with he | ⟨-, r', he⟩
      · rw [he]
        exact h2 r hr
      · simp [he]

/-- The last `Get` at the slot is the one told of by `e`. -/
def LastOpen (m : Str) (e : Event) (s : State) : Prop :=
  ∃ b, s.log.dropWhile (fun e => !e.opens m) = e :: b

theorem dropWhile_untouched {s s' : State} (hu : Untouched W K m s s') :
    s'.log.dropWhile (fun e => !e.opens m) = s.log.dropWhile (fun e => !e.opens m) := by
  obtain ⟨new, hl, hn, -⟩ := hu.log
  rw [hl]
  exact List.dropWhile_append_of_pos fun e he => by simp [(hn e he).2.2]

theorem stable_lastOpen (e : Event) : Stable W K m (LastOpen m e) := by
  rintro s s' ⟨b, hb⟩ hu
  exact ⟨b, (dropWhile_untouched hu).trans hb⟩

theorem stable_drained : Stable W K m fun s => Drained s m := by
  intro s s' h hu t ch b r hd hr
  rw [dropWhile_untouched hu] at hd
  exact hu.checking.trans (h t ch b r hd hr)

theorem stable_started : Stable W K m fun s => Started s m := by
  intro s s' h hu t ch b hd
  rw [dropWhile_untouched hu] at hd
  obtain ⟨path, hp⟩ := h t ch b hd
  obtain ⟨new, hl, hn, -⟩ := hu.log
  rw [hl]
  exact ⟨path, mem_since_append (fun x hx => (hn x hx).2.2) hp⟩

theorem stable_tidy : Stable W K m fun s => Tidy s m :=
  fun s s' h hu => ⟨stable_slotOk s s' h.ok hu, stable_drained s s' h.drained hu,
    stable_started s s' h.started hu⟩

theorem stable_current (e : Event) : Stable W K m fun s => e ∈ current m s.log := by
  intro s s' h hu
  obtain ⟨new, hl, hn, -⟩ := hu.log
  rw [hl]
  exact mem_since_append (fun x hx => (hn x hx).1) h

theorem stable_happened (f : Event → Bool) : Stable W K m fun s => ∃ e ∈ s.log, f e = true := by
  rintro s s' ⟨e, he, hf⟩ hu
  obtain ⟨new, hl, -, -⟩ := hu.log
  rw [hl]
  exact ⟨e, List.mem_append_right _ he, hf⟩

theorem stable_unused (ch : ℕ) : Stable W K m (Unused m ch) := by
  rintro s s' ⟨hq, hn⟩ hu
  refine ⟨stable_quiet ch s s' hq hu, ?_⟩
  intro r hr
  obtain ⟨new, hl, -, ha⟩ := hu.log
  rw [hl] at hr
  rcases List.mem_append.mp hr with hr | hr
  · rw [(ha ch r hr).1] at hq
    cases hq
  · exact hn r hr

/-- What the check on the channel answered, it answered to the `Get` in progress. -/
def AnswersNow (m : Str) (ch : ℕ) (s : State) : Prop :=
  ∀ r, .answered m ch r ∈ s.log → .answered m ch r ∈ current m s.log

theorem mem_current_append {new log : List Event} {e : Event}
    (hn : ∀ x ∈ new, x.locks m = false) (he : e ∈ new) : e ∈ current m (new ++ log) := by
  induction new with
  | nil => cases he
  | cons x new ih =>
    have hx := hn x List.mem_cons_self
    unfold current at ih ⊢
    rw [List.cons_append, since_cons_of_not hx]
    rcases List.mem_cons.mp he with rfl | he
    · exact List.mem_cons_self
    · exact List.mem_cons_of_mem _ (ih (fun y hy => hn y (List.mem_cons_of_mem _ hy)) he)

theorem stable_answersNow (ch : ℕ) : Stable W K m (AnswersNow m ch) := by
  intro s s' h hu r hr
  obtain ⟨new, hl, hn, -⟩ := hu.log
  rw [hl] at hr ⊢
  rcases List.mem_append.mp hr with hr | hr
  · exact mem_current_append (fun x hx => (hn x hx).1) hr
  · exact mem_since_append (fun x hx => (hn x hx).1) (h r hr)

theorem stable_madeDir {cfg : Config} (hm : cfg.mountID W.hash = m) :
    Stable W K m fun s => Made W cfg s.log := by
  intro s s' h hu
  obtain ⟨new, hl, hn, -⟩ := hu.log
  rw [hl]
  exact h.append fun e he => hm ▸ (hn e he).2.1

end Stable

section Locked
variable (W : Setup) (K : Set Config) (t : Caller)

/-- The machine as a call meets it that holds the lock of its mount throughout. -/
def locked : Regime Cmd Resp (Choice × State) State :=
  Regime.amid ⟨exec t, fun s c o => Inv W K s ∧ Enabled t s c o,
    fun s c _ => (∀ m, c ≠ .unlock m) ∧ Promise W K t s c⟩ fun _ => Untouched W K t.mountID

variable {W K t} {β : Type} {s : State}

theorem exec_holder {c : Cmd} {o : Choice} (h1 : ∀ m, c ≠ .lock m) (h2 : ∀ m, c ≠ .unlock m) :
    (exec t o c s).2.holder = s.holder := by
  cases c with
  | lock m => exact absurd rfl (h1 m)
  | unlock m => exact absurd rfl (h2 m)
  | openSlot m => cases h : s.checking m <;> simp [exec, act, h]
  | poll m ch => cases h : (s.chan m ch).answer <;> simp [exec, act, h, State.setChan]
  | await m ch => cases h : o.timeout <;> simp [exec, act, h, State.setChan]
  | mount target cfg => cases h : o.fault <;> simp [exec, act, h]
  | _ => rfl

/-- Whoever holds the lock keeps the contract with what is known under the lock. -/
theorem wp_locked {answers : State → Str → ℕ → CheckRes → Prop} {loses : Str → Prop}
    (hname : MountName t.mountID) {p : Run β} {Q : β → State → Prop}
    (hp : p.wp (locked W K t) Q s) (hh : s.holder t.mountID = some t.num) :
    p.wp ((contract W K answers loses).regime t)
      (fun b s => s.holder t.mountID = some t.num ∧ Q b s) s := by
  induction p generalizing s with
  | ret b => exact ⟨hh, hp⟩
  | call c k ih =>
    rintro ⟨o, s'⟩ ⟨hr, hi, hen⟩
    have hu : Untouched W K t.mountID s s' := hr hh
    have hh' := hu.holder.trans hh
    obtain ⟨⟨hunlock, hpromise⟩, hk⟩ := hp (o, s') ⟨hu, hi, hen⟩
    have hlock : ∀ m, c ≠ .lock m := by
      rintro m rfl
      exact hpromise
    refine ⟨⟨hname, Or.inr ⟨hh', hpromise⟩⟩, ih _ hk ?_⟩
    change (exec t o c s').2.holder t.mountID = _
    rw [exec_holder hlock hunlock]
    exact hh'

/-- One command under the lock: what is known has to withstand the others and to
justify the command. -/
theorem wp_issue {c : Cmd} {L : State → Prop} {Q : Resp c → State → Prop}
    (hc : ∀ m, c ≠ .unlock m) (hL : Stable W K t.mountID L)
    (hq : ∀ s o, L s → Inv W K s → Enabled t s c o →
      Promise W K t s c ∧ Q (exec t o c s).1 (exec t o c s).2) (hs : L s) :
    (issue c).wp (locked W K t) Q s := by
  rintro ⟨o, s'⟩ ⟨hu, hi, hen⟩
  obtain ⟨hp, hq⟩ := hq s' o (hL s s' hs hu) hi hen
  exact ⟨⟨hc, hp⟩, hq⟩

theorem tidy_of_free {m : Str} (h : s.checking m = none) (hst : Started s m) : Tidy s m := by
  refine ⟨?_, ?_, hst⟩
  · intro ch hch
    rw [h] at hch
    cases hch
  · intro _ _ _ _ _ _
    exact h

theorem current_cons {m : Str} {e : Event} (h : e.locks m = false) (log : List Event) :
    current m (e :: log) = e :: current m log := since_cons_of_not h log

/-- The commands that concern the slot of a mount. -/
def Cmd.slot : Cmd → Bool
  | .openSlot _ | .poll .. | .start .. | .await .. | .clearCheck _ => true
  | _ => false

theorem Tidy.exec {m : Str} {c : Cmd} {o : Choice} (h : Tidy s m) (hc : c.slot = false) :
    Tidy (exec t o c s).2 m := by
  have hl := exec_log t o c s
  cases c with
  | openSlot | poll | start | await | clearCheck => cases hc
  | mount target cfg =>
    refine h.cons ⟨?_, ?_, ?_, _, hl, by simp⟩ hl rfl <;>
      cases hf : o.fault <;> simp [Registry.exec, act, hf]
  | _ => exact h.cons ⟨rfl, rfl, rfl, _, hl, by simp⟩ hl rfl

theorem stable_refuted : Stable W K t.mountID fun s => Refuted t s.log := by
  rintro s s' ⟨ch, path, h1, h2, h3⟩ hu
  exact ⟨ch, path, stable_current _ s s' h1 hu, stable_current _ s s' h2 hu,
    stable_current _ s s' h3 hu⟩

theorem stable_uncached : Stable W K t.mountID fun s => Uncached t s.log := by
  rintro s s' (h | ⟨hr, path, h⟩) hu
  · exact Or.inl (stable_current _ s s' h hu)
  · exact Or.inr ⟨stable_refuted s s' hr hu, path, stable_current _ s s' h hu⟩

theorem Refuted.cons {e : Event} {log : List Event} (h : Refuted t log)
    (he : e.locks t.mountID = false) : Refuted t (e :: log) := by
  obtain ⟨ch, path, h1, h2, h3⟩ := h
  exact ⟨ch, path, mem_since_cons he h1, mem_since_cons he h2, mem_since_cons he h3⟩

theorem Uncached.cons {e : Event} {log : List Event} (h : Uncached t log)
    (he : e.locks t.mountID = false) : Uncached t (e :: log) := by
  rcases h with h | ⟨hr, path, h⟩
  · exact Or.inl (mem_since_cons he h)
  · exact Or.inr ⟨hr.cons he, path, mem_since_cons he h⟩

end Locked
end Fileblock.Registry
