import Fileblock.Interaction.Prog

/-! Execution of a program against a machine whose choices (which command fails,
which free resource is handed out) are an input, and weakest preconditions that
speak about every intermediate state as well as the final one. -/
namespace Interaction
variable {C : Type} {R : C → Type} {O σ α β : Type}

/-- A command as it was issued: the state it found and the choice it met. -/
structure Event (C O σ : Type) where
  before : σ
  cmd : C
  choice : O

/-- An environment without a state, which answers each command as it likes. -/
def oracle (o : (c : C) → R c) (c : C) (_ : Unit) : R c × Unit := (o c, ())

/-- A machine, the choices a command may meet on it, and what the commands issued to it
have to satisfy. -/
structure Regime (C : Type) (R : C → Type) (O σ : Type) where
  exec : O → (c : C) → σ → R c × σ
  adm : σ → C → O → Prop
  guard : σ → C → O → Prop

namespace Prog
variable (exec : O → (c : C) → σ → R c × σ)

/-- Run to completion; `o i` is the choice met by the command number `i`. -/
def eval (o : ℕ → O) : Prog C R α → σ → α × σ
  | .ret a, s => (a, s)
  | .call c k, s => eval (fun i => o (i + 1)) (k (exec (o 0) c s).1) (exec (o 0) c s).2

def events (o : ℕ → O) : Prog C R α → σ → List (Event C O σ)
  | .ret _, _ => []
  | .call c k, s => ⟨s, c, o 0⟩ ::
      events (fun i => o (i + 1)) (k (exec (o 0) c s).1) (exec (o 0) c s).2

/-- The state left by a run that is cut off after `n` commands. -/
def cut (o : ℕ → O) : ℕ → Prog C R α → σ → σ
  | _, .ret _, s => s
  | 0, .call _ _, s => s
  | n + 1, .call c k, s => cut (fun i => o (i + 1)) n (k (exec (o 0) c s).1) (exec (o 0) c s).2

/-- What must hold of `s` for every run under the choices `M` allows to issue only
commands that `M` allows and to end with `Q`. -/
def wp (M : Regime C R O σ) : Prog C R α → (α → σ → Prop) → σ → Prop
  | .ret a, Q, s => Q a s
  -- taking `M` apart here keeps its projections out of the goals
  | .call c k, Q, s => match M with
    | ⟨exec, A, G⟩ => ∀ o, A s c o → G s c o ∧ wp M (k (exec o c s).1) Q (exec o c s).2

section Structure
variable {M : Regime C R O σ}

@[simp] theorem wp_ret (a : α) (Q : α → σ → Prop) (s : σ) :
    (Prog.ret a : Prog C R α).wp M Q s ↔ Q a s := Iff.rfl

@[simp] theorem wp_pure (a : α) (Q : α → σ → Prop) (s : σ) :
    (pure a : Prog C R α).wp M Q s ↔ Q a s := Iff.rfl

@[simp] theorem wp_call (c : C) (k : R c → Prog C R α) (Q : α → σ → Prop) (s : σ) :
    (Prog.call c k).wp M Q s ↔ ∀ o, M.adm s c o →
      M.guard s c o ∧ (k (M.exec o c s).1).wp M Q (M.exec o c s).2 := Iff.rfl

@[simp] theorem wp_perform (c : C) (Q : R c → σ → Prop) (s : σ) :
    (perform c).wp M Q s ↔
      ∀ o, M.adm s c o → M.guard s c o ∧ Q (M.exec o c s).1 (M.exec o c s).2 := Iff.rfl

theorem wp_mono {p : Prog C R α} {Q Q' : α → σ → Prop} (h : ∀ a s, Q a s → Q' a s) {s : σ}
    (hp : p.wp M Q s) : p.wp M Q' s := by
  induction p generalizing s with
  | ret a => exact h a s hp
  | call c k ih => exact fun o ho => ⟨(hp o ho).1, ih _ (hp o ho).2⟩

theorem wp_bind (p : Prog C R α) (f : α → Prog C R β) (Q : β → σ → Prop) (s : σ) :
    (p >>= f).wp M Q s ↔ p.wp M (fun a s' => (f a).wp M Q s') s := by
  induction p generalizing s with
  | ret a => rfl
  | call c k ih => simp only [call_bind, wp_call, ih]

/-- A loop keeps what each of its rounds keeps; `I` may mention what is left to do. -/
theorem wp_each {f : β → Prog C R Unit} {I : List β → σ → Prop} {Q : Unit → σ → Prop}
    (h : ∀ b bs s, I (b :: bs) s → (f b).wp M (fun _ s' => I bs s') s)
    (hq : ∀ s, I [] s → Q () s) {bs : List β} {s : σ} (hs : I bs s) :
    (each f bs).wp M Q s := by
  induction bs generalizing s with
  | nil => exact hq s hs
  | cons b bs ih =>
    unfold each
    rw [wp_bind]
    exact wp_mono (fun _ s' hs' => ih hs') (h b bs s hs)

end Structure

variable {exec} {A G : σ → C → O → Prop}

/-- Two accounts of the same runs. -/
theorem wp_both {G₁ G₂ : σ → C → O → Prop} (hG : ∀ s c o, G₁ s c o → G₂ s c o → G s c o)
    {p : Prog C R α} {Q₁ Q₂ : α → σ → Prop} {s : σ} (h₁ : p.wp ⟨exec, A, G₁⟩ Q₁ s)
    (h₂ : p.wp ⟨exec, A, G₂⟩ Q₂ s) : p.wp ⟨exec, A, G⟩ (fun a s => Q₁ a s ∧ Q₂ a s) s := by
  induction p generalizing s with
  | ret a => exact ⟨h₁, h₂⟩
  | call c k ih =>
    intro o ho
    obtain ⟨hg₁, hk₁⟩ := h₁ o ho
    obtain ⟨hg₂, hk₂⟩ := h₂ o ho
    exact ⟨hG s c o hg₁ hg₂, ih _ hk₁ hk₂⟩

theorem wp_weaken {A' G' : σ → C → O → Prop} (hA : ∀ s c o, A' s c o → A s c o)
    (hG : ∀ s c o, A' s c o → G s c o → G' s c o) {p : Prog C R α} {Q : α → σ → Prop} {s : σ}
    (hp : p.wp ⟨exec, A, G⟩ Q s) : p.wp ⟨exec, A', G'⟩ Q s := by
  induction p generalizing s with
  | ret a => exact hp
  | call c k ih =>
    intro o ho
    obtain ⟨hg, hk⟩ := hp o (hA s c o ho)
    exact ⟨hG s c o ho hg, ih _ hk⟩

/-- A lifted program runs on the larger machine as on the part of it that it knows. -/
theorem wp_lift {D : Type} {S : D → Type} {exec : O → (d : D) → σ → S d × σ}
    {A G : σ → D → O → Prop} (ι : C → D) (ρ : ∀ c, S (ι c) → R c) (p : Prog C R α)
    (Q : α → σ → Prop) (s : σ) :
    (p.lift ι ρ).wp ⟨exec, A, G⟩ Q s ↔
      p.wp ⟨fun o c s => (ρ c (exec o (ι c) s).1, (exec o (ι c) s).2), fun s c o => A s (ι c) o,
        fun s c o => G s (ι c) o⟩ Q s := by
  induction p generalizing s with
  | ret a => rfl
  | call c k ih => exact forall_congr' fun o => imp_congr_right fun _ => and_congr_right' (ih _ _)

theorem wp_of_all {P : C → Prop} {I : σ → Prop}
    (h : ∀ s c o, P c → A s c o → I s → G s c o ∧ I (exec o c s).2)
    {p : Prog C R α} (hp : p.All P) {s : σ} (hs : I s) :
    p.wp ⟨exec, A, G⟩ (fun _ s' => I s') s := by
  induction p generalizing s with
  | ret a => exact hs
  | call c k ih =>
    intro o ho
    obtain ⟨hg, hi⟩ := h s c o hp.1 ho hs
    exact ⟨hg, ih _ (hp.2 _) hi⟩

/-- The machine met only admissible choices. -/
def Admissible (exec : O → (c : C) → σ → R c × σ) (A : σ → C → O → Prop) (o : ℕ → O)
    (p : Prog C R α) (s : σ) : Prop :=
  ∀ e ∈ p.events exec o s, A e.before e.cmd e.choice

theorem Admissible.call {o : ℕ → O} {c : C} {k : R c → Prog C R α} {s : σ}
    (h : (Prog.call c k).Admissible exec A o s) :
    A s c (o 0) ∧ (k (exec (o 0) c s).1).Admissible exec A (fun i => o (i + 1))
      (exec (o 0) c s).2 :=
  ⟨h ⟨s, c, o 0⟩ (by simp [events]), fun e he => h e (List.mem_cons_of_mem _ he)⟩

theorem wp_eval {o : ℕ → O} {p : Prog C R α} {Q : α → σ → Prop} {s : σ}
    (hp : p.wp ⟨exec, A, G⟩ Q s) (ha : p.Admissible exec A o s) :
    Q (p.eval exec o s).1 (p.eval exec o s).2 ∧
      ∀ e ∈ p.events exec o s, G e.before e.cmd e.choice := by
  induction p generalizing s o with
  | ret a => exact ⟨hp, by simp [events]⟩
  | call c k ih =>
    obtain ⟨h0, hr⟩ := ha.call
    obtain ⟨hg, hk⟩ := hp (o 0) h0
    obtain ⟨hq, he⟩ := ih _ hk hr
    refine ⟨hq, ?_⟩
    intro e hmem
    rcases List.mem_cons.mp hmem with rfl | hmem
    · exact hg
    · exact he e hmem

theorem wp_cut {I : σ → Prop} {o : ℕ → O} {p : Prog C R α} {Q : α → σ → Prop} {s : σ}
    (hp : p.wp ⟨exec, A, fun s c o => G s c o ∧ I (exec o c s).2⟩ Q s)
    (n : ℕ) (ha : ∀ e ∈ (p.events exec o s).take n, A e.before e.cmd e.choice) (hs : I s) :
    I (p.cut exec o n s) ∧ ∀ e ∈ (p.events exec o s).take n, G e.before e.cmd e.choice := by
  induction p generalizing s o n with
  | ret a => cases n <;> exact ⟨hs, by simp [events]⟩
  | call c k ih =>
    cases n with
    | zero => exact ⟨hs, by simp⟩
    | succ n =>
      simp only [events, List.take_succ_cons, List.mem_cons, forall_eq_or_imp] at ha ⊢
      obtain ⟨⟨hg, hi⟩, hk⟩ := hp (o 0) ha.1
      obtain ⟨hc, he⟩ := ih _ hk n ha.2 hi
      exact ⟨hc, hg, he⟩

theorem wp_invariant {I : σ → Prop} (h : ∀ s c o, A s c o → G s c o → I s → I (exec o c s).2)
    {p : Prog C R α} {Q : α → σ → Prop} {s : σ} (hp : p.wp ⟨exec, A, G⟩ Q s) (hs : I s) :
    p.wp ⟨exec, A, fun s c o => (G s c o ∧ I s) ∧ I (exec o c s).2⟩ (fun a s => Q a s ∧ I s) s := by
  induction p generalizing s with
  | ret a => exact ⟨hp, hs⟩
  | call c k ih =>
    intro o ho
    obtain ⟨hg, hk⟩ := hp o ho
    have hi := h s c o ho hg hs
    exact ⟨⟨⟨hg, hs⟩, hi⟩, ih _ hk hi⟩

/-- An invariant that the program itself keeps may be assumed of every state. -/
theorem wp_assume {I : σ → Prop} (h : ∀ s c o, A s c o → G s c o → I s → I (exec o c s).2)
    {p : Prog C R α} {Q : α → σ → Prop} {s : σ}
    (hp : p.wp ⟨exec, fun s c o => I s ∧ A s c o, G⟩ Q s) (hs : I s) : p.wp ⟨exec, A, G⟩ Q s := by
  induction p generalizing s with
  | ret a => exact hp
  | call c k ih =>
    intro o ho
    obtain ⟨hg, hk⟩ := hp o ⟨hs, ho⟩
    exact ⟨hg, ih _ hk (h s c o ho hg hs)⟩

variable (exec) in
/-- A run that may be cut off: its result if it came to its end, and the state
it left. -/
def halt (o : ℕ → O) (p : Prog C R α) (s : σ) : Option ℕ → Option α × σ
  | none => (some (p.eval exec o s).1, (p.eval exec o s).2)
  | some n => (none, p.cut exec o n s)

variable (exec) in
def issued (o : ℕ → O) (p : Prog C R α) (s : σ) : Option ℕ → List (Event C O σ)
  | none => p.events exec o s
  | some n => (p.events exec o s).take n

/-- What a run keeps, cut off or not, what it issues, and what it ends with. -/
theorem wp_halt {I : σ → Prop} (h : ∀ s c o, A s c o → G s c o → I s → I (exec o c s).2)
    {o : ℕ → O} {p : Prog C R α} {Q : α → σ → Prop} {s : σ} (hp : p.wp ⟨exec, A, G⟩ Q s) (hs : I s)
    (stop : Option ℕ) (ha : ∀ e ∈ p.issued exec o s stop, A e.before e.cmd e.choice) :
    I (p.halt exec o s stop).2 ∧
      (∀ e ∈ p.issued exec o s stop, G e.before e.cmd e.choice ∧ I e.before) ∧
      ∀ a, (p.halt exec o s stop).1 = some a → Q a (p.halt exec o s stop).2 := by
  have hi := wp_invariant h hp hs
  cases stop with
  | none =>
    obtain ⟨⟨hq, hI⟩, he⟩ := wp_eval hi ha
    refine ⟨hI, fun e hm => (he e hm).1, ?_⟩
    intro a hr
    rw [← Option.some.inj hr]
    exact hq
  | some n =>
    obtain ⟨hI, he⟩ := wp_cut hi n ha hs
    exact ⟨hI, he, fun a ha => absurd ha (by simp [halt])⟩

theorem events_choice {o : ℕ → O} {p : Prog C R α} {s : σ} {e : Event C O σ}
    (he : e ∈ p.events exec o s) : ∃ i, e.choice = o i := by
  induction p generalizing s o with
  | ret a => simp [events] at he
  | call c k ih =>
    rcases List.mem_cons.mp he with rfl | he
    · exact ⟨0, rfl⟩
    · obtain ⟨i, hi⟩ := ih _ he
      exact ⟨i + 1, hi⟩

theorem All.events {P : C → Prop} {o : ℕ → O} {p : Prog C R α} {s : σ} (h : p.All P)
    {e : Event C O σ} (he : e ∈ p.events exec o s) : P e.cmd := by
  induction p generalizing s o with
  | ret a => simp [Prog.events] at he
  | call c k ih =>
    rcases List.mem_cons.mp he with rfl | he
    · exact h.1
    · exact ih _ (h.2 _) he

theorem Admissible.of_choice {o : ℕ → O} {p : Prog C R α} {s : σ} (h : ∀ s c i, A s c (o i)) :
    p.Admissible exec A o s := by
  intro e he
  obtain ⟨i, hi⟩ := events_choice he
  rw [hi]
  exact h _ _ i

theorem issued_choice {o : ℕ → O} {p : Prog C R α} {s : σ} {stop : Option ℕ} {e : Event C O σ}
    (he : e ∈ p.issued exec o s stop) : ∃ i, e.choice = o i := by
  cases stop with
  | none => exact events_choice he
  | some n => exact events_choice (List.mem_of_mem_take he)

theorem eval_bind (o : ℕ → O) (p : Prog C R α) (f : α → Prog C R β) (s : σ) :
    (p >>= f).eval exec o s =
      (f (p.eval exec o s).1).eval exec (fun i => o ((p.events exec o s).length + i))
        (p.eval exec o s).2 := by
  induction p generalizing s o with
  | ret a => simp [eval, events]
  | call c k ih =>
    simp only [call_bind, eval, events, List.length_cons, ih]
    congr 1
    funext i
    congr 1
    omega

/-- A machine that keeps more than `exec'` does runs programs as `exec'` does. -/
theorem eval_map {τ : Type} {exec' : O → (c : C) → τ → R c × τ} {f : σ → τ}
    (h : ∀ o c s, exec' o c (f s) = ((exec o c s).1, f (exec o c s).2)) (o : ℕ → O)
    (p : Prog C R α) (s : σ) :
    p.eval exec' o (f s) = ((p.eval exec o s).1, f (p.eval exec o s).2) := by
  induction p generalizing s o with
  | ret a => rfl
  | call c k ih =>
    unfold eval
    rw [h]
    exact ih _ _ _

variable (exec A) in
/-- The states that programs run one after the other lead to. -/
inductive Runs (start : Prog C R α → Prop) (init : σ → Prop) : σ → Prop
  | init {s : σ} : init s → Runs start init s
  | run {s : σ} (p : Prog C R α) (o : ℕ → O) : Runs start init s → start p →
      p.Admissible exec A o s → Runs start init (p.eval exec o s).2

theorem Runs.inv {start : Prog C R α → Prop} {init I : σ → Prop} (h0 : ∀ s, init s → I s)
    (hp : ∀ p s, start p → I s → p.wp ⟨exec, A, G⟩ (fun _ s' => I s') s) {s : σ}
    (h : Runs exec A start init s) : I s := by
  induction h with
  | init h => exact h0 _ h
  | run p o _ hstart ha ih => exact (wp_eval (hp p _ hstart ih) ha).1

end Prog
end Interaction
