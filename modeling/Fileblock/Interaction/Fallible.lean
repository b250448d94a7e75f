import Fileblock.Interaction.Hoare

/-! Programs that may stop with an error, as `ExceptT` over `Prog`, and how the
weakest precondition passes through them. -/
namespace Interaction
variable {C : Type} {R : C → Type} {O σ ε δ α β : Type}

/-- Run `p`, turning its own errors into the caller's. -/
def attempt (p : Prog C R (Except δ α)) (f : δ → ε) : ExceptT ε (Prog C R) α :=
  ExceptT.mk (p >>= fun r => .ret (r.mapError f))

/-- Run the clean-up `c` when `x` fails, and fail with the same error. -/
def cleanup (x : ExceptT ε (Prog C R) α) (c : Prog C R Unit) : ExceptT ε (Prog C R) α :=
  ExceptT.mk (x.run >>= fun r =>
    match r with
    | .ok a => .ret (.ok a)
    | .error e => c >>= fun _ => .ret (.error e))

/-- A program that cannot fail, among programs that can. -/
def always (p : Prog C R α) : ExceptT ε (Prog C R) α := ExceptT.mk (p >>= fun a => .ret (.ok a))

theorem always_bind (p : Prog C R α) (f : α → Prog C R β) :
    (always (p >>= f) : ExceptT ε (Prog C R) β) = always p >>= fun a => always (f a) := by
  apply ExceptT.ext
  change (p >>= f) >>= _ = (p >>= _) >>= _
  rw [Prog.bind_bind, Prog.bind_bind]
  rfl

/-- A result that is known without running anything. -/
def known (r : Except ε α) : ExceptT ε (Prog C R) α := ExceptT.mk (.ret r)

/-- Run for its effect; the error is dropped. -/
def ignore (x : ExceptT ε (Prog C R) α) : Prog C R Unit := x.run >>= fun _ => .ret ()

namespace Prog
variable {M : Regime C R O σ}

@[simp] theorem wp_run_pure (a : α) (Q : Except ε α → σ → Prop) (s : σ) :
    (pure a : ExceptT ε (Prog C R) α).run.wp M Q s ↔ Q (.ok a) s := Iff.rfl

@[simp] theorem wp_run_throw (e : ε) (Q : Except ε α → σ → Prop) (s : σ) :
    (throw e : ExceptT ε (Prog C R) α).run.wp M Q s ↔ Q (.error e) s := Iff.rfl

theorem wp_run_bind (x : ExceptT ε (Prog C R) α) (f : α → ExceptT ε (Prog C R) β)
    (Q : Except ε β → σ → Prop) (s : σ) :
    (x >>= f).run.wp M Q s ↔ x.run.wp M (fun r s' =>
      match r with
      | .ok a => (f a).run.wp M Q s'
      | .error e => Q (.error e) s') s := by
  rw [ExceptT.run_bind, wp_bind]
  constructor <;> refine wp_mono ?_ <;> rintro (e | a) s' h <;> exact h

/-- A first part that keeps a fact whether it fails or not. -/
theorem wp_seq {x : ExceptT ε (Prog C R) α} {f : α → ExceptT ε (Prog C R) β}
    {Q : Except ε β → σ → Prop} {I : σ → Prop} {s : σ} (hx : x.run.wp M (fun _ s' => I s') s)
    (herr : ∀ e s', I s' → Q (.error e) s') (hok : ∀ a s', I s' → (f a).run.wp M Q s') :
    (x >>= f).run.wp M Q s := by
  rw [wp_run_bind]
  refine wp_mono (fun r s' h => ?_) hx
  cases r with
  | error e => exact herr e s' h
  | ok a => exact hok a s' h

@[simp] theorem wp_attempt (p : Prog C R (Except δ α)) (f : δ → ε)
    (Q : Except ε α → σ → Prop) (s : σ) :
    (attempt p f).run.wp M Q s ↔
      p.wp M (fun r s' => Q (r.mapError f) s') s := by
  unfold attempt
  rw [ExceptT.run_mk, wp_bind]
  rfl

@[simp] theorem wp_cleanup (x : ExceptT ε (Prog C R) α) (c : Prog C R Unit)
    (Q : Except ε α → σ → Prop) (s : σ) :
    (cleanup x c).run.wp M Q s ↔ x.run.wp M (fun r s' =>
      match r with
      | .ok a => Q (.ok a) s'
      | .error e => c.wp M (fun _ s'' => Q (.error e) s'') s') s := by
  unfold cleanup
  rw [ExceptT.run_mk, wp_bind]
  constructor <;> refine wp_mono ?_ <;> rintro (e | a) s' h
  · exact (wp_bind _ _ _ _).mp h
  · exact h
  · exact (wp_bind _ _ _ _).mpr h
  · exact h

@[simp] theorem wp_always (p : Prog C R α) (Q : Except ε α → σ → Prop) (s : σ) :
    (always p).run.wp M Q s ↔ p.wp M (fun a s' => Q (.ok a) s') s := by
  unfold always
  rw [ExceptT.run_mk, wp_bind]
  rfl

@[simp] theorem wp_known (r : Except ε α) (Q : Except ε α → σ → Prop) (s : σ) :
    (known r : ExceptT ε (Prog C R) α).run.wp M Q s ↔ Q r s := Iff.rfl

@[simp] theorem wp_ignore (x : ExceptT ε (Prog C R) α) (Q : Unit → σ → Prop) (s : σ) :
    (ignore x).wp M Q s ↔ x.run.wp M (fun _ s' => Q () s') s := by
  unfold ignore
  rw [wp_bind]
  rfl

theorem all_run_bind {P : C → Prop} {x : ExceptT ε (Prog C R) α}
    {f : α → ExceptT ε (Prog C R) β} (hx : x.run.All P) (hf : ∀ a, (f a).run.All P) :
    (x >>= f).run.All P := by
  rw [ExceptT.run_bind]
  refine hx.bind ?_
  rintro (e | a)
  · exact all_ret _ _
  · exact hf a

theorem all_attempt {P : C → Prop} {p : Prog C R (Except δ α)} (hp : p.All P) (f : δ → ε) :
    (attempt p f).run.All P := hp.bind fun _ => all_ret _ _

theorem all_cleanup {P : C → Prop} {x : ExceptT ε (Prog C R) α} {c : Prog C R Unit}
    (hx : x.run.All P) (hc : c.All P) : (cleanup x c).run.All P := by
  refine hx.bind ?_
  rintro (e | a)
  · exact hc.bind fun _ => all_ret _ _
  · exact all_ret _ _

/-- The weakest precondition for what comes of `x` without an error to have `P`. -/
def wpOk (M : Regime C R O σ) (x : ExceptT ε (Prog C R) α) (P : α → σ → Prop) (s : σ) : Prop :=
  x.run.wp M (fun r s' => ∀ a, r = .ok a → P a s') s

section Ok
variable {P : α → σ → Prop} {Q : β → σ → Prop} {s : σ}

theorem wpOk_bind {x : ExceptT ε (Prog C R) α} {f : α → ExceptT ε (Prog C R) β}
    (hx : wpOk M x P s) (hf : ∀ a s', P a s' → wpOk M (f a) Q s') :
    wpOk M (x >>= f) Q s := by
  unfold wpOk
  rw [wp_run_bind]
  refine wp_mono ?_ hx
  intro r s' hr
  cases r with
  | error e =>
    intro b hb
    cases hb
  | ok a => exact hf a s' (hr a rfl)

theorem wpOk_attempt {p : Prog C R (Except δ α)} {f : δ → ε}
    (hp : p.wp M (fun r s' => ∀ a, r = .ok a → P a s') s) :
    wpOk M (attempt p f) P s := by
  unfold wpOk
  rw [wp_attempt]
  refine wp_mono ?_ hp
  intro r s' hr a ha
  cases r with
  | error e => cases ha
  | ok a' =>
    cases ha
    exact hr a rfl

theorem wpOk_known {r : Except ε α} (h : ∀ a, r = .ok a → P a s) :
    wpOk M (known r : ExceptT ε (Prog C R) α) P s := h

theorem wpOk_always {p : Prog C R α} (hp : p.wp M P s) :
    wpOk M (always p : ExceptT ε (Prog C R) α) P s := by
  unfold wpOk
  rw [wp_always]
  refine wp_mono ?_ hp
  intro a s' ha b hb
  cases hb
  exact ha

theorem wpOk_of_all {D : C → Prop} {x : ExceptT ε (Prog C R) α} (h : x.run.All D)
    (hG : ∀ s c o, D c → M.adm s c o → M.guard s c o) : wpOk M x (fun _ _ => True) s := by
  refine wp_mono (Q := fun _ _ => True) (fun _ _ _ _ _ => trivial) ?_
  exact wp_of_all (I := fun _ => True) (fun s c o hc ho _ => ⟨hG s c o hc ho, trivial⟩) h trivial

end Ok

end Prog
end Interaction
