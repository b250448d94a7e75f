import Fileblock.Interaction.Rely

/-! Any number of programs on one machine, interleaved command by command with each
other and with moves of the environment. A program that keeps its promises as long
as the others keep theirs keeps them in every interleaving. -/
namespace Interaction
variable {ι C O σ α : Type} {R : C → Type}

/-- A machine that several programs share: what a command of one of them does, when
it may be executed, how the environment moves, and which programs may start. -/
structure System (ι C O σ α : Type) (R : C → Type) where
  exec : ι → O → (c : C) → σ → R c × σ
  enabled : ι → σ → C → O → Prop
  env : σ → σ → Prop
  start : ι → Prog C R α → Prop

/-- The state of the machine and what is left of each program. -/
structure Pool (ι C σ α : Type) (R : C → Type) where
  state : σ
  prog : ι → Option (Prog C R α)

def Pool.set [DecidableEq ι] (P : Pool ι C σ α R) (t : ι) (p : Prog C R α) (s : σ) :
    Pool ι C σ α R := ⟨s, Function.update P.prog t (some p)⟩

theorem Pool.set_prog [DecidableEq ι] {P : Pool ι C σ α R} {t u : ι} {p q : Prog C R α} {s : σ}
    (h : (P.set t p s).prog u = some q) : u = t ∧ q = p ∨ u ≠ t ∧ P.prog u = some q := by
  by_cases hu : u = t
  · subst hu
    exact Or.inl ⟨rfl, by simpa [set] using h.symm⟩
  · exact Or.inr ⟨hu, by simpa [set, hu] using h⟩

namespace System
variable (M : System ι C O σ α R)

inductive Step [DecidableEq ι] (P : Pool ι C σ α R) : Pool ι C σ α R → Prop
  | start (t : ι) (p : Prog C R α) (hfree : P.prog t = none) (hp : M.start t p) :
    Step P (P.set t p P.state)
  | call (t : ι) (c : C) (k : R c → Prog C R α) (o : O) (hprog : P.prog t = some (.call c k))
    (hen : M.enabled t P.state c o) :
    Step P (P.set t (k (M.exec t o c P.state).1) (M.exec t o c P.state).2)
  | env (s : σ) (hs : M.env P.state s) : Step P ⟨s, P.prog⟩

def Steps [DecidableEq ι] (P P' : Pool ι C σ α R) : Prop := Relation.ReflTransGen M.Step P P'

/-- What the programs promise each other: the invariant, what each of them relies
on, when each issues a command, and what each ends with. -/
structure Contract (M : System ι C O σ α R) where
  inv : σ → Prop
  rely : ι → σ → σ → Prop
  guarantee : ι → σ → C → Prop
  post : ι → α → σ → Prop
  rely_refl : ∀ t s, rely t s s
  rely_trans : ∀ t s s' s'', rely t s s' → rely t s' s'' → rely t s s''
  post_rely : ∀ t a s s', rely t s s' → post t a s → post t a s'
  exec_inv : ∀ t s c o, inv s → M.enabled t s c o → guarantee t s c → inv (M.exec t o c s).2
  exec_rely : ∀ t t' s c o, t' ≠ t → inv s → M.enabled t s c o → guarantee t s c →
    rely t' s (M.exec t o c s).2
  env_inv : ∀ s s', inv s → M.env s s' → inv s'
  env_rely : ∀ t s s', inv s → M.env s s' → rely t s s'

namespace Contract
variable {M} (K : M.Contract)

/-- The machine as one of the programs meets it while the others keep the contract. -/
def regime (t : ι) : Regime C R (O × σ) σ :=
  Regime.amid ⟨M.exec t, fun s c o => K.inv s ∧ M.enabled t s c o, fun s c _ => K.guarantee t s c⟩
    fun _ => K.rely t

def Safe (P : Pool ι C σ α R) : Prop :=
  K.inv P.state ∧ ∀ t p, P.prog t = some p → p.wp (K.regime t) (K.post t) P.state

variable {K}

theorem wp_moved {t : ι} {p : Prog C R α} {s s' : σ} (h : p.wp (K.regime t) (K.post t) s)
    (hr : K.rely t s s') : p.wp (K.regime t) (K.post t) s' := by
  cases p with
  | ret a => exact K.post_rely t a s s' hr h
  | call c k => exact Prog.wp_amid_moved (fun _ => K.rely_trans t) h hr

theorem Safe.issues {P : Pool ι C σ α R} (h : K.Safe P) {t : ι} {c : C} {k : R c → Prog C R α}
    {o : O} (hp : P.prog t = some (.call c k)) (hen : M.enabled t P.state c o) :
    K.guarantee t P.state c :=
  (h.2 t _ hp (o, P.state) ⟨K.rely_refl t P.state, h.1, hen⟩).1

theorem Safe.step [DecidableEq ι] (hstart : ∀ t p s, M.start t p → K.inv s → p.wp (K.regime t) (K.post t) s)
    {P P' : Pool ι C σ α R} (h : K.Safe P) (hs : M.Step P P') : K.Safe P' := by
  cases hs with
  | start t p hfree hp =>
    refine ⟨h.1, ?_⟩
    intro u q hq
    rcases Pool.set_prog hq with ⟨rfl, rfl⟩ | ⟨-, hq⟩
    · exact hstart u q P.state hp h.1
    · exact h.2 u q hq
  | call t c k o hprog hen =>
    obtain ⟨hg, hk⟩ := h.2 t _ hprog (o, P.state) ⟨K.rely_refl t P.state, h.1, hen⟩
    refine ⟨K.exec_inv t P.state c o h.1 hen hg, ?_⟩
    intro u q hq
    rcases Pool.set_prog hq with ⟨rfl, rfl⟩ | ⟨hu, hq⟩
    · exact hk
    · exact wp_moved (h.2 u q hq) (K.exec_rely t u P.state c o hu h.1 hen hg)
  | env s hs =>
    refine ⟨K.env_inv P.state s h.1 hs, ?_⟩
    intro u q hq
    exact wp_moved (h.2 u q hq) (K.env_rely u P.state s h.1 hs)

/-- Programs that keep the contract one by one keep it in every interleaving. -/
theorem Safe.steps [DecidableEq ι] (hstart : ∀ t p s, M.start t p → K.inv s → p.wp (K.regime t) (K.post t) s)
    {P P' : Pool ι C σ α R} (h : K.Safe P) (hs : M.Steps P P') : K.Safe P' := by
  induction hs with
  | refl => exact h
  | tail _ hs ih => exact ih.step hstart hs

/-- One command: what is known before it has to withstand the others, the command has
to be issued as promised, and the rest has to go on from its answer. -/
theorem wp_perform {t : ι} {s : σ} {c : C} {L : σ → Prop} {Q : R c → σ → Prop}
    (hL : ∀ s s', L s → K.rely t s s' → L s')
    (hc : ∀ s o, L s → K.inv s → M.enabled t s c o →
      K.guarantee t s c ∧ Q (M.exec t o c s).1 (M.exec t o c s).2) (hs : L s) :
    (Prog.perform c).wp (K.regime t) Q s :=
  fun o ho => hc o.2 o.1 (hL s o.2 hs ho.1) ho.2.1 ho.2.2

end Contract
end System
end Interaction
