import Mathlib

/-! Programs that act on their environment one command at a time. A program is a
finite tree of commands, so a crash is a node of the tree that is never left and
an interleaving is an order of nodes of several trees. -/
namespace Interaction

/-- Either a result, or a command and what to do with each of its answers. -/
inductive Prog (C : Type) (R : C → Type) (α : Type) : Type where
  | ret (a : α) : Prog C R α
  | call (c : C) (k : R c → Prog C R α) : Prog C R α

namespace Prog
variable {C : Type} {R : C → Type} {α β γ : Type}

def bind : Prog C R α → (α → Prog C R β) → Prog C R β
  | .ret a, f => f a
  | .call c k, f => .call c fun r => (k r).bind f

instance : Monad (Prog C R) where
  pure := .ret
  bind := bind

/-- Issue one command and return its answer. -/
def perform (c : C) : Prog C R (R c) := .call c .ret

@[simp] theorem pure_eq (a : α) : (pure a : Prog C R α) = .ret a := rfl

@[simp] theorem ret_bind (a : α) (f : α → Prog C R β) : (Prog.ret a >>= f) = f a := rfl

@[simp] theorem call_bind (c : C) (k : R c → Prog C R α) (f : α → Prog C R β) :
    (Prog.call c k >>= f) = .call c fun r => k r >>= f := rfl

theorem bind_ret (p : Prog C R α) : (p >>= Prog.ret) = p := by
  induction p with
  | ret a => rfl
  | call c k ih =>
    rw [call_bind]
    exact congrArg (Prog.call c) (funext ih)

theorem bind_bind (p : Prog C R α) (f : α → Prog C R β) (g : β → Prog C R γ) :
    (p >>= f >>= g) = p >>= fun a => f a >>= g := by
  induction p with
  | ret a => rfl
  | call c k ih =>
    simp only [call_bind]
    exact congrArg (Prog.call c) (funext ih)

instance : LawfulMonad (Prog C R) := LawfulMonad.mk' (Prog C R)
  bind_ret (fun _ _ => rfl) bind_bind

/-- Every command the program can issue, whatever it is answered, satisfies `P`. -/
def All (P : C → Prop) : Prog C R α → Prop
  | .ret _ => True
  | .call c k => P c ∧ ∀ r, (k r).All P

@[simp] theorem all_ret (P : C → Prop) (a : α) : (Prog.ret a : Prog C R α).All P := trivial

theorem all_true (p : Prog C R α) : p.All fun _ => True := by
  induction p with
  | ret a => trivial
  | call c k ih => exact ⟨trivial, ih⟩

@[simp] theorem all_perform (P : C → Prop) (c : C) :
    (perform c : Prog C R (R c)).All P ↔ P c := by
  simp [perform, All]

theorem All.bind {P : C → Prop} {p : Prog C R α} {f : α → Prog C R β}
    (hp : p.All P) (hf : ∀ a, (f a).All P) : (p >>= f).All P := by
  induction p with
  | ret a => exact hf a
  | call c k ih => exact ⟨hp.1, fun r => ih r (hp.2 r)⟩

theorem All.mono {P P' : C → Prop} (h : ∀ c, P c → P' c) {p : Prog C R α} (hp : p.All P) :
    p.All P' := by
  induction p with
  | ret a => trivial
  | call c k ih => exact ⟨h c hp.1, fun r => ih r (hp.2 r)⟩

/-- `b` may come of the program when its commands answer as `A` allows. -/
def Returns (A : ∀ c, R c → Prop) : Prog C R α → α → Prop
  | .ret a, b => a = b
  | .call c k, b => ∃ r, A c r ∧ (k r).Returns A b

theorem returns_bind {A : ∀ c, R c → Prop} {p : Prog C R α} {f : α → Prog C R β} {b : β} :
    (p >>= f).Returns A b ↔ ∃ a, p.Returns A a ∧ (f a).Returns A b := by
  induction p with
  | ret a =>
    constructor
    · exact fun h => ⟨a, rfl, h⟩
    · rintro ⟨_, rfl, h⟩
      exact h
  | call c k ih =>
    constructor
    · rintro ⟨r, hr, h⟩
      obtain ⟨a, ha, hf⟩ := (ih r).mp h
      exact ⟨a, ⟨r, hr, ha⟩, hf⟩
    · rintro ⟨a, ⟨r, hr, ha⟩, hf⟩
      exact ⟨r, hr, (ih r).mpr ⟨a, ha, hf⟩⟩

@[simp] theorem returns_perform {A : ∀ c, R c → Prop} {c : C} {r : R c} :
    (perform c : Prog C R (R c)).Returns A r ↔ A c r := by
  constructor
  · rintro ⟨r, hr, rfl⟩
    exact hr
  · exact fun h => ⟨r, h, rfl⟩

/-- Run `f` on each element in turn. -/
def each (f : β → Prog C R Unit) : List β → Prog C R Unit
  | [] => .ret ()
  | b :: bs => f b >>= fun _ => each f bs

theorem all_each {P : C → Prop} {f : β → Prog C R Unit} {bs : List β}
    (h : ∀ b ∈ bs, (f b).All P) : (each f bs).All P := by
  induction bs with
  | nil => exact all_ret _ _
  | cons b bs ih =>
    exact (h b List.mem_cons_self).bind fun _ => ih fun b' hb => h b' (List.mem_cons_of_mem _ hb)

variable {D : Type} {S : D → Type}

/-- Run a program against a larger set of commands: each command is renamed and
its answer read back. -/
def lift (ι : C → D) (ρ : ∀ c, S (ι c) → R c) : Prog C R α → Prog D S α
  | .ret a => .ret a
  | .call c k => .call (ι c) fun r => (k (ρ c r)).lift ι ρ

@[simp] theorem lift_ret (ι : C → D) (ρ : ∀ c, S (ι c) → R c) (a : α) :
    (Prog.ret a : Prog C R α).lift ι ρ = .ret a := rfl

theorem lift_bind (ι : C → D) (ρ : ∀ c, S (ι c) → R c) (p : Prog C R α) (f : α → Prog C R β) :
    (p >>= f).lift ι ρ = p.lift ι ρ >>= fun a => (f a).lift ι ρ := by
  induction p with
  | ret a => rfl
  | call c k ih => exact congrArg (Prog.call (ι c)) (funext fun r => ih _)

theorem lift_all {P : C → Prop} {P' : D → Prop} {ι : C → D} {ρ : ∀ c, S (ι c) → R c}
    (h : ∀ c, P c → P' (ι c)) {p : Prog C R α} (hp : p.All P) : (p.lift ι ρ).All P' := by
  induction p with
  | ret a => trivial
  | call c k ih => exact ⟨h c hp.1, fun r => ih _ (hp.2 _)⟩

end Prog
end Interaction
