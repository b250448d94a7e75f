import Fileblock.Interaction.Fallible

/-! What one part of its environment sees of a program. The part has commands of its own: a
command of the program stands for one of them, or does not concern the part. -/
namespace Interaction
variable {C D : Type} {R : C → Type} {S : D → Type} {O O' σ τ α α' β β' γ γ' : Type}

/-- Which commands are hidden from the part, and which of its own commands another one stands
for, with the answers of the two that go together. -/
structure View (C : Type) (R : C → Type) (D : Type) (S : D → Type) where
  hidden : C → Prop
  stands : (c : C) → (d : D) → (R c → S d → Prop) → Prop

namespace Prog
variable (V : View C R D S)

/-- Whatever the hidden commands of `p` are answered, the part sees what it sees of `q`, and
the results are related. -/
def Shows (Rel : α → β → Prop) : Prog C R α → Prog D S β → Prop
  | .ret a, q => ∃ b, q = .ret b ∧ Rel a b
  | .call c k, q => V.hidden c ∧ (∀ r, Shows Rel (k r) q) ∨
      ∃ d k' reads, q = .call d k' ∧ V.stands c d reads ∧
        ∀ r a, reads r a → Shows Rel (k r) (k' a)

variable {V} {Rel : α → β → Prop} {Rel' : α' → β' → Prop} {p : Prog C R α} {q : Prog D S β}

theorem shows_ret {a : α} {b : β} (h : Rel a b) :
    Shows V Rel (.ret a : Prog C R α) (.ret b : Prog D S β) := ⟨b, rfl, h⟩

theorem shows_perform {c : C} {d : D} {reads : R c → S d → Prop} (h : V.stands c d reads) :
    Shows V reads (perform c) (perform d) :=
  Or.inr ⟨d, .ret, reads, rfl, h, fun _ _ ha => shows_ret ha⟩

theorem Shows.bind {f : α → Prog C R α'} {g : β → Prog D S β'} (h : p.Shows V Rel q)
    (hf : ∀ a b, Rel a b → (f a).Shows V Rel' (g b)) : (p >>= f).Shows V Rel' (q >>= g) := by
  induction p generalizing q with
  | ret a =>
    obtain ⟨b, rfl, hab⟩ := h
    exact hf a b hab
  | call c k ih =>
    rcases h with ⟨hc, hk⟩ | ⟨d, k', reads, rfl, hc, hk⟩
    · exact Or.inl ⟨hc, fun r => ih r (hk r)⟩
    · exact Or.inr ⟨d, _, reads, rfl, hc, fun r a ha => ih r (hk r a ha)⟩

/-- What is hidden as a whole leaves the part where it is. -/
theorem Shows.hide {f : α → Prog C R α'} {q : Prog D S β'} (hp : p.All V.hidden)
    (hf : ∀ a, (f a).Shows V Rel' q) : (p >>= f).Shows V Rel' q := by
  induction p with
  | ret a => exact hf a
  | call c k ih => exact Or.inl ⟨hp.1, fun r => ih r (hp.2 r)⟩

theorem shows_ret_of_all {b : β} (hp : p.All V.hidden) (h : ∀ a, Rel a b) :
    p.Shows V Rel (.ret b : Prog D S β) := by
  rw [← bind_ret p]
  exact Shows.hide hp fun a => shows_ret (h a)

section Fallible
variable {ε ε' δ δ' : Type} {T : α → β → Prop} {T' : α' → β' → Prop}

/-- Both have failed, or the results are related. -/
def Alike (T : α → β → Prop) : Except ε α → Except ε' β → Prop
  | .ok a, .ok b => T a b
  | .error _, .error _ => True
  | _, _ => False

theorem Shows.run_bind {x : ExceptT ε (Prog C R) α} {y : ExceptT ε' (Prog D S) β}
    {f : α → ExceptT ε (Prog C R) α'} {g : β → ExceptT ε' (Prog D S) β'}
    (hx : x.run.Shows V (Alike T) y.run)
    (hf : ∀ a b, T a b → (f a).run.Shows V (Alike T') (g b).run) :
    (x >>= f).run.Shows V (Alike T') (y >>= g).run := by
  rw [ExceptT.run_bind, ExceptT.run_bind]
  refine hx.bind ?_
  rintro (e | a) (e' | b) h
  · exact shows_ret trivial
  · exact h.elim
  · exact h.elim
  · exact hf a b h

theorem shows_attempt {p : Prog C R (Except δ α)} {q : Prog D S (Except δ' β)} {f : δ → ε}
    {g : δ' → ε'} (h : p.Shows V (Alike T) q) :
    (attempt p f).run.Shows V (Alike T) (attempt q g).run := by
  refine h.bind ?_
  rintro (e | a) (e' | b) h
  · exact shows_ret trivial
  · exact h.elim
  · exact h.elim
  · exact shows_ret h

theorem shows_always (h : p.Shows V T q) :
    (always p : ExceptT ε (Prog C R) α).run.Shows V (Alike T)
      (always q : ExceptT ε' (Prog D S) β).run :=
  h.bind fun _ _ h => shows_ret h

end Fallible

theorem shows_each {T : γ → γ' → Prop} {f : γ → Prog C R Unit} {g : γ' → Prog D S Unit}
    {l : List γ} {l' : List γ'} (hl : List.Forall₂ T l l')
    (h : ∀ x y, T x y → (f x).Shows V (fun _ _ => True) (g y)) :
    (each f l).Shows V (fun _ _ => True) (each g l') := by
  induction hl with
  | nil => exact shows_ret trivial
  | cons hxy _ ih => exact (h _ _ hxy).bind fun _ _ _ => ih

/-- What is known of `q` on the machine of the part is known of `p` on a machine that serves
its hidden commands beside the part. -/
theorem Shows.wp {exec : O → (c : C) → σ → R c × σ} {exec' : O' → (d : D) → τ → S d × τ}
    {A G : σ → C → O → Prop} {A' G' : τ → D → O' → Prop} (Sim : σ → τ → Prop)
    (hhidden : ∀ s t c o, V.hidden c → Sim s t → A s c o → G s c o ∧ Sim (exec o c s).2 t)
    (hseen : ∀ s t c d reads o, V.stands c d reads → Sim s t → A s c o → ∃ o', A' t d o' ∧
      (G' t d o' → G s c o ∧ reads (exec o c s).1 (exec' o' d t).1 ∧
        Sim (exec o c s).2 (exec' o' d t).2))
    {Q : β → τ → Prop} {s : σ} {t : τ} (hs : Sim s t) (h : p.Shows V Rel q)
    (hq : q.wp ⟨exec', A', G'⟩ Q t) :
    p.wp ⟨exec, A, G⟩ (fun a s' => ∃ b t', Rel a b ∧ Sim s' t' ∧ Q b t') s := by
  induction p generalizing q s t with
  | ret a =>
    obtain ⟨b, rfl, hab⟩ := h
    exact ⟨b, t, hab, hs, hq⟩
  | call c k ih =>
    intro o ho
    rcases h with ⟨hc, hk⟩ | ⟨d, k', reads, rfl, hc, hk⟩
    · obtain ⟨hg, hs'⟩ := hhidden s t c o hc hs ho
      exact ⟨hg, ih _ hs' (hk _) hq⟩
    · obtain ⟨o', ho', hstep⟩ := hseen s t c d reads o hc hs ho
      obtain ⟨hg', hq'⟩ := hq o' ho'
      obtain ⟨hg, hr, hs'⟩ := hstep hg'
      exact ⟨hg, ih _ hs' (hk _ _ hr) hq'⟩

end Prog
end Interaction
