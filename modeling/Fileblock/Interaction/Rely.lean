import Fileblock.Interaction.Fallible

/-! Programs that run among others. Before each command of one of them the others
may have moved the state; the relation `Rel` says how far, and may depend on the
command that is about to be issued. -/
namespace Interaction
variable {C : Type} {R : C → Type} {O σ α : Type}

/-- The machine as one of several programs meets it: with each choice comes the
state to which the others have moved. -/
def Regime.amid (M : Regime C R O σ) (Rel : C → σ → σ → Prop) : Regime C R (O × σ) σ where
  exec o c _ := M.exec o.1 c o.2
  adm s c o := Rel c s o.2 ∧ M.adm o.2 c o.1
  guard _ c o := M.guard o.2 c o.1

namespace Prog
variable {M : Regime C R O σ} {Rel : C → σ → σ → Prop}

theorem wp_alone (hR : ∀ c s, Rel c s s) {p : Prog C R α} {Q : α → σ → Prop} {s : σ}
    (hp : p.wp (M.amid Rel) Q s) : p.wp M Q s := by
  induction p generalizing s with
  | ret a => exact hp
  | call c k ih =>
    intro o ho
    obtain ⟨hg, hk⟩ := hp (o, s) ⟨hR c s, ho⟩
    exact ⟨hg, ih _ hk⟩

/-- A move of the others before the next command is one the program tolerates. -/
theorem wp_amid_moved (hR : ∀ c s s' s'', Rel c s s' → Rel c s' s'' → Rel c s s'') {c : C}
    {k : R c → Prog C R α} {Q : α → σ → Prop} {s s' : σ}
    (hp : (Prog.call c k).wp (M.amid Rel) Q s) (h : Rel c s s') :
    (Prog.call c k).wp (M.amid Rel) Q s' := by
  intro o ho
  exact hp o ⟨hR c s s' o.2 h ho.1, ho.2⟩

end Prog
end Interaction
