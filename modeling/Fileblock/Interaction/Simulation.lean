import Fileblock.Interaction.Fallible

/-! What is known of a program on one machine is known of it on every machine that the
first one simulates; and where a run may be cut off. -/
namespace Interaction.Prog
variable {C : Type} {R : C → Type} {O O' σ τ α : Type}
  {exec : O → (c : C) → σ → R c × σ} {exec' : O' → (c : C) → τ → R c × τ}
  {A G : σ → C → O → Prop} {A' G' : τ → C → O' → Prop}

/-- A program runs on the machine `exec` as on a machine that gives the same answers in
every state related to the one at hand. -/
theorem wp_simulate (Rel : σ → τ → Prop)
    (h : ∀ s t c o, Rel s t → A s c o → ∃ o', A' t c o' ∧ (G' t c o' → G s c o ∧
      (exec o c s).1 = (exec' o' c t).1 ∧ Rel (exec o c s).2 (exec' o' c t).2))
    {p : Prog C R α} {Q : α → τ → Prop} {s : σ} {t : τ} (hs : Rel s t)
    (hp : p.wp ⟨exec', A', G'⟩ Q t) : p.wp ⟨exec, A, G⟩ (fun a s' => ∃ t', Rel s' t' ∧ Q a t') s := by
  induction p generalizing s t with
  | ret a => exact ⟨t, hs, hp⟩
  | call c k ih =>
    intro o ho
    obtain ⟨o', ho', hstep⟩ := h s t c o hs ho
    obtain ⟨hg, hk⟩ := hp o' ho'
    obtain ⟨hG, hres, hrel⟩ := hstep hg
    refine ⟨hG, ?_⟩
    rw [hres]
    exact ih _ hrel hk

/-- What holds before each command and at the end holds wherever a run is cut off. -/
theorem wp_halt_before {I : σ → Prop} (hsome : ∀ s c, ∃ o, A s c o) {o : ℕ → O}
    {p : Prog C R α} {s : σ} (hp : p.wp ⟨exec, A, fun s _ _ => I s⟩ (fun _ s => I s) s)
    (stop : Option ℕ) (ha : ∀ e ∈ p.issued exec o s stop, A e.before e.cmd e.choice) :
    I (p.halt exec o s stop).2 := by
  cases stop with
  | none => exact (wp_eval hp ha).1
  | some n =>
    show I (p.cut exec o n s)
    induction p generalizing s o n with
    | ret a => cases n <;> exact hp
    | call c k ih =>
      cases n with
      | zero =>
        obtain ⟨o', ho'⟩ := hsome s c
        exact (hp o' ho').1
      | succ n =>
        have hhead := ha ⟨s, c, o 0⟩ List.mem_cons_self
        exact ih _ (hp (o 0) hhead).2 n fun e he => ha e (List.mem_cons_of_mem _ he)

end Interaction.Prog
