import Fileblock.Interaction.Hoare

/-! Programs on a machine without choices, and when their order does not matter. -/
namespace Interaction
variable {C : Type} {R : C → Type} {O σ τ α β : Type}

namespace Prog

/-- Run to completion on a machine without choices. -/
def go (run : (c : C) → σ → R c × σ) : Prog C R α → σ → α × σ
  | .ret a, s => (a, s)
  | .call c k, s => go run (k (run c s).1) (run c s).2

variable {run : (c : C) → σ → R c × σ}

theorem go_bind (p : Prog C R α) (f : α → Prog C R β) (s : σ) :
    (p >>= f).go run s = (f (p.go run s).1).go run (p.go run s).2 := by
  induction p generalizing s with
  | ret a => rfl
  | call c k ih => exact ih _ _

theorem go_each (f : β → Prog C R Unit) (bs : List β) (s : σ) :
    (each f bs).go run s = ((), bs.foldl (fun s b => ((f b).go run s).2) s) := by
  induction bs generalizing s with
  | nil => rfl
  | cons b bs ih =>
    unfold each
    rw [go_bind, ih]
    rfl

theorem eval_eq_go {exec : O → (c : C) → σ → R c × σ} {o : ℕ → O} {p : Prog C R α} {s : σ}
    (h : p.Admissible exec (fun s c o => exec o c s = run c s) o s) :
    p.eval exec o s = p.go run s := by
  induction p generalizing s o with
  | ret a => rfl
  | call c k ih =>
    obtain ⟨hc, hk⟩ := h.call
    unfold eval go
    rw [hc] at hk ⊢
    exact ih _ hk

theorem go_simulates {run' : (c : C) → τ → R c × τ} {f : σ → τ} {P : C → Prop}
    (h : ∀ c s, P c → run' c (f s) = ((run c s).1, f (run c s).2)) {p : Prog C R α} (hp : p.All P)
    (s : σ) : p.go run' (f s) = ((p.go run s).1, f (p.go run s).2) := by
  induction p generalizing s with
  | ret a => rfl
  | call c k ih =>
    unfold go
    rw [h c s hp.1]
    exact ih _ (hp.2 _) _

theorem go_keeps {P : C → Prop} {I : σ → Prop} (h : ∀ c s, P c → I s → I (run c s).2)
    {p : Prog C R α} (hp : p.All P) {s : σ} (hs : I s) : I (p.go run s).2 := by
  induction p generalizing s with
  | ret a => exact hs
  | call c k ih => exact ih _ (hp.2 _) (h c s hp.1 hs)

/-- Two commands that may be issued in either order. -/
structure Apart (run : (c : C) → σ → R c × σ) (c d : C) : Prop where
  left : ∀ s, (run c (run d s).2).1 = (run c s).1
  right : ∀ s, (run d (run c s).2).1 = (run d s).1
  state : ∀ s, (run d (run c s).2).2 = (run c (run d s).2).2

theorem go_command {p : Prog C R α} {d : C} (hp : p.All fun c => Apart run c d) (s : σ) :
    p.go run (run d s).2 = ((p.go run s).1, (run d (p.go run s).2).2) ∧
      (run d (p.go run s).2).1 = (run d s).1 := by
  induction p generalizing s with
  | ret a => exact ⟨rfl, rfl⟩
  | call c k ih =>
    obtain ⟨hc, hk⟩ := hp
    unfold go
    rw [hc.left, ← hc.state]
    obtain ⟨hgo, hd⟩ := ih _ (hk _) (run c s).2
    exact ⟨hgo, hd.trans (hc.right s)⟩

/-- Programs whose commands may all be issued in either order may be run in either order. -/
theorem go_comm {p : Prog C R α} {q : Prog C R β} (h : q.All fun d => p.All fun c => Apart run c d)
    (s : σ) : (q.go run (p.go run s).2).2 = (p.go run (q.go run s).2).2 := by
  induction q generalizing s with
  | ret b => rfl
  | call d k ih =>
    obtain ⟨hd, hk⟩ := h
    obtain ⟨hgo, hr⟩ := go_command hd s
    have hstate : (run d (p.go run s).2).2 = (p.go run (run d s).2).2 := by rw [hgo]
    rw [go, go, hr, hstate]
    exact ih _ (hk _) _

/-- A loop over things apart from each other may take them in any order. -/
theorem go_each_perm {f : β → Prog C R Unit} {bs bs' : List β} (hperm : bs.Perm bs')
    (h : ∀ a ∈ bs, ∀ b ∈ bs, a ≠ b → (f b).All fun d => (f a).All fun c => Apart run c d) (s : σ) :
    (each f bs).go run s = (each f bs').go run s := by
  rw [go_each, go_each]
  congr 1
  apply hperm.foldl_eq'
  intro a ha b hb s
  by_cases hab : a = b
  · rw [hab]
  · exact go_comm (h a ha b hb hab) s

end Prog
end Interaction
