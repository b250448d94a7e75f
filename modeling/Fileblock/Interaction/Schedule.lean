import Fileblock.Interaction.Threads

/-! Programs on one machine in a given order: schedules that can be computed, and what
holds after every schedule whose moves meet a condition. -/
namespace Interaction
variable {ι C O σ α : Type} {R : C → Type}

/-- A program comes in, goes on by one command, or is cut off for good. -/
inductive Move (ι O : Type) where
  | start (t : ι)
  | go (t : ι) (o : O)
  | cut (t : ι)

def Prog.next : Prog C R α → Option C
  | .ret _ => none
  | .call c _ => some c

def Prog.result : Prog C R α → Option α
  | .ret a => some a
  | .call _ _ => none

namespace Pool

def idle (s : σ) : Pool ι C σ α R := ⟨s, fun _ => none⟩

def next (P : Pool ι C σ α R) (t : ι) : Option C := (P.prog t).bind Prog.next

def result (P : Pool ι C σ α R) (t : ι) : Option α := (P.prog t).bind Prog.result

variable [DecidableEq ι] (exec : O → (c : C) → σ → R c × σ) (main : ι → Prog C R α)

/-- A move that is not possible changes nothing. -/
def move (P : Pool ι C σ α R) : Move ι O → Pool ι C σ α R
  | .start t =>
    match P.prog t with
    | none => P.set t (main t) P.state
    | some _ => P
  | .go t o =>
    match P.prog t with
    | some (.call c k) => P.set t (k (exec o c P.state).1) (exec o c P.state).2
    | _ => P
  | .cut t =>
    match P.prog t with
    | some (.call _ _) => ⟨P.state, Function.update P.prog t none⟩
    | _ => P

def moves (P : Pool ι C σ α R) (ms : List (Move ι O)) : Pool ι C σ α R :=
  ms.foldl (move exec main) P

/-- Every move of the schedule meets the condition where it is made. -/
def Keeps (G : Pool ι C σ α R → Move ι O → Prop) : List (Move ι O) → Pool ι C σ α R → Prop
  | [], _ => True
  | mv :: ms, P => G P mv ∧ Keeps G ms (P.move exec main mv)

variable {exec main} {G : Pool ι C σ α R → Move ι O → Prop} {P : Pool ι C σ α R}

instance Keeps.decidable [∀ P mv, Decidable (G P mv)] : (ms : List (Move ι O)) →
    (P : Pool ι C σ α R) → Decidable (Keeps exec main G ms P)
  | [], _ => .isTrue trivial
  | mv :: ms, P =>
    have := Keeps.decidable ms (P.move exec main mv)
    inferInstanceAs (Decidable (G P mv ∧ Keeps exec main G ms (P.move exec main mv)))

theorem keeps_append {ms ms' : List (Move ι O)} :
    Keeps exec main G (ms ++ ms') P ↔
      Keeps exec main G ms P ∧ Keeps exec main G ms' (P.moves exec main ms) := by
  induction ms generalizing P with
  | nil => exact (iff_of_eq (true_and _)).symm
  | cons mv ms ih =>
    simp only [List.cons_append, Keeps, ih, and_assoc]
    rfl

theorem Keeps.mono {G' : Pool ι C σ α R → Move ι O → Prop} (hG : ∀ P mv, G P mv → G' P mv)
    {ms : List (Move ι O)} (h : Keeps exec main G ms P) : Keeps exec main G' ms P := by
  induction ms generalizing P with
  | nil => trivial
  | cons mv ms ih => exact ⟨hG P mv h.1, ih h.2⟩

/-- What every move keeps holds after every schedule. -/
theorem moves_inv {I : Pool ι C σ α R → Prop}
    (hmove : ∀ P mv, I P → G P mv → I (P.move exec main mv)) {ms : List (Move ι O)}
    (hP : I P) (hms : Keeps exec main G ms P) : I (P.moves exec main ms) := by
  induction ms generalizing P with
  | nil => exact hP
  | cons mv ms ih => exact ih (hmove P mv hP hms.1) hms.2

/-- A move, by what it does. -/
theorem move_inv {I : Pool ι C σ α R → Prop} {mv : Move ι O} (hP : I P)
    (hstart : ∀ t, mv = .start t → P.prog t = none → I (P.set t (main t) P.state))
    (hgo : ∀ t o c k, mv = .go t o → P.prog t = some (.call c k) →
      I (P.set t (k (exec o c P.state).1) (exec o c P.state).2))
    (hcut : ∀ t, mv = .cut t → I ⟨P.state, Function.update P.prog t none⟩) :
    I (P.move exec main mv) := by
  cases mv with
  | start t =>
    cases hp : P.prog t with
    | none => simpa only [move, hp] using hstart t rfl hp
    | some p => simpa only [move, hp] using hP
  | go t o =>
    cases hp : P.prog t with
    | none => simpa only [move, hp] using hP
    | some p =>
      cases p with
      | ret a => simpa only [move, hp] using hP
      | call c k => simpa only [move, hp] using hgo t o c k rfl hp
  | cut t =>
    cases hp : P.prog t with
    | none => simpa only [move, hp] using hP
    | some p =>
      cases p with
      | ret a => simpa only [move, hp] using hP
      | call c k => simpa only [move, hp] using hcut t rfl

theorem move_go {t : ι} {o : O} {c : C} {k : R c → Prog C R α} (hp : P.prog t = some (.call c k)) :
    P.move exec main (.go t o) = P.set t (k (exec o c P.state).1) (exec o c P.state).2 := by
  simp only [move, hp]

theorem move_ret {t : ι} {a : α} (h : P.prog t = some (.ret a)) (mv : Move ι O) :
    (P.move exec main mv).prog t = some (.ret a) := by
  have hne : ∀ {u : ι} {c : C} {k : R c → Prog C R α}, P.prog u = some (.call c k) → t ≠ u := by
    rintro u c k hu rfl
    rw [h] at hu
    cases hu
  cases mv with
  | start u =>
    cases hu : P.prog u with
    | none =>
      have htu : t ≠ u := by
        rintro rfl
        rw [h] at hu
        cases hu
      simpa [move, hu, set, htu] using h
    | some p => simpa only [move, hu] using h
  | go u o =>
    rcases hu : P.prog u with _ | a' | ⟨c, k⟩
    · simpa only [move, hu] using h
    · simpa only [move, hu] using h
    · simpa [move, hu, set, hne hu] using h
  | cut u =>
    rcases hu : P.prog u with _ | a' | ⟨c, k⟩
    · simpa only [move, hu] using h
    · simpa only [move, hu] using h
    · simpa [move, hu, hne hu] using h

theorem moves_ret {t : ι} {a : α} (h : P.prog t = some (.ret a)) (ms : List (Move ι O)) :
    (P.moves exec main ms).prog t = some (.ret a) := by
  induction ms generalizing P with
  | nil => exact h
  | cons mv ms ih => exact ih (move_ret h mv)

theorem cut_prog {t u : ι} {q : Prog C R α} {s : σ}
    (h : (⟨s, Function.update P.prog t none⟩ : Pool ι C σ α R).prog u = some q) :
    P.prog u = some q := by
  by_cases hu : u = t
  · subst hu
    simp at h
  · simpa [hu] using h

theorem next_set {t u : ι} {p : Prog C R α} {s : σ} {c : C} (h : (P.set t p s).next u = some c) :
    u = t ∧ p.next = some c ∨ u ≠ t ∧ P.next u = some c := by
  obtain ⟨q, hq, hc⟩ := Option.bind_eq_some_iff.mp h
  rcases set_prog hq with ⟨rfl, rfl⟩ | ⟨hu, hq⟩
  · exact Or.inl ⟨rfl, hc⟩
  · exact Or.inr ⟨hu, Option.bind_eq_some_iff.mpr ⟨q, hq, hc⟩⟩

theorem next_cut {t u : ι} {s : σ} {c : C}
    (h : (⟨s, Function.update P.prog t none⟩ : Pool ι C σ α R).next u = some c) :
    P.next u = some c := by
  obtain ⟨q, hq, hc⟩ := Option.bind_eq_some_iff.mp h
  exact Option.bind_eq_some_iff.mpr ⟨q, cut_prog hq, hc⟩

@[simp] theorem set_self (t : ι) (p : Prog C R α) (s : σ) : (P.set t p s).prog t = some p := by
  simp [set]

end Pool

/-- A schedule all of whose commands may be executed is one of the interleavings. -/
theorem System.steps_moves [DecidableEq ι] {M : System ι C O σ α R}
    {exec : O → (c : C) → σ → R c × σ} {main : ι → Prog C R α} (hexec : ∀ t o, M.exec t o = exec o)
    (hstart : ∀ t, M.start t (main t)) {ms : List (Move ι O)} {P : Pool ι C σ α R}
    (h : Pool.Keeps exec main (fun P mv => (∀ t, mv ≠ .cut t) ∧
      ∀ t o, mv = .go t o → ∀ c ∈ P.next t, M.enabled t P.state c o) ms P) :
    M.Steps P (P.moves exec main ms) := by
  refine Pool.moves_inv (I := M.Steps P) (fun P' mv hP hg => ?_) .refl h
  refine Pool.move_inv hP ?_ ?_ ?_
  · rintro t rfl hp
    exact hP.tail (.start t _ hp (hstart t))
  · rintro t o c k rfl hp
    have hc : c ∈ P'.next t := by
      rw [Pool.next, hp]
      rfl
    rw [← hexec t o]
    exact hP.tail (.call t c k o hp (hg.2 t o rfl c hc))
  · rintro t rfl
    exact absurd rfl (hg.1 t)

end Interaction
