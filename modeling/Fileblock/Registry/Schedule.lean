import Fileblock.Registry.GetSpec

/-! Schedules: runs of the registry that can be computed. -/
namespace Fileblock.Registry
open Go Store Interaction

/-- The registry's state and what is left of each call. -/
abbrev Calls := Pool Caller Cmd State (Except Err Str) Resp

/-- A call comes in or goes on, or a check answers. -/
inductive Move where
  | get (t : Caller) (cfg : Config)
  | go (t : Caller) (o : Choice)
  | answer (m : Str) (ch : ℕ) (r : CheckRes)

instance (t : Caller) (s : State) (c : Cmd) (o : Choice) : Decidable (Enabled t s c o) :=
  match c with
  | .lock m => inferInstanceAs (Decidable (s.holder m = none))
  | .await m ch => inferInstanceAs (Decidable (o.timeout = true ∨ (s.chan m ch).answer ≠ none))
  | .unlock _ | .cached _ | .openSlot _ | .poll .. | .start .. | .clearCheck _ | .evict ..
  | .mkdirAll _ | .mount .. | .putMounted .. | .seen _ | .putStore .. => isTrue trivial

def Move.apply (W : Setup) (P : Calls) : Move → Option Calls
  | .get t cfg => if (P.prog t).isNone then some (P.set t (Registry.get W cfg) P.state) else none
  | .go t o =>
    match P.prog t with
    | some (.call c k) =>
      if Enabled t P.state c o then
        some (P.set t (k (exec t o c P.state).1) (exec t o c P.state).2)
      else none
    | _ => none
  | .answer m ch r =>
    if (P.state.chan m ch).running then some ⟨P.state.answer m ch r, P.prog⟩ else none

def schedule (W : Setup) (moves : List Move) (P : Calls) : Option Calls :=
  moves.foldlM (Move.apply W) P

section
variable {W : Setup} {K : Set Config} {answers : State → Str → ℕ → CheckRes → Prop}
  {loses : Str → Prop} {P P' : Calls}

def Move.Allowed (W : Setup) (K : Set Config) (answers : State → Str → ℕ → CheckRes → Prop) :
    Move → Prop
  | .get t cfg => cfg ∈ K ∧ t.mountID = cfg.mountID W.hash
  | .go _ _ => True
  | .answer m ch r => ∀ s, answers s m ch r

theorem Move.step {mv : Move} (hm : mv.Allowed W K answers) (h : mv.apply W P = some P') :
    (system W K answers loses).Step P P' := by
  cases mv with
  | get t cfg =>
    simp only [apply] at h
    split_ifs at h with hfree
    obtain rfl := Option.some.inj h
    refine .start t (Registry.get W cfg) (Option.isNone_iff_eq_none.mp hfree) ?_
    exact ⟨cfg, hm.1, rfl, hm.2⟩
  | go t o =>
    simp only [apply] at h
    split at h
    · next c k hp =>
      split_ifs at h with hen
      obtain rfl := Option.some.inj h
      exact .call t c k o hp hen
    · cases h
  | answer m ch r =>
    simp only [apply] at h
    split_ifs at h with hrun
    obtain rfl := Option.some.inj h
    exact .env _ (Or.inl ⟨m, ch, r, hrun, hm _, rfl⟩)

theorem steps_of_schedule {moves : List Move} (hm : ∀ mv ∈ moves, mv.Allowed W K answers)
    (h : schedule W moves P = some P') : (system W K answers loses).Steps P P' := by
  induction moves generalizing P with
  | nil =>
    obtain rfl := Option.some.inj h
    exact .refl
  | cons mv moves ih =>
    unfold schedule at h
    rw [List.foldlM_cons] at h
    obtain ⟨Q, hq, hrest⟩ := Option.bind_eq_some_iff.mp h
    exact .head (Move.step (hm mv List.mem_cons_self) hq)
      (ih (fun m' hm' => hm m' (List.mem_cons_of_mem _ hm')) hrest)

end

/-! A small site: one export, one store on it. -/

def zeros : Str := List.replicate 12 '0'

def smallSite : Setup where
  root := "/s".toList
  hash _ := zeros
  hash_length _ := rfl
  hash_hex _ c hc := by
    rw [List.eq_of_mem_replicate hc]
    rfl
  nfs := true
  localDir := false
  checker := true

def team : Config := .nfs ['a'] ['b'] [] ['c']

theorem orderly_team : Orderly smallSite {team} := by
  refine ⟨?_, ?_⟩
  · intro c hc
    obtain rfl := Set.mem_singleton_iff.mp hc
    refine ⟨[['c']], ?_, rfl⟩
    simpa using ⟨by simp, by simp, by simp, by simp⟩
  · intro c hc c' hc' _
    rw [Set.mem_singleton_iff.mp hc, Set.mem_singleton_iff.mp hc']

/-- The `n`th call, and `k` commands of it that go well. -/
def caller (n : ℕ) : Caller := ⟨n, zeros⟩

def goes (n k : ℕ) : List Move := List.replicate k (.go (caller n) ⟨none, false⟩)

/-- A call for the store, run for `k` commands. -/
def calls (n k : ℕ) : List Move := .get (caller n) team :: goes n k

theorem calls_allowed {answers : State → Str → ℕ → CheckRes → Prop} {n k : ℕ} {mv : Move}
    (h : mv ∈ calls n k) : mv.Allowed smallSite {team} answers := by
  rcases List.mem_cons.mp h with rfl | h
  · exact ⟨rfl, rfl⟩
  · obtain rfl := List.eq_of_mem_replicate h
    trivial

end Fileblock.Registry
