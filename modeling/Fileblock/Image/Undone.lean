import Fileblock.Image.Created

/-! What a `Create` that fails leaves behind: nothing, unless it failed between making the
file and sizing it. -/
namespace Fileblock.Image
open Go Store Interaction

/-- The same files, with the same sizes and contents. -/
def SameFiles (d d' : Directory) : Prop := ∀ name, d'.files.lookup name = d.files.lookup name

/-- A new file gets a number that no other has. -/
def Directory.Fresh (d : Directory) : Prop := ∀ name f, d.files.lookup name = some f → f.ino < d.next

section Undone
variable (root v : Str) (capacity : ℤ) (unformatted : Bool)

variable {d d' : Directory} {name : Str}

/-- The two differ at most in the file of the given name. -/
def Beside (name : Str) (d d' : Directory) : Prop :=
  ∀ n, n ≠ name → d'.files.lookup n = d.files.lookup n

theorem Beside.mkfs (h : Beside name d d') (o : Choice) :
    Beside name d (exec o (.mkfs name) d').2 := by
  intro n hn
  simp only [exec]
  cases d'.files.lookup name with
  | none => exact h n hn
  | some f => exact (AList.lookup_insert_ne hn).trans (h n hn)

theorem Beside.remove (h : Beside name d d') (hnone : d.files.lookup name = none) {o : Choice}
    (ho : o.fault = none) : SameFiles d (exec o (.remove name) d').2 := by
  intro n
  simp only [exec, ho]
  by_cases hn : n = name
  · subst hn
    rw [AList.lookup_erase, hnone]
  · rw [AList.lookup_erase_ne hn]
    exact h n hn

theorem beside_sized (hd : d.Fresh) (hnone : d.files.lookup name = none) (size : ℤ) :
    Beside name d (setSize (openFile name d).1 size (openFile name d).2) := by
  intro n hn
  unfold openFile setSize
  rw [hnone]
  dsimp only
  rw [StrMap.lookup_mapValues, AList.lookup_insert_ne hn]
  cases hf : d.files.lookup n with
  | none => rfl
  | some f =>
    have hne : f.ino ≠ d.next := Nat.ne_of_lt (hd n f hf)
    rw [Option.map_some, if_neg hne]

theorem finishing_undone (hbeside : Beside (imageFile v) d d')
    (hnone : d.files.lookup (imageFile v) = none) {o : ℕ → Choice}
    (hremove : ∀ e ∈ (finishing root v capacity unformatted).events exec o d',
      e.cmd = .remove (imageFile v) → e.choice.fault = none)
    (herr : ∃ e, ((finishing root v capacity unformatted).eval exec o d').1 = .error e) :
    SameFiles d ((finishing root v capacity unformatted).eval exec o d').2 := by
  cases unformatted with
  | true =>
    obtain ⟨e, he⟩ := herr
    cases he
  | false =>
    have hmkfs := hbeside.mkfs (o 0)
    change ∀ e ∈ (formatting root v capacity).events exec o d', _ at hremove
    change SameFiles d ((formatting root v capacity).eval exec o d').2
    obtain ⟨e, he⟩ := herr
    change ((formatting root v capacity).eval exec o d').1 = _ at he
    unfold formatting at hremove he ⊢
    simp only [Prog.events, Prog.eval] at hremove he ⊢
    cases hr : (exec (o 0) (.mkfs (imageFile v)) d').1 with
    | ok _ =>
      rw [hr] at he
      cases he
    | error e' =>
      rw [hr] at hremove
      apply hmkfs.remove hnone
      exact hremove _ (List.mem_cons_of_mem _ List.mem_cons_self) rfl

theorem finishing_sized {o : ℕ → Choice} {e : Event Cmd Choice Directory}
    (he : e ∈ (finishing root v capacity unformatted).events exec o d') (ino : ℕ) (size : ℤ) :
    e.cmd ≠ .truncate ino size := by
  have hall : (finishing root v capacity unformatted).All fun c => c ≠ .truncate ino size := by
    cases unformatted with
    | true => trivial
    | false =>
      refine ⟨by simp, ?_⟩
      intro r
      cases r with
      | ok _ => trivial
      | error e => exact ⟨by simp, fun _ => trivial⟩
  exact hall.events he

/-- Neither an error nor a negative size meets a `truncate` of the run. -/
def Sizes (o : ℕ → Choice) (p : Run (Except CreateError Metadata)) (d : Directory) : Prop :=
  ∀ e ∈ p.events exec o d, ∀ ino size, e.cmd = .truncate ino size →
    e.choice.fault = none ∧ 0 ≤ size

/-- No removal of the image fails. -/
def Removes (v : Str) (o : ℕ → Choice) (p : Run (Except CreateError Metadata)) (d : Directory) :
    Prop :=
  ∀ e ∈ p.events exec o d, e.cmd = .remove (imageFile v) → e.choice.fault = none

/-- A run that fails leaves the files of `d₀`. -/
def Undoes (d₀ : Directory) (o : ℕ → Choice) (p : Run (Except CreateError Metadata))
    (d : Directory) : Prop :=
  (∃ e, (p.eval exec o d).1 = .error e) → SameFiles d₀ (p.eval exec o d).2

section Rules
variable {o : ℕ → Choice} {c : Cmd} {k : Resp c → Run (Except CreateError Metadata)}

theorem sizes_call : Sizes o (.call c k) d ↔
    (∀ ino size, c = .truncate ino size → (o 0).fault = none ∧ 0 ≤ size) ∧
      Sizes (fun i => o (i + 1)) (k (exec (o 0) c d).1) (exec (o 0) c d).2 := by
  unfold Sizes
  rw [Prog.events, List.forall_mem_cons]

theorem sizes_other (hc : ∀ ino size, c ≠ .truncate ino size) : Sizes o (.call c k) d ↔
    Sizes (fun i => o (i + 1)) (k (exec (o 0) c d).1) (exec (o 0) c d).2 := by
  rw [sizes_call]
  exact and_iff_right fun ino size h => absurd h (hc ino size)

theorem undoes_call {d₀ : Directory} : Undoes d₀ o (.call c k) d ↔
    Undoes d₀ (fun i => o (i + 1)) (k (exec (o 0) c d).1) (exec (o 0) c d).2 := Iff.rfl

theorem Removes.tail (h : Removes v o (.call c k) d) :
    Removes v (fun i => o (i + 1)) (k (exec (o 0) c d).1) (exec (o 0) c d).2 :=
  fun e he => h e (List.mem_cons_of_mem _ he)

theorem undoes_ret_iff (r : Except CreateError Metadata) : Undoes d o (.ret r) d ↔
    Sizes o (.ret r) d :=
  ⟨fun _ _ he => absurd he List.not_mem_nil, fun _ _ _ => rfl⟩

end Rules

variable {root v capacity unformatted} {o : ℕ → Choice}

theorem undoes_sizing_iff (hd : d.Fresh) (hnone : d.files.lookup (imageFile v) = none)
    (hremove : Removes v o (sizing root v capacity unformatted (openFile (imageFile v) d).1)
      (openFile (imageFile v) d).2) :
    Undoes d o (sizing root v capacity unformatted (openFile (imageFile v) d).1)
        (openFile (imageFile v) d).2 ↔
      Sizes o (sizing root v capacity unformatted (openFile (imageFile v) d).1)
        (openFile (imageFile v) d).2 := by
  have hleft : ¬SameFiles d (openFile (imageFile v) d).2 := by
    intro h
    have hf := h (imageFile v)
    unfold openFile at hf
    rw [hnone] at hf
    dsimp only at hf
    rw [AList.lookup_insert] at hf
    cases hf
  unfold sizing at hremove ⊢
  by_cases hok : (o 0).fault = none ∧ 0 ≤ alignUp capacity
  · have hexec : exec (o 0) (.truncate (openFile (imageFile v) d).1 (alignUp capacity))
        (openFile (imageFile v) d).2 =
          (.ok (), setSize (openFile (imageFile v) d).1 (alignUp capacity)
            (openFile (imageFile v) d).2) := by
      simp only [exec, hok.1]
      rw [if_neg (by omega)]
    have htail := hremove.tail
    rw [sizes_call]
    unfold Undoes
    simp only [Prog.eval, hexec] at htail ⊢
    constructor
    · intro _
      refine ⟨?_, ?_⟩
      · intro ino size h
        cases h
        exact hok
      · intro e he ino size h
        exact absurd h (finishing_sized _ _ _ _ he ino size)
    · intro _ herr
      exact finishing_undone _ _ _ _ (beside_sized hd hnone _) hnone htail herr
  · have hexec : ∃ e, exec (o 0) (.truncate (openFile (imageFile v) d).1 (alignUp capacity))
        (openFile (imageFile v) d).2 = (.error e, (openFile (imageFile v) d).2) := by
      simp only [exec]
      cases hf : (o 0).fault with
      | some e => exact ⟨e, rfl⟩
      | none =>
        rw [if_pos (by
          by_contra hneg
          exact hok ⟨hf, by omega⟩)]
        exact ⟨_, rfl⟩
    obtain ⟨e, hexec⟩ := hexec
    rw [sizes_call]
    constructor
    · intro h
      have hsame := h (by simp only [Prog.eval, hexec]; exact ⟨_, rfl⟩)
      simp only [Prog.eval, hexec] at hsame
      exact absurd hsame hleft
    · intro h
      exact absurd (h.1 _ _ rfl) hok

theorem undoes_opening_iff (hd : d.Fresh) (hnone : d.files.lookup (imageFile v) = none)
    (hremove : Removes v o (making root v capacity unformatted) d) :
    Undoes d o (making root v capacity unformatted) d ↔
      Sizes o (making root v capacity unformatted) d := by
  unfold making at hremove ⊢
  have htail := hremove.tail
  rw [sizes_other (by simp), undoes_call]
  simp only [exec] at htail ⊢
  cases hf : (o 0).fault with
  | some e => exact undoes_ret_iff _
  | none =>
    rw [hf] at htail
    exact undoes_sizing_iff hd hnone htail

/-- A `Create` that fails leaves the directory as it was exactly when its `truncate`, if it
gets there, does not fail. -/
theorem create_undone_iff (hd : d.Fresh)
    (hremove : Removes v o (create root v capacity unformatted).run d) :
    Undoes d o (create root v capacity unformatted).run d ↔
      Sizes o (create root v capacity unformatted).run d := by
  rcases create_cases root v capacity unformatted with ⟨e, h⟩ | ⟨-, h⟩
  · rw [h]
    exact undoes_ret_iff _
  · rw [h] at hremove ⊢
    have htail := hremove.tail
    have hexec : exec (o 0) (.stat (imageFile v)) d =
        (answer (o 0) ((d.files.lookup (imageFile v)).map File.size), d) := rfl
    rw [sizes_other (by simp), undoes_call]
    rw [hexec] at htail ⊢
    unfold answer at htail ⊢
    cases hf : (o 0).fault with
    | some e => exact undoes_ret_iff _
    | none =>
      rw [hf] at htail
      cases hl : d.files.lookup (imageFile v) with
      | some f => exact undoes_ret_iff _
      | none =>
        rw [hl] at htail
        exact undoes_opening_iff hd hl htail

end Undone

section Examples

def failAt (n i : ℕ) : Choice := ⟨if i = n then some (.sys "failed") else none, true, []⟩

theorem oneImage_fresh (v : Str) : (oneImage v).Fresh := by
  intro name f h
  have hmem := AList.mem_lookup_iff.mp (Option.mem_def.mpr h)
  cases List.mem_singleton.mp hmem
  exact Nat.zero_lt_one

theorem create_undone_mkfs :
    (∃ e, ((create ['/', 's'] ['b'] 8192 false).run.eval exec (failAt 3)
        (oneImage ['a'])).1 = .error e) ∧
      SameFiles (oneImage ['a'])
        ((create ['/', 's'] ['b'] 8192 false).run.eval exec (failAt 3) (oneImage ['a'])).2 := by
  have hremove : Removes ['b'] (failAt 3) (create ['/', 's'] ['b'] 8192 false).run
      (oneImage ['a']) := by
    intro e he hc
    change e ∈ [_, _, _, _, _] at he
    fin_cases he <;> first | rfl | cases hc
  have hsizes : Sizes (failAt 3) (create ['/', 's'] ['b'] 8192 false).run (oneImage ['a']) := by
    intro e he ino size hc
    change e ∈ [_, _, _, _, _] at he
    fin_cases he <;> cases hc
    exact ⟨rfl, by decide⟩
  exact ⟨⟨_, rfl⟩, (create_undone_iff (oneImage_fresh ['a']) hremove).mpr hsizes ⟨_, rfl⟩⟩

/-- The `truncate` fails, and its empty file stays. -/
theorem create_left_behind :
    (oneImage ['a']).Fresh ∧
      Removes ['b'] (failAt 2) (create ['/', 's'] ['b'] 8192 false).run (oneImage ['a']) ∧
      (∃ e, ((create ['/', 's'] ['b'] 8192 false).run.eval exec (failAt 2)
        (oneImage ['a'])).1 = .error e) ∧
      ((create ['/', 's'] ['b'] 8192 false).run.eval exec (failAt 2) (oneImage ['a'])).2.files.lookup
        (imageFile ['b']) = some ⟨1, 0, false⟩ ∧
      ¬SameFiles (oneImage ['a'])
        ((create ['/', 's'] ['b'] 8192 false).run.eval exec (failAt 2) (oneImage ['a'])).2 := by
  refine ⟨oneImage_fresh ['a'], ?_, ⟨_, rfl⟩, rfl, ?_⟩
  · intro e he hc
    change e ∈ [_, _, _] at he
    fin_cases he <;> cases hc
  · intro h
    cases h (imageFile ['b'])

end Examples
end Fileblock.Image
