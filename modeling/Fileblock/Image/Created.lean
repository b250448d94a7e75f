import Fileblock.Image.Manager
import Fileblock.Interaction.Schedule

/-! Calls of `Create` for one volume, in any interleaving of their steps and cut off
anywhere. An image is adopted by its size alone, whether or not its `mkfs` is over. -/
namespace Fileblock.Image
open Go Store Interaction

section Creating
variable (root v : Str) (capacity : ℤ)

abbrev Calls := Pool ℕ Cmd Directory (Except CreateError Metadata) Resp

/-- Every call is for the same volume, with a filesystem and of one capacity. -/
def main (_ : ℕ) : Run (Except CreateError Metadata) := (create root v capacity false).run

abbrev step (P : Calls) (mv : Move ℕ Choice) : Calls := P.move exec (main root v capacity) mv

abbrev steps (P : Calls) (ms : List (Move ℕ Choice)) : Calls := P.moves exec (main root v capacity) ms

def image (P : Calls) : Option File := P.state.files.lookup (imageFile v)

/-- The commands of a call that has found no image. -/
def makes : Cmd → Bool
  | .openFile _ | .truncate .. | .mkfs _ | .remove _ => true
  | _ => false

/-- The call has found no image, and is not over. -/
def Making (P : Calls) (t : ℕ) : Prop := ∃ c, P.next t = some c ∧ makes c = true

/-- Nobody looks for the image while another call is making it; a call is not cut off
between its `truncate` and the end of its `mkfs`, or of the removal after that; and this
removal does not fail. -/
def Careful (P : Calls) (mv : Move ℕ Choice) : Prop :=
  match mv with
  | .start _ => True
  | .go t o => (P.next t = some (.stat (imageFile v)) → ∀ u, u ≠ t → ¬ Making P u) ∧
      (P.next t = some (.remove (imageFile v)) → o.fault = none)
  | .cut t => P.next t ≠ some (.mkfs (imageFile v)) ∧ P.next t ≠ some (.remove (imageFile v))

theorem main_cases (t : ℕ) : (∃ e, main root v capacity t = .ret (.error e)) ∨ 0 < capacity ∧
    main root v capacity t = .call (.stat (imageFile v)) (looked root v capacity false) :=
  create_cases root v capacity false

/-- What may be left of a call, by what there is of the image. -/
inductive Stage (img : Option File) : Run (Except CreateError Metadata) → Prop
  | fresh (t : ℕ) : Stage img (main root v capacity t)
  | opening : 0 < capacity → img = none → Stage img (making root v capacity false)
  | sizing {f : File} : 0 < capacity → img = some f → f.size = 0 → f.formatted = false →
      Stage img (sizing root v capacity false f.ino)
  | formatting {f : File} : img = some f → f.formatted = false → Stage img (formatting root v capacity)
  | removing {f : File} (e : CreateError) : img = some f → f.formatted = false →
      Stage img (removing v e)
  | failed (e : CreateError) : Stage img (.ret (.error e))
  | done {f : File} (found : Metadata) : img = some f → f.formatted = true →
      Stage img (.ret (.ok found))

def Unfinished (img : Option File) : Prop := ∀ f, img = some f → f.formatted = false

/-- An image that would be adopted has a filesystem. -/
def Settled (img : Option File) : Prop :=
  ∀ f, img = some f → f.formatted = true ∨ f.size ≠ alignUp capacity ∧ f.size ≠ capacity

/-- Every call is at one of its stages, at most one is making the image, and otherwise it
can be adopted. -/
structure Usable (P : Calls) : Prop where
  stage : ∀ t p, P.prog t = some p → Stage root v capacity (image v P) p
  alone : ∀ t u, Making P t → Making P u → t = u
  settled : (∀ t, ¬ Making P t) → Settled capacity (image v P)

variable {root v capacity} {P : Calls} {t : ℕ} {img : Option File}
  {p : Run (Except CreateError Metadata)}

/-- A call that makes nothing does not mind what becomes of an unfinished image. -/
theorem Stage.bystander (h : Stage root v capacity img p) (hu : Unfinished img)
    (hp : ∀ c, p.next = some c → makes c = false) (img' : Option File) :
    Stage root v capacity img' p := by
  cases h with
  | fresh t => exact .fresh t
  | failed e => exact .failed e
  | done found hf hfin =>
    rw [hu _ hf] at hfin
    cases hfin
  | opening | sizing | formatting | removing => cases hp _ rfl

theorem Usable.set (h : Usable root v capacity P) {q : Run (Except CreateError Metadata)}
    {d : Directory} (hother : ∀ u, u ≠ t → ¬ Making P u)
    (hq : Stage root v capacity (d.files.lookup (imageFile v)) q)
    (hkeep : d.files.lookup (imageFile v) = image v P ∨ Unfinished (image v P))
    (hset : (∀ c, q.next = some c → makes c = false) →
      Settled capacity (d.files.lookup (imageFile v))) :
    Usable root v capacity (P.set t q d) := by
  refine ⟨?_, ?_, ?_⟩
  · intro u p hu
    rcases Pool.set_prog hu with ⟨rfl, rfl⟩ | ⟨hne, hu⟩
    · exact hq
    · rcases hkeep with hk | hk
      · change Stage root v capacity (d.files.lookup (imageFile v)) p
        rw [hk]
        exact h.stage u p hu
      · refine (h.stage u p hu).bystander hk ?_ _
        intro c hc
        by_contra hm
        exact hother u hne ⟨c, by simp [Pool.next, hu, hc], by simpa using hm⟩
  · have hone : ∀ u, Making (P.set t q d) u → u = t := by
      rintro u ⟨c, hu, hc⟩
      rcases Pool.next_set hu with ⟨rfl, -⟩ | ⟨hne, hu⟩
      · rfl
      · exact absurd ⟨c, hu, hc⟩ (hother u hne)
    intro u u' hu hu'
    rw [hone u hu, hone u' hu']
  · intro hno
    refine hset fun c hc => ?_
    by_contra hm
    exact hno t ⟨c, by simp [Pool.next, hc], by simpa using hm⟩

theorem main_next {c : Cmd} (h : (main root v capacity t).next = some c) : makes c = false := by
  rcases main_cases root v capacity t with ⟨e, hm⟩ | ⟨-, hm⟩
  · rw [hm] at h
    cases h
  · rw [hm] at h
    obtain rfl := Option.some.inj h
    rfl

theorem Usable.start (h : Usable root v capacity P) (hfree : P.prog t = none) :
    Usable root v capacity (P.set t (main root v capacity t) P.state) := by
  have hold : ∀ u, Making (P.set t (main root v capacity t) P.state) u ↔ Making P u := by
    intro u
    constructor
    · rintro ⟨c, hu, hc⟩
      rcases Pool.next_set hu with ⟨rfl, hu⟩ | ⟨-, hu⟩
      · rw [main_next hu] at hc
        cases hc
      · exact ⟨c, hu, hc⟩
    · rintro ⟨c, hu, hc⟩
      have hne : u ≠ t := by
        rintro rfl
        simp [Pool.next, hfree] at hu
      exact ⟨c, by simpa [Pool.next, Pool.set, hne] using hu, hc⟩
  refine ⟨?_, ?_, ?_⟩
  · intro u p hu
    rcases Pool.set_prog hu with ⟨rfl, rfl⟩ | ⟨-, hu⟩
    · exact .fresh u
    · exact h.stage u p hu
  · intro u u' hu hu'
    exact h.alone u u' ((hold u).mp hu) ((hold u').mp hu')
  · intro hno
    exact h.settled fun u hu => hno u ((hold u).mpr hu)

theorem Usable.look (h : Usable root v capacity P) (hpos : 0 < capacity)
    (hnext : P.next t = some (.stat (imageFile v))) (hother : ∀ u, u ≠ t → ¬ Making P u)
    (o : Choice) : Usable root v capacity
      (P.set t (looked root v capacity false (answer o ((image v P).map File.size))) P.state) := by
  have hset : Settled capacity (image v P) := by
    apply h.settled
    rintro u ⟨c, hu, hc⟩
    by_cases hut : u = t
    · subst hut
      obtain rfl := Option.some.inj (hnext.symm.trans hu)
      cases hc
    · exact hother u hut ⟨c, hu, hc⟩
  refine h.set hother ?_ (Or.inl rfl) fun _ => hset
  change Stage root v capacity (image v P) _
  unfold answer
  cases o.fault with
  | some e => exact .failed _
  | none =>
    cases hi : image v P with
    | none => exact .opening hpos rfl
    | some f =>
      simp only [Option.map_some, looked, adopted]
      split_ifs with hm
      · exact .failed _
      · exact .done _ rfl ((hset f hi).resolve_right hm)

theorem settled_none : Settled capacity none := by
  intro f hf
  cases hf

theorem settled_zero (hpos : 0 < capacity) (hcap : capacity < 2 ^ 63) {f : File}
    (hf : f.size = 0) : Settled capacity (some f) := by
  intro g hg
  obtain rfl := Option.some.inj hg
  rw [hf]
  exact Or.inr ⟨(alignUp_ne_zero hpos hcap).symm, by omega⟩

theorem unfinished_some {f : File} (hf : f.formatted = false) : Unfinished (some f) := by
  intro g hg
  obtain rfl := Option.some.inj hg
  exact hf

theorem Usable.go (h : Usable root v capacity P) (hcap : capacity < 2 ^ 63) {o : Choice}
    (hcare : Careful v P (.go t o)) {c : Cmd} {k : Resp c → Run (Except CreateError Metadata)}
    (hp : P.prog t = some (.call c k)) :
    Usable root v capacity (P.set t (k (exec o c P.state).1) (exec o c P.state).2) := by
  have hnext : P.next t = some c := by simp [Pool.next, hp, Prog.next]
  have hother : makes c = true → ∀ u, u ≠ t → ¬ Making P u :=
    fun hc u hne hu => hne (h.alone u t hu ⟨c, hnext, hc⟩)
  have hstage := h.stage t _ hp
  generalize hq : Prog.call c k = p at hstage
  cases hstage with
  | failed e => cases hq
  | done => cases hq
  | fresh t' =>
    rcases main_cases root v capacity t' with ⟨e, hm⟩ | ⟨hpos, hm⟩
    · rw [hm] at hq
      cases hq
    · rw [hm] at hq
      cases hq
      exact h.look hpos hnext (hcare.1 hnext) o
  | opening hpos himg =>
    cases hq
    have himg' : P.state.files.lookup (imageFile v) = none := himg
    have hun : Unfinished (image v P) := fun f hf => by rw [himg] at hf; cases hf
    cases ho : o.fault with
    | some e =>
      simp only [exec, ho]
      exact h.set (hother rfl) (.failed _) (Or.inl rfl) fun _ => himg' ▸ settled_none
    | none =>
      simp only [exec, ho, openFile, himg']
      refine h.set (hother rfl) (.sizing (f := ⟨P.state.next, 0, false⟩) hpos ?_ rfl rfl)
        (Or.inr hun) fun hm => ?_
      · simp
      · cases hm _ rfl
  | @sizing f hpos himg hzero hfin =>
    cases hq
    have himg' : P.state.files.lookup (imageFile v) = some f := himg
    have hun : Unfinished (image v P) := himg ▸ unfinished_some hfin
    have hjunk : Settled capacity (P.state.files.lookup (imageFile v)) :=
      himg' ▸ settled_zero hpos hcap hzero
    cases ho : o.fault with
    | some e =>
      simp only [exec, ho]
      exact h.set (hother rfl) (.failed _) (Or.inl rfl) fun _ => hjunk
    | none =>
      by_cases hneg : alignUp capacity < 0
      · simp only [exec, ho, if_pos hneg]
        exact h.set (hother rfl) (.failed _) (Or.inl rfl) fun _ => hjunk
      · simp only [exec, ho, if_neg hneg]
        refine h.set (hother rfl) (.formatting (f := { f with size := alignUp capacity }) ?_ hfin)
          (Or.inr hun) fun hm => ?_
        · rw [setSize, StrMap.lookup_mapValues, himg', Option.map_some, if_pos rfl]
        · cases hm _ rfl
  | @formatting f himg hfin =>
    cases hq
    have himg' : P.state.files.lookup (imageFile v) = some f := himg
    have hun : Unfinished (image v P) := himg ▸ unfinished_some hfin
    cases ho : o.fault with
    | some e =>
      simp only [exec, ho, himg', answer]
      refine h.set (hother rfl) (.removing (f := { f with formatted := false }) _ ?_ rfl)
        (Or.inr hun) fun hm => ?_
      · simp
      · cases hm _ rfl
    | none =>
      simp only [exec, ho, himg', answer]
      refine h.set (hother rfl) (.done (f := { f with formatted := true }) _ ?_ rfl)
        (Or.inr hun) fun _ g hg => ?_
      · simp
      · rw [AList.lookup_insert] at hg
        obtain rfl := Option.some.inj hg
        exact Or.inl rfl
  | @removing f e himg hfin =>
    cases hq
    have hun : Unfinished (image v P) := himg ▸ unfinished_some hfin
    have ho := hcare.2 hnext
    simp only [exec, ho]
    refine h.set (hother rfl) (.failed _) (Or.inr hun) fun _ g hg => ?_
    rw [AList.lookup_erase] at hg
    cases hg

theorem Usable.cut (h : Usable root v capacity P) (hcap : capacity < 2 ^ 63)
    (hcare : Careful v P (.cut t)) :
    Usable root v capacity ⟨P.state, Function.update P.prog t none⟩ := by
  have hold : ∀ u, Making (⟨P.state, Function.update P.prog t none⟩ : Calls) u → Making P u :=
    fun u ⟨c, hu, hc⟩ => ⟨c, Pool.next_cut hu, hc⟩
  refine ⟨fun u p hu => h.stage u p (Pool.cut_prog hu), ?_, ?_⟩
  · intro u u' hu hu'
    exact h.alone u u' (hold u hu) (hold u' hu')
  · intro hno
    change Settled capacity (image v P)
    by_cases ht : Making P t
    · -- only a call before its `truncate` may be cut off while it is making the image
      obtain ⟨c, hc, hm⟩ := ht
      obtain ⟨p, hp, hpc⟩ := Option.bind_eq_some_iff.mp hc
      cases h.stage t p hp with
      | fresh =>
        rw [main_next hpc] at hm
        cases hm
      | opening _ himg => exact himg ▸ settled_none
      | sizing hpos himg hzero => exact himg ▸ settled_zero hpos hcap hzero
      | formatting => exact absurd (hc.trans hpc.symm) hcare.1
      | removing => exact absurd (hc.trans hpc.symm) hcare.2
      | failed => cases hpc
      | done => cases hpc
    · apply h.settled
      rintro u ⟨c, hu, hc⟩
      have hne : u ≠ t := by
        rintro rfl
        exact ht ⟨c, hu, hc⟩
      exact hno u ⟨c, by simpa [Pool.next, hne] using hu, hc⟩

theorem Usable.step (h : Usable root v capacity P) (hcap : capacity < 2 ^ 63)
    {mv : Move ℕ Choice} (hcare : Careful v P mv) :
    Usable root v capacity (Image.step root v capacity P mv) := by
  refine Pool.move_inv h ?_ ?_ ?_
  · intro t _ hfree
    exact h.start hfree
  · rintro t o c k rfl hp
    exact h.go hcap hcare hp
  · rintro t rfl
    exact h.cut hcap hcare

theorem usable_idle {d : Directory} (hd : ∀ f, d.files.lookup (imageFile v) = some f →
    f.formatted = true) : Usable root v capacity (Pool.idle d) := by
  refine ⟨?_, ?_, fun _ f hf => Or.inl (hd f hf)⟩
  · intro t p hp
    cases hp
  · rintro t u ⟨c, hc, -⟩
    cases hc

theorem Stage.result {found : Metadata} (h : Stage root v capacity img (.ret (.ok found))) :
    ∃ f, img = some f ∧ f.formatted = true := by
  generalize hq : Prog.ret (Except.ok found) = p at h
  cases h with
  | fresh t =>
    rcases main_cases root v capacity t with ⟨e, hm⟩ | ⟨-, hm⟩ <;> rw [hm] at hq <;> cases hq
  | opening | sizing | formatting | removing | failed => cases hq
  | @done f _ himg hfin => exact ⟨f, himg, hfin⟩

/-- A volume that was reported created has an image with a filesystem, then and ever
after, as long as the calls are careful. -/
theorem created_usable (hcap : capacity < 2 ^ 63) {d : Directory}
    (hd : ∀ f, d.files.lookup (imageFile v) = some f → f.formatted = true)
    (ms later : List (Move ℕ Choice))
    (hms : Pool.Keeps exec (main root v capacity) (Careful v) (ms ++ later) (Pool.idle d))
    {found : Metadata}
    (ht : (steps root v capacity (Pool.idle d) ms).prog t = some (.ret (.ok found))) :
    ∃ f, image v (steps root v capacity (Pool.idle d) (ms ++ later)) = some f ∧
      f.formatted = true := by
  have hP := Pool.moves_inv (I := Usable root v capacity)
    (fun P mv hP hG => hP.step hcap hG) (usable_idle hd) hms
  have ht' : (steps root v capacity (Pool.idle d) (ms ++ later)).prog t =
      some (.ret (.ok found)) := by
    rw [steps, Pool.moves, List.foldl_append]
    exact Pool.moves_ret ht later
  exact (hP.stage t _ ht').result

theorem keeps_of_one {ms : List (Move ℕ Choice)}
    (hms : ∀ mv ∈ ms, mv = .start t ∨ ∃ o, mv = .go t o ∧ o.fault = none)
    (hP : ∀ u, u ≠ t → P.prog u = none) :
    Pool.Keeps exec (main root v capacity) (Careful v) ms P := by
  induction ms generalizing P with
  | nil => trivial
  | cons mv ms ih =>
    have hset : ∀ {p d}, ∀ u, u ≠ t → (P.set t p d).prog u = none := by
      intro p d u hu
      simpa [Pool.set, hu] using hP u hu
    have hrest : ∀ P' : Calls, (∀ u, u ≠ t → P'.prog u = none) → _ :=
      fun P' => ih (P := P') fun mv hmv => hms mv (List.mem_cons_of_mem _ hmv)
    rcases hms mv List.mem_cons_self with rfl | ⟨o, rfl, ho⟩
    · refine ⟨trivial, hrest _ (Pool.move_inv (I := fun P => ∀ u, u ≠ t → P.prog u = none)
        hP ?_ ?_ ?_)⟩
      · rintro u he -
        cases he
        exact hset
      · rintro u o c k ⟨⟩
      · rintro u ⟨⟩
    · refine ⟨⟨?_, fun _ => ho⟩, hrest _ (Pool.move_inv (I := fun P => ∀ u, u ≠ t → P.prog u = none)
        hP ?_ ?_ ?_)⟩
      · rintro - u hu ⟨c, hc, -⟩
        simp [Pool.next, hP u hu] at hc
      · rintro u ⟨⟩
      · rintro u o c k he -
        cases he
        exact hset
      · rintro u ⟨⟩

end Creating

section Examples

def killed : Choice := ⟨some (.sys "signal: killed"), true, []⟩

def emptyDirectory : Directory := ⟨∅, 0⟩

def oneCall : List (Move ℕ Choice) :=
  [.start 0, .go 0 plainly, .go 0 plainly, .go 0 plainly, .go 0 plainly]

theorem created_usable_alone : ∃ f, image ['v'] (steps ['/'] ['v'] 5000 (Pool.idle emptyDirectory)
    (oneCall ++ [])) = some f ∧ f.formatted = true := by
  have hdone : (steps ['/'] ['v'] 5000 (Pool.idle emptyDirectory) oneCall).prog 0 =
      some (.ret (.ok ⟨['v'], 8192⟩)) := rfl
  refine created_usable (by decide) (fun f hf => by cases hf) oneCall []
    (keeps_of_one (t := 0) ?_ fun _ _ => rfl) hdone
  intro mv hmv
  have hcases : mv = .start 0 ∨ mv = .go 0 plainly := by simpa [oneCall] using hmv
  rcases hcases with rfl | rfl
  · exact Or.inl rfl
  · exact Or.inr ⟨plainly, rfl, rfl⟩

/-- The second call comes between the `truncate` and the `mkfs` of the first. -/
def retriedEarly : List (Move ℕ Choice) :=
  [.start 0, .go 0 plainly, .go 0 plainly, .go 0 plainly, .start 1, .go 1 plainly]

/-- It reports an image without a filesystem, which the first call then removes. -/
theorem created_then_removed :
    (steps ['/'] ['v'] 8192 (Pool.idle emptyDirectory) retriedEarly).prog 1 =
        some (.ret (.ok ⟨['v'], 8192⟩)) ∧
      image ['v'] (steps ['/'] ['v'] 8192 (Pool.idle emptyDirectory) retriedEarly) =
        some ⟨0, 8192, false⟩ ∧
      image ['v'] (steps ['/'] ['v'] 8192 (Pool.idle emptyDirectory)
        (retriedEarly ++ [.go 0 killed, .go 0 plainly])) = none :=
  ⟨rfl, rfl, rfl⟩

end Examples
end Fileblock.Image
