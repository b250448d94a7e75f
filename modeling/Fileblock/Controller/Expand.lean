import Fileblock.Controller.Serve
import Fileblock.Interaction.Schedule

/-! Calls that enlarge one volume, in any interleaving of their steps. The size that a call
compares with is the one it read, and its truncate sets a size of its own. -/
namespace Fileblock.Controller
open Go Store Interaction
open Image (alignUp imageFile Directory File plainly oneImage)

/-- A call of the image manager's `Resize`, or of the controller's own. -/
inductive Call where
  | resize (capacity : ℤ)
  | expand (range : CapacityRange)
  deriving DecidableEq

def Call.capacity : Call → Except Status ℤ
  | .resize capacity => .ok capacity
  | .expand range => do
    require (0 < range.requiredBytes)
      ⟨.invalidArgument, "capacity_range.required_bytes is required"⟩
    alignedCapacity (some range)

def resizeIn (root volumeID : Str) (capacity : ℤ) : ExceptT Status Image.Run ℤ := do
  let found ← attempt (Image.resize root volumeID capacity).run fun e =>
    ⟨.internal, "resize: " ++ e.text⟩
  pure found.capacityBytes

/-- A call, once the directory of the volume's store is known. -/
def Call.run (root volumeID : Str) (call : Call) : Image.Run (Except Status ℤ) :=
  (known call.capacity >>= resizeIn root volumeID).run

theorem inStore_resizeIn (root volumeID : Str) (capacity : ℤ) :
    ExceptT.mk (inStore root (resizeIn root volumeID capacity)) =
      (attempt (inStore root (Image.resize root volumeID capacity)) (fun e =>
        (⟨.internal, "resize: " ++ e.text⟩ : Status)) >>= fun found =>
          (pure found.capacityBytes : ExceptT Status Run ℤ)) := by
  apply ExceptT.ext
  unfold inStore resizeIn attempt
  rw [ExceptT.run_bind, ExceptT.run_mk, ExceptT.run_mk, ExceptT.run_bind, ExceptT.run_mk,
    Prog.lift_bind, Prog.lift_bind]
  congr 1
  funext r
  cases r <;> rfl

/-- `ControllerExpandVolume` makes its checks, looks for the directory, and is then that
call. -/
theorem controllerExpandVolume_eq (W : Registry.Setup) (volumeID : Str) (range : CapacityRange) :
    controllerExpandVolume W volumeID (some range) = (do
      known (require (volumeID ≠ []) ⟨.invalidArgument, "volumeId is required"⟩)
      let capacity ← known (Call.expand range).capacity
      let root ← imageManagerForVolumeID W volumeID
      ExceptT.mk (inStore root (resizeIn root volumeID capacity))) := by
  have hk : (known (Call.expand range).capacity : ExceptT Status Run ℤ) =
      known (require (0 < range.requiredBytes)
        ⟨.invalidArgument, "capacity_range.required_bytes is required"⟩) >>= fun _ =>
          known (alignedCapacity (some range)) := by
    simp only [Call.capacity]
    cases require (0 < range.requiredBytes)
      ⟨.invalidArgument, "capacity_range.required_bytes is required"⟩ <;> rfl
  simp only [inStore_resizeIn, hk, bind_assoc]
  rfl

/-- One of any number of calls. -/
structure Job where
  num : ℕ
  call : Call
  deriving DecidableEq

def Job.size (t : Job) : Except Status ℤ := t.call.capacity.map alignUp

section Resizing
variable (root v : Str)

abbrev Calls := Pool Job Image.Cmd Directory (Except Status ℤ) Image.Resp

def Job.main (t : Job) : Image.Run (Except Status ℤ) := t.call.run root v

abbrev step (P : Calls) (mv : Move Job Image.Choice) : Calls := P.move Image.exec (Job.main root v) mv

abbrev steps (P : Calls) (ms : List (Move Job Image.Choice)) : Calls :=
  P.moves Image.exec (Job.main root v) ms

def image (P : Calls) : Option File := P.state.files.lookup (imageFile v)

/-- The commands that come after the `stat`. -/
def enlarges : Image.Cmd → Bool
  | .openFile _ | .truncate .. => true
  | _ => false

/-- Between the `stat` and the `truncate`. -/
def Growing (P : Calls) (t : Job) : Prop := ∃ c, P.next t = some c ∧ enlarges c = true

/-- When a call looks at the size, the others on their way to set one set the same. -/
def Agree (P : Calls) (mv : Move Job Image.Choice) : Prop :=
  ∀ t o, mv = .go t o → P.next t = some (.stat (imageFile v)) →
    ∀ u, u ≠ t → Growing P u → u.size = t.size

/-- The rest of a call that is to set the size `n`. -/
def enlarge (n : ℤ) : Image.Run (Except Status ℤ) :=
  (do attempt (Image.truncateSparse root (imageFile v) n).run
        fun e => ⟨.internal, "resize: " ++ e.text⟩
      pure n : ExceptT Status Image.Run ℤ).run

def setLength (ino : ℕ) (n : ℤ) : Image.Run (Except Status ℤ) :=
  .call (.truncate ino n) fun r => .ret (r.mapError (fun e => ⟨.internal, "resize: " ++
    (Err.wrap ("truncate " ++ String.ofList (join root (imageFile v))) e).text⟩) >>= fun _ => .ok n)

theorem enlarge_eq (n : ℤ) : enlarge root v n = .call (.openFile (imageFile v)) fun r =>
    match r with
    | .ok ino => setLength root v ino n
    | .error e => .ret (.error ⟨.internal, "resize: " ++ e.text⟩) := by
  refine congrArg (Prog.call _) (funext fun r => ?_)
  cases r with
  | error e => rfl
  | ok ino => exact congrArg (Prog.call _) (funext fun r => by cases r <;> rfl)

/-- The rest of a call that has looked at the size. -/
def looked (capacity : ℤ) (r : Except Err (Option ℤ)) : Image.Run (Except Status ℤ) :=
  match r with
  | .error e => .ret (.error ⟨.internal, "resize: " ++ e.text⟩)
  | .ok none => .ret (.error ⟨.internal, "resize: " ++ ("stat " ++
      String.ofList (Image.imagePath root v) ++ ": no such file or directory")⟩)
  | .ok (some size) =>
    if alignUp capacity < size then .ret (.error ⟨.internal, "resize: " ++
      ("shrink not supported: " ++ toString capacity ++ " < " ++ toString size)⟩)
    else if alignUp capacity = size then .ret (.ok size)
    else enlarge root v (alignUp capacity)

theorem resizeIn_eq (hv : Image.validateVolumeID v = .ok ()) (capacity : ℤ) :
    (resizeIn root v capacity).run = .call (.stat (imageFile v)) (looked root v capacity) := by
  unfold resizeIn Image.resize Image.get
  rw [hv]
  refine congrArg (Prog.call _) (funext fun r => ?_)
  rcases r with e | _ | size
  · rfl
  · rfl
  · change (attempt (if alignUp capacity < size then _ else _ : ExceptT Err Image.Run _).run _ >>= _).run = _
    simp only [looked]
    split_ifs
    · rfl
    · rfl
    · refine congrArg (Prog.call _) (funext fun r => ?_)
      cases r with
      | error e => rfl
      | ok ino => exact congrArg (Prog.call _) (funext fun r => by cases r <;> rfl)

theorem main_cases (t : Job) : (∃ e, t.main root v = .ret (.error e)) ∨
    ∃ capacity, t.size = .ok (alignUp capacity) ∧
      t.main root v = .call (.stat (imageFile v)) (looked root v capacity) := by
  unfold Job.main Call.run Job.size
  cases t.call.capacity with
  | error e => exact Or.inl ⟨e, rfl⟩
  | ok capacity =>
    cases hv : Image.validateVolumeID v with
    | error e =>
      refine Or.inl ⟨⟨.internal, "resize: " ++ e.text⟩, ?_⟩
      change (resizeIn root v capacity).run = _
      unfold resizeIn Image.resize Image.get
      rw [hv]
      rfl
    | ok _ => exact Or.inr ⟨capacity, rfl, resizeIn_eq root v hv capacity⟩

/-- What may be left of a call while the image is the file `ino` with the given size. -/
inductive Stage (t : Job) (ino : ℕ) (size : ℤ) : Image.Run (Except Status ℤ) → Prop
  | fresh : Stage t ino size (t.main root v)
  | opening {n : ℤ} : t.size = .ok n → size ≤ n → Stage t ino size (enlarge root v n)
  | setting {n : ℤ} : t.size = .ok n → size ≤ n → Stage t ino size (setLength root v ino n)
  | failed (e : Status) : Stage t ino size (.ret (.error e))
  | done {n : ℤ} : t.size = .ok n → n ≤ size → Stage t ino size (.ret (.ok n))

/-- The image is there, every call is at one of its stages, and all that are on their way
to set a size set the same. -/
structure Steady (P : Calls) (f : File) : Prop where
  image : image v P = some f
  stage : ∀ t p, P.prog t = some p → Stage root v t f.ino f.size p
  agree : ∀ t u, Growing P t → Growing P u → t.size = u.size

variable {root v} {P : Calls} {f : File} {t : Job} {p : Image.Run (Except Status ℤ)}

theorem main_next {c : Image.Cmd} (h : (t.main root v).next = some c) : enlarges c = false := by
  rcases main_cases root v t with ⟨e, hm⟩ | ⟨capacity, -, hm⟩
  · rw [hm] at h
    cases h
  · rw [hm] at h
    obtain rfl := Option.some.inj h
    rfl

/-- What a call sets is what the others set, so it is at a stage for the new size too. -/
theorem Stage.grown {size n : ℤ} (h : Stage root v t f.ino size p)
    (hn : size ≤ n) (hp : (∃ c, p.next = some c ∧ enlarges c = true) → t.size = .ok n) :
    Stage root v t f.ino n p := by
  cases h with
  | fresh => exact .fresh
  | @opening n' ht _ =>
    have hsame := ht.symm.trans (hp ⟨_, by rw [enlarge_eq]; rfl, rfl⟩)
    exact .opening ht (Except.ok.inj hsame).ge
  | @setting n' ht _ =>
    have hsame := ht.symm.trans (hp ⟨_, rfl, rfl⟩)
    exact .setting ht (Except.ok.inj hsame).ge
  | failed e => exact .failed e
  | done ht hle => exact .done ht (hle.trans hn)

theorem Stage.result {ino : ℕ} {size n : ℤ} (h : Stage root v t ino size (.ret (.ok n))) :
    t.size = .ok n ∧ n ≤ size := by
  generalize hq : Prog.ret (Except.ok n) = p at h
  cases h with
  | fresh => rcases main_cases root v t with ⟨e, hm⟩ | ⟨_, _, hm⟩ <;> rw [hm] at hq <;> cases hq
  | opening =>
    rw [enlarge_eq] at hq
    cases hq
  | setting => cases hq
  | failed => cases hq
  | done ht hle =>
    cases hq
    exact ⟨ht, hle⟩

theorem Steady.set (h : Steady root v P f) {q : Image.Run (Except Status ℤ)}
    (hq : Stage root v t f.ino f.size q)
    (hagree : (∃ c, q.next = some c ∧ enlarges c = true) → ∀ u, u ≠ t → Growing P u →
      u.size = t.size) : Steady root v (P.set t q P.state) f := by
  refine ⟨h.image, ?_, ?_⟩
  · intro u p hp
    rcases Pool.set_prog hp with ⟨rfl, rfl⟩ | ⟨-, hp⟩
    · exact hq
    · exact h.stage u p hp
  · rintro u u' ⟨c, hu, hc⟩ ⟨c', hu', hc'⟩
    rcases Pool.next_set hu with ⟨rfl, hnew⟩ | ⟨hne, hold⟩
    · rcases Pool.next_set hu' with ⟨rfl, -⟩ | ⟨hne', hold'⟩
      · rfl
      · exact (hagree ⟨c, hnew, hc⟩ u' hne' ⟨c', hold', hc'⟩).symm
    · rcases Pool.next_set hu' with ⟨rfl, hnew⟩ | ⟨-, hold'⟩
      · exact hagree ⟨c', hnew, hc'⟩ u hne ⟨c, hold, hc⟩
      · exact h.agree u u' ⟨c, hold, hc⟩ ⟨c', hold', hc'⟩

theorem Steady.fail (h : Steady root v P f) (t : Job) (e : Status) :
    Steady root v (P.set t (.ret (.error e)) P.state) f := by
  refine h.set (.failed e) ?_
  rintro ⟨c, hc, -⟩
  cases hc

theorem stage_looked (o : Image.Choice) {capacity : ℤ} (ht : t.size = .ok (alignUp capacity)) :
    Stage root v t f.ino f.size (looked root v capacity (Image.answer o (some f.size))) := by
  unfold Image.answer
  cases o.fault with
  | some e => exact .failed _
  | none =>
    simp only [looked]
    split_ifs with h1 h2
    · exact .failed _
    · exact .done (ht.trans (congrArg _ h2)) le_rfl
    · exact .opening ht (by omega)

theorem lookup_setSize (d : Directory) (ino : ℕ) (n : ℤ) (name : Str) :
    (Image.setSize ino n d).files.lookup name =
      (d.files.lookup name).map fun f => if f.ino = ino then { f with size := n } else f :=
  StrMap.lookup_mapValues _ _ _

theorem Steady.go (h : Steady root v P f) (o : Image.Choice) (hagree : Agree v P (.go t o))
    {c : Image.Cmd} {k : Image.Resp c → Image.Run (Except Status ℤ)}
    (hp : P.prog t = some (.call c k)) :
    ∃ f', Steady root v (P.set t (k (Image.exec o c P.state).1) (Image.exec o c P.state).2) f' ∧
      f.size ≤ f'.size := by
  have himage : P.state.files.lookup (imageFile v) = some f := h.image
  have hnext : P.next t = some c := by simp [Pool.next, hp, Prog.next]
  have hstage := h.stage t _ hp
  generalize hq : Prog.call c k = p at hstage
  cases hstage with
  | failed e => cases hq
  | done => cases hq
  | fresh =>
    rcases main_cases root v t with ⟨e, hm⟩ | ⟨capacity, hsize, hm⟩
    · rw [hm] at hq
      cases hq
    · rw [hm] at hq
      cases hq
      have hr : (Image.exec o (.stat (imageFile v)) P.state).1 = Image.answer o (some f.size) := by
        simp only [Image.exec, himage, Option.map_some]
      rw [hr]
      exact ⟨f, h.set (stage_looked o hsize) fun _ => hagree t o rfl hnext, le_rfl⟩
  | @opening n hsize hle =>
    rw [enlarge_eq] at hq
    cases hq
    have hother : ∀ u, u ≠ t → Growing P u → u.size = t.size :=
      fun u _ hu => h.agree u t hu ⟨_, hnext, rfl⟩
    cases ho : o.fault with
    | some e =>
      simp only [Image.exec, ho]
      exact ⟨f, h.fail t _, le_rfl⟩
    | none =>
      simp only [Image.exec, ho, Image.openFile, himage]
      exact ⟨f, h.set (.setting hsize hle) fun _ => hother, le_rfl⟩
  | @setting n hsize hle =>
    cases hq
    have hother : ∀ u, Growing P u → u.size = .ok n :=
      fun u hu => (h.agree u t hu ⟨_, hnext, rfl⟩).trans hsize
    cases ho : o.fault with
    | some e =>
      simp only [Image.exec, ho]
      exact ⟨f, h.fail t _, le_rfl⟩
    | none =>
      by_cases hneg : n < 0
      · simp only [Image.exec, ho, if_pos hneg]
        exact ⟨f, h.fail t _, le_rfl⟩
      · simp only [Image.exec, ho, if_neg hneg]
        refine ⟨{ f with size := n }, ⟨?_, ?_, ?_⟩, hle⟩
        · change (Image.setSize f.ino n P.state).files.lookup _ = _
          rw [lookup_setSize, himage, Option.map_some, if_pos rfl]
        · intro u p hu
          rcases Pool.set_prog hu with ⟨rfl, rfl⟩ | ⟨-, hu⟩
          · exact .done hsize le_rfl
          · refine (h.stage u p hu).grown hle ?_
            rintro ⟨c, hc, he⟩
            exact hother u ⟨c, by simp [Pool.next, hu, hc], he⟩
        · rintro u u' ⟨c, hu, hc⟩ ⟨c', hu', hc'⟩
          rcases Pool.next_set hu with ⟨-, hq⟩ | ⟨-, hold⟩
          · cases hq
          · rcases Pool.next_set hu' with ⟨-, hq⟩ | ⟨-, hold'⟩
            · cases hq
            · exact h.agree u u' ⟨c, hold, hc⟩ ⟨c', hold', hc'⟩

theorem Steady.moved (h : Steady root v P f) {mv : Move Job Image.Choice} (hagree : Agree v P mv) :
    ∃ f', Steady root v (step root v P mv) f' ∧ f.size ≤ f'.size := by
  refine Pool.move_inv (I := fun P' => ∃ f', Steady root v P' f' ∧ f.size ≤ f'.size)
    ⟨f, h, le_rfl⟩ ?_ ?_ ?_
  · intro t _ _
    refine ⟨f, h.set .fresh ?_, le_rfl⟩
    rintro ⟨c, hc, he⟩
    rw [main_next hc] at he
    cases he
  · rintro t o c k rfl hp
    exact h.go o hagree hp
  · intro t _
    refine ⟨f, ⟨h.image, fun u p hu => h.stage u p (Pool.cut_prog hu), ?_⟩, le_rfl⟩
    rintro u u' ⟨c, hu, hc⟩ ⟨c', hu', hc'⟩
    exact h.agree u u' ⟨c, Pool.next_cut hu, hc⟩ ⟨c', Pool.next_cut hu', hc'⟩

theorem Steady.begin (h : Steady root v P f) (hp : P.prog t = some (t.main root v)) {n : ℤ}
    (hn : t.size = .ok n) (hle : n ≤ f.size) (o : Image.Choice) :
    (step root v P (.go t o)).state = P.state ∧
      ∃ r, (step root v P (.go t o)).prog t = some (.ret r) ∧ (n < f.size → ∃ e, r = .error e) := by
  have himage : P.state.files.lookup (imageFile v) = some f := h.image
  rcases main_cases root v t with ⟨e, hm⟩ | ⟨capacity, hsize, hm⟩
  · rw [hm] at hp
    have hstep : step root v P (.go t o) = P := by simp only [step, Pool.move, hp]
    rw [hstep]
    exact ⟨rfl, _, hp, fun _ => ⟨e, rfl⟩⟩
  · obtain rfl : n = alignUp capacity := Except.ok.inj (hn.symm.trans hsize)
    rw [hm] at hp
    have hr : (Image.exec o (.stat (imageFile v)) P.state).1 = Image.answer o (some f.size) := by
      simp only [Image.exec, himage, Option.map_some]
    rw [step, Pool.move_go hp, hr]
    refine ⟨rfl, ?_⟩
    rw [Pool.set_self]
    unfold Image.answer
    cases o.fault with
    | some e => exact ⟨_, rfl, fun _ => ⟨_, rfl⟩⟩
    | none =>
      simp only [looked]
      split_ifs with h1 h2
      · exact ⟨_, rfl, fun _ => ⟨_, rfl⟩⟩
      · exact ⟨_, rfl, fun hlt => absurd hlt h1⟩
      · omega

theorem steady_idle {d : Directory} (hd : d.files.lookup (imageFile v) = some f) :
    Steady root v (Pool.idle d) f := by
  refine ⟨hd, ?_, ?_⟩
  · intro t p hp
    cases hp
  · rintro t u ⟨c, hc, -⟩ -
    cases hc

/-- Expansion never shrinks an image, as long as calls that overlap set the same size. -/
theorem expand_never_shrinks {d : Directory} (hd : d.files.lookup (imageFile v) = some f)
    (ms : List (Move Job Image.Choice)) (mv : Move Job Image.Choice)
    (hms : Pool.Keeps Image.exec (Job.main root v) (Agree v) (ms ++ [mv]) (Pool.idle d)) :
    ∃ g g', image v (steps root v (Pool.idle d) ms) = some g ∧
      image v (steps root v (Pool.idle d) (ms ++ [mv])) = some g' ∧ g.size ≤ g'.size ∧
      (∀ t n, (steps root v (Pool.idle d) (ms ++ [mv])).prog t = some (.ret (.ok n)) →
        n ≤ g'.size) ∧
      ∀ t o, mv = .go t o → (steps root v (Pool.idle d) ms).prog t = some (t.main root v) →
        (∀ n, t.size = .ok n → n < g.size →
          (steps root v (Pool.idle d) (ms ++ [mv])).state = (steps root v (Pool.idle d) ms).state ∧
          ∃ e, (steps root v (Pool.idle d) (ms ++ [mv])).prog t = some (.ret (.error e))) ∧
        (∀ u n, u.call = t.call → (steps root v (Pool.idle d) ms).prog u = some (.ret (.ok n)) →
          (steps root v (Pool.idle d) (ms ++ [mv])).state = (steps root v (Pool.idle d) ms).state ∧
          ∃ r, (steps root v (Pool.idle d) (ms ++ [mv])).prog t = some (.ret r)) := by
  obtain ⟨hk, hmv, -⟩ := Pool.keeps_append.mp hms
  obtain ⟨g, hg⟩ := Pool.moves_inv (I := fun P => ∃ g, Steady root v P g)
    (fun P mv ⟨g, hg⟩ hG => (hg.moved hG).imp fun _ => And.left) ⟨f, steady_idle hd⟩ hk
  have happ : steps root v (Pool.idle d) (ms ++ [mv]) =
      step root v (steps root v (Pool.idle d) ms) mv := List.foldl_append
  obtain ⟨g', hg', hle⟩ := hg.moved hmv
  rw [happ]
  refine ⟨g, g', hg.image, hg'.image, hle, fun t n ht => (hg'.stage t _ ht).result.2, ?_⟩
  rintro t o rfl hp
  constructor
  · intro n hn hlt
    obtain ⟨hst, r, hr, he⟩ := hg.begin hp hn hlt.le o
    obtain ⟨e, rfl⟩ := he hlt
    exact ⟨hst, e, hr⟩
  · intro u n hcall hu
    obtain ⟨hsize, hle⟩ := (hg.stage u _ hu).result
    obtain ⟨hst, r, hr, -⟩ := hg.begin (n := n) hp (by rw [← hsize, Job.size, Job.size, hcall]) hle o
    exact ⟨hst, r, hr⟩

theorem keeps_of_same {r : Except Status ℤ} {ms : List (Move Job Image.Choice)}
    (hP : ∀ u, P.prog u ≠ none → u.size = r) (hms : ∀ t, .start t ∈ ms → t.size = r) :
    Pool.Keeps Image.exec (Job.main root v) (Agree v) ms P := by
  induction ms generalizing P with
  | nil => trivial
  | cons mv ms ih =>
    have hnext : ∀ {u c}, P.next u = some c → u.size = r := by
      intro u c hc
      apply hP
      intro hn
      simp [Pool.next, hn] at hc
    refine ⟨?_, ih ?_ fun t ht => hms t (List.mem_cons_of_mem _ ht)⟩
    · rintro t o - ht u - ⟨c, hu, -⟩
      rw [hnext hu, hnext ht]
    · have hset : ∀ {t p s}, t.size = r → ∀ u, (P.set t p s).prog u ≠ none → u.size = r := by
        intro t p s ht u hu
        obtain ⟨q, hq⟩ := Option.ne_none_iff_exists'.mp hu
        rcases Pool.set_prog hq with ⟨rfl, -⟩ | ⟨-, hq⟩
        · exact ht
        · exact hP u (by simp [hq])
      refine Pool.move_inv (I := fun P => ∀ u : Job, P.prog u ≠ none → u.size = r) hP ?_ ?_ ?_
      · rintro t rfl -
        exact hset (hms t List.mem_cons_self)
      · intro t o c k _ hp
        exact hset (hP t (by simp [hp]))
      · intro t _ u hu
        obtain ⟨q, hq⟩ := Option.ne_none_iff_exists'.mp hu
        exact hP u (by simp [Pool.cut_prog hq])

end Resizing

section Examples

def small : Job := ⟨0, .expand ⟨8192, 0⟩⟩
def same : Job := ⟨1, .resize 8000⟩
def large : Job := ⟨2, .expand ⟨16384, 0⟩⟩

def overlapping (t u : Job) : List (Move Job Image.Choice) :=
  [.start t, .start u, .go t plainly, .go u plainly, .go t plainly, .go t plainly, .go u plainly]

theorem expand_never_shrinks_overlapping :
    ∃ g g', image ['v'] (steps ['/'] ['v'] (Pool.idle (oneImage ['v'])) (overlapping small same)) = some g ∧
      image ['v'] (steps ['/'] ['v'] (Pool.idle (oneImage ['v']))
        (overlapping small same ++ [.go same plainly])) = some g' ∧ g.size ≤ g'.size := by
  have hkeeps : Pool.Keeps Image.exec (Job.main ['/'] ['v']) (Agree ['v'])
      (overlapping small same ++ [.go same plainly]) (Pool.idle (oneImage ['v'])) := by
    refine keeps_of_same (r := .ok 8192) (fun u hu => absurd rfl hu) fun t ht => ?_
    have ht' : t = small ∨ t = same := by simpa [overlapping] using ht
    rcases ht' with rfl | rfl <;> rfl
  obtain ⟨g, g', hg, hg', hle, -⟩ :=
    expand_never_shrinks (f := ⟨0, 4096, true⟩) rfl (overlapping small same) _ hkeeps
  exact ⟨g, g', hg, hg', hle⟩

/-- Two calls that have both read the old size: the smaller one cuts off what the larger
one has added and reported. -/
theorem expand_cuts_off :
    (steps ['/'] ['v'] (Pool.idle (oneImage ['v'])) (overlapping large small)).prog large =
        some (.ret (.ok 16384)) ∧
      image ['v'] (steps ['/'] ['v'] (Pool.idle (oneImage ['v'])) (overlapping large small)) =
        some ⟨0, 16384, true⟩ ∧
      (steps ['/'] ['v'] (Pool.idle (oneImage ['v']))
        (overlapping large small ++ [.go small plainly])).prog small = some (.ret (.ok 8192)) ∧
      image ['v'] (steps ['/'] ['v'] (Pool.idle (oneImage ['v']))
        (overlapping large small ++ [.go small plainly])) = some ⟨0, 8192, true⟩ :=
  ⟨rfl, rfl, rfl, rfl⟩

end Examples
end Fileblock.Controller
