import Fileblock.Interaction.Commute
import Fileblock.Monitor.Safety

/-! A pass does not depend on the order of the volumes. What the monitor remembers is taken
apart by volumes, with the key `volume/pod` of a skip in the part of its volume; then what is
done about one volume neither sees nor changes the part of another. -/
namespace Fileblock.Monitor
open Go Interaction
open Node (MountInfo Mapping PublishTarget lastAt publishTargets)

/-- What there is to read during a pass, and what the API answers to a call. -/
structure Surroundings where
  mounts : Except Err (List MountInfo)
  pods : Except Err (List Pod)
  answer : Cmd → Except Err Unit

/-- A pass in which no time passes and nobody else clears marks. -/
def Surroundings.choice (E : Surroundings) (vols : List Mapping) (c : Cmd) : Choice :=
  ⟨0, [], E.mounts, vols, E.pods, E.answer c⟩

/-- The calls that others see. -/
def Cmd.isCall : Cmd → Bool
  | .podEvent .. | .deletePod .. => true
  | _ => false

/-- The calls, with one more command. -/
def Cmd.add (c : Cmd) (calls : Multiset Cmd) : Multiset Cmd :=
  if c.isCall then c ::ₘ calls else calls

/-- The calls of the last pass. -/
def State.calls (s : State) : Multiset Cmd :=
  ↑(((s.log.filter (·.pass = s.passes)).map Event.cmd).filter Cmd.isCall)

/-- What is before the first slash. -/
def owner (key : Str) : Option Str := if '/' ∈ key then some (key.takeWhile (· ≠ '/')) else none

/-- The volume that a command is about. -/
def Cmd.volume? : Cmd → Option Str
  | .mark id _ | .failedAt id | .clear id | .heldUntil id | .hold id _ | .forget id | .eventSent id
  | .setEventSent id | .offLogged id => some id
  | .skipEvented key => owner key
  | .mountInfo | .stateAll | .now | .listPods | .podEvent .. | .deletePod .. => none

/-- What is remembered of a volume. -/
structure Volume where
  failed : Option ℕ
  held : Option ℕ
  sent : Prop
  off : Prop
  skipped : Set Str

/-- What is remembered, by volumes. Keys without a slash are of none. -/
@[ext] structure Book where
  volumes : Option Str → Volume
  calls : Multiset Cmd
  clock : ℕ

open Classical in
/-- What a command reads and changes of its volume. -/
noncomputable def Surroundings.act (E : Surroundings) (vols : List Mapping) (clock : ℕ) :
    (c : Cmd) → Volume → Resp c × Volume
  | .mountInfo, x => (E.mounts, x)
  | .stateAll, x => (vols, x)
  | .now, x => (clock, x)
  | .mark _ t, x => if x.failed.isSome then (false, x) else (true, { x with failed := some t })
  | .failedAt _, x => (x.failed, x)
  | .clear _, x => ((), { x with failed := none })
  | .heldUntil _, x => (x.held.getD 0, x)
  | .hold _ t, x => ((), { x with held := some t })
  | .forget _, x => ((), { x with sent := False, off := False, skipped := ∅ })
  | .eventSent _, x => (decide x.sent, x)
  | .setEventSent _, x => ((), { x with sent := True })
  | .offLogged _, x => ((), { x with off := True })
  | .skipEvented key, x => (decide (key ∈ x.skipped), { x with skipped := insert key x.skipped })
  | .listPods, x => (E.pods, x)
  | .podEvent p m, x => (E.answer (.podEvent p m), x)
  | .deletePod id t p, x => (E.answer (.deletePod id t p), x)

/-- A command looks at and changes the part of its volume only. -/
noncomputable def Book.run (E : Surroundings) (vols : List Mapping) (c : Cmd) (b : Book) :
    Resp c × Book :=
  let r := E.act vols b.clock c (b.volumes c.volume?)
  (r.1, { b with
    volumes := Function.update b.volumes c.volume? r.2
    calls := c.add b.calls })

/-- The memory of the monitor, taken apart. -/
def State.book (s : State) : Book where
  volumes i :=
    { failed := i.bind s.failed.lookup
      held := i.bind s.held.lookup
      sent := ∃ v ∈ i, v ∈ s.eventsSent
      off := ∃ v ∈ i, v ∈ s.loggedOff
      skipped := {k | k ∈ s.skipsEvented ∧ owner k = i} }
  calls := s.calls
  clock := s.clock

section Order
variable {E : Surroundings} {vols : List Mapping} {v v' key uid : Str} {c d : Cmd} {b : Book}
  {s : State} {kube auto : Bool} {entries : List MountInfo}

theorem owner_append (hv : '/' ∉ v) (uid : Str) : owner (v ++ '/' :: uid) = some v := by
  have hpos : ∀ c ∈ v, decide (c ≠ '/') = true := by
    intro c hc
    simp only [decide_eq_true_eq]
    rintro rfl
    exact hv hc
  unfold owner
  rw [if_pos (by simp), List.takeWhile_append_of_pos hpos]
  simp

theorem owner_eq_some_iff (hv : '/' ∉ v) :
    owner key = some v ↔ hasPrefix key (v ++ ['/']) = true := by
  rw [hasPrefix_iff]
  constructor
  · intro h
    unfold owner at h
    split_ifs at h with hmem
    have hsplit := List.takeWhile_append_dropWhile (p := (· ≠ '/')) (l := key)
    rw [Option.some.inj h] at hsplit
    have hne : key.dropWhile (· ≠ '/') ≠ [] := by
      intro hnil
      rw [hnil, List.append_nil] at hsplit
      exact hv (hsplit ▸ hmem)
    obtain ⟨x, rest, hrest⟩ := List.exists_cons_of_ne_nil hne
    have hx : x = '/' := by
      have hhead := List.head_dropWhile_not (· ≠ '/') hne
      simp only [hrest, List.head_cons] at hhead
      simpa using hhead
    refine ⟨rest, ?_⟩
    rw [← hsplit, hrest, hx]
    simp
  · rintro ⟨uid, rfl⟩
    rw [List.append_assoc]
    exact owner_append hv uid

theorem exec_choice (c : Cmd) (s : State) :
    exec (E.choice vols c) c s =
      let r := act (E.choice vols c) c s
      (r.1, { r.2 with log := ⟨s.passes, c, r.1⟩ :: r.2.log }) := rfl

theorem calls_exec (c : Cmd) (s : State) : (exec (E.choice vols c) c s).2.calls =
    c.add s.calls := by
  unfold State.calls Cmd.add
  rw [exec_log, exec_passes]
  simp only [List.filter_cons, decide_true, if_true, List.map_cons]
  split_ifs <;> rfl

theorem clock_exec (c : Cmd) (s : State) : (exec (E.choice vols c) c s).2.clock = s.clock := by
  rw [exec_choice]
  cases c
  case mark id t =>
    simp only [act]
    split_ifs <;> rfl
  all_goals rfl

theorem bind_insert {i : Option Str} {id : Str} (hi : i ≠ some id) (t : ℕ) (m : StrMap ℕ) :
    i.bind (m.insert id t).lookup = i.bind m.lookup := by
  cases i with
  | none => rfl
  | some v => exact AList.lookup_insert_ne fun hv => hi (congrArg some hv)

theorem bind_erase {i : Option Str} {id : Str} (hi : i ≠ some id) (m : StrMap ℕ) :
    i.bind (m.erase id).lookup = i.bind m.lookup := by
  cases i with
  | none => rfl
  | some v => exact AList.lookup_erase_ne fun hv => hi (congrArg some hv)

theorem exists_of_ne {i : Option Str} {id : Str} {l l' : List Str} (hi : i ≠ some id)
    (h : ∀ v, v ≠ id → (v ∈ l ↔ v ∈ l')) : (∃ v ∈ i, v ∈ l) = ∃ v ∈ i, v ∈ l' := by
  apply propext
  apply exists_congr
  intro v
  apply and_congr_right
  intro hv
  exact h v fun heq => hi (by rw [hv, heq])

theorem act_book (h : ∀ v, c.volume? = some v → '/' ∉ v) (s : State) :
    E.act vols s.clock c (s.book.volumes c.volume?) =
      ((exec (E.choice vols c) c s).1, (exec (E.choice vols c) c s).2.book.volumes c.volume?) := by
  rw [exec_choice]
  cases c
  case mark id t =>
    cases hm : (s.failed.lookup id).isSome with
    | true => simp [act, Surroundings.act, State.book, Cmd.volume?, hm]
    | false => simp [act, Surroundings.act, State.book, Cmd.volume?, hm]
  case clear id => simp [act, Surroundings.act, State.book, Cmd.volume?, State.clear]
  case hold id t => simp [act, Surroundings.act, State.book, Cmd.volume?]
  case eventSent id => simp [act, Surroundings.act, State.book, Cmd.volume?]
  case setEventSent id => simp [act, Surroundings.act, State.book, Cmd.volume?]
  case offLogged id => simp [act, Surroundings.act, State.book, Cmd.volume?]
  case skipEvented key =>
    have hinsert : insert key {k | k ∈ s.skipsEvented ∧ owner k = owner key} =
        {k | (k = key ∨ k ∈ s.skipsEvented) ∧ owner k = owner key} := by
      ext k
      simp only [Set.mem_insert_iff, Set.mem_ofPred_eq]
      constructor
      · rintro (rfl | ⟨hk, ho⟩)
        · exact ⟨.inl rfl, rfl⟩
        · exact ⟨.inr hk, ho⟩
      · rintro ⟨rfl | hk, ho⟩
        · exact .inl rfl
        · exact .inr ⟨hk, ho⟩
    simp [act, Surroundings.act, State.book, Cmd.volume?, hinsert]
  case forget id =>
    have hnone : {k | (k ∈ s.skipsEvented ∧ hasPrefix k (id ++ ['/']) = false) ∧
        owner k = some id} = ∅ := by
      ext k
      simp only [Set.mem_ofPred_eq, Set.mem_empty_iff_false, iff_false, not_and]
      rintro ⟨-, hk⟩ ho
      rw [(owner_eq_some_iff (h id rfl)).mp ho] at hk
      exact Bool.noConfusion hk
    simp [act, Surroundings.act, State.book, Cmd.volume?, hnone]
  all_goals rfl

theorem book_of_ne (h : ∀ v, c.volume? = some v → '/' ∉ v) (s : State) {i : Option Str}
    (hi : i ≠ c.volume?) :
    (exec (E.choice vols c) c s).2.book.volumes i = s.book.volumes i := by
  rw [exec_choice]
  cases c
  case mark id t =>
    simp only [act, State.book]
    split_ifs
    · rfl
    · simp only [bind_insert hi]
  case clear id => simp only [act, State.book, State.clear, bind_erase hi]
  case hold id t => simp only [act, State.book, bind_insert hi]
  case setEventSent id =>
    simp only [act, State.book, exists_of_ne hi fun v hv => List.mem_cons.trans (or_iff_right hv)]
  case offLogged id =>
    simp only [act, State.book, exists_of_ne hi fun v hv => List.mem_insert_iff.trans (or_iff_right hv)]
  case skipEvented key =>
    have hkeys : {k | (k = key ∨ k ∈ s.skipsEvented) ∧ owner k = i} =
        {k | k ∈ s.skipsEvented ∧ owner k = i} := by
      ext k
      apply and_congr_left
      intro ho
      exact or_iff_right fun hk => hi (by rw [← ho, hk]; rfl)
    simp only [act, State.book, List.mem_insert_iff, hkeys]
  case forget id =>
    have hkeys : {k | k ∈ s.skipsEvented.filter (fun k => !hasPrefix k (id ++ ['/'])) ∧
        owner k = i} = {k | k ∈ s.skipsEvented ∧ owner k = i} := by
      ext k
      apply and_congr_left
      intro ho
      rw [List.mem_filter, Bool.not_eq_true', ← Bool.not_eq_true, ← owner_eq_some_iff (h id rfl),
        ho]
      exact and_iff_left hi
    have hfilter : ∀ l : List Str, ∀ v, v ≠ id → (v ∈ l.filter (· ≠ id) ↔ v ∈ l) := by
      intro l v hv
      simp [hv]
    simp only [act, State.book, hkeys, exists_of_ne hi (hfilter _)]
  all_goals rfl

variable (E vols) in
/-- Taking the memory apart loses nothing that a command sees. -/
theorem run_book (h : ∀ v, c.volume? = some v → '/' ∉ v) (s : State) :
    s.book.run E vols c =
      ((exec (E.choice vols c) c s).1, (exec (E.choice vols c) c s).2.book) := by
  have hact : E.act vols s.book.clock c (s.book.volumes c.volume?) = _ := act_book h s
  have hresp := congrArg Prod.fst hact
  have hpart := congrArg Prod.snd hact
  apply Prod.ext
  · exact hresp
  · apply Book.ext
    · apply Function.update_eq_iff.mpr
      exact ⟨hpart, fun i hi => (book_of_ne h s hi).symm⟩
    · exact (calls_exec c s).symm
    · exact (clock_exec c s).symm

/-- Commands about no volume that are issued on behalf of one. -/
def Cmd.free : Cmd → Bool
  | .now | .listPods | .podEvent .. | .deletePod .. => true
  | _ => false

/-- A command that has to do with no volume but `v`. -/
def On (v : Str) (c : Cmd) : Prop := c.volume? = some v ∨ c.free = true

theorem On.slash (hv : '/' ∉ v) (h : On v c) : ∀ v', c.volume? = some v' → '/' ∉ v' := by
  rintro v' hv'
  obtain hc | hc := h
  · rw [hc] at hv'
    rwa [← Option.some.inj hv']
  · cases c <;> cases hc <;> cases hv'

theorem On.ne (h : On v c) (hne : v' ≠ v) : some v' ≠ c.volume? := by
  intro hv'
  obtain hc | hc := h
  · exact hne (Option.some.inj (hv'.trans hc))
  · cases c <;> cases hc <;> cases hv'

theorem act_free (hc : c.free = true) (t : ℕ) (x y : Volume) :
    E.act vols t c x = ((E.act vols t c y).1, x) := by
  cases c <;> cases hc <;> rfl

theorem add_comm (c d : Cmd) (m : Multiset Cmd) : d.add (c.add m) = c.add (d.add m) := by
  unfold Cmd.add
  split_ifs
  · exact Multiset.cons_swap _ _ _
  all_goals rfl

theorem apart_of_ne (hne : c.volume? ≠ d.volume?) : Prog.Apart (Book.run E vols) c d := by
  constructor
  · intro b
    unfold Book.run
    dsimp only
    rw [Function.update_of_ne hne]
  · intro b
    unfold Book.run
    dsimp only
    rw [Function.update_of_ne hne.symm]
  · intro b
    unfold Book.run
    dsimp only
    rw [Function.update_of_ne hne, Function.update_of_ne hne.symm, Function.update_comm hne.symm,
      add_comm]

theorem apart_of_free (hc : c.free = true) (hd : d.free = true) :
    Prog.Apart (Book.run E vols) c d := by
  have hfree : ∀ {c : Cmd}, c.free = true → ∀ b : Book, b.run E vols c =
      ((E.act vols b.clock c (b.volumes none)).1,
        { b with calls := c.add b.calls }) := by
    intro c hc b
    unfold Book.run
    rw [act_free hc b.clock _ (b.volumes none)]
    dsimp only
    rw [Function.update_eq_self]
  constructor
  · intro b
    rw [hfree hc, hfree hd, hfree hc]
  · intro b
    rw [hfree hc, hfree hd, hfree hd]
  · intro b
    rw [hfree hc, hfree hd, hfree hc, hfree hd]
    dsimp only
    rw [add_comm]

theorem On.apart (hc : On v c) (hd : On v' d) (hne : v ≠ v') :
    Prog.Apart (Book.run E vols) c d := by
  by_cases h : c.volume? = d.volume?
  · apply apart_of_free
    · apply hc.resolve_left
      intro hv
      exact hd.ne hne (hv.symm.trans h)
    · apply hd.resolve_left
      intro hv
      exact hc.ne hne.symm (hv.symm.trans h.symm)
  · exact apart_of_ne h

/-- Commands that set or clear a mark. -/
def Cmd.marks : Cmd → Bool
  | .mark .. | .clear _ => true
  | _ => false

theorem act_failed (hc : c.marks = false) (t : ℕ) (x : Volume) :
    (E.act vols t c x).2.failed = x.failed := by
  cases c <;> cases hc <;> rfl

/-- What is done about a failed volume once it is marked. -/
def Tends (v : Str) (c : Cmd) : Prop := On v c ∧ c.marks = false

theorem Tends.of_volume (hc : c.volume? = some v) (h : c.marks = false) : Tends v c := ⟨.inl hc, h⟩

theorem Tends.of_free (hc : c.free = true) : Tends v c := by
  refine ⟨.inr hc, ?_⟩
  cases c <;> cases hc <;> rfl

theorem skip_tends (hv : '/' ∉ v) (p : Pod) (reason : String) : (skip v p reason).All (Tends v) :=
  skip_all (.of_volume (owner_append hv _) rfl) (fun _ => .of_free rfl) reason

theorem deletes_tends (hv : '/' ∉ v) (now failedAt : ℕ) (users : List Pod) (attempted : Bool) :
    (deletes v now failedAt users attempted).All (Tends v) := by
  induction users generalizing attempted with
  | nil => exact Prog.all_ret _ _
  | cons p ps ih =>
    unfold deletes
    split
    · exact (skip_tends hv p _).bind fun _ => ih _
    · exact (issue_all (.of_free rfl)).bind fun _ => ih _

theorem remediate_tends (hv : '/' ∉ v) (now failedAt : ℕ) (users : List Pod) :
    (remediate v now failedAt users).All (Tends v) := by
  apply (issue_all (.of_volume rfl rfl)).bind
  intro held
  split_ifs
  · exact Prog.all_ret _ _
  · apply (deletes_tends hv now failedAt users false).bind
    intro attempted
    split_ifs
    · exact issue_all (.of_volume rfl rfl)
    · exact Prog.all_ret _ _

variable {vol : Mapping}

theorem withPods_tends (hv : '/' ∉ vol.volumeID) (e : MountInfo) (now failedAt : ℕ) :
    (withPods auto vol e entries now failedAt).All (Tends vol.volumeID) := by
  apply (issue_all (.of_volume rfl rfl)).bind
  intro sent
  apply (needPods_all (.of_volume rfl rfl) auto now sent).bind
  intro need
  cases need with
  | false => exact Prog.all_ret _ _
  | true =>
    apply (issue_all (.of_free rfl)).bind
    intro pods
    cases pods with
    | error e => exact Prog.all_ret _ _
    | ok pods =>
      apply (notify_all (.of_volume rfl rfl) (fun _ _ => .of_free rfl) sent _).bind
      intro _
      cases auto with
      | true => exact remediate_tends hv now failedAt _
      | false => exact issue_all (.of_volume rfl rfl)

/-- `handleFailed` after the mark. -/
def marked (kube auto : Bool) (vol : Mapping) (e : MountInfo) (entries : List MountInfo) (now : ℕ)
    (isNew : Bool) : Run Unit := do
  let failedAt ← issue (.failedAt vol.volumeID)
  forgetIf isNew vol.volumeID
  if kube then withPods auto vol e entries now (failedAt.getD 0) else pure ()

theorem marked_tends (hv : '/' ∉ vol.volumeID) (e : MountInfo) (now : ℕ) (isNew : Bool) :
    (marked kube auto vol e entries now isNew).All (Tends vol.volumeID) := by
  apply (issue_all (.of_volume rfl rfl)).bind
  intro failedAt
  apply (forgetIf_all (.of_volume rfl rfl) isNew).bind
  intro _
  cases kube with
  | false => exact Prog.all_ret _ _
  | true => exact withPods_tends hv e now _

theorem tickVolume_on (hv : '/' ∉ vol.volumeID) :
    (tickVolume kube auto entries vol).All (On vol.volumeID) := by
  unfold tickVolume
  split
  · exact issue_all (.inl rfl)
  · split_ifs
    · apply (issue_all (.inr rfl)).bind
      intro now
      apply (issue_all (.inl rfl)).bind
      intro isNew
      exact (marked_tends hv _ now isNew).mono fun c hc => hc.1
    · exact (issue_all (.inl rfl)).bind fun _ => issue_all (.inl rfl)

/-- The mark of a volume after a pass that began at time `clock`. -/
def markAfter (entries : List MountInfo) (stagePath : Str) (clock : ℕ) (mark : Option ℕ) :
    Option ℕ :=
  match lastAt entries stagePath with
  | none => mark
  | some e => if e.forcedReadOnly then some (mark.getD clock) else none

theorem run_failed (hc : c.marks = false) (b : Book) (i : Option Str) :
    ((b.run E vols c).2.volumes i).failed = (b.volumes i).failed := by
  change (Function.update b.volumes _ _ i).failed = _
  by_cases hi : i = c.volume?
  · rw [hi, Function.update_self, act_failed hc]
  · rw [Function.update_of_ne hi]

theorem go_tends {p : Run Unit} (hp : p.All (Tends v)) (b : Book) (i : Option Str) :
    ((p.go (Book.run E vols) b).2.volumes i).failed = (b.volumes i).failed := by
  apply Prog.go_keeps (I := fun b' : Book => (b'.volumes i).failed = (b.volumes i).failed) _ hp rfl
  intro c b' hc h
  rw [run_failed hc.2, h]

theorem run_now (b : Book) : b.run E vols .now = (b.clock, b) := by
  unfold Book.run Surroundings.act
  dsimp only
  rw [Function.update_eq_self]
  rfl

theorem failed_mark (b : Book) (id : Str) (now : ℕ) :
    ((b.run E vols (.mark id now)).2.volumes (some id)).failed =
      some ((b.volumes (some id)).failed.getD now) := by
  change (Function.update b.volumes (some id) _ (some id)).failed = _
  rw [Function.update_self]
  cases hf : (b.volumes (some id)).failed with
  | none => simp [Surroundings.act, Cmd.volume?, hf]
  | some t => simp [Surroundings.act, Cmd.volume?, hf]

theorem failed_clear (b : Book) (id : Str) :
    ((b.run E vols (.clear id)).2.volumes (some id)).failed = none := by
  change (Function.update b.volumes (some id) _ (some id)).failed = _
  rw [Function.update_self]
  rfl

theorem handleFailed_go (e : MountInfo) (b : Book) :
    (handleFailed kube auto vol e entries).go (Book.run E vols) b =
      (marked kube auto vol e entries b.clock (b.run E vols (.mark vol.volumeID b.clock)).1).go
        (Book.run E vols) (b.run E vols (.mark vol.volumeID b.clock)).2 := by
  have hnow : (handleFailed kube auto vol e entries).go (Book.run E vols) b =
      (do let isNew ← issue (.mark vol.volumeID (b.run E vols .now).1)
          marked kube auto vol e entries (b.run E vols .now).1 isNew).go (Book.run E vols)
        (b.run E vols .now).2 := rfl
  rw [hnow, run_now]
  rfl

theorem tickVolume_failed (hv : '/' ∉ vol.volumeID) (b : Book) :
    (((tickVolume kube auto entries vol).go (Book.run E vols) b).2.volumes
      (some vol.volumeID)).failed =
      markAfter entries vol.stagePath b.clock (b.volumes (some vol.volumeID)).failed := by
  unfold tickVolume markAfter
  cases lastAt entries vol.stagePath with
  | none => exact run_failed (c := .forget vol.volumeID) rfl b _
  | some e =>
    dsimp only
    split_ifs
    · -- nothing after the mark changes what is marked
      rw [handleFailed_go, go_tends (marked_tends hv e _ _), failed_mark]
    · exact (run_failed (c := .forget vol.volumeID) rfl _ _).trans (failed_clear b vol.volumeID)

variable (E vols kube auto entries) in
theorem tickVolume_frame (hv : '/' ∉ vol.volumeID) (b : Book) :
    ((tickVolume kube auto entries vol).go (Book.run E vols) b).2.clock = b.clock ∧
      ∀ v, v ≠ vol.volumeID →
        ((tickVolume kube auto entries vol).go (Book.run E vols) b).2.volumes (some v) =
          b.volumes (some v) := by
  apply Prog.go_keeps (P := On vol.volumeID) (I := fun b' : Book => b'.clock = b.clock ∧
    ∀ v, v ≠ vol.volumeID → b'.volumes (some v) = b.volumes (some v)) _ (tickVolume_on hv)
  · exact ⟨rfl, fun _ _ => rfl⟩
  · intro c b' hc h
    refine ⟨h.1, ?_⟩
    intro v hne
    rw [← h.2 v hne]
    exact Function.update_of_ne (hc.ne hne) _ _

/-- The volumes listed are marked or cleared, and the others keep what is remembered of them. -/
theorem each_failed {listed : List Mapping} (hids : (listed.map (·.volumeID)).Nodup)
    (hslash : ∀ vol ∈ listed, '/' ∉ vol.volumeID) (b : Book) :
    let b' := ((Prog.each (tickVolume kube auto entries) listed).go (Book.run E vols) b).2
    (∀ v, v ∉ listed.map (·.volumeID) → b'.volumes (some v) = b.volumes (some v)) ∧
    ∀ vol ∈ listed, (b'.volumes (some vol.volumeID)).failed =
      markAfter entries vol.stagePath b.clock (b.volumes (some vol.volumeID)).failed := by
  induction listed generalizing b with
  | nil => exact ⟨fun _ _ => rfl, fun _ h => absurd h List.not_mem_nil⟩
  | cons vol listed ih =>
    obtain ⟨hnot, hids⟩ := List.nodup_cons.mp hids
    have hv := hslash vol List.mem_cons_self
    obtain ⟨hclock, hframe⟩ := tickVolume_frame E vols kube auto entries hv b
    obtain ⟨hother, hlisted⟩ := ih hids (fun x hx => hslash x (List.mem_cons_of_mem _ hx))
      ((tickVolume kube auto entries vol).go (Book.run E vols) b).2
    unfold Prog.each
    rw [Prog.go_bind]
    constructor
    · intro v hnv
      rw [List.map_cons, List.mem_cons, not_or] at hnv
      rw [hother v hnv.2, hframe v hnv.1]
    · intro x hx
      obtain rfl | hx := List.mem_cons.mp hx
      · rw [hother _ hnot, tickVolume_failed hv]
      · have hne : x.volumeID ≠ vol.volumeID := by
          intro heq
          exact hnot (List.mem_map.mpr ⟨x, hx, heq⟩)
        rw [hlisted x hx, hclock, hframe _ hne]

theorem On.run_eq (h : On v c) (vols vols' : List Mapping) :
    Book.run E vols c = Book.run E vols' c := by
  cases c
  case stateAll => rcases h with h | h <;> cases h
  all_goals rfl

variable (E vols) in
theorem book_read (hc : c = .mountInfo ∨ c = .stateAll) (s : State) :
    (exec (E.choice vols c) c s).2.book = s.book := by
  have hnone : ∀ v, c.volume? = some v → '/' ∉ v := by
    rintro v hv
    obtain rfl | rfl := hc <;> cases hv
  have hrun : (s.book.run E vols c).2 = (exec (E.choice vols c) c s).2.book :=
    congrArg Prod.snd (run_book E vols hnone s)
  rw [← hrun]
  obtain rfl | rfl := hc
  all_goals
    unfold Book.run Surroundings.act
    dsimp only
    rw [Function.update_eq_self]
    rfl

/-- Every command of the pass finds the same surroundings. -/
def Steady (E : Surroundings) (vols : List Mapping) (kube auto : Bool) (s : State)
    (o : ℕ → Choice) : Prop :=
  (tick kube auto).Admissible exec (fun _ c o => o = E.choice vols c) o
    { s with passes := s.passes + 1 }

theorem book_tick (hslash : ∀ vol ∈ vols, '/' ∉ vol.volumeID) {o : ℕ → Choice}
    (ho : Steady E vols kube auto s o) :
    (s.tick kube auto o).book = match E.mounts with
      | .error _ => State.book { s with passes := s.passes + 1 }
      | .ok entries => ((Prog.each (tickVolume kube auto entries) vols).go (Book.run E vols)
          (State.book { s with passes := s.passes + 1 })).2 := by
  have heval : (tick kube auto).eval exec o { s with passes := s.passes + 1 } =
      (tick kube auto).go (fun c s => exec (E.choice vols c) c s)
        { s with passes := s.passes + 1 } :=
    Prog.eval_eq_go fun e he => by rw [ho e he]
  unfold State.tick
  rw [heval]
  let s₁ := (exec (E.choice vols .mountInfo) .mountInfo { s with passes := s.passes + 1 }).2
  have hmounts : s₁.book = _ := book_read E vols (.inl rfl) _
  have hgo : (tick kube auto).go (fun c s => exec (E.choice vols c) c s)
      { s with passes := s.passes + 1 } = Prog.go (fun c s => exec (E.choice vols c) c s)
        (match E.mounts with
          | .error _ => pure ()
          | .ok entries => do
            let vols ← issue .stateAll
            Prog.each (tickVolume kube auto entries) vols) s₁ := rfl
  rw [hgo, ← hmounts]
  cases E.mounts with
  | error e => rfl
  | ok entries =>
    dsimp only
    have hall : (Prog.each (tickVolume kube auto entries) vols).All
        fun c => ∀ v, c.volume? = some v → '/' ∉ v :=
      Prog.all_each fun vol hvol =>
        (tickVolume_on (hslash vol hvol)).mono fun c hc => hc.slash (hslash vol hvol)
    have hsim := Prog.go_simulates (fun c s h => run_book E vols h s) hall
      (exec (E.choice vols .stateAll) .stateAll s₁).2
    rw [← book_read E vols (.inr rfl) s₁, hsim]
    rfl

/-- The same marks and times, the same hold-offs and memory, and the same calls, in any order. -/
structure Alike (s s' : State) : Prop where
  failed : ∀ v, s.failed.lookup v = s'.failed.lookup v
  held : ∀ v, s.held.lookup v = s'.held.lookup v
  eventsSent : ∀ v, v ∈ s.eventsSent ↔ v ∈ s'.eventsSent
  loggedOff : ∀ v, v ∈ s.loggedOff ↔ v ∈ s'.loggedOff
  skipsEvented : ∀ key, key ∈ s.skipsEvented ↔ key ∈ s'.skipsEvented
  calls : s.calls = s'.calls

theorem alike_of_book {s' : State} (h : s.book = s'.book) : Alike s s' := by
  have hpart : ∀ i, s.book.volumes i = s'.book.volumes i := fun i => by rw [h]
  constructor
  · intro v
    exact congrArg Volume.failed (hpart (some v))
  · intro v
    exact congrArg Volume.held (hpart (some v))
  · intro v
    have hsent := congrArg Volume.sent (hpart (some v))
    simpa [State.book] using hsent
  · intro v
    have hoff := congrArg Volume.off (hpart (some v))
    simpa [State.book] using hoff
  · intro key
    have hskip := Set.ext_iff.mp (congrArg Volume.skipped (hpart (owner key))) key
    simpa [State.book] using hskip
  · exact congrArg Book.calls h

theorem go_any_order {vols' : List Mapping} (hperm : vols.Perm vols')
    (hids : (vols.map (·.volumeID)).Nodup) (hslash : ∀ vol ∈ vols, '/' ∉ vol.volumeID) (b : Book) :
    (Prog.each (tickVolume kube auto entries) vols).go (Book.run E vols) b =
      (Prog.each (tickVolume kube auto entries) vols').go (Book.run E vols') b := by
  have hone : ∀ vol ∈ vols, (tickVolume kube auto entries vol).All (On vol.volumeID) :=
    fun vol hvol => tickVolume_on (hslash vol hvol)
  have hsame : (Prog.each (tickVolume kube auto entries) vols').All
      fun c => Book.run E vols c = Book.run E vols' c :=
    Prog.all_each fun vol hvol => (hone vol (hperm.mem_iff.mpr hvol)).mono
      fun c hc => hc.run_eq vols vols'
  rw [Prog.go_each_perm hperm]
  · exact Prog.go_simulates (f := id) (fun c b h => congrFun h b) hsame b
  · intro x hx y hy hne
    have hid : x.volumeID ≠ y.volumeID := fun heq => hne (List.inj_on_of_nodup_map hids hx hy heq)
    exact (hone y hy).mono fun d hd => (hone x hx).mono fun c hc => hc.apart hd hid

/-- A pass over staged volumes ends the same in whichever order they are listed. -/
theorem tick_any_order (kube auto : Bool) (E : Surroundings) (s : State) {vols vols' : List Mapping}
    (hperm : vols.Perm vols') (hids : (vols.map (·.volumeID)).Nodup)
    (hslash : ∀ vol ∈ vols, '/' ∉ vol.volumeID) {o o' : ℕ → Choice}
    (ho : Steady E vols kube auto s o) (ho' : Steady E vols' kube auto s o') :
    Alike (s.tick kube auto o) (s.tick kube auto o') ∧
    (∀ v, (∀ vol ∈ vols, vol.volumeID ≠ v) →
      (s.tick kube auto o).failed.lookup v = s.failed.lookup v) ∧
    ∀ entries, E.mounts = .ok entries → ∀ vol ∈ vols,
      (s.tick kube auto o).failed.lookup vol.volumeID =
        markAfter entries vol.stagePath s.clock (s.failed.lookup vol.volumeID) := by
  have hslash' : ∀ vol ∈ vols', '/' ∉ vol.volumeID :=
    fun vol hvol => hslash vol (hperm.mem_iff.mpr hvol)
  have hbook := book_tick hslash ho
  have hbook' := book_tick hslash' ho'
  refine ⟨?_, ?_, ?_⟩
  · apply alike_of_book
    rw [hbook, hbook']
    cases E.mounts with
    | error e => rfl
    | ok entries => exact congrArg Prod.snd (go_any_order hperm hids hslash _)
  · intro v hv
    have hnot : v ∉ vols.map (·.volumeID) := by
      intro hmem
      obtain ⟨vol, hvol, rfl⟩ := List.mem_map.mp hmem
      exact hv vol hvol rfl
    change ((s.tick kube auto o).book.volumes (some v)).failed = _
    rw [hbook]
    cases E.mounts with
    | error e => rfl
    | ok entries => exact congrArg Volume.failed ((each_failed hids hslash _).1 v hnot)
  · intro entries hm vol hvol
    change ((s.tick kube auto o).book.volumes (some vol.volumeID)).failed = _
    rw [hbook, hm]
    exact (each_failed hids hslash _).2 vol hvol

end Order

/-- A pod with two volumes, both forced read-only. -/
def bothLost : Surroundings where
  mounts := .ok [⟨.loop 0, "/stage/v".toList, ["rw"], ["ro"]⟩,
    ⟨.loop 1, "/stage/w".toList, ["rw"], ["ro"]⟩,
    ⟨.loop 0, lostPod.target "v".toList, ["rw"], ["ro"]⟩,
    ⟨.loop 1, lostPod.target "w".toList, ["rw"], ["ro"]⟩]
  pods := .ok [lostPod]
  answer _ := .ok ()

def twoVolumes : List Mapping :=
  [⟨"v".toList, some 0, "/img/v".toList, "/stage/v".toList, none, none, []⟩,
    ⟨"w".toList, some 1, "/img/w".toList, "/stage/w".toList, none, none, []⟩]

/-- The pod is deleted for either volume, and both are held. -/
theorem tick_any_order_bothLost :
    let s := (fresh 10).tick true true fun _ => bothLost.choice twoVolumes .now
    Alike s ((fresh 10).tick true true fun _ => bothLost.choice twoVolumes.reverse .now) ∧
    s.failed.lookup "v".toList = some 10 ∧ s.failed.lookup "w".toList = some 10 ∧
    s.held.lookup "v".toList = some (10 + remediationHold) ∧
    s.held.lookup "w".toList = some (10 + remediationHold) ∧ s.calls.card = 4 := by
  intro s
  have hsteady : ∀ vols, Steady bothLost vols true true (fresh 10)
      fun _ => bothLost.choice vols .now :=
    fun vols => Prog.Admissible.of_choice fun _ _ _ => rfl
  have horder := tick_any_order true true bothLost (fresh 10) twoVolumes.reverse_perm.symm
    (by decide) (by decide) (hsteady _) (hsteady _)
  have hmark : ∀ vol ∈ twoVolumes, s.failed.lookup vol.volumeID = some 10 := by
    intro vol hvol
    rw [horder.2.2 _ rfl vol hvol]
    revert vol
    decide
  exact ⟨horder.1, hmark _ List.mem_cons_self, hmark _ (List.mem_cons_of_mem _ List.mem_cons_self),
    by decide +kernel, by decide +kernel, by decide +kernel⟩

end Fileblock.Monitor
