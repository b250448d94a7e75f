import Fileblock.Crypt.Usable
import Fileblock.Node.Calm
import Fileblock.Node.Others

/-! What a stage that nobody disturbs does to the tables: it attaches a loop, opens a
mapping over it, and gives both back when it fails. -/
namespace Fileblock.Node
open Go Store Interaction

variable {S : Site} {ι : Type} {V : Volumes S ι} {v : ι} {w w' w₀ : World} {c : Cmd} {o : Choice}
  {since dev : ℕ} {ε δ α β : Type}

/-- Nothing happens around the plugin. -/
def Choice.Alone (o : Choice) : Prop := o.marks = [] ∧ o.breaks = [] ∧ o.unlinks = []

instance (o : Choice) : Decidable o.Alone :=
  inferInstanceAs (Decidable (o.marks = [] ∧ o.breaks = [] ∧ o.unlinks = []))

theorem exec_alone (h : o.Alone) : exec S o c w = step S o c w := by
  have hd : w.disturb o = w := by
    unfold World.disturb
    rw [h.1, h.2.1, h.2.2]
    rfl
  rw [exec, hd]

/-- The commands with which a stage takes back what it has done, and the write of the
state file. The loop that the stage has attached is told by its number. -/
def Cmd.cleans (since : ℕ) (w : World) : Cmd → Bool
  | .statePut _ | .umount _ | .cryptClose _ | .luks _ _ .close => true
  | .losetupDetach dev => w.loops.any fun l => l.dev = dev && since ≤ l.birth
  | _ => false

/-- Any command may fail but those that clean up. -/
def Faulty (S : Site) (since : ℕ) (w : World) (c : Cmd) (o : Choice) : Prop :=
  o.Alone ∧ Genuine S w c o ∧ (c.cleans since w = true → o.fault = none)

instance (S : Site) (since : ℕ) (w : World) (c : Cmd) (o : Choice) :
    Decidable (Faulty S since w c o) :=
  inferInstanceAs (Decidable (o.Alone ∧ Genuine S w c o ∧
    (c.cleans since w = true → o.fault = none)))

theorem issue_observes (h : c.observes = true) : (issue c).All (·.observes = true) :=
  (Prog.all_perform _ _).mpr h

/-! The parts of a stage that only look. -/

theorem isMountPoint_observes (path : Str) : (isMountPoint path).run.All (·.observes = true) :=
  isMountPoint_all (P := fun c => c.observes = true) rfl rfl rfl

theorem sourceMounted_observes (src : Source) (host : Bool) :
    (sourceMounted src host).run.All (·.observes = true) := by
  refine (issue_observes (c := .findmntDevice src host) rfl).bind fun r => ?_
  cases r with
  | ok rows => exact Prog.all_ret _ _
  | error e =>
    dsimp only
    split_ifs <;> exact Prog.all_ret _ _

theorem loopBusy_observes (dev : ℕ) : (loopBusy dev).run.All (·.observes = true) := by
  refine Prog.all_run_bind (sourceMounted_observes _ _) fun here => ?_
  cases here with
  | true => exact Prog.all_ret _ _
  | false =>
    refine Prog.all_run_bind ?_ fun host => ?_
    · refine Prog.All.bind ((sourceMounted_observes _ _).bind fun r => ?_) fun _ => Prog.all_ret _ _
      cases r <;> exact Prog.all_ret _ _
    · cases host with
      | true => exact Prog.all_ret _ _
      | false =>
        exact Prog.all_run_bind (Prog.all_attempt (issue_observes rfl) _) fun _ => Prog.all_ret _ _

theorem statImage_observes (backing image : Str) :
    (statImage backing image).run.All (·.observes = true) := by
  refine (issue_observes (c := .statImage image) rfl).bind fun r => ?_
  cases r with
  | ok size => exact Prog.all_ret _ _
  | error e =>
    refine (isMountPoint_observes _).bind fun r => ?_
    rcases r with e | (_ | _) <;> exact Prog.all_ret _ _

theorem loopSectorSize_observes (file : Str) (size : ℕ) (encrypted : Bool) :
    (loopSectorSize S.pageSize file size encrypted).run.All (·.observes = true) := by
  refine Prog.all_run_bind ?_ fun _ => Prog.all_ret _ _
  cases encrypted with
  | true =>
    refine Prog.lift_all (P := fun _ => True) ?_ (Prog.all_true _)
    exact fun _ _ => rfl
  | false =>
    refine Prog.all_run_bind (Prog.all_attempt (issue_observes rfl) _) fun sb => ?_
    cases sb <;> exact Prog.all_ret _ _

theorem mountSource_observes (path : Str) : (mountSource path).run.All (·.observes = true) := by
  refine Prog.all_run_bind (Prog.all_attempt (issue_observes rfl) _) fun rows => ?_
  cases rows.getLast? <;> exact Prog.all_ret _ _

theorem adoptable_observes (name : String) (loops : List ℕ) (src : Source) (mode : Mode) :
    (adoptable name loops src mode).run.All (·.observes = true) := by
  cases mode with
  | plain => cases src <;> exact Prog.all_ret _ _
  | encrypted k f =>
    unfold adoptable
    split_ifs
    · exact Prog.all_run_bind (orStatus_all (Prog.all_attempt (issue_observes rfl) _) _ _)
        fun _ => Prog.all_ret _ _
    · exact Prog.all_ret _ _

/-! Loops that come and go. -/

theorem World.detach_loops (hb : w.busy dev = false)
    (hc : ∀ l ∈ w.loops, l.autoclear = true → w.busy l.dev = true) :
    (w.detach dev).loops = w.loops.filter (·.dev ≠ dev) := by
  have hbusy : ∀ n, World.busy { w with loops := w.loops.map fun l =>
      if l.dev = dev then { l with autoclear := true } else l } n = w.busy n := fun _ => rfl
  unfold World.detach World.reap
  simp only [hbusy]
  generalize w.loops = ls at hc
  induction ls with
  | nil => rfl
  | cons l ls ih =>
    have ih := ih fun l hl => hc l (List.mem_cons_of_mem _ hl)
    rw [List.map_cons]
    by_cases hd : l.dev = dev
    · rw [if_pos hd, List.filter_cons_of_neg (by simp [hd, hb]),
        List.filter_cons_of_neg (by simp [hd])]
      exact ih
    · have hkeep : (!(l.autoclear && !w.busy l.dev)) = true := by
        cases ha : l.autoclear with
        | false => rfl
        | true => simp [hc l List.mem_cons_self ha]
      rw [if_neg hd, List.filter_cons, if_pos hkeep, List.filter_cons_of_pos (by simp [hd])]
      exact congrArg (l :: ·) ih

theorem World.reap_loops (hc : ∀ l ∈ w.loops, l.autoclear = true → w.busy l.dev = true) :
    w.reap.loops = w.loops := by
  unfold World.reap
  refine List.filter_eq_self.mpr fun l hl => ?_
  cases ha : l.autoclear with
  | false => rfl
  | true => simp [hc l hl ha]

theorem Coherent.idle_of_unattached (h : Coherent V w) (hd : ∀ l ∈ w.loops, l.dev ≠ dev) :
    w.busy dev = false := by
  refine World.busy_false.mpr ⟨World.mounted_false.mpr fun m hm hs => ?_,
    World.held_false.mpr fun name hn => ?_⟩
  · have hlive := h.live m hm
    rw [hs] at hlive
    obtain ⟨⟨l, hl, hd'⟩, -⟩ := hlive
    exact hd l hl hd'
  · obtain ⟨u, -, l, hl, hd', -⟩ := h.mapped _ hn
    exact hd l hl hd'

/-- What a failed stage leaves: the mounts, the mappings and what the plugin remembers are
as before, and so is the content of other images. No loop has come, and the only ones gone
are idle ones on the volume's image. -/
structure Undone (V : Volumes S ι) (v : ι) (w w' : World) : Prop where
  mounts : w'.mounts = w.mounts
  dm : w'.dm = w.dm
  loops : w'.loops.Sublist w.loops
  idle : ∀ l ∈ w.loops, l ∉ w'.loops → l.file = V.image v ∧ w.busy l.dev = false
  memory : w'.memory = w.memory
  images : ∀ f, f ≠ V.image v → w'.images f = w.images f

namespace Undone

theorem refl (V : Volumes S ι) (v : ι) (w : World) : Undone V v w w :=
  ⟨rfl, rfl, .refl _, fun _ h h' => absurd h h', rfl, fun _ _ => rfl⟩

theorem busy (h : Undone V v w w') (n : ℕ) : w'.busy n = w.busy n := by
  unfold World.busy World.mounted World.held
  rw [h.mounts, h.dm]

theorem detach (h : Undone V v w w') (ht : Tidy V w') (ho : V.Owns w' v (.loop dev))
    (hb : w'.busy dev = false) : Undone V v w (w'.detach dev) := by
  have hl := World.detach_loops hb ht.cleared
  refine ⟨h.mounts, h.dm, ?_, ?_, h.memory, h.images⟩
  · rw [hl]
    exact List.filter_sublist.trans h.loops
  · intro l hmem hgone
    by_cases hmem' : l ∈ w'.loops
    · have hd : l.dev = dev := by
        by_contra hd
        exact hgone (hl ▸ List.mem_filter.mpr ⟨hmem', by simpa using hd⟩)
      obtain ⟨l', hl', hd', hf⟩ := ho
      rw [← h.busy, hd]
      exact ⟨ht.loop_unique hmem' hl' (hd.trans hd'.symm) ▸ hf, hb⟩
    · exact h.idle l hmem hmem'

end Undone

/-! What a stage makes of the tables. -/

def Mode.cryptDev (mode : Mode) (name : String) : Option String :=
  match mode with
  | .plain => none
  | .encrypted _ _ => some name

/-- What a stage in this mode can make a mounted filesystem of. -/
def Mode.Usable (mode : Mode) (d : Crypt.Device) : Prop :=
  match mode with
  | .plain => d.header = none ∧ d.fs = true
  | .encrypted k _ => d.Usable k.1

theorem Mode.Usable.setMapped {mode : Mode} {d : Crypt.Device} (h : mode.Usable d) (b : Bool) :
    mode.Usable { d with mapped := b } := by
  cases mode with
  | plain => exact h
  | encrypted k f => exact Crypt.Device.Usable.setMapped h b

/-- The loop is attached: `w` is where the stage started, `w₀` is where it attached. -/
structure Attaching (V : Volumes S ι) (v : ι) (w w₀ : World) (dev : ℕ) : Prop where
  undone : Undone V v w w₀
  tidy : Tidy V w₀
  free : ∀ l ∈ w₀.loops, l.dev ≠ dev
  unattached : ∀ l ∈ w₀.loops, l.file ≠ V.image v
  attaches : w₀.attaches = w.attaches
  image : w₀.images (V.image v) = w.images (V.image v)

theorem Attaching.closed (h : Attaching V v w w₀ dev) : w₀.isOpen (V.mapper v) = false := by
  refine World.isOpen_false.mpr fun n hn => ?_
  obtain ⟨l, hl, -, hf⟩ := h.tidy.over_mapper hn
  exact h.unattached l hl hf

theorem Attaching.idle (h : Attaching V v w w₀ dev) : w₀.busy dev = false :=
  h.tidy.idle_of_unattached h.free

theorem Attaching.unmounted (h : Attaching V v w w₀ dev) {m : Mount} (hm : m ∈ w₀.mounts) :
    ¬ V.Owns w₀ v m.source := by
  intro ho
  have hlive := h.tidy.live m hm
  cases hs : m.source with
  | loop n =>
    rw [hs] at ho
    obtain ⟨l, hl, -, hf⟩ := ho
    exact h.unattached l hl hf
  | mapper name =>
    rw [hs] at ho hlive
    obtain rfl : name = V.mapper v := ho
    exact Bool.false_ne_true (h.closed.symm.trans hlive)
  | dir path =>
    rw [hs] at ho
    exact ho.elim

/-- `w` is `w₀` with one more loop on the volume's image, which the stage has attached.
The image is the device `d`, and what is mapped of it is the volume's mapping. -/
structure Holding (V : Volumes S ι) (v : ι) (w₀ : World) (dev : ℕ) (d : Crypt.Device)
    (w : World) : Prop where
  loops : w.loops = w₀.loops ++ [⟨dev, V.image v, true, none, false, w₀.attaches⟩]
  dm : w.dm = if d.mapped then (V.mapper v, dev) :: w₀.dm else w₀.dm
  mounts : w.mounts = w₀.mounts
  memory : w.memory = w₀.memory
  images : ∀ f, f ≠ V.image v → w.images f = w₀.images f
  present : (w.images (V.image v)).present = (w₀.images (V.image v)).present
  device : { (w.images (V.image v)).device with mapped := d.mapped } = d

namespace Holding
variable {w₁ : World} {d : Crypt.Device}

theorem attach (V : Volumes S ι) (v : ι) (w : World) (dev : ℕ) :
    Holding V v w dev { (w.images (V.image v)).device with mapped := false }
      (w.attach (V.image v) dev) :=
  ⟨rfl, rfl, rfl, rfl, fun _ _ => rfl, rfl, rfl⟩

theorem mem (h : Holding V v w₀ dev d w₁) :
    ⟨dev, V.image v, true, none, false, w₀.attaches⟩ ∈ w₁.loops := by
  rw [h.loops]
  exact List.mem_append_right _ List.mem_cons_self

theorem loop? (h : Holding V v w₀ dev d w₁) (ha : Attaching V v w w₀ dev) :
    w₁.loop? dev = some ⟨dev, V.image v, true, none, false, w₀.attaches⟩ := by
  have hnone : w₀.loops.find? (·.dev = dev) = none := World.loop?_none.mpr ha.free
  unfold World.loop?
  rw [h.loops, List.find?_append, hnone]
  simp

theorem isOpen (h : Holding V v w₀ dev d w₁) (ha : Attaching V v w w₀ dev) :
    w₁.isOpen (V.mapper v) = d.mapped := by
  have hclosed := ha.closed
  unfold World.isOpen at hclosed ⊢
  rw [h.dm]
  cases d.mapped with
  | false => exact hclosed
  | true => simp

theorem held (h : Holding V v w₀ dev d w₁) (ha : Attaching V v w w₀ dev) :
    w₁.held dev = d.mapped := by
  have hfree := (World.busy_false.mp ha.idle).2
  unfold World.held at hfree ⊢
  rw [h.dm]
  cases d.mapped with
  | false => exact hfree
  | true => simp

theorem mounted_loop (h : Holding V v w₀ dev d w₁) (ha : Attaching V v w w₀ dev) :
    w₁.mounted (.loop dev) = false := by
  have hfree := (World.busy_false.mp ha.idle).1
  unfold World.mounted at hfree ⊢
  rwa [h.mounts]

theorem mounted_mapper (h : Holding V v w₀ dev d w₁) (ha : Attaching V v w w₀ dev) :
    w₁.mounted (.mapper (V.mapper v)) = false := by
  refine World.mounted_false.mpr fun m hm hs => ?_
  refine ha.unmounted (h.mounts ▸ hm) ?_
  rw [hs]
  rfl

theorem found (h : Holding V v w₀ dev d w₁) (ha : Attaching V v w w₀ dev) :
    { (w₁.images (V.image v)).device with mapped := w₁.isOpen (V.mapper v) } = d := by
  rw [h.isOpen ha]
  exact h.device

theorem congr (h : Holding V v w₀ dev d w₁) (hl : w'.loops = w₁.loops) (hd : w'.dm = w₁.dm)
    (hm : w'.mounts = w₁.mounts) (hmem : w'.memory = w₁.memory) (hi : w'.images = w₁.images) :
    Holding V v w₀ dev d w' := by
  refine ⟨hl.trans h.loops, hd.trans h.dm, hm.trans h.mounts, hmem.trans h.memory, ?_, ?_, ?_⟩
  · rw [hi]
    exact h.images
  · rw [hi]
    exact h.present
  · rw [hi]
    exact h.device

theorem cleared (h : Holding V v w₀ dev d w₁) (ht : Tidy V w₀) :
    ∀ l ∈ w₁.loops, l.autoclear = true → w₁.busy l.dev = true := by
  intro l hl ha
  rw [h.loops] at hl
  rcases List.mem_append.mp hl with hl | hl
  · rcases World.busy_iff.mp (ht.cleared l hl ha) with hm | hh
    · refine World.busy_iff.mpr (Or.inl ?_)
      unfold World.mounted at hm ⊢
      rwa [h.mounts]
    · obtain ⟨name, hn⟩ := World.held_iff.mp hh
      refine World.busy_iff.mpr (Or.inr (World.held_iff.mpr ⟨name, ?_⟩))
      rw [h.dm]
      split_ifs
      · exact List.mem_cons_of_mem _ hn
      · exact hn
  · rw [List.mem_singleton.mp hl] at ha
    cases ha

theorem detach (h : Holding V v w₀ dev d w₁) (ha : Attaching V v w w₀ dev)
    (hd : d.mapped = false) : (w₁.detach dev).loops = w₀.loops := by
  have hidle : w₁.busy dev = false :=
    World.busy_false.mpr ⟨h.mounted_loop ha, (h.held ha).trans hd⟩
  rw [World.detach_loops hidle (h.cleared ha.tidy), h.loops, List.filter_append,
    List.filter_cons_of_neg (by simp), List.filter_nil, List.append_nil]
  exact List.filter_eq_self.mpr fun l hl => by simpa using ha.free l hl

theorem undone (h : Holding V v w₀ dev d w₁) (ha : Attaching V v w w₀ dev)
    (hd : d.mapped = false) : Undone V v w (w₁.detach dev) := by
  have hu := ha.undone
  have hloops := h.detach ha hd
  have hdm : w₁.dm = w₀.dm := by rw [h.dm, hd, if_neg Bool.false_ne_true]
  exact ⟨h.mounts.trans hu.mounts, hdm.trans hu.dm, hloops ▸ hu.loops,
    fun l hl hgone => hu.idle l hl (hloops ▸ hgone), h.memory.trans hu.memory,
    fun f hf => (h.images f hf).trans (hu.images f hf)⟩

theorem closeMapping (h : Holding V v w₀ dev d w₁) (ha : Attaching V v w w₀ dev) :
    (w₁.closeMapping (V.mapper v)).1 = (Crypt.execOk 0 .close d).1 ∧
      Holding V v w₀ dev (Crypt.execOk 0 .close d).2 (w₁.closeMapping (V.mapper v)).2 := by
  unfold World.closeMapping
  rw [h.isOpen ha, h.mounted_mapper ha]
  cases hd : d.mapped with
  | false =>
    simp only [Crypt.execOk, hd, Bool.not_false, if_true, Bool.false_eq_true, if_false]
    exact ⟨trivial, h⟩
  | true =>
    have hdm : w₁.dm.filter (·.1 ≠ V.mapper v) = w₀.dm := by
      rw [h.dm, hd, if_pos rfl, List.filter_cons_of_neg (by simp)]
      refine List.filter_eq_self.mpr fun p hp => ?_
      have hne : p.1 ≠ V.mapper v := fun he => World.isOpen_false.mp ha.closed p.2 (he ▸ hp)
      simpa using hne
    have hclosed : Holding V v w₀ dev { d with mapped := false }
        { w₁ with dm := w₁.dm.filter (·.1 ≠ V.mapper v) } := by
      refine ⟨h.loops, hdm, h.mounts, h.memory, h.images, h.present, ?_⟩
      exact congrArg (fun d : Crypt.Device => { d with mapped := false }) h.device
    simp only [Crypt.execOk, hd, Bool.not_true, Bool.false_eq_true, if_false, if_true]
    exact ⟨trivial, hclosed.congr (World.reap_loops (hclosed.cleared ha.tidy)) rfl rfl rfl rfl⟩

theorem luks (h : Holding V v w₀ dev d w₁) (ha : Attaching V v w w₀ dev) {c : Crypt.Cmd}
    (hc : ∀ key, c = .open key → d.mapped = false) :
    (step S o (.luks dev (V.mapper v) c) w₁).1 = (Crypt.exec ⟨o.fault, o.pick⟩ c d).1 ∧
      Holding V v w₀ dev (Crypt.exec ⟨o.fault, o.pick⟩ c d).2
        (step S o (.luks dev (V.mapper v) c) w₁).2 := by
  unfold step Crypt.exec
  cases o.fault with
  | some e => exact ⟨rfl, h⟩
  | none =>
    have hset : ∀ d' : Crypt.Device, d'.mapped = d.mapped →
        Holding V v w₀ dev d' (w₁.setDevice (V.image v) { d' with mapped := false }) := by
      intro d' hd'
      refine ⟨h.loops, ?_, h.mounts, h.memory, fun f hf => ?_, ?_, ?_⟩
      · rw [hd']
        exact h.dm
      · simpa [World.setDevice, hf] using h.images f hf
      · simpa [World.setDevice] using h.present
      · simp [World.setDevice]
    dsimp only [execOk, World.luks]
    rw [h.loop? ha]
    dsimp only
    rw [h.found ha]
    cases c with
    | close => exact h.closeMapping ha
    | «open» key =>
      have hd := hc key rfl
      have hidle : w₁.busy dev = false :=
        World.busy_false.mpr ⟨h.mounted_loop ha, (h.held ha).trans hd⟩
      dsimp only
      rw [hidle, if_neg Bool.false_ne_true]
      cases hh : d.header with
      | none =>
        simp only [Crypt.execOk, hh]
        exact ⟨trivial, h⟩
      | some hdr =>
        by_cases hk : key ∈ hdr.slots
        · rw [Crypt.execOk_open _ hh hk hd]
          refine ⟨rfl, h.loops, ?_, h.mounts, h.memory, h.images, h.present, ?_⟩
          · show (V.mapper v, dev) :: w₁.dm = (V.mapper v, dev) :: w₀.dm
            rw [h.dm, hd, if_neg Bool.false_ne_true]
          · exact congrArg (fun d : Crypt.Device => { d with mapped := true }) h.device
        · simp only [Crypt.execOk, hh, hk, not_false_eq_true, if_true]
          exact ⟨trivial, h⟩
    | isLuks | openDevice | read | luksFormat | testPassphrase | luksAddKey | luksRemoveKey
    | luksDump | dumpMetadata | mkfs | config => exact ⟨rfl, hset _ (Crypt.execOk_mapped rfl _ d)⟩

end Holding

end Fileblock.Node
