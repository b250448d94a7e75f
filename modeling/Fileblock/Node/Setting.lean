import Fileblock.Crypt.Target
import Fileblock.Interaction.Rely
import Fileblock.Node.Placed

/-! The ground rules for an operation that holds the lock of one volume: which
commands it issues, what it may assume of the operations around it, and how facts
about its volume survive from one command to the next. -/
namespace Fileblock.Node
open Go Store Interaction

variable {S : Site} {ι : Type} {V : Volumes S ι} {v : ι} {w w' : World} {c : Cmd} {o : Choice}

/-- The commands of an operation that holds the lock of `v`. Everything they name
is the volume's own; a detach need only be so if the operation is `careful`. -/
def Tended (V : Volumes S ι) (v : ι) (careful : Prop) (w : World) : Cmd → Prop
  | .mkdirAll path | .remove path | .umount path => path ∈ V.paths v
  | .mount device path _ => path ∈ V.paths v ∧ V.Owns w v device
  | .losetupAttach file _ =>
    file = V.image v ∧ ((w.images file).present = true → w.loopsOf file = [])
  | .losetupDetach dev => careful → ∀ l ∈ w.loops, l.dev = dev → l.file = V.image v
  | .losetupSetCapacity dev => ∀ n, dev = some n → V.Owns w v (.loop n)
  | .luks dev name _ => name = V.mapper v ∧ V.Owns w v (.loop dev)
  | .cryptClose name => name = V.mapper v
  | .fsck device | .resize2fs device => V.Owns w v device
  | .statePut m => m.Records V v
  | .stateDelete id | .keysCache id _ _ | .keysDelete id | .failedClear id => id = V.id v
  | .bind .. | .remountReadOnly _ | .cryptResize _ | .failedMark _ | .lock _ | .unlock _ => False
  | _ => True

theorem Tended.lawful {careful : Prop} (h : Tended V v careful w c) : Lawful V w c := by
  cases c with
  | mount device path options => exact ⟨v, V.mem_places h.1, h.2⟩
  | losetupAttach file sectorSize =>
    exact ⟨v, h.1, fun hp => World.loopsOf_eq_nil.mp (h.2 hp)⟩
  | luks dev name c => exact ⟨v, h⟩
  | bind source target => exact h.elim
  | _ => trivial

theorem Sane.move (h : Sane V w) (hl : Lawful V w c)
    (hr : ∀ m, c = .statePut m → ∃ v, m.Records V v) : Sane V (step S o c w).2 := by
  refine ⟨h.toTidy.move hl (step_move S o c w), ?_, ?_⟩
  · intro m hm
    rcases step_entries hm with he | hm
    · exact hr m he
    · exact h.entries m hm
  · intro m hm
    rcases step_filed hm with he | hm | hm
    · exact hr m he
    · exact h.entries m hm
    · exact h.filed m hm

theorem Sane.step {careful : Prop} (h : Sane V w) (ht : Tended V v careful w c) :
    Sane V (step S o c w).2 := by
  refine h.move ht.lawful ?_
  rintro m rfl
  exact ⟨v, ht⟩

theorem Tended.disturb {careful : Prop} (h : Tended V v careful w c) (o : Choice) :
    Tended V v careful (w.disturb o) c := by
  have hd := w.disturb_disturbed o
  have ho : ∀ {src}, V.Owns w v src → V.Owns (w.disturb o) v src :=
    fun h => (hd.frame V v).owns.mpr h
  cases c with
  | mount device path options => exact ⟨h.1, ho h.2⟩
  | losetupAttach file sectorSize =>
    refine ⟨h.1, fun hp => ?_⟩
    rw [hd.loopsOf]
    exact h.2 (hd.present _ hp)
  | losetupDetach dev =>
    intro hc l hl hdev
    have hcore : l.core ∈ w.loopsOf l.file := by
      rw [← hd.loopsOf]
      exact World.mem_loopsOf.mpr ⟨l, hl, rfl, rfl⟩
    obtain ⟨l', hl', hf, he⟩ := World.mem_loopsOf.mp hcore
    have hdev' : l'.core.dev = l.core.dev := congrArg Loop.dev he
    rw [← hf]
    exact h hc l' hl' (hdev'.trans hdev)
  | losetupSetCapacity dev => exact fun n hn => ho (h n hn)
  | luks dev name c => exact ⟨h.1, ho h.2⟩
  | fsck device => exact ho h
  | resize2fs device => exact ho h
  | _ => exact h

/-- The commands that change nothing. -/
def Cmd.observes : Cmd → Bool
  | .stat _ | .findmntTarget _ | .findmntExact _ | .findmntSources _ | .findmntDevice _ _
  | .mountInfo | .losetupList | .losetupSetCapacity _ | .holders _ | .dmList | .imageLuks _ _
  | .cryptResize _ | .fsck _ | .resize2fs _ | .registryGet _ | .statStore _ | .statImage _
  | .readSuperblock _ | .podEvent _ | .stateGet _ | .stateAll | .failedGet _ | .keysGet _
  | .rangeLoops _ => true
  | _ => false

theorem okIf_self (b : Bool) (status : Int) (w : World) : (okIf b status w w).2 = w := by
  unfold okIf
  split_ifs <;> rfl

theorem step_observes (ho : c.observes = true) (S : Site) (o : Choice) (w : World) :
    (Node.step S o c w).2 = w := by
  unfold Node.step
  cases o.fault with
  | some e => cases c <;> first | rfl | cases ho
  | none =>
    cases c with
    | imageLuks file c =>
      dsimp only [execOk]
      split_ifs <;> rfl
    | statImage file =>
      dsimp only [execOk]
      split_ifs <;> rfl
    | readSuperblock file =>
      dsimp only [execOk]
      split_ifs <;> rfl
    | _ => first | rfl | exact okIf_self _ _ w | cases ho

/-- The commands that change nothing but the plugin's memory. -/
def Cmd.remembers : Cmd → Bool
  | .statePut _ | .stateDelete _ | .failedMark _ | .failedClear _ | .keysCache .. | .keysDelete _
  | .lock _ | .unlock _ => true
  | _ => false

theorem step_remembers (hr : c.remembers = true) (S : Site) (o : Choice) (w : World) :
    w.SameTables (Node.step S o c w).2 := by
  unfold Node.step
  cases c with
  | keysCache id k replace =>
    cases o.fault <;> dsimp only [execFail, execOk] <;> split_ifs <;>
      exact ⟨rfl, rfl, rfl, rfl, fun _ => rfl⟩
  | _ => first | (cases o.fault <;> exact ⟨rfl, rfl, rfl, rfl, fun _ => rfl⟩) | cases hr

theorem Genuine.congr (h : Genuine S w c o) (hm : w'.mounts = w.mounts) : Genuine S w' c o := by
  intro e he
  have := h e he
  cases c with
  | findmntExact path =>
    intro hp
    rw [World.mountedAt, hm]
    exact this hp
  | _ => exact this

/-- The commands that take something away from a volume in use. -/
def Cmd.releases : Cmd → Bool
  | .umount _ | .cryptClose _ | .luks .. | .mount .. => true
  | _ => false

theorem Cmd.releases_of_observes (h : c.observes = true) : c.releases = false := by
  cases c <;> first | rfl | cases h

theorem Cmd.releases_of_remembers (h : c.remembers = true) : c.releases = false := by
  cases c <;> first | rfl | cases h

/-- How an operation on `v` runs while it holds the lock (`held`). The others move
the world by `rely`; `adm` says which choices its commands meet. `ctx` is what else
is known, before and after the volume is known to be free, until the failure mark is
cleared. An operation that is `leaving` forgets the volume. -/
structure Setting (V : Volumes S ι) (v : ι) where
  rely : Cmd → World → World → Prop
  adm : World → Cmd → Choice → Prop
  careful : Prop
  leaving : Prop
  held : World → Prop
  ctx : Bool → World → Prop
  sane : ∀ {w c o}, adm w c o → Sane V w
  genuine : ∀ {w c o}, adm w c o → Genuine S w c o
  frame : ∀ {c w w'}, held w → rely c w w' → held w' ∧ Frame V v w w'
  held_lock : ∀ {w o}, adm w (.lock (V.id v)) o →
    held (step S o (.lock (V.id v)) (w.disturb o)).2
  held_disturb : ∀ {w} (o : Choice), held w → held (w.disturb o)
  held_step : ∀ {w c} (o : Choice), held w → (∀ id, c ≠ .lock id) → (∀ id, c ≠ .unlock id) →
    held (step S o c w).2
  ctx_held : ∀ {b w}, ctx b w → held w
  ctx_rely : ∀ {b c w w'}, ctx b w → rely c w w' → ctx b w'
  ctx_disturb : ∀ {b w} (o : Choice), ctx b w → ctx b (w.disturb o)
  ctx_step : ∀ {b w c} (o : Choice), ctx b w → Sane V w → Tended V v careful w c →
    (c.releases = true → b = true) → (∀ id, c ≠ .failedClear id) → ctx b (step S o c w).2
  free : ∀ {w c o}, adm w c o → ctx false (w.disturb o) → w.loopsOf (V.image v) = [] →
    ctx true (w.disturb o)

namespace Setting
variable (E : Setting V v)

/-- What the operation guarantees of each command it issues. -/
structure Guarantee (w : World) (c : Cmd) : Prop where
  tended : Tended V v E.careful w c
  releases : c.releases = true → E.ctx true w
  clears : ∀ id, c = .failedClear id → V.Staged v w ∨ E.leaving
  held : E.held w

/-- The machine as the operation meets it while it holds the lock. -/
def regime : Regime Cmd Resp (Choice × World) World :=
  Regime.amid ⟨exec S, E.adm, fun w c _ => E.Guarantee w c⟩ E.rely

/-- What is known between two commands. -/
structure Inv (b : Bool) (w : World) : Prop where
  sane : Sane V w
  ctx : E.ctx b w

section Rules
variable {E : Setting V v} {b : Bool} {P : World → Prop}

theorem Inv.disturb (h : E.Inv b w) (o : Choice) : E.Inv b (w.disturb o) :=
  ⟨h.sane.disturb o, E.ctx_disturb o h.ctx⟩

theorem Inv.step (h : E.Inv b w) (ht : Tended V v E.careful w c)
    (hr : c.releases = true → b = true) (hc : ∀ id, c ≠ .failedClear id) :
    E.Inv b (Node.step S o c w).2 :=
  ⟨h.sane.step ht, E.ctx_step o h.ctx h.sane ht hr hc⟩

/-- Where the command is issued, and where it takes effect. -/
theorem wp_issue (hP : Steady V v P) (hi : E.Inv b w) (hp : P w) {Q : Resp c → World → Prop}
    (h : ∀ w o, E.Inv b w → P w → E.adm w c o → E.Guarantee w c ∧
      (E.Inv b (w.disturb o) → P (w.disturb o) →
        Q (Node.step S o c (w.disturb o)).1 (Node.step S o c (w.disturb o)).2)) :
    (issue c).wp E.regime Q w := by
  rintro ⟨o, w'⟩ ⟨hrel, hadm⟩
  have hframe := (E.frame (E.ctx_held hi.ctx) hrel).2
  have hs := E.sane hadm
  have hi' : E.Inv b w' := ⟨hs, E.ctx_rely hi.ctx hrel⟩
  have hp' := hP w w' hi.sane.toTidy hs.toTidy hframe hp
  obtain ⟨hg, hq⟩ := h w' o hi' hp' hadm
  refine ⟨hg, hq (hi'.disturb o) ?_⟩
  exact hP _ _ hs.toTidy (hs.disturb o).toTidy ((w'.disturb_disturbed o).frame V v) hp'

theorem wp_do (hP : Steady V v P) (hi : E.Inv b w) (hp : P w) {Q : Resp c → World → Prop}
    (ht : ∀ w, E.Inv b w → P w → Tended V v E.careful w c) (hc : ∀ id, c ≠ .failedClear id)
    (hr : c.releases = true → b = true)
    (hq : ∀ w o, E.Inv b w → P w → Genuine S w c o → E.Inv b (Node.step S o c w).2 →
      Q (Node.step S o c w).1 (Node.step S o c w).2) : (issue c).wp E.regime Q w := by
  refine wp_issue hP hi hp fun w o hi hp hadm =>
    ⟨⟨ht w hi hp, fun h => hr h ▸ hi.ctx, fun id he => absurd he (hc id), E.ctx_held hi.ctx⟩,
      fun hi' hp' => ?_⟩
  refine hq _ o hi' hp' ?_ (hi'.step (ht _ hi' hp') hr hc)
  exact (E.genuine hadm).congr (w.disturb_disturbed o).mounts

theorem wp_see (ho : c.observes = true) (hP : Steady V v P) (hi : E.Inv b w) (hp : P w)
    {Q : Resp c → World → Prop} (ht : ∀ w, E.Inv b w → P w → Tended V v E.careful w c)
    (hq : ∀ w o, E.Inv b w → P w → Genuine S w c o → Q (Node.step S o c w).1 w) :
    (issue c).wp E.regime Q w := by
  have hc : ∀ id, c ≠ .failedClear id := by
    rintro id rfl
    cases ho
  have hr : c.releases = true → b = true := by simp [c.releases_of_observes ho]
  refine wp_do hP hi hp ht hc hr fun w o hi hp hg _ => ?_
  rw [step_observes ho S o w]
  exact hq w o hi hp hg

theorem wp_remember (hr : c.remembers = true) (hc : ∀ id, c ≠ .failedClear id)
    (hP : Steady V v P) (hs : ∀ w w', w.SameTables w' → P w → P w')
    (hi : E.Inv b w) (hp : P w) (ht : ∀ w, Tended V v E.careful w c) {Q : Resp c → World → Prop}
    (hq : ∀ r w, E.Inv b w → P w → Q r w) : (issue c).wp E.regime Q w := by
  have hrel : c.releases = true → b = true := by simp [c.releases_of_remembers hr]
  refine wp_do hP hi hp (fun w _ _ => ht w) hc hrel fun w o hi hp _ hi' => ?_
  exact hq _ _ hi' (hs _ _ (step_remembers hr S o _) hp)

/-- Clearing the mark of a volume that is staged or left. Of what was known, the
lock and the facts about the volume remain. -/
theorem wp_clear (hP : Steady V v P) (hi : E.Inv b w) (hp : P w) {Q : Unit → World → Prop}
    (hm : ∀ w, P w → V.Staged v w ∨ E.leaving)
    (hq : ∀ w failed, Sane V { w with failed } → E.held { w with failed } → P w →
      Q () { w with failed }) : (issue (.failedClear (V.id v))).wp E.regime Q w := by
  refine wp_issue hP hi hp fun w o hi hp hadm =>
    ⟨⟨rfl, by simp [Cmd.releases], fun _ _ => hm w hp, E.ctx_held hi.ctx⟩, ?_⟩
  intro hi' hp'
  have hs : Sane V (Node.step S o (.failedClear (V.id v)) (w.disturb o)).2 :=
    hi'.sane.step (show Tended V v E.careful _ (.failedClear (V.id v)) from rfl)
  have hh := E.held_step (c := .failedClear (V.id v)) o (E.ctx_held hi'.ctx) (by simp) (by simp)
  unfold Node.step at hs hh ⊢
  cases hf : o.fault with
  | some e =>
    rw [hf] at hs hh
    exact hq _ _ hs hh hp'
  | none =>
    rw [hf] at hs hh
    exact hq _ _ hs hh hp'

theorem wp_all {α : Type} {p : Run α} {C : Cmd → Prop} (hall : p.All C) (hP : Steady V v P)
    (ht : ∀ c w, C c → E.Inv b w → P w → Tended V v E.careful w c)
    (hc : ∀ c, C c → ∀ id, c ≠ .failedClear id) (hr : ∀ c, C c → c.releases = true → b = true)
    (hstep : ∀ c w o, C c → E.Inv b w → P w → P (Node.step S o c w).2)
    (hi : E.Inv b w) (hp : P w) : p.wp E.regime (fun _ w => E.Inv b w ∧ P w) w := by
  induction p generalizing w with
  | ret a => exact ⟨hi, hp⟩
  | call c k ih =>
    have hcall : Prog.call c k = issue c >>= k := rfl
    rw [hcall, Prog.wp_bind]
    refine wp_do hP hi hp (fun w hi hp => ht c w hall.1 hi hp) (hc c hall.1) (hr c hall.1) ?_
    exact fun w o hi hp _ hi' => ih _ (hall.2 _) hi' (hstep c w o hall.1 hi hp)

/-- A look around before anything is known but that the lock is held, and what the
others leave as it is (`M`). -/
theorem wp_early {M : World → Prop} (ho : c.observes = true)
    (ht : ∀ w, Tended V v E.careful w c) (hP : Steady V v P)
    (hheld : ∀ w, M w → E.held w) (hrely : ∀ w w', M w → E.rely c w w' → M w')
    (hdisturb : ∀ w o, M w → M (w.disturb o)) (hs : Sane V w) (hm : M w) (hp : P w)
    {Q : Resp c → World → Prop}
    (hq : ∀ w o, E.adm w c o → Sane V (w.disturb o) → M (w.disturb o) → P (w.disturb o) →
      Q (Node.step S o c (w.disturb o)).1 (w.disturb o)) : (issue c).wp E.regime Q w := by
  rintro ⟨o, w'⟩ ⟨hrel, hadm⟩
  have hframe := (E.frame (hheld w hm) hrel).2
  have hs' := E.sane hadm
  have hp' := hP w w' hs.toTidy hs'.toTidy hframe hp
  have hg : E.Guarantee w' c := by
    refine ⟨ht w', by simp [c.releases_of_observes ho], ?_, hheld _ (hrely _ _ hm hrel)⟩
    rintro id rfl
    cases ho
  refine ⟨hg, ?_⟩
  show Q (Node.step S o c (w'.disturb o)).1 (Node.step S o c (w'.disturb o)).2
  rw [step_observes ho]
  refine hq w' o hadm (hs'.disturb o) (hdisturb _ o (hrely _ _ hm hrel)) ?_
  exact hP _ _ hs'.toTidy (hs'.disturb o).toTidy ((w'.disturb_disturbed o).frame V v) hp'

/-- The commands that look at nothing in particular. -/
def watches (c : Cmd) : Prop :=
  c.observes = true ∧ ∀ (w : World), Tended V v E.careful w c

theorem wp_watch {α : Type} {p : Run α} (hall : p.All E.watches) (hP : Steady V v P)
    (hi : E.Inv b w) (hp : P w) {Q : α → World → Prop}
    (hq : ∀ r w, E.Inv b w → P w → Q r w) : p.wp E.regime Q w := by
  induction p generalizing w with
  | ret a => exact hq a w hi hp
  | call c k ih =>
    have hcall : Prog.call c k = issue c >>= k := rfl
    rw [hcall, Prog.wp_bind]
    refine wp_see hall.1.1 hP hi hp (fun w _ _ => hall.1.2 w) ?_
    exact fun w o hi hp _ => ih _ (hall.2 _) hi hp

end Rules
end Setting
end Fileblock.Node
