import Fileblock.Node.RestageSpec

/-! The requests as a whole: what they do with the lock of their volume, and what
without it. -/
namespace Fileblock.Node
open Go Store Interaction

variable {S : Site} {ι : Type} {V : Volumes S ι} {v : ι} {w : World} {c : Cmd} {o : Choice}

/-- The commands that only look, and not at a device. -/
def Cmd.looks : Cmd → Bool
  | .stat _ | .findmntTarget _ | .findmntExact _ | .findmntSources _ | .findmntDevice _ _
  | .mountInfo | .losetupList | .holders _ | .dmList | .registryGet _ | .statStore _
  | .statImage _ | .readSuperblock _ | .podEvent _ | .stateGet _ | .stateAll | .failedGet _
  | .keysGet _ | .rangeLoops _ => true
  | _ => false

/-- The commands that an operation on `v` issues without holding the lock. -/
def Aside (V : Volumes S ι) (v : ι) : Cmd → Prop
  | .lock id | .unlock id => id = V.id v
  | .mkdirAll path | .remove path | .umount path | .remountReadOnly path => V.Outside path
  | .bind source target => source ∈ V.paths v ∧ V.Outside target
  | c => c.looks = true

theorem Aside.lawful (h : Aside V v c) : Lawful V w c := by
  cases c with
  | bind source target => exact h.2
  | mount device path options => exact absurd h Bool.false_ne_true
  | losetupAttach file sectorSize => exact absurd h Bool.false_ne_true
  | luks dev name c => exact absurd h Bool.false_ne_true
  | _ => trivial

theorem Aside.sane (h : Aside V v c) (hs : Sane V w) : Sane V (step S o c w).2 := by
  refine hs.move h.lawful ?_
  rintro m rfl
  exact absurd h Bool.false_ne_true

/-- The commands with which a publish binds the staging path to a pod's. -/
def Binds (V : Volumes S ι) (v : ι) (target : Str) : Cmd → Prop
  | .mkdirAll path | .stat path | .findmntTarget path | .findmntExact path
  | .remountReadOnly path => path = target
  | .bind source path => source ∈ V.paths v ∧ path = target
  | _ => False

theorem Binds.aside {target : Str} (ht : V.Outside target) (h : Binds V v target c) :
    Aside V v c := by
  cases c with
  | mkdirAll path => exact h ▸ ht
  | remountReadOnly path => exact h ▸ ht
  | bind source path => exact ⟨h.1, h.2 ▸ ht⟩
  | stat path => rfl
  | findmntTarget path => rfl
  | findmntExact path => rfl
  | _ => exact h.elim

theorem bindTarget_all {req : PublishRequest} (hpath : req.stagingTargetPath ∈ V.paths v) :
    (bindTarget req).run.All (Binds V v req.targetPath) := by
  have hone : ∀ c : Cmd, Binds V v req.targetPath c →
      (issue c).All (Binds V v req.targetPath) := fun c h => (Prog.all_perform _ _).mpr h
  unfold bindTarget
  refine Prog.all_run_bind (Prog.all_attempt (Prog.all_attempt (hone (.mkdirAll _) rfl) _) _) fun _ => ?_
  refine Prog.all_run_bind ?_ fun found => ?_
  · refine Prog.All.bind (Prog.All.bind (isMountPoint_all rfl rfl rfl) fun r => ?_)
      fun _ => Prog.all_ret _ _
    cases r <;> exact Prog.all_ret _ _
  · cases found with
    | true => exact Prog.all_ret _ _
    | false =>
      refine Prog.all_attempt ?_ _
      unfold bindMount shell
      refine Prog.all_run_bind (Prog.all_attempt (hone (.bind _ _) ⟨hpath, rfl⟩) _) fun _ => ?_
      cases req.readonly with
      | true => exact Prog.all_attempt (hone (.remountReadOnly _) rfl) _
      | false => exact Prog.all_ret _ _

namespace Setting
variable (E : Setting V v) (Z : World → Prop)

/-- What an operation guarantees of each command it issues, with the lock or
without. `Z` is what it knows when it binds. -/
inductive Issues (w : World) (c : Cmd) : Prop
  | locked (h : E.Guarantee w c)
  | aside (h : Aside V v c) (hbind : ∀ source target, c = .bind source target → Z w)
    (hunlock : ∀ id, c = .unlock id → E.held w)

/-- The machine as a whole operation meets it. -/
def operating : Regime Cmd Resp (Choice × World) World :=
  Regime.amid ⟨exec S, E.adm, fun w c _ => E.Issues Z w c⟩ E.rely

variable {E Z} {ε α β : Type}

theorem Issues.sane (h : E.Issues Z w c) (hs : Sane V w) : Sane V (exec S o c w).2 := by
  cases h with
  | locked h => exact (hs.disturb o).step (h.tended.disturb o)
  | aside h _ _ => exact h.sane (hs.disturb o)

theorem wp_operating {p : Run α} {Q : α → World → Prop} (hp : p.wp E.regime Q w) : p.wp (E.operating Z) Q w :=
  Prog.wp_weaken (fun _ _ _ h => h) (fun _ _ _ _ h => .locked h) hp

theorem operating_issue {Q : Resp c → World → Prop}
    (h : ∀ w' o, E.rely c w w' → E.adm w' c o →
      E.Issues Z w' c ∧ Q (exec S o c w').1 (exec S o c w').2) : (issue c).wp (E.operating Z) Q w :=
  fun o ho => h o.2 o.1 ho.1 ho.2

theorem operating_all {p : Run α} {C : Cmd → Prop} {M : World → Prop} (hall : p.All C)
    (hrely : ∀ c w w', C c → M w → E.rely c w w' → M w')
    (hissue : ∀ c w, C c → M w → E.Issues Z w c)
    (hstep : ∀ c w o, C c → M w → M (exec S o c w).2) (hm : M w) :
    p.wp (E.operating Z) (fun _ w => M w) w := by
  induction p generalizing w with
  | ret a => exact hm
  | call c k ih =>
    rintro ⟨o, w'⟩ ⟨hrel, -⟩
    have hm' := hrely c w w' hall.1 hm hrel
    exact ⟨hissue c w' hall.1 hm', ih _ (hall.2 _) (hstep c w' o hall.1 hm')⟩

theorem operating_aside {p : Run α} (hall : p.All fun c => Aside V v c ∧
    (∀ source target, c ≠ .bind source target) ∧ ∀ id, c ≠ .unlock id) :
    p.wp (E.operating Z) (fun _ _ => True) w := by
  refine operating_all hall (fun _ _ _ _ _ _ => trivial) ?_ (fun _ _ _ _ _ => trivial) trivial
  exact fun c w hc _ => .aside hc.1 (fun s t he => absurd he (hc.2.1 s t))
    fun id he => absurd he (hc.2.2 id)

/-- What is known when the lock is given up is what the locked part ends with. -/
theorem operating_withLock {x : Rpc α} {P : Except Status α → World → Prop}
    (hP : ∀ r, Steady V v (P r)) (hs : ∀ r w w', w.SameTables w' → P r w → P r w')
    (hx : ∀ w o, E.adm w (.lock (V.id v)) o → Sane V (exec S o (.lock (V.id v)) w).2 →
      x.run.wp E.regime (fun r w => E.Over w ∧ P r w) (exec S o (.lock (V.id v)) w).2) :
    (withLock (V.id v) x).run.wp (E.operating Z) P w := by
  unfold withLock
  rw [ExceptT.run_mk, Prog.wp_bind]
  refine operating_issue fun w o _ hadm => ⟨.aside rfl (by simp) (by simp), ?_⟩
  have hlock : Aside V v (.lock (V.id v)) := rfl
  rw [Prog.wp_bind]
  refine Prog.wp_mono (fun r w h => ?_) (wp_operating (hx w o hadm (hlock.sane ((E.sane hadm).disturb o))))
  obtain ⟨hover, hp⟩ := h
  rw [Prog.wp_bind]
  refine operating_issue fun w' o hrel hadm => ?_
  obtain ⟨hheld, hframe⟩ := E.frame hover.held hrel
  have hs' := E.sane hadm
  have hp' := hP r w w' hover.sane.toTidy hs'.toTidy hframe hp
  have hp'' := hP r _ _ hs'.toTidy (hs'.disturb o).toTidy ((w'.disturb_disturbed o).frame V v) hp'
  exact ⟨.aside rfl (by simp) fun _ _ => hheld, hs r _ _ (step_remembers rfl S o _) hp''⟩

theorem operating_nodeStageVolume {req : StageRequest} (hreq : req.For V v)
    (hctx : ∀ w o, E.adm w (.lock (V.id v)) o → E.ctx false (exec S o (.lock (V.id v)) w).2) :
    (nodeStageVolume S req).run.wp (E.operating Z)
      (fun r w => r = .ok () → w.mountedAt (S.resolve req.stagingTargetPath) = true) w := by
  unfold nodeStageVolume
  rw [hreq.volumeID, if_neg (not_or.mpr ⟨V.id_ne v, V.paths_ne hreq.path⟩)]
  refine operating_withLock ?_ ?_ fun w o hadm hs => ?_
  · exact fun r w w' ht ht' hf hp hr => steady_mountedAt hreq.place w w' ht ht' hf (hp hr)
  · exact fun r w w' hs hp hr => hs.mountedAt (hp hr)
  · exact wp_stageLocked hreq ⟨hs, hctx w o hadm⟩ (fun e w h => ⟨h, by simp⟩)
      fun w h hm => ⟨h, fun _ => hm⟩

theorem operating_nodeUnstageVolume {path : Str} (hpath : path ∈ V.paths v) (hleave : E.leaving)
    (hctx : ∀ w o, E.adm w (.lock (V.id v)) o → E.ctx true (exec S o (.lock (V.id v)) w).2)
    (hmine : E.careful → ∀ w o, E.adm w .losetupList o → SillyMine V v (w.disturb o)) :
    (nodeUnstageVolume S (V.id v) path).run.wp (E.operating Z) (fun _ _ => True) w := by
  unfold nodeUnstageVolume
  rw [if_neg (not_or.mpr ⟨V.id_ne v, V.paths_ne hpath⟩)]
  refine operating_withLock (fun _ => steady_true V v) (fun _ _ _ _ h => h) fun w o hadm hs => ?_
  exact wp_unstageLocked hpath hleave ⟨hs, hctx w o hadm⟩ hmine fun r w h => ⟨h, trivial⟩

theorem operating_nodeUnpublishVolume {target : Str} (ht : V.Outside target) :
    (nodeUnpublishVolume (V.id v) target).run.wp (E.operating Z) (fun _ _ => True) w := by
  have hone : ∀ c : Cmd, Aside V v c → (∀ s t, c ≠ .bind s t) → (∀ id, c ≠ .unlock id) →
      (issue c).All fun c => Aside V v c ∧ (∀ s t, c ≠ .bind s t) ∧ ∀ id, c ≠ .unlock id :=
    fun c h1 h2 h3 => (Prog.all_perform _ _).mpr ⟨h1, h2, h3⟩
  refine operating_aside ?_
  unfold nodeUnpublishVolume
  split_ifs
  · exact Prog.all_ret _ _
  · refine Prog.all_run_bind (Prog.all_attempt (unmount_all ?_ ?_ ?_ ?_) _) fun _ => ?_
    · exact ⟨rfl, by simp, by simp⟩
    · exact ⟨rfl, by simp, by simp⟩
    · exact ⟨rfl, by simp, by simp⟩
    · exact ⟨ht, by simp, by simp⟩
    · refine Prog.all_run_bind (Prog.All.bind (hone (.remove target) ht (by simp) (by simp)) ?_) ?_
      · exact fun _ => Prog.all_ret _ _
      · exact fun _ => Prog.all_ret _ _

end Setting

/-- What a publish needs beyond its setting: that what it knows when it has seen no
failure mark, or has re-staged the volume, lasts until it has bound its target. -/
structure Publishing (E : Setting V v) extends Restaging E where
  steady : Steady V v unmarked
  tables : ∀ {w w'}, w.SameTables w' → unmarked w → unmarked w'
  binding : ∀ {target c w w'}, V.Outside target → Binds V v target c → unmarked w →
    E.rely c w w' → unmarked w'
  bound : ∀ {target c w} (o : Choice), V.Outside target → Binds V v target c →
    unmarked w → unmarked (exec S o c w).2

namespace Publishing
variable {E : Setting V v} (K : Publishing E)

theorem operating_bindTarget {req : PublishRequest} (hpath : req.stagingTargetPath ∈ V.paths v)
    (ht : V.Outside req.targetPath) (hz : K.unmarked w) :
    (bindTarget req).run.wp (E.operating K.unmarked) (fun _ _ => True) w := by
  refine Prog.wp_mono (fun _ _ _ => trivial) (Setting.operating_all (M := K.unmarked)
    (bindTarget_all hpath) ?_ ?_ ?_ hz)
  · exact fun c w w' hc => K.binding ht hc
  · refine fun c w hc hz => .aside (hc.aside ht) (fun _ _ _ => hz) ?_
    rintro id rfl
    exact hc.elim
  · exact fun c w o hc => K.bound o ht hc

theorem operating_restageFailed :
    (restageFailed S (V.id v)).run.wp (E.operating K.unmarked) (fun r w => r = .ok () → K.unmarked w) w := by
  refine Setting.operating_withLock ?_ ?_ fun w o hadm hs => ?_
  · exact fun r w w' ht ht' hf hp hr => K.steady w w' ht ht' hf (hp hr)
  · exact fun r w w' hs hp hr => K.tables hs (hp hr)
  · exact K.wp_restageLocked ⟨hs, E.held_lock hadm⟩ (fun e w h => ⟨h, by simp⟩)
      fun w h hz => ⟨h, fun _ => hz⟩

theorem operating_nodePublishVolume {req : PublishRequest} (hid : req.volumeID = V.id v)
    (hpath : req.stagingTargetPath ∈ V.paths v) (ht : V.Outside req.targetPath) :
    (nodePublishVolume S req).run.wp (E.operating K.unmarked) (fun _ _ => True) w := by
  unfold nodePublishVolume
  split_ifs
  · exact trivial
  rw [Prog.wp_run_bind]
  cases validateCapability req.capability with
  | error e => exact trivial
  | ok u =>
    show Prog.wp (E.operating K.unmarked) (always (issue (.failedGet req.volumeID)) >>= fun failed => do
      restageIf failed S req.volumeID
      bindTarget req).run _ w
    rw [Prog.wp_run_bind, Prog.wp_always, hid]
    refine Setting.operating_issue fun w o _ hadm => ⟨.aside rfl (by simp) (by simp), ?_⟩
    have hmark : (exec S o (.failedGet (V.id v)) w).1 = decide (V.id v ∈ (w.disturb o).failed) :=
      step_failedGet _
    have hworld : (exec S o (.failedGet (V.id v)) w).2 = w.disturb o := step_observes rfl S o _
    rw [hmark, hworld]
    by_cases hf : V.id v ∈ (w.disturb o).failed
    · rw [decide_eq_true hf]
      dsimp only [restageIf]
      rw [Prog.wp_run_bind, if_pos rfl]
      refine Prog.wp_mono (fun r w h => ?_) K.operating_restageFailed
      cases r with
      | error e => exact trivial
      | ok u => exact K.operating_bindTarget hpath ht (h rfl)
    · rw [decide_eq_false hf]
      exact K.operating_bindTarget hpath ht (K.unmark hadm hf)

end Publishing
end Fileblock.Node
