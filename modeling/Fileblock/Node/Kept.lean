import Fileblock.Node.Interleaved

/-! A volume that stays staged while requests are served: it is mounted at its only staging
path, or it is marked failed and no pod sees it. So what is bound for a pod is always
the volume, and nothing is torn down from under a pod. -/
namespace Fileblock.Node
open Go Store Interaction

variable {S : Site} {ι : Type} {V : Volumes S ι} {u v : ι} {w w' : World} {c : Cmd} {o : Choice}
  {plan : ℕ → Op ι} {t : ℕ} {path : Str}

/-- No pod's target shows a device of the volume. -/
def Unpublished (V : Volumes S ι) (v : ι) (w : World) : Prop :=
  ∀ m ∈ w.mounts, V.Owns w v m.source → podVolume m.target = none

/-- The volume is out of service: every publish will see its mark. -/
structure Withdrawn (V : Volumes S ι) (v : ι) (w : World) : Prop where
  marked : V.id v ∈ w.failed
  unpublished : Unpublished V v w

/-- The volume can be seen at its staging path, or is out of service. -/
def Kept (V : Volumes S ι) (v : ι) (path : Str) (w : World) : Prop :=
  w.mountedAt path = true ∨ Withdrawn V v w

namespace Volumes.StagedAt

theorem mem_paths (h : V.StagedAt v path) : path ∈ V.paths v := h.only ▸ rfl

theorem mem_places (h : V.StagedAt v path) : path ∈ V.places v := by
  have hp := V.mem_places h.mem_paths
  rwa [h.canonical] at hp

theorem eq (h : V.StagedAt v path) {p : Str} (hp : p ∈ V.paths v) : p = path := by
  rwa [h.only] at hp

theorem mountedAt (h : V.StagedAt v path) (hm : V.Staged v w) : w.mountedAt path = true := by
  obtain ⟨-, ⟨p, hp, rfl⟩, hm⟩ := hm
  rwa [h.eq hp, h.canonical] at hm

end Volumes.StagedAt

theorem Unpublished.mono (h : Unpublished V v w)
    (hm : ∀ m' ∈ w'.mounts, ∃ m ∈ w.mounts, m'.source = m.source ∧ m'.target = m.target)
    (ho : ∀ m ∈ w.mounts, V.Owns w' v m.source → V.Owns w v m.source) : Unpublished V v w' := by
  intro m' hm' ho'
  obtain ⟨m, hmem, hs, ht⟩ := hm m' hm'
  rw [ht]
  rw [hs] at ho'
  exact h m hmem (ho m hmem ho')

theorem Unpublished.addMount (h : Unpublished V v w) {m : Mount}
    (hm : V.Owns w v m.source → podVolume m.target = none) : Unpublished V v (w.addMount m) := by
  intro m' hm' ho
  rcases List.mem_cons.mp hm' with rfl | hm'
  · exact hm ho
  · exact h m' hm' ho

/-- Only a bind of its own staging path shows a volume to a pod. -/
theorem Unpublished.move (h : Unpublished V v w) (ht : Tidy V w) (hl : Lawful V w c)
    (hb : ∀ source target, c = .bind source target → ∃ u, u ≠ v ∧ source ∈ V.paths u)
    (hm : Move S w c w') : Unpublished V v w' := by
  have hsame : ∀ m ∈ w.mounts, ∃ m' ∈ w.mounts, m.source = m'.source ∧ m.target = m'.target :=
    fun m hm => ⟨m, hm, rfl, rfl⟩
  cases hm with
  | none hs =>
    refine h.mono (fun m hm => hsame m (hs.mounts ▸ hm)) fun m _ ho => V.owns_of_loops ?_ ho
    rw [hs.loops]
    exact fun l hl => ⟨l, hl, rfl, rfl⟩
  | mount device path options hp hfs =>
    obtain ⟨u, ⟨p, hp, he⟩, -⟩ := hl
    exact h.addMount fun _ => he ▸ V.paths_notPod hp
  | bind source target hs htarget =>
    refine h.addMount fun ho => ?_
    obtain ⟨u, hne, hu⟩ := hb source target rfl
    rcases World.bound_source (w := w) (S.resolve source) (S.resolve target) with
      hbound | ⟨m, hm, hmt, hbound⟩
    · rw [hbound] at ho
      exact ho.elim
    · rw [hbound] at ho
      exact absurd (ht.owner_unique (ht.staging m hm u (hmt ▸ V.mem_places hu)) ho) hne
  | readOnly path =>
    exact h.mono (fun m hm => World.mem_of_rows hm (World.remountReadOnly_rows (S.resolve path)))
      fun _ _ ho => ho
  | umount path hp =>
    refine h.mono (fun m hm => hsame m (List.mem_of_mem_eraseP hm)) fun m _ => V.owns_of_loops ?_
    exact fun l hl => ⟨l, (World.mem_reap.mp hl).1, rfl, rfl⟩
  | attach file sectorSize pick hp =>
    refine h.mono hsame fun m hm ho => ?_
    -- the new device was free, so nothing that is mounted is on it
    have hlive := ht.live m hm
    cases hs : m.source with
    | loop dev =>
      rw [hs] at ho hlive
      obtain ⟨l, hl, hd, hf⟩ := ho
      obtain ⟨⟨l', hl', hd'⟩, -⟩ := hlive
      rcases List.mem_append.mp hl with hl | hl
      · exact ⟨l, hl, hd, hf⟩
      · rw [List.mem_singleton.mp hl] at hd
        exact absurd (hd'.trans hd.symm) (w.freeDev_free pick l' hl')
    | mapper name =>
      rw [hs] at ho
      exact ho
    | dir path =>
      rw [hs] at ho
      exact ho
  | @detach l hl =>
    refine h.mono hsame fun m _ => V.owns_of_loops fun l' hl' => ?_
    obtain ⟨l₀, hl₀, rfl⟩ := List.mem_map.mp (World.mem_reap.mp hl').1
    refine ⟨l₀, hl₀, ?_⟩
    split_ifs <;> exact ⟨rfl, rfl⟩
  | close name hc hn =>
    refine h.mono hsame fun m _ => V.owns_of_loops fun l hl => ?_
    exact ⟨l, (World.mem_reap.mp hl).1, rfl, rfl⟩
  | _ => exact h

theorem Unpublished.disturb (h : Unpublished V v w) (o : Choice) :
    Unpublished V v (w.disturb o) := by
  have hd := w.disturb_disturbed o
  intro m hm ho
  exact h m (hd.mounts ▸ hm) ((hd.frame V v).owns.mp ho)

namespace Withdrawn

theorem disturb (h : Withdrawn V v w) (o : Choice) : Withdrawn V v (w.disturb o) :=
  ⟨(w.disturb_disturbed o).failed _ h.marked, h.unpublished.disturb o⟩

theorem step (h : Withdrawn V v w) (ht : Tidy V w) (hl : Lawful V w c)
    (hclear : c ≠ .failedClear (V.id v))
    (hb : ∀ source target, c = .bind source target → ∃ u, u ≠ v ∧ source ∈ V.paths u) :
    Withdrawn V v (step S o c w).2 :=
  ⟨step_failed h.marked hclear, h.unpublished.move ht hl hb (step_move S o c w)⟩

end Withdrawn

namespace Kept

theorem disturb (h : Kept V v path w) (o : Choice) : Kept V v path (w.disturb o) := by
  rcases h with h | h
  · left
    rw [World.mountedAt, (w.disturb_disturbed o).mounts]
    exact h
  · exact Or.inr (h.disturb o)

/-- A command that leaves the staging path alone, clears the mark only of a mounted
volume and binds no volume that is out of service. -/
theorem step (h : Kept V v path w) (ht : Tidy V w) (hl : Lawful V w c)
    (htouch : c.touches S path = false)
    (hclear : c = .failedClear (V.id v) → w.mountedAt path = true)
    (hb : Withdrawn V v w → ∀ source target, c = .bind source target →
      ∃ u, u ≠ v ∧ source ∈ V.paths u) : Kept V v path (step S o c w).2 := by
  by_cases hm : w.mountedAt path = true
  · left
    rw [World.mountedAt_iff_stack, (step_move S o c w).stack htouch, ← World.mountedAt_iff_stack]
    exact hm
  · have hw : Withdrawn V v w := h.resolve_left hm
    exact Or.inr (hw.step ht hl (fun he => hm (hclear he)) (hb hw))

theorem withdrawn (h : Kept V v path w) (hat : V.StagedAt v path) (ht : Tidy V w)
    (hl : w.loopsOf (V.image v) = []) : Withdrawn V v w := by
  refine h.resolve_left fun hm => ?_
  obtain ⟨-, l, -, hmem, hf, -⟩ := ht.top_place hat.mem_places hm
  exact World.loopsOf_eq_nil.mp hl l hmem hf

end Kept

theorem Coherent.source_unique (h : Coherent V w) {m m' : Mount} (hm : m ∈ w.mounts)
    (hm' : m' ∈ w.mounts) (ho : V.Owns w v m.source) (ho' : V.Owns w v m'.source) :
    m.source = m'.source := by
  have hlive := h.live m hm
  have hlive' := h.live m' hm'
  -- a loop below the open mapping is not mounted
  have hmixed : ∀ {dev name}, V.Owns w v (.loop dev) → V.Owns w v (.mapper name) →
      w.Live (.loop dev) → w.Live (.mapper name) → False := by
    rintro dev name ⟨l, hl, hd, hf⟩ rfl hloop hmap
    obtain ⟨n, hn⟩ := World.isOpen_iff.mp hmap
    obtain ⟨l', hl', hd', hf'⟩ := h.over_mapper hn
    have he : l = l' := h.file_unique hl hl' (hf.trans hf'.symm)
    subst he
    rw [← hd', hd] at hn
    exact World.held_false.mp hloop.2 _ hn
  cases hs : m.source with
  | loop dev =>
    rw [hs] at ho hlive
    cases hs' : m'.source with
    | loop dev' =>
      rw [hs'] at ho'
      obtain ⟨l, hl, rfl, hf⟩ := ho
      obtain ⟨l', hl', rfl, hf'⟩ := ho'
      rw [h.file_unique hl hl' (hf.trans hf'.symm)]
    | mapper name =>
      rw [hs'] at ho' hlive'
      exact (hmixed ho ho' hlive hlive').elim
    | dir path =>
      rw [hs'] at ho'
      exact ho'.elim
  | mapper name =>
    rw [hs] at ho hlive
    cases hs' : m'.source with
    | loop dev' =>
      rw [hs'] at ho' hlive'
      exact (hmixed ho' ho hlive' hlive).elim
    | mapper name' =>
      rw [hs'] at ho'
      rw [show name = V.mapper v from ho, show name' = V.mapper v from ho']
    | dir path =>
      rw [hs'] at ho'
      exact ho'.elim
  | dir path =>
    rw [hs] at ho
    exact ho.elim

theorem lastAt_mountRows (w : World) (path : Str) :
    lastAt w.mountRows path = (w.top path).map w.mountRow := by
  unfold lastAt World.mountRows World.top
  rw [List.reverse_reverse, List.find?_map]
  rfl

theorem publishTargets_eq_nil {entries : List MountInfo} {device : Source}
    (h : publishTargets entries device = []) {e : MountInfo} (he : e ∈ entries)
    (hd : e.device = device) : podVolume e.mountPoint = none := by
  have hnone := List.filterMap_eq_nil_iff.mp h e he
  rw [if_pos hd] at hnone
  exact Option.map_eq_none_iff.mp hnone

/-- The look at the mounts that a re-stage takes finds every pod that uses the volume. -/
theorem Kept.unused (h : Kept V v path w) (hat : V.StagedAt v path) (hs : Sane V w) {m : Mapping}
    (hmark : V.id v ∈ w.failed)
    (hm : Mapping.get w.state (V.id v) = some m)
    (hr : refusePublished m w.mountRows = .ok ()) : Withdrawn V v w := by
  rcases h with h | h
  · refine ⟨hmark, fun m' hm' ho => ?_⟩
    unfold refusePublished at hr
    rw [hat.eq (hs.records hm).stagePath, lastAt_mountRows] at hr
    obtain ⟨top, -, htop, -, -, -⟩ := hs.top_place hat.mem_places h
    have hmem : top ∈ w.mounts := List.mem_of_find?_eq_some htop
    have htarget : top.target = path := by simpa using List.find?_some htop
    rw [htop] at hr
    dsimp only [Option.map] at hr
    cases hp : publishTargets w.mountRows (w.mountRow top).device with
    | cons p ps =>
      rw [hp] at hr
      cases hr
    | nil =>
      have hrow : w.mountRow m' ∈ w.mountRows :=
        List.mem_reverse.mpr (List.mem_map_of_mem hm')
      exact publishTargets_eq_nil hp hrow
        (hs.source_unique hm' hmem ho (hs.staging top hmem v (htarget ▸ hat.mem_places)))
  · exact h

/-! The requests and the monitor, when what they have seen of the volume still holds as
they act on it. -/

/-- A publish binds while the volume is not marked, and the monitor clears a mark while
the volume is mounted and no request has it locked. -/
def Op.Prompt (V : Volumes S ι) (v : ι) (w : World) (op : Op ι) : Cmd → Prop
  | .bind source _ => source ∈ V.paths v → V.id v ∉ w.failed
  | .failedClear id => op.expands = true → id = V.id v →
      V.Staged v w ∧ ∀ p ∈ w.locks, p.1 ≠ V.id v
  | _ => True

def promptServer (V : Volumes S ι) (plan : ℕ → Op ι) (v : ι) :
    System ℕ Cmd Choice World (Except Status Unit) Resp :=
  { server V plan True with
    enabled := fun t w c o =>
      (server V plan True).enabled t w c o ∧ (plan t).Prompt V v (w.disturb o) c }

/-- While the thread has the volume locked, the others neither touch it nor clear its
mark or bring it back into service. -/
def Guarded (V : Volumes S ι) (v : ι) (t : ℕ) (w w' : World) : Prop :=
  Undisturbed V v t w w' ∧ ((V.id v, t) ∈ w.locks →
    (V.id v ∈ w.failed → V.id v ∈ w'.failed) ∧ (Withdrawn V v w → Withdrawn V v w'))

theorem Guarded.trans {w'' : World} (h : Guarded V v t w w') (h' : Guarded V v t w' w'') :
    Guarded V v t w w'' := by
  refine ⟨h.1.trans h'.1, fun hl => ?_⟩
  have hmark := h.2 hl
  have hmark' := h'.2 (h.1 hl).1
  exact ⟨fun hm => hmark'.1 (hmark.1 hm), fun hw => hmark'.2 (hmark.2 hw)⟩

/-- What an operation that has the volume locked knows of it, before and after it has
found it to be out of service. -/
def Standing (V : Volumes S ι) (v : ι) (path : Str) : Bool → World → Prop
  | false, w => Kept V v path w
  | true, w => Withdrawn V v w

namespace Standing
variable {b : Bool}

theorem guarded (h : Standing V v path b w) (hat : V.StagedAt v path) (hg : Guarded V v t w w')
    (hl : (V.id v, t) ∈ w.locks) : Standing V v path b w' := by
  cases b with
  | true => exact (hg.2 hl).2 h
  | false =>
    rcases h with h | h
    · left
      rw [(hg.1 hl).2.mountedAt hat.mem_places]
      exact h
    · exact Or.inr ((hg.2 hl).2 h)

theorem disturb (h : Standing V v path b w) (o : Choice) : Standing V v path b (w.disturb o) := by
  cases b with
  | true => exact Withdrawn.disturb h o
  | false => exact Kept.disturb h o

theorem step (h : Standing V v path b w) (ht : Tidy V w) {careful : Prop} (hc : Tended V v careful w c)
    (hr : c.releases = true → b = true) (hclear : ∀ id, c ≠ .failedClear id) :
    Standing V v path b (step S o c w).2 := by
  have hbind : ∀ source target, c ≠ .bind source target := by
    rintro source target rfl
    exact hc.elim
  cases b with
  | true =>
    exact Withdrawn.step h ht hc.lawful (hclear _) fun s t he => absurd he (hbind s t)
  | false =>
    have hrel : c.releases = false := by
      cases hb : c.releases with
      | false => rfl
      | true => exact absurd (hr hb) Bool.false_ne_true
    have htouch : c.touches S path = false := by
      cases c with
      | mount | umount => cases hrel
      | bind | remountReadOnly => exact hc.elim
      | _ => rfl
    exact Kept.step h ht hc.lawful htouch (fun he => absurd he (hclear _))
      fun _ s t he => absurd he (hbind s t)

end Standing

/-- An operation on a volume that stays staged. -/
def Setting.kept (plan : ℕ → Op ι) (t : ℕ) (hat : V.StagedAt v path) : Setting V v where
  rely _ w w' := Guarded V v t w w'
  adm w c o := ((Sane V w ∧ Exclusive w) ∧ Kept V v path w) ∧ (promptServer V plan v).enabled t w c o
  careful := True
  leaving := False
  held w := (V.id v, t) ∈ w.locks
  ctx b w := (V.id v, t) ∈ w.locks ∧ Standing V v path b w
  sane h := h.1.1.1
  genuine h := h.2.1.2.1
  frame hl h := h.1 hl
  held_lock h := (Setting.served V plan t v).held_lock ⟨h.1.1, h.2.1⟩
  held_disturb := (Setting.served V plan t v).held_disturb
  held_step := (Setting.served V plan t v).held_step
  ctx_held h := h.1
  ctx_rely h hr := ⟨(hr.1 h.1).1, h.2.guarded hat hr h.1⟩
  ctx_disturb o h := ⟨(Setting.served V plan t v).held_disturb o h.1, h.2.disturb o⟩
  ctx_step := by
    intro b w c o h hs ht hr hclear
    refine ⟨(Setting.served V plan t v).held_step o h.1 ?_ ?_, h.2.step hs.toTidy ht hr hclear⟩
    · rintro id rfl
      exact ht.elim
    · rintro id rfl
      exact ht.elim
  free := by
    intro w c o hadm h hl
    refine ⟨h.1, Kept.withdrawn h.2 hat (hadm.1.1.1.disturb o).toTidy ?_⟩
    rw [(w.disturb_disturbed o).loopsOf]
    exact hl

/-- A publish of a volume that stays staged tears it down only when no pod uses it. -/
def Publishing.kept (hat : V.StagedAt v path) {source target : Str}
    {capability : Option Capability} {readonly : Bool}
    (hplan : plan t = .publish v source target capability readonly) :
    Publishing (Setting.kept plan t hat) where
  marked w := (V.id v, t) ∈ w.locks ∧ V.id v ∈ w.failed
  unmarked _ := True
  held h := h.1
  rely h hr := ⟨(hr.1 h.1).1, (hr.2 h.1).1 h.2⟩
  disturb o h :=
    ⟨(Setting.served V plan t v).held_disturb o h.1, (World.disturb_disturbed _ o).failed _ h.2⟩
  mark h hm := ⟨h, hm⟩
  unmark _ _ := trivial
  mounted _ := trivial
  mine := by
    intro _ w o m hadm hm
    exact (Publishing.served V hplan).mine trivial ⟨hadm.1.1, hadm.2.1⟩ hm
  unused := by
    intro w o m hadm hk hs hm hr
    exact ⟨hk.1, (hadm.1.2.disturb o).unused hat hs hk.2 hm hr⟩
  back h := ⟨h.1, Or.inr h.2⟩
  steady := steady_true V v
  tables _ _ := trivial
  binding _ _ _ _ := trivial
  bound _ _ _ _ := trivial

theorem Setting.kept_issues {hat : V.StagedAt v path} {Z : World → Prop}
    (h : (Setting.kept plan t hat).Issues Z w c) : (Setting.served V plan t v).Issues Z w c := by
  cases h with
  | locked h => exact .locked ⟨h.tended, fun _ => h.held, fun _ _ => Or.inr trivial, h.held⟩
  | aside h hbind hunlock => exact .aside h hbind hunlock

/-- What the command of another operation does not do to the volume. -/
structure Considerate (V : Volumes S ι) (v : ι) (path : Str) (w : World) (c : Cmd) : Prop where
  lawful : Lawful V w c
  touches : c.touches S path = false
  closes : c ≠ .cryptClose (V.mapper v) ∧ ∀ dev c', c ≠ .luks dev (V.mapper v) c'
  clears : c = .failedClear (V.id v) →
    w.mountedAt path = true ∧ ∀ p ∈ w.locks, p.1 ≠ V.id v
  binds : V.id v ∈ w.failed → ∀ source target, c = .bind source target →
    ∃ u, u ≠ v ∧ source ∈ V.paths u

theorem Tended.considerate (h : Tended V u True w c) (hat : V.StagedAt v path) (ht : Tidy V w)
    (hne : u ≠ v) : Considerate V v path w c := by
  refine ⟨h.lawful, (h.spares ht hne).touches hat.mem_places, ⟨?_, ?_⟩, ?_, ?_⟩
  · rintro rfl
    exact hne (V.mapper_injective h).symm
  · rintro dev c' rfl
    exact hne (V.mapper_injective h.1).symm
  · rintro rfl
    exact absurd (V.id_injective h) hne.symm
  · rintro - source target rfl
    exact h.elim

theorem Aside.considerate {op : Op ι} (h : Aside V u c) (hat : V.StagedAt v path)
    (hprompt : op.Prompt V v w c) : Considerate V v path w c := by
  have hout : ∀ {p}, V.Outside p → S.resolve p ≠ path := fun hp he => hp v (he ▸ hat.mem_places)
  refine ⟨h.lawful, ?_, ⟨?_, ?_⟩, ?_, ?_⟩
  · cases c with
    | mount device path options => exact absurd h Bool.false_ne_true
    | bind source path => exact decide_eq_false (hout h.2)
    | remountReadOnly path => exact decide_eq_false (hout h)
    | umount path => exact decide_eq_false (hout h)
    | _ => rfl
  · rintro rfl
    exact absurd h Bool.false_ne_true
  · rintro dev c' rfl
    exact absurd h Bool.false_ne_true
  · rintro rfl
    exact absurd h Bool.false_ne_true
  · rintro hmark source target rfl
    refine ⟨u, ?_, h.1⟩
    rintro rfl
    exact hprompt h.1 hmark

theorem Cmd.notes.considerate {op : Op ι} (h : c.notes) (hop : op.expands = true)
    (hat : V.StagedAt v path) (hprompt : op.Prompt V v w c) : Considerate V v path w c := by
  rcases h with h | ⟨id, rfl | rfl⟩
  · refine ⟨?_, ?_, ⟨?_, ?_⟩, ?_, ?_⟩
    · cases c <;> trivial
    · cases c <;> first | rfl | cases h
    · rintro rfl
      cases h
    · rintro dev c' rfl
      cases h
    · rintro rfl
      cases h
    · rintro - source target rfl
      cases h
  · exact ⟨trivial, rfl, ⟨nofun, nofun⟩, nofun, nofun⟩
  · refine ⟨trivial, rfl, ⟨nofun, nofun⟩, fun he => ?_, nofun⟩
    obtain ⟨hm, hfree⟩ := hprompt hop (Cmd.failedClear.inj he)
    exact ⟨hat.mountedAt hm, hfree⟩

/-- What thread `t` promises of each command it issues, as far as `v` is concerned. -/
inductive Attends (plan : ℕ → Op ι) (hat : V.StagedAt v path) (t : ℕ) (w : World) (c : Cmd) : Prop
  | own (hv : (plan t).volume? = some v)
    (h : (Setting.kept plan t hat).Issues (fun _ => True) w c)
  | other (u : ι) (hu : (plan t).volume? = some u) (hne : u ≠ v)
    (h : (Setting.served V plan t u).Issues (fun _ => True) w c)
  | notes (hop : (plan t).expands = true) (h : c.notes)

namespace Attends
variable {hat : V.StagedAt v path}

theorem promises (h : Attends plan hat t w c) : Promises V plan t w c := by
  cases h with
  | own hv h => exact Or.inl ⟨v, hv, Setting.kept_issues h⟩
  | other u hu hne h => exact Or.inl ⟨u, hu, h⟩
  | notes hop h => exact Or.inr ⟨hop, h⟩

theorem locked_or_considerate (h : Attends plan hat t w c) (hs : Sane V w)
    (hen : (promptServer V plan v).enabled t w c o) :
    (Setting.kept plan t hat).Guarantee w c ∨ Considerate V v path (w.disturb o) c := by
  cases h with
  | own hv h =>
    cases h with
    | locked h => exact Or.inl h
    | aside h _ _ => exact Or.inr (h.considerate hat hen.2)
  | other u hu hne h =>
    cases h with
    | locked h =>
      exact Or.inr ((h.tended.disturb o).considerate hat (hs.disturb o).toTidy hne)
    | aside h _ _ => exact Or.inr (h.considerate hat hen.2)
  | notes hop h => exact Or.inr (h.considerate hop hat hen.2)

end Attends

theorem Considerate.kept (h : Considerate V v path w c) (hs : Sane V w) (hk : Kept V v path w) :
    Kept V v path (step S o c w).2 :=
  hk.step hs.toTidy h.lawful h.touches (fun he => (h.clears he).1) fun hw => h.binds hw.marked

theorem Considerate.withdrawn (h : Considerate V v path w c) (hs : Sane V w)
    (hl : (V.id v, t) ∈ w.locks) (hw : Withdrawn V v w) : Withdrawn V v (step S o c w).2 :=
  hw.step hs.toTidy h.lawful (fun he => (h.clears he).2 _ hl rfl) (h.binds hw.marked)

theorem Setting.Guarantee.kept {hat : V.StagedAt v path}
    (h : (Setting.kept plan t hat).Guarantee w c) (hs : Sane V w) (hk : Kept V v path w) :
    Kept V v path (exec S o c w).2 := by
  have ht := (hs.disturb o).toTidy
  have htended := h.tended.disturb o
  by_cases hclear : ∃ id, c = .failedClear id
  · obtain ⟨id, rfl⟩ := hclear
    have hm : V.Staged v w := (h.clears id rfl).resolve_right fun hf => hf
    left
    rw [exec_mountedAt rfl]
    exact hat.mountedAt hm
  · have hne : ∀ id, c ≠ .failedClear id := fun id he => hclear ⟨id, he⟩
    cases hr : c.releases with
    | true =>
      have hw : Standing V v path true (w.disturb o) := (h.releases hr).2.disturb o
      exact Or.inr (hw.step ht htended (fun _ => rfl) hne)
    | false =>
      have hw : Standing V v path false (w.disturb o) := hk.disturb o
      exact hw.step ht htended (fun h => by rw [hr] at h; exact h) hne

/-- What the threads promise each other about a volume that stays staged. -/
def keeping (plan : ℕ → Op ι) (hat : V.StagedAt v path) : (promptServer V plan v).Contract where
  inv w := (Sane V w ∧ Exclusive w) ∧ Kept V v path w
  rely t w w' := (contract V plan).rely t w w' ∧ Guarded V v t w w'
  guarantee := Attends plan hat
  post _ _ _ := True
  rely_refl t w := ⟨(contract V plan).rely_refl t w, fun hl => ⟨hl, .refl V v w⟩,
    fun _ => ⟨fun h => h, fun h => h⟩⟩
  rely_trans t _ _ _ h h' := ⟨(contract V plan).rely_trans t _ _ _ h.1 h'.1, h.2.trans h'.2⟩
  post_rely _ _ _ _ _ h := h
  exec_inv t w c o hi hen hg := by
    refine ⟨(contract V plan).exec_inv t w c o hi.1 hen.1 hg.promises, ?_⟩
    rcases hg.locked_or_considerate hi.1.1 hen with h | h
    · exact h.kept hi.1.1 hi.2
    · exact h.kept (hi.1.1.disturb o) (hi.2.disturb o)
  exec_rely t t' w c o hne hi hen hg := by
    have hbase := (contract V plan).exec_rely t t' w c o hne hi.1 hen.1 hg.promises
    refine ⟨hbase, hg.promises.undisturbed hne hi.1.1 hi.1.2 hen.1, fun hl => ?_⟩
    rcases hg.locked_or_considerate hi.1.1 hen with h | h
    · exact absurd rfl (hi.1.2.ne hne h.held hl)
    · have hd := w.disturb_disturbed o
      have hl' : (V.id v, t') ∈ (w.disturb o).locks := hd.locks ▸ hl
      refine ⟨fun hm => ?_, fun hw => h.withdrawn (hi.1.1.disturb o) hl' (hw.disturb o)⟩
      exact step_failed (hd.failed _ hm) fun he => (h.clears he).2 _ hl' rfl
  env_inv _ _ _ h := h.elim
  env_rely _ _ _ _ h := h.elim

theorem keeping_program (hat : V.StagedAt v path) (hproper : (plan t).Proper V)
    (hstay : ∀ path, plan t ≠ .unstage v path) (w : World) :
    ((plan t).program V).wp ((keeping plan hat).regime t) (fun _ _ => True) w := by
  have hown : ∀ {p : Run (Except Status Unit)} {Q : Except Status Unit → World → Prop},
      (plan t).volume? = some v → p.wp ((Setting.kept plan t hat).operating (fun _ => True)) Q w →
      p.wp ((keeping plan hat).regime t) (fun _ _ => True) w := by
    intro p Q hv hp
    refine Prog.wp_mono (fun _ _ _ => trivial) (Prog.wp_weaken ?_ ?_ hp)
    · rintro w c ⟨o, w'⟩ ⟨hrel, hadm⟩
      exact ⟨hrel.2, hadm⟩
    · exact fun w c o _ h => .own hv h
  have hlock : ∀ w o, (Setting.kept plan t hat).adm w (.lock (V.id v)) o →
      (Setting.kept plan t hat).ctx false (exec S o (.lock (V.id v)) w).2 := by
    intro w o hadm
    refine ⟨(Setting.kept plan t hat).held_lock hadm, ?_⟩
    exact (hadm.1.2.disturb o).step (hadm.1.1.1.disturb o).toTidy trivial rfl (fun h => by cases h)
      fun _ _ _ h => by cases h
  by_cases hop : (plan t).expands = true
  · refine Prog.wp_of_all (I := fun _ => True) ?_ (Op.program_notes hop) trivial
    exact fun _ _ _ hc _ _ => ⟨.notes hop hc, trivial⟩
  by_cases hv : (plan t).volume? = some v
  · cases hplan : plan t with
    | stage u path secrets capability =>
      rw [hplan] at hv hproper
      obtain rfl : u = v := Option.some.inj hv
      exact hown (by rw [hplan]; rfl) (Setting.operating_nodeStageVolume ⟨rfl, hproper, rfl⟩ hlock)
    | unstage u path =>
      rw [hplan] at hv
      exact absurd (Option.some.inj hv ▸ hplan) (hstay path)
    | publish u path target capability readonly =>
      rw [hplan] at hv hproper
      obtain rfl : u = v := Option.some.inj hv
      exact hown (by rw [hplan]; rfl)
        ((Publishing.kept hat hplan).operating_nodePublishVolume rfl hproper.1 hproper.2)
    | unpublish u target =>
      rw [hplan] at hv hproper
      obtain rfl : u = v := Option.some.inj hv
      exact hown (by rw [hplan]; rfl) (Setting.operating_nodeUnpublishVolume hproper)
    | expand u path => exact absurd (hplan ▸ rfl) hop
    | tick => exact absurd (hplan ▸ rfl) hop
  · refine Prog.wp_weaken ?_ ?_ (wp_program hproper w)
    · rintro w c ⟨o, w'⟩ ⟨hrel, hadm⟩
      exact ⟨hrel.1, hadm.1.1, hadm.2.1⟩
    · rintro w c o - (⟨u, hu, h⟩ | ⟨hop, hn⟩)
      · exact .other u hu (fun he => hv (he ▸ hu)) h
      · exact .notes hop hn

/-- Requests are served from a state in which the volume is mounted, and none of them
unstages it. -/
theorem keeping_safe (hat : V.StagedAt v path) {plan₀ : ℕ → Op ι} {P₀ P : Served}
    (h₀ : Serving V True true plan₀ P₀) (hm : P₀.state.mountedAt path = true)
    (hplan : ∀ t, (plan t).Proper V) (hstay : ∀ t path, plan t ≠ .unstage v path)
    (h : (promptServer V plan v).Steps (.idle P₀.state) P) : (keeping plan hat).Safe P := by
  have hstart : (keeping plan hat).Safe (.idle P₀.state) :=
    ⟨⟨h₀.safe.1.1, Or.inl hm⟩, fun t p hp => by cases hp⟩
  refine hstart.steps ?_ h
  rintro t p w rfl -
  exact keeping_program hat (hplan t) (hstay t) w

/-- The commands that neither bind nor clear a mark. -/
def Cmd.discreet : Cmd → Bool
  | .bind .. | .failedClear _ => false
  | _ => true

theorem Op.prompt_of_discreet {op : Op ι} (h : c.discreet = true) : op.Prompt V v w c := by
  cases c <;> trivial

def Discreet (P : Served) : Interaction.Move ℕ Choice → Prop
  | .go t _ => ∀ c ∈ P.next t, c.discreet = true
  | _ => True

instance (P : Served) : (mv : Interaction.Move ℕ Choice) → Decidable (Discreet P mv)
  | .go t _ => inferInstanceAs (Decidable (∀ c ∈ P.next t, c.discreet = true))
  | .start _ | .cut _ => inferInstanceAs (Decidable True)

theorem promptServer_steps {ms : List (Interaction.Move ℕ Choice)} {P : Served}
    (h : Pool.Keeps (exec S) (fun t => (plan t).program V)
      (fun P mv => Ready S P mv ∧ InOrder V plan P mv ∧ Discreet P mv) ms P) :
    (promptServer V plan v).Steps P (Pool.moves (exec S) (fun t => (plan t).program V) P ms) := by
  refine System.steps_moves (fun _ _ => rfl) (fun _ => rfl) (h.mono fun P mv hg => ⟨?_, ?_⟩)
  · rintro t rfl
    exact hg.1.elim
  · rintro t o rfl c hc
    obtain ⟨hwho, hgen, hfree⟩ := hg.1 c hc
    exact ⟨⟨hwho, hgen, hfree, fun _ => (hg.2.1 c hc).orderly⟩,
      Op.prompt_of_discreet (hg.2.2 c hc)⟩

/-- The first demo volume is published to two pods. -/
def publishPlan (t : ℕ) : Op Bool :=
  .publish false "/s/a" (if t = 0 then "/p/a" else "/p/b") demoCapability false

theorem publishPlan_proper (t : ℕ) : (publishPlan t).Proper demo := by
  unfold publishPlan
  refine ⟨rfl, ?_⟩
  split_ifs
  · exact demo_outside (by decide) (by decide)
  · exact demo_outside (by decide) (by decide)

theorem demo_stagedAt : demo.StagedAt false "/s/a" := ⟨rfl, rfl⟩

/-- One of the two publishes, of a volume that may be marked as it starts. -/
def publishing (n : ℕ) (marks : List VolumeID) : Served :=
  Pool.moves (exec demoSite) (fun t => (publishPlan t).program demo) (.idle (stagedInTurn 28).state)
    (serves 0 n fun i => { Choice.calm with marks := if i = 0 then marks else [] })

/-- The commands that unmount the place or close the mapping. -/
def Cmd.tearsDown (S : Site) (place : Str) (name : String) : Cmd → Prop
  | .umount path => S.resolve path = place
  | .cryptClose mapper | .luks _ mapper .close => mapper = name
  | _ => False

theorem Cmd.tearsDown.releases {place : Str} {name : String} (h : c.tearsDown S place name) :
    c.releases = true := by
  cases c with
  | umount path => rfl
  | cryptClose mapper => rfl
  | luks dev mapper c => rfl
  | _ => exact h.elim

theorem Considerate.spares (h : Considerate V v path w c) : ¬ c.tearsDown S path (V.mapper v) := by
  intro hc
  cases c with
  | umount p => exact absurd hc (of_decide_eq_false (p := S.resolve p = path) h.touches)
  | cryptClose mapper => exact h.closes.1 (congrArg Cmd.cryptClose hc)
  | luks dev mapper c =>
    cases c with
    | close => exact h.closes.2 dev .close (congrArg (Cmd.luks dev · .close) hc)
    | _ => exact hc.elim
  | _ => exact hc.elim

/-- The filesystem of the first volume is forced read-only, and the monitor marks it. -/
def marking (t : ℕ) : List (Interaction.Move ℕ Choice) :=
  serves t 4 fun i => { Choice.calm with breaks := if i = 0 then [.loop 0] else [] }

def latePlan : ℕ → Op Bool
  | 0 => .stage false "/s/a" [] demoCapability
  | 1 | 4 => .tick
  | 2 => .publish false "/s/a" "/p/a" demoCapability false
  | _ => .publish false "/s/a" "/p/b" demoCapability false

theorem latePlan_proper (t : ℕ) : (latePlan t).Proper pair := by
  unfold latePlan
  split
  · rfl
  · trivial
  · trivial
  · exact ⟨rfl, demo_outside (by decide) (by decide)⟩
  · exact ⟨rfl, demo_outside (by decide) (by decide)⟩

def lateRun (ms : List (Interaction.Move ℕ Choice)) : Served :=
  Pool.moves (exec demoSite) (fun t => (latePlan t).program pair) (.idle pairWorld) ms

theorem lateRun_serving {ms : List (Interaction.Move ℕ Choice)} (h : Pool.Keeps (exec demoSite)
    (fun t => (latePlan t).program pair) (fun P mv => Ready demoSite P mv ∧ InOrder pair latePlan P mv) ms
    (.idle pairWorld)) : Serving pair True true latePlan (lateRun ms) :=
  (Serving.start pairWorld_empty latePlan_proper).steps (server_steps_inOrder h)

/-- The pod's publish has returned success, and its target shows a directory of the host. -/
def Bare (P : Served) (t : ℕ) (target : Str) : Prop :=
  (P.result t).map Except.isOk = some true ∧
    (P.state.top target).map Mount.source = some (.dir "/s/a")

instance (P : Served) (t : ℕ) (target : Str) : Decidable (Bare P t target) :=
  inferInstanceAs (Decidable (_ ∧ _))

/-- A publish finds no mark. Before it binds, the volume is marked and another publish
re-stages it. -/
def lateBind : List (Interaction.Move ℕ Choice) :=
  serves 0 17 (fun _ => .calm) ++ serves 2 5 (fun _ => .calm) ++ marking 1 ++
    serves 3 12 (fun _ => .calm) ++ [.go 2 (.thread 2)] ++ List.replicate 28 (.go 3 (.thread 3))

theorem late_bind_bare : Serving pair True true latePlan (lateRun lateBind) ∧
    Bare (lateRun lateBind) 2 "/p/a" :=
  ⟨lateRun_serving (by decide +kernel), by decide +kernel⟩

/-- The monitor looks at the mounts while a re-stage has mounted the volume but not yet
cleared its mark. The entry of the re-stage cannot be written, and it unmounts the volume
again. Then the monitor clears the mark. -/
def lateClear : List (Interaction.Move ℕ Choice) :=
  serves 0 17 (fun _ => .calm) ++ marking 1 ++ serves 3 32 (fun _ => .calm) ++
    serves 4 2 (fun _ => .calm) ++ [.go 3 { Choice.thread 3 with fault := some ⟨9, []⟩ }] ++
    List.replicate 6 (.go 3 (.thread 3)) ++ [.go 4 (.thread 4)] ++ serves 2 6 (fun _ => .calm)

theorem late_clear_bare : Serving pair True true latePlan (lateRun lateClear) ∧
    Bare (lateRun lateClear) 2 "/p/a" :=
  ⟨lateRun_serving (by decide +kernel), by decide +kernel⟩

/-- A re-stage cannot attach the image, and the volume stays out of service. -/
def outOfService : List (Interaction.Move ℕ Choice) :=
  serves 0 17 (fun _ => .calm) ++ marking 1 ++
    serves 3 28 fun i => { Choice.calm with fault := if i = 26 then some ⟨9, []⟩ else none }

/-- The next process does not know that the volume was marked. -/
theorem restart_bare : ∃ P, Serving pair True true (fun t => latePlan (t + 2)) P ∧
    Bare P 0 "/p/a" := by
  have h : Serving pair True true latePlan (lateRun outOfService) :=
    lateRun_serving (by decide +kernel)
  have hplan : ∀ t, (latePlan (t + 2)).Proper pair := fun t => latePlan_proper (t + 2)
  have hnext := h.restart hplan (fun _ => .calm) none (by
    intro e he
    obtain ⟨i, hi⟩ := Prog.events_choice he
    exact .of_calm (hi ▸ rfl))
  refine ⟨Pool.moves (exec demoSite) (fun t => (latePlan (t + 2)).program pair) _
    (serves 0 6 fun _ => .calm), hnext.steps (server_steps_inOrder ?_), ?_⟩
  · decide +kernel
  · decide +kernel

end Fileblock.Node
