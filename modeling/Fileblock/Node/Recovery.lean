import Fileblock.Node.Undone

/-! A stage that the plugin does not survive: wherever it is cut off, and wherever the
restarts after it are, a restart that comes to its end and the same request again stage the
volume. -/
namespace Fileblock.Node
open Go Store Interaction

variable {S : Site} {ι : Type} {V : Volumes S ι} {v : ι} {w w' : World} {c : Cmd} {o : Choice}
  {mode : Mode} {req : StageRequest} {dev : ℕ} {place path : Str}

/-- The entry lays no claim to a mapping; that of an encrypted volume, to no loop either. -/
structure Mapping.Blank (m : Mapping) (mode : Mode) : Prop where
  cryptDev : m.cryptDev = none
  loopDev : mode ≠ .plain → m.loopDev = none

/-- An entry of the volume, in memory or on file. -/
def Entry (V : Volumes S ι) (v : ι) (w : World) (m : Mapping) : Prop :=
  (m ∈ w.state ∨ m ∈ w.stateFile) ∧ m.volumeID = V.id v

/-- A state from which a restart and a stage lead to a staged volume. The image can be
used. Where the volume is not mounted at the place of the request it is mounted nowhere,
and its entry is blank; where it is, the place shows it, and its entry is the right one if it
names the right loop. -/
structure Recoverable (V : Volumes S ι) (v : ι) (place : Str) (mode : Mode) (w : World) : Prop where
  sane : Sane V w
  mem_places : place ∈ V.places v
  present : (w.images (V.image v)).present = true
  usable : mode.Usable (w.images (V.image v)).device
  blank : w.mountedAt place = false →
    (∀ src, V.Owns w v src → w.mounted src = false) ∧ ∀ m, Entry V v w m → m.Blank mode
  visible : w.mountedAt place = true → ∃ dev, Visible V v place mode dev w ∧
    ∀ m, Entry V v w m → m.loopDev = some dev → m.cryptDev = mode.cryptDev (V.mapper v)

/-- The mounts stay, and nothing comes to the other tables. -/
structure Shrinks (w w' : World) : Prop where
  mounts : w'.mounts = w.mounts
  dm : ∀ p ∈ w'.dm, p ∈ w.dm
  loops : ∀ l' ∈ w'.loops, ∃ l ∈ w.loops, l.dev = l'.dev ∧ l.file = l'.file
  entries : ∀ m, m ∈ w'.state ∨ m ∈ w'.stateFile → m ∈ w.state ∨ m ∈ w.stateFile

theorem Attaching.notMounted {w₀ : World} (h : Attaching V v w w₀ dev) (hp : place ∈ V.places v) :
    w.mountedAt place = false := by
  by_contra hc
  obtain ⟨m, hm, ht⟩ := World.mountedAt_iff.mp (Bool.eq_true_of_not_eq_false hc)
  have hm₀ : m ∈ w₀.mounts := h.undone.mounts ▸ hm
  exact h.unmounted hm₀ (h.tidy.staging m hm₀ v (ht ▸ hp))

namespace Recoverable

theorem shrink (h : Recoverable V v place mode w) (hs : Sane V w') (hsh : Shrinks w w')
    (hg : AsGood V v mode w w') : Recoverable V v place mode w' := by
  have hentry : ∀ m, Entry V v w' m → Entry V v w m := fun m hm => ⟨hsh.entries m hm.1, hm.2⟩
  refine ⟨hs, h.mem_places, hg.present.trans h.present, hg.usable h.usable, fun hm => ?_, fun hm => ?_⟩
  · rw [World.mountedAt_congr hsh.mounts] at hm
    obtain ⟨hfree, hblank⟩ := h.blank hm
    refine ⟨fun src ho => ?_, fun m hm => hblank m (hentry m hm)⟩
    rw [World.mounted_congr hsh.mounts]
    exact hfree src (V.owns_of_loops hsh.loops ho)
  · rw [World.mountedAt_congr hsh.mounts] at hm
    obtain ⟨dev, hv, hent⟩ := h.visible hm
    exact ⟨dev, hv.of_sane h.mem_places h.sane hs hsh.mounts hsh.dm, fun m hm => hent m (hentry m hm)⟩

theorem holding {w₀ : World} {d : Crypt.Device} (h : Recoverable V v place mode w) (hs : Sane V w')
    (hg : AsGood V v mode w w') (ha : Attaching V v w w₀ dev) (hh : Holding V v w₀ dev d w') :
    Recoverable V v place mode w' := by
  have hmounts : w'.mounts = w.mounts := hh.mounts.trans ha.undone.mounts
  have hfree := ha.notMounted h.mem_places
  refine ⟨hs, h.mem_places, hg.present.trans h.present, hg.usable h.usable, fun _ => ⟨?_, ?_⟩, fun hm => ?_⟩
  · intro src ho
    cases src with
    | loop n =>
      obtain ⟨l, hl, rfl, hf⟩ := ho
      rw [hh.loops] at hl
      rcases List.mem_append.mp hl with hl | hl
      · exact absurd hf (ha.unattached l hl)
      · rw [List.mem_singleton.mp hl]
        exact hh.mounted_loop ha
    | mapper name =>
      obtain rfl : name = V.mapper v := ho
      exact hh.mounted_mapper ha
    | dir path => exact ho.elim
  · have hmem := hh.memory.trans ha.undone.memory
    intro m hm
    refine (h.blank hfree).2 m ⟨?_, hm.2⟩
    have hstate : w'.state = w.state := congrArg Memory.state hmem
    have hfile : w'.stateFile = w.stateFile := congrArg Memory.stateFile hmem
    rw [← hstate, ← hfile]
    exact hm.1
  · rw [World.mountedAt_congr hmounts, hfree] at hm
    cases hm

/-- Every phase of a stage can be recovered from. -/
theorem midway (h : Recoverable V v place mode w) (hreq : S.resolve req.stagingTargetPath = place)
    (hs : Sane V w') (hm : Midway V v req mode w w') : Recoverable V v place mode w' := by
  subst hreq
  cases hm.phase with
  | undone hu =>
    refine h.shrink hs ⟨hu.mounts, fun p hp => hu.dm ▸ hp, ?_, ?_⟩ hm.good
    · exact fun l hl => ⟨l, hu.loops.subset hl, rfl, rfl⟩
    · have hstate : w'.state = w.state := congrArg Memory.state hu.memory
      have hfile : w'.stateFile = w.stateFile := congrArg Memory.stateFile hu.memory
      rw [hstate, hfile]
      exact fun _ h => h
  | holding ha hh => exact h.holding hs hm.good ha hh
  | @mounted w₀ w₁ _ dev d ha hh hmt =>
    have hst : Visible V v (S.resolve req.stagingTargetPath) mode dev w' := by
      refine ⟨⟨_, hmt.loops ▸ hh.mem, rfl, rfl⟩, ?_, fun name hn => hmt.dm ▸ hmt.mapping name hn⟩
      obtain ⟨ro, hmounts⟩ := hmt.mounts
      unfold World.top
      rw [hmounts]
      simp
    have hfree := ha.notMounted h.mem_places
    have hyes : w'.mountedAt (S.resolve req.stagingTargetPath) = true := by
      obtain ⟨ro, hmounts⟩ := hmt.mounts
      exact World.mountedAt_iff.mpr ⟨_, hmounts ▸ List.mem_cons_self, rfl⟩
    have hmem := hh.memory.trans ha.undone.memory
    have hstate : w₁.state = w.state := congrArg Memory.state hmem
    have hfile : w₁.stateFile = w.stateFile := congrArg Memory.stateFile hmem
    refine ⟨hs, h.mem_places, hm.good.present.trans h.present, hm.good.usable h.usable,
      fun hno => absurd (hno.symm.trans hyes) Bool.false_ne_true, fun _ => ?_⟩
    refine ⟨dev, hst, fun m hent hdev => ?_⟩
    rcases hmt.entries m hent.1 with hold | rfl
    · rw [hstate, hfile] at hold
      have hb := (h.blank hfree).2 m ⟨hold, hent.2⟩
      cases mode with
      | plain => exact hb.cryptDev
      | encrypted k f => exact absurd (hdev.symm.trans (hb.loopDev (by simp))) (by simp)
    · rfl
  | noted hn =>
    have hyes : w'.mountedAt (S.resolve req.stagingTargetPath) = true :=
      (World.mountedAt_congr hn.mounts _).trans hn.mountedAt
    refine ⟨hs, h.mem_places, hm.good.present.trans h.present, hm.good.usable h.usable,
      fun hno => absurd (hno.symm.trans hyes) Bool.false_ne_true, fun _ => ?_⟩
    obtain ⟨dev, hv, hent⟩ := h.visible hn.mountedAt
    refine ⟨dev, hn.visible hv, fun m hm' hdev => ?_⟩
    rcases hn.entries m hm'.1 with hold | ⟨dev', -, rfl⟩
    · exact hent m ⟨hold, hm'.2⟩ hdev
    · rfl

end Recoverable

/-! A plugin that starts again. -/

/-- What a reconciliation does besides looking: it lets go. -/
def Cmd.letsGo : Cmd → Bool
  | .stateDelete _ | .cryptClose _ | .losetupDetach _ => true
  | c => c.observes

theorem reconcile_letsGo (S : Site) : (reconcile S).run.All (·.letsGo = true) :=
  reconcile_all (P := (·.letsGo = true)) rfl rfl rfl (fun _ => rfl) (fun _ => rfl) (fun _ => rfl)
    (fun _ => rfl) S

theorem step_noted {m : Mapping}
    (hm : m ∈ (step S o c w).2.state ∨ m ∈ (step S o c w).2.stateFile) (hc : c ≠ .statePut m) :
    m ∈ w.state ∨ m ∈ w.stateFile := by
  rcases hm with hm | hm
  · exact Or.inl ((step_entries hm).resolve_left hc)
  · exact (step_filed hm).resolve_left hc

theorem step_shrinks (h : c.letsGo = true) : Shrinks w (step S o c w).2 := by
  have hentries : ∀ m, m ∈ (step S o c w).2.state ∨ m ∈ (step S o c w).2.stateFile →
      m ∈ w.state ∨ m ∈ w.stateFile := by
    intro m hm
    refine step_noted hm ?_
    rintro rfl
    cases h
  have hmove := step_move S o c w
  generalize (step S o c w).2 = w' at hmove hentries
  cases hmove with
  | none hs =>
    exact ⟨hs.mounts, fun p hp => hs.dm ▸ hp, fun l hl => ⟨l, hs.loops ▸ hl, rfl, rfl⟩, hentries⟩
  | detach hl =>
    refine ⟨rfl, fun _ hp => hp, fun l' hl' => ?_, hentries⟩
    obtain ⟨l, hl, rfl⟩ := List.mem_map.mp (World.mem_reap.mp hl').1
    refine ⟨l, hl, ?_⟩
    split_ifs <;> exact ⟨rfl, rfl⟩
  | close name hc hn =>
    refine ⟨rfl, fun _ hp => List.mem_of_mem_filter hp, fun l hl => ?_, hentries⟩
    exact ⟨l, (World.mem_reap.mp hl).1, rfl, rfl⟩
  | mkdir | rmdir | mount | bind | readOnly | umount | attach | «open» => cases h

theorem step_letsGo_images (h : c.letsGo = true) : (step S o c w).2.images = w.images := by
  funext file
  refine step_images ?_
  rintro dev name c' rfl
  cases h

theorem Recoverable.letsGo (h : Recoverable V v place mode w) (hc : c.letsGo = true) :
    Recoverable V v place mode (step S o c w).2 := by
  have hs : Sane V (step S o c w).2 := by
    refine h.sane.move ?_ ?_
    · cases c <;> trivial
    · rintro m rfl
      cases hc
  exact h.shrink hs (step_shrinks hc) ((AsGood.refl V v mode w).congr (step_letsGo_images hc))

theorem Recoverable.restart (h : Recoverable V v place mode w) : Recoverable V v place mode w.restart := by
  refine h.shrink h.sane.restart ⟨rfl, fun _ hp => hp, fun l' hl' => ?_, fun m hm => ?_⟩ ⟨rfl, id⟩
  · obtain ⟨l, hl, rfl⟩ := List.mem_map.mp hl'
    exact ⟨l, hl, rfl, rfl⟩
  · exact Or.inr ((or_self_iff).mp hm)

/-- The volume's identifier has the form that `CreateVolume` gives it. -/
def Volumes.Issued (V : Volumes S ι) (v : ι) : Prop := issuedName (V.id v ++ imageExt) = true

theorem Volumes.Issued.disconnected (h : V.Issued v) :
    disconnectedImage (S.reported (V.image v) false none) = true := by
  obtain ⟨ss, hss, hr⟩ := V.reported_eq v
  have hall : ∀ e ∈ ss ++ [V.fileName v none], Proper e := by
    intro e he
    rcases List.mem_append.mp he with he | he
    · exact hss e he
    · rw [List.mem_singleton.mp he]
      exact V.fileName_proper v none
  have hname : issuedName (V.fileName v none) = true := h
  rw [hr, if_neg Bool.false_ne_true]
  unfold disconnectedImage
  rw [split_absPath hall]
  simp only [List.dropLast_concat, List.getLast?_concat, Option.map_some, Option.getD_some, hname,
    Bool.and_true, List.all_eq_true]
  intro e he
  simpa using (hss e he).ne_nil

theorem Coherent.liveByDev (h : Coherent V w) {l : Loop} (hl : l ∈ w.loops) :
    liveByDev (w.attachments S) l.dev = some (S.reported l.file l.fresh l.silly) := by
  have hmem : (⟨l.dev, S.reported l.file l.fresh l.silly⟩ : Attachment) ∈
      (w.attachments S).filter (·.device = l.dev) :=
    List.mem_filter.mpr ⟨List.mem_map_of_mem hl, by simp⟩
  unfold Node.liveByDev
  cases hlast : ((w.attachments S).filter (·.device = l.dev)).getLast? with
  | none => exact absurd (List.getLast?_eq_none_iff.mp hlast) (List.ne_nil_of_mem hmem)
  | some a =>
    obtain ⟨ha, hd⟩ := List.mem_filter.mp (List.mem_of_getLast? hlast)
    obtain ⟨l', hl', rfl⟩ := List.mem_map.mp ha
    rw [h.loop_unique hl' hl (by simpa using hd)]
    rfl

theorem liveByDev_some {dev : ℕ} {back : Str} (h : liveByDev (w.attachments S) dev = some back) :
    ∃ l ∈ w.loops, l.dev = dev ∧ back = S.reported l.file l.fresh l.silly := by
  unfold liveByDev at h
  obtain ⟨a, hlast, rfl⟩ := Option.map_eq_some_iff.mp h
  obtain ⟨ha, hd⟩ := List.mem_filter.mp (List.mem_of_getLast? hlast)
  obtain ⟨l, hl, rfl⟩ := List.mem_map.mp ha
  exact ⟨l, hl, by simpa using hd, rfl⟩

theorem Recoverable.ours (h : Recoverable V v place mode w) (hid : V.Issued v)
    (hfresh : ∀ l ∈ w.loops, l.fresh = false) (hm : (V.mapper v, dev) ∈ w.dm) :
    ours S (w.attachments S) dev = true := by
  obtain ⟨l, hl, rfl, hf⟩ := h.sane.over_mapper hm
  have hsilly : l.silly = none := by
    by_contra hs
    have hgone := h.sane.unlinked l hl hs
    rw [hf, h.present] at hgone
    cases hgone
  unfold Node.ours
  rw [h.sane.toCoherent.liveByDev hl, hf, hfresh l hl, hsilly, Option.any_some, hid.disconnected,
    Bool.or_true]

theorem Sane.records_of_mem (hs : Sane V w) {m : Mapping} (hm : m ∈ w.state)
    (hvol : m.volumeID = V.id v) : m.Records V v := by
  obtain ⟨u, hu⟩ := hs.entries m hm
  rwa [← V.id_injective (hu.volumeID.symm.trans hvol)]

theorem Sane.loop_of_kept (hs : Sane V w) {m : Mapping} {mappings : List (String × ℕ)}
    (hrec : m.Records V v) (hkept : stale (w.attachments S) mappings m = false) :
    ∃ n, m.loopDev = some n ∧ V.Owns w v (.loop n) := by
  have hlive := (Bool.or_eq_false_iff.mp hkept).1
  rw [Bool.not_eq_false'] at hlive
  cases hdev : m.loopDev with
  | none =>
    rw [hdev] at hlive
    cases hlive
  | some n =>
    rw [hdev, Option.bind_some] at hlive
    cases hback : liveByDev (w.attachments S) n with
    | none =>
      rw [hback] at hlive
      cases hlive
    | some back =>
      obtain ⟨l, hl, hd, rfl⟩ := liveByDev_some hback
      obtain ⟨u, hu⟩ := hs.owned l hl
      rw [hback, Option.any_some, hrec.imagePath, hu, V.backs_reported] at hlive
      exact ⟨n, rfl, l, hl, hd, hlive.1 ▸ hu⟩

/-- After a reconciliation: a volume that is not mounted has no mapping, and the entry of
one that is names its loop. -/
structure Recovered (V : Volumes S ι) (v : ι) (place : Str) (mode : Mode) (w : World) : Prop
    extends Recoverable V v place mode w where
  flushed : w.stateFile = w.state
  closed : w.mountedAt place = false → w.isOpen (V.mapper v) = false
  named : w.mountedAt place = true → ∃ dev, Visible V v place mode dev w ∧
    ∀ m ∈ w.state, m.volumeID = V.id v →
      m.loopDev = some dev ∧ m.cryptDev = mode.cryptDev (V.mapper v)

theorem Recovered.fit (h : Recovered V v place mode w) (hparse : req.parse = .ok (V.config v, mode))
    (hcap : validateCapability req.capability = .ok ()) (hpath : Printed S req.stagingTargetPath)
    (hplace : S.resolve req.stagingTargetPath = place) : Fit V v req mode w := by
  subst hplace
  refine ⟨hparse, hcap, hpath, h.present, h.flushed, fun hm => ⟨?_, h.closed hm, h.usable⟩, fun hm => ?_⟩
  · intro l hl hf
    refine World.busy_false.mpr ⟨(h.blank hm).1 _ ⟨l, hl, rfl, hf⟩, World.held_false.mpr ?_⟩
    intro name hn
    obtain ⟨u, hu, l', hl', hd, hf'⟩ := h.sane.mapped _ hn
    have hsame : l' = l := h.sane.loop_unique hl' hl hd
    obtain rfl : u = v := V.image_injective (hf'.symm.trans (hsame ▸ hf))
    have hname : name = V.mapper u := hu
    exact World.isOpen_false.mp (h.closed hm) l.dev (hname ▸ hn)
  · obtain ⟨dev, hv, hent⟩ := h.named hm
    refine ⟨dev, hv, fun m hget => ?_⟩
    obtain ⟨hmem, hvol⟩ := Mapping.mem_of_get hget
    exact hent m hmem hvol

theorem step_calm : (step S .calm c w) = execOk S .calm c w := rfl

section Calm
variable {live : List Attachment} {mappings : List (String × ℕ)} {kept : List Mapping}

theorem calm_dropStale {all : List Mapping} {Q : Unit → World → Prop}
    (hr : Recoverable V v place mode w) (hfiled : w.stateFile = w.state) (hall : ∀ m ∈ w.state, m ∈ all)
    (hq : ∀ w', Recoverable V v place mode w' → w'.stateFile = w'.state → w'.loops = w.loops →
      w'.dm = w.dm → w'.mounts = w.mounts →
      (∀ m ∈ w'.state, stale live mappings m = false) → Q () w') :
    (Prog.each (dropIfStale live mappings) all).wp (calm S) Q w := by
  refine Prog.wp_each (I := fun rest w' => Recoverable V v place mode w' ∧ w'.stateFile = w'.state ∧
      w'.loops = w.loops ∧ w'.dm = w.dm ∧ w'.mounts = w.mounts ∧
      ∀ m ∈ w'.state, stale live mappings m = true → m ∈ rest) ?_ ?_
    ⟨hr, hfiled, rfl, rfl, rfl, fun m hm _ => hall m hm⟩
  · rintro m rest w' ⟨hr, hfiled, hl, hd, hm, hrest⟩
    unfold dropIfStale
    split_ifs with hstale
    · refine (Prog.wp_bind _ _ _ _).mpr (calm_issue fun o _ => ?_)
      refine ⟨hr.letsGo (o := .calm) (c := .stateDelete m.volumeID) rfl, rfl, hl, hd, hm, ?_⟩
      intro m' hm' hs'
      obtain ⟨hin, hne⟩ := List.mem_filter.mp hm'
      refine (List.mem_cons.mp (hrest m' hin hs')).resolve_left ?_
      rintro rfl
      simp at hne
    · refine ⟨hr, hfiled, hl, hd, hm, fun m' hm' hs' => ?_⟩
      refine (List.mem_cons.mp (hrest m' hm' hs')).resolve_left ?_
      rintro rfl
      exact hstale hs'
  · rintro w' ⟨hr, hfiled, hl, hd, hm, hrest⟩
    refine hq w' hr hfiled hl hd hm fun m hm => ?_
    by_contra hs
    cases hrest m hm (Bool.eq_true_of_not_eq_false hs)

theorem calm_closeOrphans {Q : Unit → World → Prop} (hr : Recoverable V v place mode w)
    (hmaps : ∀ p ∈ w.dm, p ∈ mappings)
    (hclaim : w.mountedAt place = false →
      kept.any (·.cryptDev = some (V.mapper v)) = false)
    (hours : ∀ n, (V.mapper v, n) ∈ w.dm → ours S live n = true)
    (hq : ∀ w', Recoverable V v place mode w' → w'.state = w.state → w'.stateFile = w.stateFile →
      w'.mounts = w.mounts → (∀ p ∈ w'.dm, p ∈ w.dm) →
      (w.mountedAt place = false → w'.isOpen (V.mapper v) = false) → Q () w') :
    (Prog.each (closeOrphan S live kept) mappings).wp (calm S) Q w := by
  refine Prog.wp_each (I := fun rest w' => Recoverable V v place mode w' ∧ w'.state = w.state ∧
      w'.stateFile = w.stateFile ∧ w'.mounts = w.mounts ∧ (∀ p ∈ w'.dm, p ∈ w.dm) ∧
      (w.mountedAt place = false → ∀ n, (V.mapper v, n) ∈ w'.dm → (V.mapper v, n) ∈ rest))
    ?_ ?_ ⟨hr, rfl, rfl, rfl, fun _ h => h, fun _ n hn => hmaps _ hn⟩
  · rintro ⟨name, n⟩ rest w' ⟨hr, hs, hf, hm, hdm, hrest⟩
    -- what is left to do when this mapping is not the volume's open one
    have hskip : (w.mountedAt place = false → (name, n) ∈ w'.dm → name ≠ V.mapper v) →
        ∀ k, w.mountedAt place = false → (V.mapper v, k) ∈ w'.dm →
          (V.mapper v, k) ∈ rest := by
      intro hne k hfree hk
      refine (List.mem_cons.mp (hrest hfree k hk)).resolve_left fun he => ?_
      exact hne hfree (he ▸ hk) (congrArg Prod.fst he).symm
    unfold closeOrphan
    split_ifs with hcond
    · refine ⟨hr, hs, hf, hm, hdm, fun hfree k hk => hskip (fun hfree hin he => ?_) k hfree hk⟩
      subst he
      have hkept : kept.any (·.cryptDev = some (V.mapper v)) = false := hclaim hfree
      rw [hkept, hours n (hdm _ hin)] at hcond
      cases hcond
    · refine (Prog.wp_ignore _ _ _).mpr (calm_closeCrypt (fun hfree => ?_) (fun hopen hbusy e => ?_)
        fun hopen hfree => ?_)
      · refine ⟨hr, hs, hf, hm, hdm, fun hf k hk => hskip (fun _ hin _ => ?_) k hf hk⟩
        exact World.isOpen_false.mp hfree n hin
      · refine ⟨hr, hs, hf, hm, hdm, fun hf k hk => hskip (fun hfree hin he => ?_) k hf hk⟩
        rw [← World.mountedAt_congr hm] at hfree
        have hidle := (hr.blank hfree).1 (.mapper name) he
        exact Bool.false_ne_true (hidle.symm.trans hbusy)
      · have hnext : (step S .calm (.cryptClose name) w').2 =
            World.reap { w' with dm := w'.dm.filter (·.1 ≠ name) } := by
          simp [step_calm, execOk, World.closeMapping, hopen, hfree]
        have hr' := hr.letsGo (S := S) (o := .calm) (c := .cryptClose name) rfl
        rw [hnext] at hr'
        refine ⟨hr', hs, hf, hm, fun p hp => hdm p (List.mem_of_mem_filter hp), fun hf k hk => ?_⟩
        obtain ⟨hk, hne⟩ := List.mem_filter.mp hk
        refine hskip (fun _ _ he => ?_) k hf hk
        simp [he] at hne
  · rintro w' ⟨hr, hs, hf, hm, hdm, hrest⟩
    refine hq w' hr hs hf hm hdm fun hfree => World.isOpen_false.mpr fun n hn => ?_
    cases hrest hfree n hn

theorem calm_detachOrphans {devs : List ℕ} {Q : Unit → World → Prop} (hr : Recoverable V v place mode w)
    (hq : ∀ w', Recoverable V v place mode w' → w'.state = w.state → w'.stateFile = w.stateFile →
      w'.mounts = w.mounts → w'.dm = w.dm → Q () w') :
    (Prog.each (detachOrphan S live kept) devs).wp (calm S) Q w := by
  refine Prog.wp_each (I := fun _ w' => Recoverable V v place mode w' ∧ w'.state = w.state ∧
      w'.stateFile = w.stateFile ∧ w'.mounts = w.mounts ∧ w'.dm = w.dm) ?_ ?_
    ⟨hr, rfl, rfl, rfl, rfl⟩
  · rintro dev rest w' ⟨hr, hs, hf, hm, hd⟩
    unfold detachOrphan
    split_ifs
    · exact ⟨hr, hs, hf, hm, hd⟩
    · refine (Prog.wp_ignore _ _ _).mpr (calm_detachLoop (fun _ => ⟨hr, hs, hf, hm, hd⟩)
        fun l hl hdev => ?_)
      have hnext : (step S .calm (.losetupDetach dev) w').2 = w'.detach dev := by
        have hfound : w'.loop? dev = some l := hdev ▸ hr.sane.loop?_of_mem hl
        simp [step_calm, execOk, hfound]
      have hr' := hr.letsGo (S := S) (o := .calm) (c := .losetupDetach dev) rfl
      rw [hnext] at hr'
      exact ⟨hr', hs, hf, hm, hd⟩
  · rintro w' ⟨hr, hs, hf, hm, hd⟩
    exact hq w' hr hs hf hm hd

/-- A reconciliation at the start of the plugin, in which nothing fails. -/
theorem calm_reconcile (hr : Recoverable V v place mode w) (hid : V.Issued v)
    (hfiled : w.stateFile = w.state) (hfresh : ∀ l ∈ w.loops, l.fresh = false) :
    (reconcile S).run.wp (calm S) (fun r w' => r = .ok () ∧ Recovered V v place mode w') w := by
  unfold reconcile listLoops shell listCrypt
  rw [Prog.wp_run_bind, Prog.wp_attempt]
  refine calm_issue fun _ _ => ?_
  show Prog.wp (calm S) (ExceptT.run (_ >>= _)) _ w
  rw [Prog.wp_run_bind, Prog.wp_attempt]
  refine calm_issue fun _ _ => ?_
  show Prog.wp (calm S) (ExceptT.run (_ >>= _)) _ w
  rw [Prog.wp_run_bind, Prog.wp_always]
  refine calm_issue fun o _ => ?_
  show Prog.wp (calm S) (ExceptT.run (_ >>= _)) _ w
  rw [Prog.wp_run_bind, Prog.wp_always]
  refine calm_dropStale hr hfiled (fun m hm => (anyOrder_perm _ _).mem_iff.mpr hm)
    fun w₁ hr₁ hf₁ hl₁ hd₁ hm₁ hkept => ?_
  dsimp only
  rw [Prog.wp_run_bind, Prog.wp_always]
  refine calm_issue fun o _ => ?_
  show Prog.wp (calm S) (ExceptT.run (_ >>= _)) _ w₁
  rw [Prog.wp_run_bind, Prog.wp_always]
  have hnames : w₁.mountedAt place = true → ∃ dev, Visible V v place mode dev w₁ ∧
      ∀ m ∈ w₁.state, m.volumeID = V.id v →
        m.loopDev = some dev ∧ m.cryptDev = mode.cryptDev (V.mapper v) := by
    intro hm
    obtain ⟨dev, hv, hent⟩ := hr₁.visible hm
    refine ⟨dev, hv, fun m hmem hvol => ?_⟩
    obtain ⟨n, hn, ho⟩ := hr.sane.loop_of_kept (hr₁.sane.records_of_mem hmem hvol) (hkept m hmem)
    have ho₁ : V.Owns w₁ v (.loop n) := by
      obtain ⟨l, hl, hd, hf⟩ := ho
      exact ⟨l, hl₁ ▸ hl, hd, hf⟩
    obtain rfl := hr₁.sane.toCoherent.loop_of_volume ho₁ hv.owns
    exact ⟨hn, hent m ⟨Or.inl hmem, hvol⟩ hn⟩
  refine calm_closeOrphans hr₁ (fun p hp => hd₁ ▸ hp) ?_ ?_
    fun w₂ hr₂ hs₂ hf₂ hm₂ hd₂ hclosed => ?_
  · intro hfree
    refine List.any_eq_false.mpr fun m hmem hc => ?_
    have hmem := (anyOrder_perm _ _).mem_iff.mp hmem
    have hc : m.cryptDev = some (V.mapper v) := by simpa using hc
    obtain ⟨u, hu⟩ := hr₁.sane.entries m hmem
    obtain rfl : v = u := V.mapper_injective (hu.cryptDev _ hc)
    have hblank := (hr₁.blank hfree).2 m ⟨Or.inl hmem, hu.volumeID⟩
    exact Option.some_ne_none _ (hc.symm.trans hblank.cryptDev)
  · exact fun n hn => hr.ours hid hfresh (hd₁ ▸ hn)
  dsimp only
  rw [Prog.wp_run_bind, Prog.wp_always]
  refine calm_issue fun o _ => ?_
  show Prog.wp (calm S) (ExceptT.run _) _ w₂
  rw [Prog.wp_always]
  refine calm_detachOrphans hr₂ fun w₃ hr₃ hs₃ hf₃ hm₃ hd₃ => ⟨rfl, hr₃, ?_, ?_, ?_⟩
  · rw [hf₃, hf₂, hf₁, hs₃, hs₂]
  · intro hfree
    rw [World.mountedAt_congr hm₃, World.mountedAt_congr hm₂] at hfree
    unfold World.isOpen
    rw [hd₃]
    exact hclosed hfree
  · intro hm
    rw [World.mountedAt_congr hm₃, World.mountedAt_congr hm₂] at hm
    obtain ⟨dev, hv, hent⟩ := hnames hm
    refine ⟨dev, hv.of_sane hr₁.mem_places hr₁.sane hr₃.sane (hm₃.trans hm₂) ?_, ?_⟩
    · exact fun p hp => hd₂ p (hd₃ ▸ hp)
    · rw [hs₃, hs₂]
      exact hent

end Calm

/-! The node goes on serving the other volumes. -/

theorem Spares.entry (h : Spares V v w c) {m : Mapping} (hm : Entry V v (step S o c w).2 m) :
    Entry V v w m := by
  refine ⟨step_noted hm.1 ?_, hm.2⟩
  rintro rfl
  exact h hm.2

theorem Frame.visible (h : Frame V v w w') (hp : place ∈ V.places v)
    (hv : Visible V v place mode dev w) : Visible V v place mode dev w' := by
  refine ⟨h.owns.mpr hv.owns, h.top hp ▸ hv.top, fun name hn => ?_⟩
  obtain rfl : name = V.mapper v := by
    cases mode with
    | plain => cases hn
    | encrypted k f => exact (Option.some.inj hn).symm
  rw [← World.mem_mapsOf, h.maps, World.mem_mapsOf]
  exact hv.mapping _ hn

theorem Recoverable.spared (h : Recoverable V v place mode w) (hs : Sane V (step S o c w).2)
    (hc : Spares V v w c) : Recoverable V v place mode (step S o c w).2 := by
  have hframe : Frame V v w (step S o c w).2 := hc.frame h.sane.toTidy
  refine ⟨hs, h.mem_places, ?_, hframe.device ▸ h.usable, fun hm => ?_, fun hm => ?_⟩
  · rw [(step_move S o c w).present]
    exact h.present
  · rw [hframe.mountedAt h.mem_places] at hm
    obtain ⟨hfree, hblank⟩ := h.blank hm
    refine ⟨fun src ho => ?_, fun m hm => hblank m (hc.entry hm)⟩
    have ho := hframe.owns.mp ho
    exact hframe.unmounted ho (hfree src ho)
  · rw [hframe.mountedAt h.mem_places] at hm
    obtain ⟨dev, hv, hent⟩ := h.visible hm
    exact ⟨dev, hframe.visible h.mem_places hv, fun m hm => hent m (hc.entry hm)⟩

/-! The stage, wherever it is cut off. -/

theorem Recoverable.locks (h : Recoverable V v place mode w) (locks : List (VolumeID × ℕ)) :
    Recoverable V v place mode { w with locks } := by
  refine h.shrink (h.sane.locks locks) ?_ ⟨rfl, id⟩
  exact ⟨rfl, fun _ hp => hp, fun l hl => ⟨l, hl, rfl, rfl⟩, fun _ hm => hm⟩

theorem wp_stage_recoverable (hpath : path ∈ V.paths v) {secrets : Secrets}
    {capability : Option Capability} (h : Recoverable V v (S.resolve path) mode w)
    (hmode : ∀ cfg m, (⟨V.id v, path, V.context v, secrets, capability⟩ :
      StageRequest).parse = .ok (cfg, m) → m = mode) :
    ((Op.stage v path secrets capability).program V).wp ⟨exec S, Faulty S w.attaches,
      fun w' _ _ => Recoverable V v (S.resolve path) mode w'⟩ (fun _ w' => Recoverable V v (S.resolve path) mode w') w := by
  have hphases : ((Op.stage v path secrets capability).program V).wp ⟨exec S, Faulty S w.attaches,
      fun w' _ _ => Sane V w' → Recoverable V v (S.resolve path) mode w'⟩
      (fun _ w' => Sane V w' → Recoverable V v (S.resolve path) mode w') w := by
    rw [Op.program_stage hpath]
    refine wp_locked (I := fun w' => Sane V w' → Recoverable V v (S.resolve path) mode w') (fun _ => h) fun who => ?_
    have hl := h.locks ((V.id v, who) :: w.locks)
    have hwp := Trial.wp_stageLocked (S := S) (T := .faulted V v _ mode _) ⟨rfl, hpath, rfl⟩ hl.sane
      hmode
    refine Prog.wp_mono (fun r w₁ hend => ?_) (Prog.wp_weaken (fun _ _ _ ho => ho)
      (fun _ _ _ _ hmid hs => hl.midway rfl hs hmid) hwp)
    have hmid : Sane V w₁ → Recoverable V v (S.resolve path) mode w₁ := fun hs => hl.midway rfl hs hend.midway
    exact ⟨hmid, fun hs => (hmid (hs.locks w₁.locks)).locks _⟩
  exact Prog.wp_mono (fun _ _ hq => hq.1 hq.2)
    (Prog.wp_both (fun _ _ _ hg hs => hg hs) hphases (wp_stage_sane hpath h.sane))

/-- The states of a node on which a volume is staged, and staged again, by a plugin that
fails at it and does not survive it. In between it serves the other volumes, and starts
again and again. -/
inductive Interrupted (V : Volumes S ι) (v : ι) (path : Str) (mode : Mode) : (up : Bool) → World → Prop
  | start {w : World} (h : Recoverable V v (S.resolve path) mode w) : Interrupted V v path mode true w
  | stage {w : World} (h : Interrupted V v path mode true w) {secrets : Secrets}
    {capability : Option Capability}
    (hmode : ∀ cfg m, (⟨V.id v, path, V.context v, secrets, capability⟩ :
      StageRequest).parse = .ok (cfg, m) → m = mode)
    (o : ℕ → Choice) (stop : Option ℕ)
    (ho : ∀ e ∈ ((Op.stage v path secrets capability).program V).issued (exec S) o w stop,
      Faulty S w.attaches e.before e.cmd e.choice) :
    Interrupted V v path mode stop.isNone
      (((Op.stage v path secrets capability).program V).halt (exec S) o w stop).2
  | other {w : World} (h : Interrupted V v path mode true w) {op : Op ι} (hop : op.Proper V)
    (o : ℕ → Choice) (stop : Option ℕ)
    (ho : ∀ e ∈ (op.program V).issued (exec S) o w stop,
      e.choice.Alone ∧ Genuine S e.before e.cmd e.choice ∧ Spares V v e.before e.cmd) :
    Interrupted V v path mode stop.isNone ((op.program V).halt (exec S) o w stop).2
  | restart {up : Bool} {w : World} (h : Interrupted V v path mode up w) (o : ℕ → Choice)
    (stop : Option ℕ)
    (ho : ∀ e ∈ (reconcile S).run.issued (exec S) o w.restart stop, e.choice.Alone) :
    Interrupted V v path mode stop.isNone ((reconcile S).run.halt (exec S) o w.restart stop).2

theorem Interrupted.recoverable (hpath : path ∈ V.paths v) {up : Bool}
    (h : Interrupted V v path mode up w) : Recoverable V v (S.resolve path) mode w := by
  induction h with
  | start h => exact h
  | stage _ hmode o stop ho ih =>
    refine Prog.wp_halt_before (fun w' c => ⟨.calm, ?_⟩) (wp_stage_recoverable hpath ih hmode) stop ho
    exact ⟨⟨rfl, rfl, rfl⟩, fun e he => (Option.some_ne_none e he.symm).elim, fun _ => rfl⟩
  | @other w _ op hop o stop ho ih =>
    have hwp : (op.program V).wp ⟨exec S, fun w' c o => o.Alone ∧ Genuine S w' c o ∧ Spares V v w' c,
        Keeps V⟩ (op.Ends S) w :=
      Prog.wp_weaken (fun _ _ _ ho => ho.2.1) (fun _ _ _ _ hg => hg) (Op.wp_program hop ih.sane)
    refine (Prog.wp_halt (fun w' c o ho hk hr => ?_) hwp ih stop ho).1
    have hs := hk hr.sane
    rw [exec_alone ho.1] at hs ⊢
    exact hr.spared hs ho.2.2
  | @restart _ w _ o stop ho ih =>
    have hwp : (reconcile S).run.wp ⟨exec S, fun _ _ o => o.Alone, fun _ c _ => c.letsGo = true⟩
        (fun _ _ => True) w.restart :=
      Prog.wp_of_all (I := fun _ => True) (fun _ _ _ hc _ _ => ⟨hc, trivial⟩) (reconcile_letsGo S)
        trivial
    refine (Prog.wp_halt (fun w' c o ho hc hr => ?_) hwp ih.restart stop ho).1
    rw [exec_alone ho]
    exact hr.letsGo hc

theorem World.Empty.recoverable (h : w.Empty) (hpl : place ∈ V.places v) (hp : (w.images (V.image v)).present = true)
    (hu : mode.Usable (w.images (V.image v)).device) : Recoverable V v place mode w := by
  refine ⟨h.sane, hpl, hp, hu, fun _ => ⟨fun src _ => ?_, fun m hm => ?_⟩, fun hm => ?_⟩
  · simp [World.mounted, h.mounts]
  · simp [Entry, h.state, h.stateFile] at hm
  · simp [World.mountedAt, h.mounts] at hm

theorem demoWorld_recoverable : Recoverable demo true "/s/b" demoMode demoWorld :=
  demoWorld_empty.recoverable ⟨"/s/b", rfl, rfl⟩ rfl demoWorld_usable

/-- The stage of the encrypted volume, as far as it comes. -/
def cutStage (w : World) (stop : ℕ) : World :=
  (((Op.stage true "/s/b" demoSecrets demoCapability).program demo).halt (exec demoSite)
    (fun _ => .calm) w (some stop)).2

/-- The plugin starts again, and the stage is tried again. -/
def retried (w : World) : Except Status Unit × World :=
  ((Op.stage true "/s/b" demoSecrets demoCapability).program demo).eval (exec demoSite) (fun _ => .calm)
    ((reconcile demoSite).run.eval (exec demoSite) (fun _ => .calm) w.restart).2

/-- An unstage whose state file could not be written reports success. A stage that dies
after it with the mapping open cannot be taken up: the reconciliation takes the old entry
at its word and leaves the mapping, and the stage does not. -/
theorem half_unstaged_stuck :
    let staged := (((Op.stage true "/s/b" demoSecrets demoCapability).program demo).eval (exec demoSite)
      (fun _ => .calm) demoWorld).2
    let unstaged := ((Op.unstage true "/s/b").program demo).eval (exec demoSite)
      (fun i => { Choice.calm with fault := if i = 17 then some ⟨9, []⟩ else none }) staged
    unstaged.1 = .ok () ∧ unstaged.2.loops = [] ∧ unstaged.2.state = [] ∧
      unstaged.2.stateFile = staged.state ∧
      (retried (cutStage unstaged.2 15)).1 = .error ⟨.failedPrecondition, "volume " ++
        String.ofList (demo.id true) ++ " is already in use on this node through /dev/loop0; " ++
        "refusing a second attachment of one image"⟩ := by
  decide +kernel

end Fileblock.Node
