import Fileblock.Interaction.Part
import Fileblock.Loop.Reconcile
import Fileblock.Node.Reconcile

/-! The reconciler over strings and the reconciler of the node. The node knows a loop device
by its number and a mapping by its name; the reconciler asks the tables for the same things
either way. -/
namespace Fileblock.Loop
open Go Store Interaction

/-- The path of a loop device. -/
def devPath (dev : ℕ) : Str := (Node.showDevice (.loop dev)).toList

/-- The path of an open mapping. -/
def mapperPath (name : String) : Str := (Crypt.mapperPath name).toList

/-- A row of `losetup` as it is printed, without the mark on an unlinked file. -/
def rowOf (a : Node.Attachment) : Attachment := ⟨devPath a.device, a.backFile⟩

def mappingOf (m : String × ℕ) : CryptMapping := ⟨m.1.toList, devPath m.2⟩

/-- An entry of the state file, and what the node makes of it. -/
structure Entry (e : Mapping) (m : Node.Mapping) : Prop where
  volumeID : e.volumeID = m.volumeID
  loopDev : e.loopDev = (m.loopDev.map devPath).getD []
  imagePath : e.imagePath = m.imagePath
  cryptDev : e.cryptDev = (m.cryptDev.map mapperPath).getD []
  named : ∀ name, m.cryptDev = some name → name.toList ≠ [] ∧ '/' ∉ name.toList

/-- A map is ranged over by its keys, and the node ranges over the devices themselves. -/
inductive Stands : (c : Cmd) → (d : Node.Cmd) → (Resp c → Node.Resp d → Prop) → Prop
  | losetupList : Stands .losetupList .losetupList
      (Prog.Alike fun rows live => rows.map Attachment.trimmed = live.map rowOf)
  | cryptList : Stands .cryptList .dmList (Prog.Alike fun rows mappings =>
      rows = mappings.map mappingOf)
  | stateAll : Stands .stateAll .stateAll (List.Forall₂ Entry)
  | stateDelete (id : Str) : Stands (.stateDelete id) (.stateDelete id) fun _ _ => True
  | cryptClose (name : String) : Stands (.cryptClose name.toList) (.cryptClose name)
      fun _ _ => True
  | rangeLive {keys : List Str} {devs : List ℕ}
      (h : ∀ k, k ∈ keys ↔ ∃ dev ∈ devs, devPath dev = k) :
      Stands (.rangeLive keys) (.rangeLoops devs) fun r a => r = a.map devPath
  | losetupDetach (dev : ℕ) : Stands (.losetupDetach (devPath dev)) (.losetupDetach dev)
      fun _ _ => True

def nodeView : View Cmd Resp Node.Cmd Node.Resp := ⟨fun _ => False, Stands⟩

section Names
variable {dev dev' : ℕ} {name name' : String}

theorem devPath_eq (dev : ℕ) : devPath dev = "/dev/loop".toList ++ (toString dev).toList := by
  simp [devPath, Node.showDevice]

theorem devPath_injective : Function.Injective devPath := by
  intro dev dev' h
  rw [devPath_eq, devPath_eq] at h
  exact Nat.repr_inj.mp (String.toList_injective (List.append_cancel_left h))

theorem devPath_ne_nil (dev : ℕ) : devPath dev ≠ [] := by
  rw [devPath_eq]
  simp

theorem mapperPath_eq (name : String) :
    mapperPath name = "/dev/mapper".toList ++ '/' :: name.toList := by
  simp [mapperPath, Crypt.mapperPath]

theorem Entry.base {e : Mapping} {m : Node.Mapping} (h : Entry e m) (hn : m.cryptDev = some name) :
    e.cryptDev ≠ [] ∧ base e.cryptDev = name.toList := by
  have hdev : e.cryptDev = "/dev/mapper".toList ++ '/' :: name.toList := by
    rw [h.cryptDev, hn]
    exact mapperPath_eq name
  obtain ⟨hne, hslash⟩ := h.named name hn
  rw [hdev]
  exact ⟨by simp, base_of_append _ hne hslash⟩

end Names

section Tables
variable {live : List Node.Attachment} {mappings : List (String × ℕ)} {e : Mapping}
  {m : Node.Mapping} {kept : List Mapping} {kept' : List Node.Mapping}

theorem lookup_live (dev : ℕ) :
    (StrMap.fill Attachment.device Attachment.backFile (live.map rowOf)).lookup (devPath dev) =
      Node.liveByDev live dev := by
  rw [StrMap.lookup_fill, List.filter_map, List.getLast?_map, Option.map_map]
  simp only [Function.comp_def, rowOf, devPath_injective.eq_iff]
  rfl

theorem lookup_live_nil :
    (StrMap.fill Attachment.device Attachment.backFile (live.map rowOf)).lookup [] = none := by
  rw [StrMap.lookup_fill, List.filter_map, List.filter_eq_nil_iff.mpr]
  · rfl
  · intro a _
    simp [rowOf, devPath_ne_nil]

theorem lookup_backing (name : String) :
    (StrMap.fill CryptMapping.name CryptMapping.backing (mappings.map mappingOf)).lookup
      name.toList = (Node.backingByName mappings name).map devPath := by
  rw [StrMap.lookup_fill, List.filter_map, List.getLast?_map, Option.map_map, Node.backingByName,
    Option.map_map]
  simp only [Function.comp_def, mappingOf, String.toList_inj]

theorem stale_eq (h : Entry e m) :
    stale (StrMap.fill Attachment.device Attachment.backFile (live.map rowOf))
      (StrMap.fill CryptMapping.name CryptMapping.backing (mappings.map mappingOf)) e =
        Node.stale live mappings m := by
  have hloop : (StrMap.fill Attachment.device Attachment.backFile (live.map rowOf)).lookup
      e.loopDev = m.loopDev.bind (Node.liveByDev live) := by
    rw [h.loopDev]
    cases m.loopDev with
    | none => exact lookup_live_nil
    | some dev => exact lookup_live dev
  unfold stale Node.stale
  rw [hloop, h.imagePath]
  congr 1
  · cases m.loopDev.bind (Node.liveByDev live) <;> rfl
  · cases hc : m.cryptDev with
    | none => simp [h.cryptDev, hc]
    | some name =>
      obtain ⟨hne, hbase⟩ := h.base hc
      rw [hbase, lookup_backing, h.loopDev]
      dsimp only
      cases Node.backingByName mappings name with
      | none => simp [hne]
      | some dev =>
        cases m.loopDev with
        | none => simp [hne, devPath_ne_nil]
        | some dev' => simp [hne, devPath_injective.eq_iff]

theorem ours_eq (S : Site) (dev : ℕ) :
    ours S.root (StrMap.fill Attachment.device Attachment.backFile (live.map rowOf))
      (devPath dev) = Node.ours S live dev := by
  unfold ours Node.ours
  rw [lookup_live]
  cases Node.liveByDev live dev <;> rfl

theorem tracks_mapping (h : List.Forall₂ Entry kept kept') (name : String) :
    (kept.any fun e => e.cryptDev ≠ [] && base e.cryptDev = name.toList) =
      kept'.any (·.cryptDev = some name) := by
  induction h with
  | nil => rfl
  | @cons e m _ _ hem _ ih =>
    rw [List.any_cons, List.any_cons, ih]
    congr 1
    cases hc : m.cryptDev with
    | none => simp [hem.cryptDev, hc]
    | some name' =>
      obtain ⟨hne, hbase⟩ := hem.base hc
      simp [hne, hbase, String.toList_inj]

theorem tracks_loop (h : List.Forall₂ Entry kept kept') (dev : ℕ) :
    kept.any (·.loopDev = devPath dev) = kept'.any (·.loopDev = some dev) := by
  induction h with
  | nil => rfl
  | @cons e m _ _ hem _ ih =>
    rw [List.any_cons, List.any_cons, ih, hem.loopDev]
    congr 1
    cases m.loopDev with
    | none => simp [(devPath_ne_nil dev).symm]
    | some dev' => simp [devPath_injective.eq_iff]

end Tables

section Shows
variable {S : Site} {live : List Node.Attachment} {mappings : List (String × ℕ)} {e : Mapping}
  {m : Node.Mapping} {kept : List Mapping} {kept' : List Node.Mapping}

theorem dropIfStale_shows (h : Entry e m) :
    (dropIfStale (StrMap.fill Attachment.device Attachment.backFile (live.map rowOf))
      (StrMap.fill CryptMapping.name CryptMapping.backing (mappings.map mappingOf)) e).Shows
        nodeView (fun _ _ => True) (Node.dropIfStale live mappings m) := by
  unfold dropIfStale Node.dropIfStale
  rw [stale_eq h, h.volumeID]
  split_ifs
  · apply (Prog.shows_perform (V := nodeView) (.stateDelete m.volumeID)).bind
    intro _ _ _
    exact Prog.shows_ret trivial
  · exact Prog.shows_ret trivial

theorem closeCrypt_shows (name : String) : (issue (.cryptClose name.toList)).Shows nodeView
    (fun _ _ => True) (Node.closeCrypt name).run := by
  refine Or.inr ⟨_, _, _, rfl, .cryptClose name, ?_⟩
  rintro _ (err | _) _
  · change Prog.Shows _ _ _ (if _ then _ else _)
    split_ifs <;> exact Prog.shows_ret trivial
  · exact Prog.shows_ret trivial

theorem detachLoop_shows (dev : ℕ) : (issue (.losetupDetach (devPath dev))).Shows nodeView
    (fun _ _ => True) (Node.detachLoop dev).run := by
  refine Or.inr ⟨_, _, _, rfl, .losetupDetach dev, ?_⟩
  rintro _ (err | _) _
  · change Prog.Shows _ _ _ (if _ then _ else _)
    split_ifs <;> exact Prog.shows_ret trivial
  · exact Prog.shows_ret trivial

theorem closeOrphan_shows (h : List.Forall₂ Entry kept kept') (m : String × ℕ) :
    (closeOrphan S.root (StrMap.fill Attachment.device Attachment.backFile (live.map rowOf)) kept
      (mappingOf m)).Shows nodeView (fun _ _ => True) (Node.closeOrphan S live kept' m) := by
  unfold closeOrphan Node.closeOrphan mappingOf
  dsimp only
  rw [tracks_mapping h, ours_eq]
  split_ifs
  · exact Prog.shows_ret trivial
  · exact (closeCrypt_shows m.1).bind fun _ _ _ => Prog.shows_ret trivial

theorem detachOrphan_shows (h : List.Forall₂ Entry kept kept') (dev : ℕ) :
    (detachOrphan S.root (StrMap.fill Attachment.device Attachment.backFile (live.map rowOf)) kept
      (devPath dev)).Shows nodeView (fun _ _ => True) (Node.detachOrphan S live kept' dev) := by
  unfold detachOrphan Node.detachOrphan
  rw [tracks_loop h, ours_eq]
  split_ifs
  · exact Prog.shows_ret trivial
  · exact (detachLoop_shows dev).bind fun _ _ _ => Prog.shows_ret trivial

theorem list_shows : list.run.Shows nodeView
    (Prog.Alike fun rows live => rows = live.map rowOf) Node.listLoops.run := by
  refine (Prog.shows_perform (V := nodeView) .losetupList).bind ?_
  rintro (e | rows) (e' | live) h
  · exact Prog.shows_ret trivial
  · exact h.elim
  · exact h.elim
  · exact Prog.shows_ret h

/-- The reconciler asks the tables of the node for what the node's reconciler asks them. -/
theorem reconcile_shows (S : Site) : (reconcile true S.root).run.Shows nodeView
    (Prog.Alike fun _ _ => True) (Node.reconcile S).run := by
  unfold reconcile Node.reconcile passes
  simp only [always_bind]
  apply Prog.Shows.run_bind list_shows
  rintro _ live rfl
  apply Prog.Shows.run_bind (Prog.shows_attempt (Prog.shows_perform (V := nodeView) .cryptList))
  rintro _ mappings rfl
  apply Prog.Shows.run_bind (Prog.shows_always (Prog.shows_perform (V := nodeView) .stateAll))
  intro all all' hall
  apply Prog.Shows.run_bind (Prog.shows_always (Prog.shows_each hall fun _ _ => dropIfStale_shows))
  intro _ _ _
  apply Prog.Shows.run_bind (Prog.shows_always (Prog.shows_perform (V := nodeView) .stateAll))
  intro kept kept' hkept
  apply Prog.Shows.run_bind
  · refine Prog.shows_always (Prog.shows_each (T := fun x y => x = mappingOf y) ?_ ?_)
    · rw [List.forall₂_map_left_iff]
      exact List.forall₂_same.mpr fun _ _ => rfl
    · rintro _ m rfl
      exact closeOrphan_shows hkept m
  intro _ _ _
  apply Prog.Shows.run_bind
  · refine Prog.shows_always (Prog.shows_perform (V := nodeView) (.rangeLive ?_))
    intro k
    rw [StrMap.mem_keys_fill]
    simp [rowOf]
  rintro _ devs rfl
  refine Prog.shows_always (Prog.shows_each (T := fun x y => x = devPath y) ?_ ?_)
  · rw [List.forall₂_map_left_iff]
    exact List.forall₂_same.mpr fun _ _ => rfl
  · rintro _ dev rfl
    exact detachOrphan_shows hkept dev

end Shows
end Fileblock.Loop
