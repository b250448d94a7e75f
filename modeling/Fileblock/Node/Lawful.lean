import Fileblock.Node.Effect

/-! What an operation may ask of the kernel, and that the tables stay tidy as long as
every operation keeps to it. -/
namespace Fileblock.Node
open Go Store

variable {S : Site} {ι : Type} {V : Volumes S ι} {w : World}

/-- The commands that could break the tables do not: there is no second loop on an
image, no foreign device at a staging path, no foreign mapping. -/
def Lawful (V : Volumes S ι) (w : World) : Cmd → Prop
  | .mount device path _ => ∃ v, S.resolve path ∈ V.places v ∧ V.Owns w v device
  | .bind _ target => V.Outside target
  | .losetupAttach file _ =>
    ∃ v, file = V.image v ∧ ((w.images file).present = true → ∀ l ∈ w.loops, l.file ≠ file)
  | .luks dev name _ => ∃ v, name = V.mapper v ∧ V.Owns w v (.loop dev)
  | _ => True

theorem World.live_of_hasFS {src : Source} (h : w.hasFS src = true) : w.Live src := by
  cases src with
  | loop dev =>
    unfold World.hasFS at h
    cases hl : w.loop? dev with
    | none => simp [hl] at h
    | some l =>
      obtain ⟨hm, hd⟩ := World.loop?_some hl
      simp only [hl, Bool.and_eq_true, Bool.not_eq_true'] at h
      exact ⟨⟨l, hm, hd⟩, h.1.1⟩
  | mapper name =>
    unfold World.hasFS at h
    cases hf : w.dm.find? (·.1 = name) with
    | none => simp [hf] at h
    | some p =>
      have hp : p.1 = name := by simpa using List.find?_some hf
      exact World.isOpen_iff.mpr ⟨p.2, hp ▸ List.mem_of_find?_eq_some hf⟩
  | dir path => simp [World.hasFS] at h

theorem World.bound_target (source target : Str) : (w.bound source target).target = target := by
  unfold World.bound
  cases w.top source <;> rfl

theorem World.bound_source (source target : Str) :
    (w.bound source target).source = .dir source ∨
      ∃ m ∈ w.mounts, m.target = source ∧ (w.bound source target).source = m.source := by
  unfold World.bound
  cases ht : w.top source with
  | none => exact Or.inl rfl
  | some m =>
    exact Or.inr ⟨m, List.mem_of_find?_eq_some ht, by simpa using List.find?_some ht, rfl⟩

theorem World.remountReadOnly_rows (path : Str) :
    (w.remountReadOnly path).mounts.map (fun m => (m.target, m.source)) =
      w.mounts.map fun m => (m.target, m.source) := by
  refine List.ext_getElem (by simp [World.remountReadOnly]) fun i hi hi' => ?_
  simp only [World.remountReadOnly, List.getElem_map, List.getElem_modify]
  split_ifs <;> rfl

theorem World.mem_of_rows {w' : World} {m' : Mount} (hm : m' ∈ w'.mounts)
    (h : w'.mounts.map (fun m => (m.target, m.source)) =
      w.mounts.map fun m => (m.target, m.source)) :
    ∃ m ∈ w.mounts, m'.source = m.source ∧ m'.target = m.target := by
  have hmem : (m'.target, m'.source) ∈ w.mounts.map fun m => (m.target, m.source) :=
    h ▸ List.mem_map_of_mem hm
  obtain ⟨m, hm, he⟩ := List.mem_map.mp hmem
  exact ⟨m, hm, (Prod.mk.inj he).2.symm, (Prod.mk.inj he).1.symm⟩

theorem World.busy_mono {dev : ℕ} (h : w.busy dev = true) {w' : World}
    (hm : ∀ m ∈ w.mounts, ∃ m' ∈ w'.mounts, m'.source = m.source) (hd : ∀ p ∈ w.dm, p ∈ w'.dm) :
    w'.busy dev = true := by
  refine World.busy_iff.mpr ((World.busy_iff.mp h).imp ?_ ?_)
  · intro h
    obtain ⟨m, hmem, hs⟩ := World.mounted_iff.mp h
    obtain ⟨m', hmem', hs'⟩ := hm m hmem
    exact World.mounted_iff.mpr ⟨m', hmem', hs'.trans hs⟩
  · intro h
    obtain ⟨x, hx⟩ := World.held_iff.mp h
    exact World.held_iff.mpr ⟨x, hd _ hx⟩

namespace Tidy

theorem congr (h : Tidy V w) {w' : World} (hs : w.SameTables w') : Tidy V w' := by
  refine ⟨h.toCoherent.congr hs.loops hs.dm hs.mounts hs.dirs hs.present, ?_⟩
  unfold World.busy World.mounted World.held
  rw [hs.loops, hs.dm, hs.mounts]
  exact h.cleared

theorem unmount (h : Tidy V w) (path : Str) : Tidy V (w.unmount path) :=
  Coherent.reap (h.setMounts fun m' hm' => ⟨m', List.mem_of_mem_eraseP hm', rfl, rfl⟩)

theorem move (h : Tidy V w) {c : Cmd} (hc : Lawful V w c) {w' : World}
    (hm : Move S w c w') : Tidy V w' := by
  cases hm with
  | none hs => exact h.congr hs
  | mkdir path =>
    exact ⟨h.setDirs fun m hm => List.mem_cons_of_mem _ (h.paths m hm), h.cleared⟩
  | rmdir path hn =>
    refine ⟨h.setDirs fun m hm => List.mem_filter.mpr ⟨h.paths m hm, ?_⟩, h.cleared⟩
    have hne : m.target ≠ S.resolve path := by
      intro ht
      have := World.mountedAt_iff.mpr ⟨m, hm, ht⟩
      rw [hn] at this
      exact Bool.false_ne_true this
    simpa using hne
  | mount device path options hp hfs =>
    obtain ⟨v, hv, ho⟩ := hc
    refine ⟨h.toCoherent.addMount (World.live_of_hasFS hfs) hp ?_, ?_⟩
    · intro u hu
      rw [V.places_apart hu hv]
      exact ho
    · exact fun l hl ha => World.busy_mono (h.cleared l hl ha)
        (fun m hm => ⟨m, List.mem_cons_of_mem _ hm, rfl⟩) fun _ hp => hp
  | bind source target hs ht =>
    refine ⟨h.toCoherent.addMount ?_ ?_ ?_, ?_⟩
    · rcases World.bound_source (w := w) (S.resolve source) (S.resolve target) with
        hb | ⟨m, hm, -, hb⟩
      · rw [hb]
        trivial
      · rw [hb]
        exact h.live m hm
    · rw [World.bound_target]
      exact ht
    · intro u hu
      rw [World.bound_target] at hu
      exact absurd hu (hc u)
    · exact fun l hl ha => World.busy_mono (h.cleared l hl ha)
        (fun m hm => ⟨m, List.mem_cons_of_mem _ hm, rfl⟩) fun _ hp => hp
  | readOnly path =>
    have hr := World.remountReadOnly_rows (w := w) (S.resolve path)
    refine ⟨h.setMounts fun m' hm' => World.mem_of_rows hm' hr, ?_⟩
    intro l hl ha
    refine World.busy_mono (h.cleared l hl ha) (fun m hm => ?_) fun _ hp => hp
    obtain ⟨m', hm', hs, -⟩ := World.mem_of_rows hm hr.symm
    exact ⟨m', hm', hs.symm⟩
  | umount path hn => exact h.unmount _
  | attach file sectorSize pick hp =>
    obtain ⟨v, rfl, hf⟩ := hc
    refine ⟨h.toCoherent.attach (w.freeDev_free pick) (hf hp), ?_⟩
    intro l hl ha
    rcases List.mem_append.mp hl with hl | hl
    · exact h.cleared l hl ha
    · rw [List.mem_singleton.mp hl] at ha
      exact absurd ha (by simp)
  | @detach l hl =>
    refine Coherent.reap (h.mapLoops (fun l' => if l'.dev = l.dev then { l' with autoclear := true }
      else l') ?_ ?_ rfl rfl rfl rfl ?_)
    · intro l'
      split_ifs <;> rfl
    · intro l'
      split_ifs <;> rfl
    · intro l' hl' hs
      exact h.unlinked l' hl' (by split_ifs at hs <;> exact hs)
  | @«open» l hl name key hb hn =>
    obtain ⟨v, rfl, ho⟩ := hc
    refine ⟨h.toCoherent.openMapping hn hb ho, ?_⟩
    exact fun l' hl' ha => World.busy_mono (h.cleared l' hl' ha) (fun m hm => ⟨m, hm, rfl⟩)
      fun _ hp => List.mem_cons_of_mem _ hp
  | close name hc hn => exact Coherent.reap (h.toCoherent.closeMapping hn)

theorem unlink (h : Tidy V w) (file : Str) (silly : Option Silly) : Tidy V (w.unlink file silly) := by
  have hd : ∀ l : Loop, (l.unlink file silly).dev = l.dev := by
    intro l
    unfold Loop.unlink
    split_ifs <;> rfl
  have hf : ∀ l : Loop, (l.unlink file silly).file = l.file := by
    intro l
    unfold Loop.unlink
    split_ifs <;> rfl
  refine ⟨h.mapLoops (·.unlink file silly) hd hf rfl rfl rfl rfl ?_, ?_⟩
  · intro l hl hs
    unfold World.unlink
    dsimp only
    split_ifs with he
    · rfl
    · unfold Loop.unlink at hs
      rw [if_neg he] at hs
      exact h.unlinked l hl hs
  · intro l' hl' ha
    obtain ⟨l, hl, rfl⟩ := List.mem_map.mp hl'
    rw [hd]
    refine h.cleared l hl ?_
    unfold Loop.unlink at ha
    split_ifs at ha <;> exact ha

theorem disturb (h : Tidy V w) (o : Choice) : Tidy V (w.disturb o) := by
  have h0 : Tidy V { w with failed := o.marks ++ w.failed, shutdown := o.breaks ++ w.shutdown } :=
    h.congr ⟨rfl, rfl, rfl, rfl, fun _ => rfl⟩
  unfold World.disturb
  generalize o.unlinks = us
  generalize { w with failed := o.marks ++ w.failed, shutdown := o.breaks ++ w.shutdown } = w0 at h0
  induction us generalizing w0 with
  | nil => exact h0
  | cons u us ih => exact ih _ (h0.unlink u.1 u.2)

theorem restart (h : Tidy V w) : Tidy V w.restart := by
  refine ⟨h.mapLoops (fun l => { l with fresh := false }) (fun _ => rfl) (fun _ => rfl)
    rfl rfl rfl rfl (fun l hl hs => h.unlinked l hl hs), ?_⟩
  intro l' hl' ha
  obtain ⟨l, hl, rfl⟩ := List.mem_map.mp hl'
  exact h.cleared l hl ha

end Tidy
end Fileblock.Node
