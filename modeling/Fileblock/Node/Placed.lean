import Fileblock.Node.Frame
import Fileblock.Node.Tools

/-! What an operation gets to know about its volume and can rely on, because the
others cannot change it. -/
namespace Fileblock.Node
open Go Store Interaction

variable {S : Site} {ι : Type} {V : Volumes S ι} {v : ι} {w w' : World} {loops : List ℕ}
  {dev : ℕ}

/-- A fact about the volume that the others cannot change. -/
def Steady (V : Volumes S ι) (v : ι) (P : World → Prop) : Prop :=
  ∀ w w', Tidy V w → Tidy V w' → Frame V v w w' → P w → P w'

/-- `loops` are the loops on the image, as long as that has not been deleted. -/
structure Listed (V : Volumes S ι) (v : ι) (loops : List ℕ) (w : World) : Prop where
  known : (w.images (V.image v)).present = true → ∀ l ∈ w.loopsOf (V.image v), l.dev ∈ loops
  mine : ∀ n ∈ loops, V.Owns w v (.loop n)
  nodup : loops.Nodup

/-- A loop on the image that only a detach removes. -/
def Attached (V : Volumes S ι) (v : ι) (dev : ℕ) (w : World) : Prop :=
  ∃ l ∈ w.loopsOf (V.image v), l.dev = dev ∧ l.autoclear = false

theorem Attached.owns (h : Attached V v dev w) : V.Owns w v (.loop dev) := by
  obtain ⟨l, hl, hd, -⟩ := h
  exact World.owns_loop.mpr ⟨l, hl, hd⟩

theorem steady_true (V : Volumes S ι) (v : ι) : Steady V v fun _ => True :=
  fun _ _ _ _ _ _ => trivial

theorem steady_mountedAt {p : Str} (hp : p ∈ V.places v) :
    Steady V v fun w => w.mountedAt p = true := by
  intro w w' _ _ hf hm
  rwa [hf.mountedAt hp]

theorem steady_listed (V : Volumes S ι) (v : ι) (loops : List ℕ) : Steady V v (Listed V v loops) := by
  intro w w' _ _ hf h
  refine ⟨fun hp => ?_, fun n hn => hf.owns.mpr (h.mine n hn), h.nodup⟩
  rw [hf.loops]
  exact h.known (hf.present hp)

theorem steady_attached (V : Volumes S ι) (v : ι) (dev : ℕ) : Steady V v (Attached V v dev) := by
  intro w w' _ _ hf h
  unfold Attached
  rwa [hf.loops]

theorem Steady.and {P P' : World → Prop} (h : Steady V v P) (h' : Steady V v P') :
    Steady V v fun w => P w ∧ P' w :=
  fun w w' ht ht' hf hp => ⟨h w w' ht ht' hf hp.1, h' w w' ht ht' hf hp.2⟩

theorem steady_idle (V : Volumes S ι) (v : ι) (loops rest : List ℕ) :
    Steady V v fun w => Listed V v loops w ∧ ∀ n ∈ loops, n ∈ rest ∨ w.busy n = false := by
  rintro w w' ht ht' hf ⟨hl, hb⟩
  refine ⟨steady_listed V v loops w w' ht ht' hf hl, fun n hn => ?_⟩
  exact (hb n hn).imp_right fun h => hf.busy ht' (hl.mine n hn) h

theorem mem_findLoops {found : Attachment → Bool} {n : ℕ} :
    n ∈ ((w.attachments S).filter found).map Attachment.device ↔
      ∃ l ∈ w.loops, l.dev = n ∧ found ⟨l.dev, S.reported l.file l.fresh l.silly⟩ = true := by
  simp only [World.attachments, List.mem_map, List.mem_filter]
  constructor
  · rintro ⟨a, ⟨⟨l, hl, rfl⟩, hf⟩, rfl⟩
    exact ⟨l, hl, rfl, hf⟩
  · rintro ⟨l, hl, rfl, hf⟩
    exact ⟨_, ⟨⟨l, hl, rfl⟩, hf⟩, rfl⟩

theorem Tidy.listed (h : Tidy V w) (v : ι) :
    Listed V v (((w.attachments S).filter fun a => backs a.backFile (V.image v)).map
      Attachment.device) w := by
  have hmem : ∀ l ∈ w.loops, backs (S.reported l.file l.fresh l.silly) (V.image v) = true ↔
      l.file = V.image v ∧ l.silly = none := by
    intro l hl
    obtain ⟨u, hu⟩ := h.owned l hl
    rw [hu, V.backs_reported]
    exact and_congr_left fun _ => ⟨fun he => he ▸ rfl, fun he => V.image_injective he⟩
  refine ⟨?_, ?_, ?_⟩
  · intro hp l' hl'
    obtain ⟨l, hl, hf, rfl⟩ := World.mem_loopsOf.mp hl'
    refine mem_findLoops.mpr ⟨l, hl, rfl, (hmem l hl).mpr ⟨hf, ?_⟩⟩
    by_contra hs
    rw [← hf, h.unlinked l hl hs] at hp
    exact Bool.false_ne_true hp
  · intro n hn
    obtain ⟨l, hl, hd, hf⟩ := mem_findLoops.mp hn
    exact ⟨l, hl, hd, ((hmem l hl).mp hf).1⟩
  · have hd : (w.attachments S).map Attachment.device = w.loops.map Loop.dev := by
      simp [World.attachments, Function.comp_def]
    exact (hd ▸ h.devs).sublist (List.filter_sublist.map _)

theorem Tidy.mem_detach (h : Tidy V w) (hb : w.busy dev = false) {l : Loop} :
    l ∈ (w.detach dev).loops ↔ l ∈ w.loops ∧ l.dev ≠ dev := by
  unfold World.detach
  rw [World.mem_reap]
  simp only [List.mem_map]
  constructor
  · rintro ⟨⟨l', hl', rfl⟩, hc⟩
    split_ifs at hc ⊢ with hd
    · have hbusy := hc rfl
      dsimp only at hbusy
      rw [hd] at hbusy
      exact absurd (hb.symm.trans hbusy) Bool.false_ne_true
    · exact ⟨hl', hd⟩
  · rintro ⟨hl, hd⟩
    exact ⟨⟨l, hl, if_neg hd⟩, fun ha => h.cleared l hl ha⟩

theorem Tidy.mem_loopsOf_detach (h : Tidy V w) (hb : w.busy dev = false) {file : Str} {l : Loop} :
    l ∈ (w.detach dev).loopsOf file ↔ l ∈ w.loopsOf file ∧ l.dev ≠ dev := by
  simp only [World.mem_loopsOf, h.mem_detach hb]
  constructor
  · rintro ⟨l', ⟨hl', hd⟩, hf, rfl⟩
    exact ⟨⟨l', hl', hf, rfl⟩, hd⟩
  · rintro ⟨⟨l', hl', hf, rfl⟩, hd⟩
    exact ⟨l', ⟨hl', hd⟩, hf, rfl⟩

theorem Listed.detach (ht : Tidy V w) (h : Listed V v (dev :: loops) w) (hb : w.busy dev = false) :
    Listed V v loops (w.detach dev) := by
  obtain ⟨hnot, hnodup⟩ := List.nodup_cons.mp h.nodup
  refine ⟨?_, ?_, hnodup⟩
  · intro hp l hl
    obtain ⟨hl, hd⟩ := (ht.mem_loopsOf_detach hb).mp hl
    exact (List.mem_cons.mp (h.known hp l hl)).resolve_left hd
  · intro n hn
    obtain ⟨l, hl, hd⟩ := World.owns_loop.mp (h.mine n (List.mem_cons_of_mem _ hn))
    refine World.owns_loop.mpr ⟨l, (ht.mem_loopsOf_detach hb).mpr ⟨hl, ?_⟩, hd⟩
    rintro rfl
    exact hnot (hd ▸ hn)

theorem Attached.congr (h : Attached V v dev w) (hl : w'.loops = w.loops) : Attached V v dev w' := by
  unfold Attached World.loopsOf at *
  rwa [hl]

theorem Attached.reap (h : Attached V v dev w) : Attached V v dev w.reap := by
  obtain ⟨l', hl', hd, ha⟩ := h
  obtain ⟨l, hl, hf, rfl⟩ := World.mem_loopsOf.mp hl'
  refine ⟨l.core, World.mem_loopsOf.mpr ⟨l, World.mem_reap.mpr ⟨hl, fun h => ?_⟩, hf, rfl⟩, hd, ha⟩
  exact absurd (ha.symm.trans h) Bool.false_ne_true

theorem Attached.step (h : Attached V v dev w) {c : Cmd} {o : Choice}
    (hc : ∀ n, c ≠ .losetupDetach n) : Attached V v dev (step S o c w).2 := by
  generalize hw : (Node.step S o c w).2 = w'
  have hm : Move S w c w' := hw ▸ step_move S o c w
  cases hm with
  | none hs => exact h.congr hs.loops
  | umount path _ =>
    unfold World.unmount
    exact Attached.reap (h.congr rfl)
  | attach file sectorSize pick _ =>
    obtain ⟨l', hl', hd, ha⟩ := h
    obtain ⟨l, hl, hf, rfl⟩ := World.mem_loopsOf.mp hl'
    exact ⟨l.core, World.mem_loopsOf.mpr ⟨l, List.mem_append_left _ hl, hf, rfl⟩, hd, ha⟩
  | detach _ => exact absurd rfl (hc _)
  | close name _ _ => exact Attached.reap (h.congr rfl)
  | _ => exact h.congr rfl

end Fileblock.Node
