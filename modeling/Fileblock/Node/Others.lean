import Fileblock.Node.Published

/-! What the commands of one operation leave alone of a volume that another operation
has locked. -/
namespace Fileblock.Node
open Go Store Interaction

variable {S : Site} {ι : Type} {V : Volumes S ι} {u v : ι} {w w' : World} {c : Cmd} {o : Choice}

/-- The command names nothing of the volume: neither a device of its own nor its
staging path, image or entry. An unmount elsewhere frees no loop on its image. -/
def Spares (V : Volumes S ι) (v : ι) (w : World) : Cmd → Prop
  | .mount device path _ => S.resolve path ∉ V.places v ∧ ¬ V.Owns w v device
  | .bind _ path | .remountReadOnly path => S.resolve path ∉ V.places v
  | .umount path => S.resolve path ∉ V.places v ∧
      ∀ l ∈ w.loops, l.file = V.image v → l ∈ (w.unmount (S.resolve path)).loops
  | .losetupAttach file _ => file ≠ V.image v
  | .losetupDetach dev => ¬ V.Owns w v (.loop dev)
  | .luks dev name _ => name ≠ V.mapper v ∧ ¬ V.Owns w v (.loop dev)
  | .cryptClose name => name ≠ V.mapper v
  | .statePut m => m.volumeID ≠ V.id v
  | .stateDelete id => id ≠ V.id v
  | _ => True

theorem World.luks_images {file : Str} {pick dev : ℕ} {name : String} {c : Crypt.Cmd}
    (h : ∀ l ∈ w.loops, l.dev = dev → l.file ≠ file) :
    (w.luks pick dev name c).2.images file = w.images file := by
  unfold World.luks
  cases hl : w.loop? dev with
  | none => rfl
  | some l =>
    obtain ⟨hmem, hd⟩ := World.loop?_some hl
    have hset : ∀ d, (w.setDevice l.file d).images file = w.images file := by
      intro d
      unfold World.setDevice
      dsimp only
      rw [if_neg (h l hmem hd).symm]
    dsimp only
    cases c with
    | close =>
      dsimp only [World.closeMapping]
      split_ifs <;> rfl
    | «open» key =>
      dsimp only
      split_ifs
      · rfl
      · split <;> rfl
    | _ => exact hset _

/-- Only `cryptsetup`, on a loop of the image, changes what an image holds. -/
theorem step_images {file : Str} (h : ∀ dev name c', c = .luks dev name c' →
    ∀ l ∈ w.loops, l.dev = dev → l.file ≠ file) :
    (step S o c w).2.images file = w.images file := by
  have hok : ∀ (b : Bool) (status : Int) (w' : World), w'.images = w.images →
      (okIf b status w w').2.images file = w.images file := by
    intro b status w' hi
    unfold okIf
    split_ifs
    · rw [hi]
    · rfl
  unfold step
  cases o.fault with
  | some e =>
    cases c with
    | keysCache id k replace =>
      dsimp only [execFail, execOk]
      split_ifs <;> rfl
    | _ => rfl
  | none =>
    cases c with
    | luks dev name c' => exact World.luks_images (h dev name c' rfl)
    | cryptClose name =>
      dsimp only [execOk, World.closeMapping]
      split_ifs <;> rfl
    | losetupDetach dev =>
      dsimp only [execOk]
      cases w.loop? dev <;> rfl
    | losetupAttach file sectorSize =>
      dsimp only [execOk]
      split_ifs <;> rfl
    | imageLuks file c' =>
      dsimp only [execOk]
      split_ifs <;> rfl
    | statImage file =>
      dsimp only [execOk]
      split_ifs <;> rfl
    | readSuperblock file =>
      dsimp only [execOk]
      split_ifs <;> rfl
    | keysCache id k replace =>
      dsimp only [execOk]
      split_ifs <;> rfl
    | _ => first | rfl | exact hok _ _ _ rfl

theorem Move.present (h : Move S w c w') (f : Str) : (w'.images f).present = (w.images f).present := by
  cases h with
  | none hs => exact hs.present f
  | _ => rfl

theorem World.loopsOf_reap {file : Str}
    (h : ∀ l ∈ w.loops, l.file = file → l.autoclear = true → w.busy l.dev = true) :
    w.reap.loopsOf file = w.loopsOf file := by
  unfold World.loopsOf World.reap
  dsimp only
  rw [List.filter_filter]
  congr 1
  refine List.filter_congr fun l hl => ?_
  rw [Bool.and_eq_left_iff_imp, decide_eq_true_eq]
  intro hf
  cases ha : l.autoclear with
  | false => rfl
  | true => simp [h l hl hf ha]

theorem Mapping.get_put_ne {l : List Mapping} {m : Mapping} {id : VolumeID}
    (h : m.volumeID ≠ id) : get (put l m) id = get l id := by
  unfold get put
  rw [List.find?_cons_of_neg (by simpa using h), List.find?_filter]
  refine List.find?_congr fun e _ => ?_
  by_cases he : e.volumeID = id
  · simp [he, h.symm]
  · simp [he]

theorem Mapping.get_delete_ne {l : List Mapping} {id id' : VolumeID} (h : id' ≠ id) :
    get (delete l id') id = get l id := by
  unfold get delete
  rw [List.find?_filter]
  refine List.find?_congr fun e _ => ?_
  by_cases he : e.volumeID = id
  · simp [he, h.symm]
  · simp [he]

theorem step_entry {id : VolumeID} (hput : ∀ m, c = .statePut m → m.volumeID ≠ id)
    (hdel : c ≠ .stateDelete id) :
    Mapping.get (step S o c w).2.state id = Mapping.get w.state id := by
  have hs : (step S o c w).2.state = (w.memory.after o c).state :=
    congrArg Memory.state (step_memory S o c w)
  rw [hs]
  cases c with
  | statePut m => exact Mapping.get_put_ne (hput m rfl)
  | stateDelete id' => exact Mapping.get_delete_ne fun he => hdel (he ▸ rfl)
  | _ => rfl

namespace Spares

theorem touches (h : Spares V v w c) {p : Str} (hp : p ∈ V.places v) : c.touches S p = false := by
  cases c with
  | mount device path options => exact decide_eq_false fun he => h.1 (he ▸ hp)
  | bind source path => exact decide_eq_false fun he => h (he ▸ hp)
  | remountReadOnly path => exact decide_eq_false fun he => h (he ▸ hp)
  | umount path => exact decide_eq_false fun he => h.1 (he ▸ hp)
  | _ => rfl

theorem loopsOf (h : Spares V v w c) (ht : Tidy V w) (hm : Move S w c w') :
    w'.loopsOf (V.image v) = w.loopsOf (V.image v) := by
  cases hm with
  | none hs => rw [World.loopsOf, hs.loops, World.loopsOf]
  | umount path hp =>
    unfold World.unmount
    refine World.loopsOf_reap fun l hl hf ha => ?_
    exact (World.mem_reap.mp (h.2 l hl hf)).2 ha
  | attach file sectorSize pick hp =>
    have hne : file ≠ V.image v := h
    simp [World.loopsOf, World.attach, List.filter_append, hne]
  | @detach l hl =>
    have hne : l.file ≠ V.image v := fun hf => h ⟨l, hl, rfl, hf⟩
    unfold World.detach
    rw [World.loopsOf_reap]
    · -- only the loop that is detached changes, and it is on another file
      unfold World.loopsOf
      dsimp only
      rw [List.filter_map]
      congr 1
      refine (List.map_congr_left fun l' hl' => ?_).trans (List.map_id _) |>.trans ?_
      · obtain ⟨hl', hf⟩ := List.mem_filter.mp hl'
        have hd : l'.dev ≠ l.dev := by
          intro hd
          have he := ht.loop_unique hl' hl hd
          subst he
          simp at hf
          exact hne hf
        exact if_neg hd
      · refine List.filter_congr fun l' _ => ?_
        dsimp only [Function.comp]
        split_ifs <;> rfl
    · intro l' hl' hf ha
      obtain ⟨l₀, hl₀, rfl⟩ := List.mem_map.mp hl'
      have hd : l₀.dev ≠ l.dev := by
        intro hd
        have he := ht.loop_unique hl₀ hl hd
        subst he
        rw [if_pos rfl] at hf
        exact hne hf
      rw [if_neg hd] at ha ⊢
      exact ht.cleared l₀ hl₀ ha
  | @«open» l hl name key hb hn => rfl
  | close name hc hn =>
    have hne : name ≠ V.mapper v := by
      rcases hc with rfl | ⟨dev, rfl⟩
      · exact h
      · exact h.1
    refine World.loopsOf_reap fun l hl hf ha => World.busy_iff.mpr ?_
    -- a mapping over a loop of the volume goes by the volume's name
    refine (World.busy_iff.mp (ht.cleared l hl ha)).imp_right fun hh => ?_
    obtain ⟨x, hx⟩ := World.held_iff.mp hh
    refine World.held_iff.mpr ⟨x, List.mem_filter.mpr ⟨hx, ?_⟩⟩
    rw [ht.mapper_over hl hf hx]
    simpa using hne.symm
  | _ => rfl

theorem mapsOf (h : Spares V v w c) (hm : Move S w c w') :
    w'.mapsOf (V.mapper v) = w.mapsOf (V.mapper v) := by
  cases hm with
  | none hs => rw [World.mapsOf, hs.dm, World.mapsOf]
  | @«open» l hl name key hb hn =>
    have hne : name ≠ V.mapper v := h.1
    simp [World.mapsOf, hne]
  | close name hc hn =>
    have hne : name ≠ V.mapper v := by
      rcases hc with rfl | ⟨dev, rfl⟩
      · exact h
      · exact h.1
    unfold World.mapsOf World.reap
    dsimp only
    rw [List.filter_filter]
    refine List.filter_congr fun p _ => ?_
    by_cases hp : p.1 = V.mapper v
    · simp [hp, hne.symm]
    · simp [hp]
  | _ => rfl

theorem idle (h : Spares V v w c) (hm : Move S w c w') {src : Source} (ho : V.Owns w v src)
    (hs : w'.mounted src = true) : w.mounted src = true := by
  obtain ⟨m, hmem, hsrc⟩ := World.mounted_iff.mp hs
  refine World.mounted_iff.mpr ?_
  cases hm with
  | none hsame => exact ⟨m, hsame.mounts ▸ hmem, hsrc⟩
  | mount device path options =>
    rcases List.mem_cons.mp hmem with rfl | hmem
    · obtain rfl : device = src := hsrc
      exact absurd ho h.2
    · exact ⟨m, hmem, hsrc⟩
  | bind source target =>
    rcases List.mem_cons.mp hmem with rfl | hmem
    · rcases World.bound_source (w := w) (S.resolve source) (S.resolve target) with hb | ⟨m', hm', -, hb⟩
      · rw [← hsrc, hb] at ho
        exact ho.elim
      · exact ⟨m', hm', hb.symm.trans hsrc⟩
    · exact ⟨m, hmem, hsrc⟩
  | readOnly path =>
    obtain ⟨m', hm', hs', -⟩ := World.mem_of_rows hmem (World.remountReadOnly_rows _)
    exact ⟨m', hm', hs'.symm.trans hsrc⟩
  | umount path => exact ⟨m, List.mem_of_mem_eraseP hmem, hsrc⟩
  | _ => exact ⟨m, hmem, hsrc⟩

/-- A command that names nothing of a volume changes nothing of it. -/
theorem frame (h : Spares V v w c) (ht : Tidy V w) : Frame V v w (step S o c w).2 := by
  have hm := step_move S o c w
  refine ⟨h.loopsOf ht hm, h.mapsOf hm, fun p hp => hm.stack (h.touches hp),
    fun src ho hs => h.idle hm ho hs, ?_, fun hp => hm.present _ ▸ hp, congrArg ImageFile.device (step_images ?_)⟩
  · refine step_entry ?_ ?_
    · rintro m rfl
      exact h
    · rintro rfl
      exact h rfl
  · rintro dev name c' rfl l hl hd hf
    exact h.2 ⟨l, hl, hd, hf⟩

end Spares

/-- A careful operation on one volume spares every other. -/
theorem Tended.spares (h : Tended V u True w c) (ht : Tidy V w) (hne : u ≠ v) : Spares V v w c := by
  have hpath : ∀ {path}, path ∈ V.paths u → S.resolve path ∉ V.places v :=
    fun hu hv => hne (V.places_apart (V.mem_places hu) hv)
  have hname : V.mapper u ≠ V.mapper v := fun he => hne (V.mapper_injective he)
  have hid : V.id u ≠ V.id v := fun he => hne (V.id_injective he)
  have howner : ∀ {src}, V.Owns w u src → ¬ V.Owns w v src :=
    fun hu hv => hne (ht.owner_unique hu hv)
  cases c with
  | mount device path options =>
    obtain ⟨hp, ho⟩ := h
    exact ⟨hpath hp, howner ho⟩
  | umount path =>
    have hp : path ∈ V.paths u := h
    refine ⟨hpath hp, fun l hl hf => World.mem_reap.mpr ⟨hl, fun ha => ?_⟩⟩
    refine World.busy_iff.mpr ((World.busy_iff.mp (ht.cleared l hl ha)).imp_left fun hm => ?_)
    -- the mount that goes is of a device of `u`
    obtain ⟨m, hmem, hs⟩ := World.mounted_iff.mp hm
    have htarget : m.target ≠ S.resolve path := by
      intro htarget
      have hou := ht.staging m hmem u (htarget ▸ V.mem_places hp)
      rw [hs] at hou
      exact howner hou ⟨l, hl, rfl, hf⟩
    exact World.mounted_iff.mpr ⟨m, (List.mem_eraseP_of_neg (by simpa using htarget)).mpr hmem, hs⟩
  | losetupAttach file sectorSize =>
    obtain ⟨rfl, -⟩ := h
    exact fun he => hne (V.image_injective he)
  | losetupDetach dev =>
    rintro ⟨l, hl, hd, hf⟩
    exact hne (V.image_injective ((h trivial l hl hd).symm.trans hf))
  | luks dev name c' =>
    obtain ⟨rfl, ho⟩ := h
    exact ⟨hname, howner ho⟩
  | cryptClose name =>
    obtain rfl : name = V.mapper u := h
    exact hname
  | statePut m => exact fun he => hid ((Mapping.Records.volumeID h).symm.trans he)
  | stateDelete id =>
    obtain rfl : id = V.id u := h
    exact hid
  | bind source target => exact h.elim
  | remountReadOnly path => exact h.elim
  | _ => trivial

theorem Aside.spares (h : Aside V u c) (hfree : ∀ path, c = .umount path →
    ∀ l ∈ w.loops, l.file = V.image v → l ∈ (w.unmount (S.resolve path)).loops) :
    Spares V v w c := by
  cases c with
  | bind source target => exact h.2 v
  | remountReadOnly path => exact h v
  | umount path => exact ⟨h v, hfree path rfl⟩
  | mount device path options => exact absurd h Bool.false_ne_true
  | losetupAttach file sectorSize => exact absurd h Bool.false_ne_true
  | losetupDetach dev => exact absurd h Bool.false_ne_true
  | luks dev name c' => exact absurd h Bool.false_ne_true
  | cryptClose name => exact absurd h Bool.false_ne_true
  | statePut m => exact absurd h Bool.false_ne_true
  | stateDelete id => exact absurd h Bool.false_ne_true
  | _ => trivial

end Fileblock.Node
