import Fileblock.Crypt.History

/-! Key rotation over whole histories of `prepare` calls: it never locks a volume
out, every interrupted call leaves the next one the same work to finish, and the
keys that open the volume afterwards are known exactly. -/
namespace Fileblock.Crypt
open Interaction Prog

/-- What holds of every device that began blank. Slots are made only from current
keys, so none is empty, and no passphrase fills two of them. -/
def Device.Sound (d : Device) : Prop :=
  d.Blank ∨ ∃ h, d.header = some h ∧ h.slots.Nodup ∧ [] ∉ h.slots ∧
    (h.label = labelUnformatted ∨ (h.label = labelFormatted ∧ d.fs = true))

theorem Device.Sound.header {d : Device} (hd : d.Sound) {h : Header} (hh : d.header = some h) :
    h.slots.Nodup ∧ [] ∉ h.slots ∧
      (h.label = labelUnformatted ∨ (h.label = labelFormatted ∧ d.fs = true)) := by
  rcases hd with hb | ⟨h', hh', hs⟩
  · exact absurd (hh.symm.trans hb.1) (by simp)
  · cases hh.symm.trans hh'
    exact hs

theorem Step.sound {k : Keys} {f : Format} {d d' : Device} (hs : Step k f d d')
    (hd : d.Sound) : d'.Sound := by
  cases hs with
  | stay | «open» | close => exact hd
  | format hb =>
    rw [d.formatted_blank hb.1]
    exact Or.inr ⟨_, rfl, by simp, by simpa using k.current_ne.symm, Or.inl rfl⟩
  | addKey hh hn hne hp hc =>
    obtain ⟨hnd, hnil, hl⟩ := hd.header hh
    refine Or.inr ⟨_, rfl, List.nodup_cons.mpr ⟨hc, hnd⟩, ?_, hl⟩
    simpa [hnil] using k.current_ne.symm
  | removeKey hh =>
    obtain ⟨hnd, hnil, hl⟩ := hd.header hh
    exact Or.inr ⟨_, rfl, hnd.erase _, fun hm => hnil (List.mem_of_mem_erase hm), hl⟩
  | mkfs hh hl =>
    obtain ⟨hnd, hnil, -⟩ := hd.header hh
    exact Or.inr ⟨_, hh, hnd, hnil, Or.inl hl⟩
  | relabel hh hl hc hfs =>
    obtain ⟨hnd, hnil, -⟩ := hd.header hh
    exact Or.inr ⟨_, rfl, hnd, hnil, Or.inr ⟨rfl, hfs⟩⟩

theorem Step.ready {k : Keys} {f : Format} {d d' : Device} (hs : Step k f d d')
    (hd : d.Ready k) : d'.Ready k := by
  cases hs with
  | stay | «open» | close | mkfs => exact hd
  | format hb =>
    rw [d.formatted_blank hb.1]
    exact Or.inr (Or.inl ⟨_, rfl, List.mem_cons_self⟩)
  | addKey => exact Or.inr (Or.inl ⟨_, rfl, List.mem_cons_self⟩)
  | removeKey hh hn hne hp hc =>
    exact Or.inr (Or.inl ⟨_, rfl, (List.mem_erase_of_ne (Ne.symm hne)).mpr hc⟩)
  | relabel hh =>
    rcases hd with hb | ⟨h', hh', hk⟩ | ⟨hn, h', hh', hk⟩
    · exact absurd (hh.symm.trans hb.1) (by simp)
    · cases hh.symm.trans hh'
      exact Or.inr (Or.inl ⟨_, rfl, hk⟩)
    · cases hh.symm.trans hh'
      exact Or.inr (Or.inr ⟨hn, _, rfl, hk⟩)

theorem rotatedSlots_addKey {k : Keys} {slots : List Key} (hn : k.previous ≠ [])
    (hne : k.previous ≠ k.current) (hp : k.previous ∈ slots) (hc : k.current ∉ slots) :
    rotatedSlots k (k.current :: slots) = rotatedSlots k slots := by
  simp [rotatedSlots, hn, hne, hp, hc]

theorem rotatedSlots_removeKey {k : Keys} {slots : List Key} (hnd : slots.Nodup)
    (hn : k.previous ≠ []) (hne : k.previous ≠ k.current) (hp : k.previous ∈ slots)
    (hc : k.current ∈ slots) :
    rotatedSlots k (slots.erase k.previous) = rotatedSlots k slots := by
  simp [rotatedSlots, hn, hne, hp, hc, hnd.not_mem_erase]

/-- No step of a call changes where the call is going. -/
theorem Step.prepared {k : Keys} {f : Format} {d d' : Device} (hs : Step k f d d')
    (hd : d.Sound) : d'.prepared k f = d.prepared k f := by
  cases hs with
  | stay => rfl
  | «open» | close => exact d.prepared_mapped _ k f
  | format hb =>
    have hh : (d.formatted k f).header =
        some ⟨labelUnformatted, [k.current], f, defaultBlockSize⟩ := by
      rw [d.formatted_blank hb.1]
    rw [Device.prepared_of_header hh, Device.prepared_eq hh, d.formatted_blank hb.1]
  | addKey hh hn hne hp hc =>
    rw [Device.prepared_of_header hh, Device.prepared_of_header (h := _) rfl]
    simp only [rotatedSlots_addKey hn hne hp hc]
  | removeKey hh hn hne hp hc =>
    rw [Device.prepared_of_header hh, Device.prepared_of_header (h := _) rfl]
    simp only [rotatedSlots_removeKey (hd.header hh).1 hn hne hp hc]
  | mkfs hh hl =>
    rw [Device.prepared_of_header hh, Device.prepared_of_header (d := { d with fs := true }) hh]
    simp only [hl, if_true]
  | relabel hh hl hc hfs =>
    rw [Device.prepared_of_header hh, Device.prepared_of_header (h := _) rfl]
    simp only [hl, hfs, if_true, labelFormatted_ne, if_false]

theorem mem_rotatedSlots {k : Keys} {slots : List Key} (hnd : slots.Nodup) (hnil : [] ∉ slots)
    (hk : k.current ∈ slots ∨ (k.previous ≠ [] ∧ k.previous ∈ slots)) (key : Key) :
    key ∈ rotatedSlots k slots ↔ key = k.current ∨ (key ∈ slots ∧ key ≠ k.previous) := by
  have hcur := current_mem_rotatedSlots hk
  by_cases hkey : key = k.current
  · simp [hkey, hcur]
  · unfold rotatedSlots
    split_ifs with hp
    · rw [hnd.insert.mem_erase_iff, List.mem_insert_iff]
      simp [hkey, and_comm]
    · simp only [hkey, false_or, iff_self_and]
      rintro hm rfl
      exact hp ⟨fun he => hnil (he ▸ hm), hkey, List.contains_iff_mem.mpr hm⟩

theorem Device.Sound.formatted {d : Device} {k : Keys} (hd : d.Sound) (hr : d.Ready k)
    (f : Format) : ∃ h, (d.formatted k f).header = some h ∧ h.slots.Nodup ∧ [] ∉ h.slots ∧
      (k.current ∈ h.slots ∨ (k.previous ≠ [] ∧ k.previous ∈ h.slots)) ∧
      (h.label = labelUnformatted ∨ (h.label = labelFormatted ∧ (d.formatted k f).fs = true)) ∧
      ∀ key, (key = k.current ∨ key ∈ h.slots ↔ key = k.current ∨ d.Opens key) := by
  by_cases hb : d.Blank
  · refine ⟨_, by rw [d.formatted_blank hb.1], by simp, by simpa using k.current_ne.symm,
      Or.inl (by simp), Or.inl rfl, by simp [Device.Opens, hb.1]⟩
  · rcases hd with hb' | ⟨h, hh, hnd, hnil, hl⟩
    · exact absurd hb' hb
    · have hf := d.formatted_self hh k f
      refine ⟨h, by rw [hf, hh], hnd, hnil, ?_, by rwa [hf], by simp [Device.Opens, hh]⟩
      rcases hr with hb' | ⟨h', hh', hk⟩ | ⟨hn, h', hh', hk⟩
      · exact absurd hb' hb
      · cases hh.symm.trans hh'
        exact Or.inl hk
      · cases hh.symm.trans hh'
        exact Or.inr ⟨hn, hk⟩

theorem Device.Sound.prepared_opens {d : Device} {k : Keys} (hd : d.Sound) (hr : d.Ready k)
    (f : Format) (key : Key) :
    (d.prepared k f).Opens key ↔ key = k.current ∨ (d.Opens key ∧ key ≠ k.previous) := by
  obtain ⟨h, hh, hnd, hnil, hk, -, ho⟩ := hd.formatted hr f
  have hkey := ho key
  have hp : (d.prepared k f).Opens key ↔ key ∈ rotatedSlots k h.slots := by
    simp [Device.prepared_eq hh, Device.Opens]
  rw [hp, mem_rotatedSlots hnd hnil hk]
  by_cases hc : key = k.current
  · simp [hc]
  · simp only [hc, false_or] at hkey ⊢
    rw [hkey]

theorem Device.Sound.prepared_made {d : Device} {k : Keys} (hd : d.Sound) (hr : d.Ready k)
    (f : Format) : (d.prepared k f).mapped = true ∧ (d.prepared k f).fs = true ∧
      ∃ h, (d.prepared k f).header = some h ∧ h.label = labelFormatted := by
  obtain ⟨h, hh, -, -, -, hl, -⟩ := hd.formatted hr f
  rw [Device.prepared_eq hh]
  refine ⟨rfl, ?_, _, rfl, ?_⟩
  · rcases hl with hl | ⟨-, hfs⟩
    · exact if_pos hl
    · dsimp only
      rw [hfs, ite_self]
  · rcases hl with hl | ⟨hl, -⟩
    · exact if_pos hl
    · exact (if_neg (hl ▸ labelFormatted_ne)).trans hl

theorem after_sound {history : List Call} {d : Device} (hb : d.Blank) (hm : d.mapped = false)
    (hg : GenuineCalls history d) : (after history d).Sound :=
  after_keeps (fun _ _ _ _ hs => hs.sound) (fun _ h => h) hm hg (Or.inl hb)

/-- An empty previous key opens nothing, so being ready is what it seems. -/
theorem Device.Sound.ready_iff {d : Device} (hd : d.Sound) (k : Keys) :
    d.Ready k ↔ d.Blank ∨ d.Opens k.current ∨ d.Opens k.previous := by
  have hn : d.Opens k.previous → k.previous ≠ [] := by
    rintro ⟨h, hh, hm⟩ he
    exact (hd.header hh).2.1 (he ▸ hm)
  unfold Device.Ready
  tauto

/-- Interrupted calls with one pair of keys: some key keeps opening the volume,
and the work still to do stays the same. -/
theorem after_ready {k : Keys} {f : Format} {tries : List Call} {d : Device} (hd : d.Sound)
    (hr : d.Ready k) (hm : d.mapped = false) (ht : ∀ c ∈ tries, c.keys = k ∧ c.format = f)
    (hg : GenuineCalls tries d) :
    (after tries d).Sound ∧ (after tries d).Ready k ∧
      (after tries d).prepared k f = d.prepared k f := by
  refine after_keeps (I := fun d' => d'.Sound ∧ d'.Ready k ∧ d'.prepared k f = d.prepared k f)
    ?_ ?_ hm hg ⟨hd, hr, rfl⟩
  · rintro c hc d' d'' hs ⟨hs', hr', hp'⟩
    rw [(ht c hc).1, (ht c hc).2] at hs
    exact ⟨hs.sound hs', hs.ready hr', (hs.prepared hs').trans hp'⟩
  · rintro d' ⟨hs', hr', hp'⟩
    exact ⟨hs', hr', (d'.prepared_mapped false k f).trans hp'⟩

theorem Step.header_of_locked {k : Keys} {f : Format} {d d' : Device} (hs : Step k f d d')
    (hl : d.Locked k) : d'.header = d.header := by
  obtain ⟨hn, hc, hp⟩ := hl
  cases hs with
  | stay | «open» | close | mkfs => rfl
  | format hb => exact absurd hb.1 hn
  | addKey hh _ _ hm | removeKey hh _ _ hm => exact absurd ⟨_, hh, hm⟩ hp
  | relabel hh _ hm => exact absurd ⟨_, hh, hm⟩ hc

/-- A device that calls of `prepare` on a blank one can leave. -/
def Reachable (d : Device) : Prop :=
  ∃ blank history, blank.Blank ∧ blank.mapped = false ∧ GenuineCalls history blank ∧
    d = after history blank

theorem Reachable.sound {d : Device} : Reachable d → d.Sound ∧ d.mapped = false := by
  rintro ⟨blank, history, hb, hm, hg, rfl⟩
  exact ⟨after_sound hb hm hg, after_mapped history hm⟩

/-- Rotation never locks a volume out and converges, whatever history led to the
device and wherever the calls with `k` were interrupted. -/
theorem rotation_converges (d : Device) (hd : Reachable d) (k : Keys) (f : Format) :
    (d.Blank ∨ d.Opens k.current ∨ d.Opens k.previous →
      ∀ tries : List Call, (∀ c ∈ tries, c.keys = k ∧ c.format = f) → GenuineCalls tries d →
      ∀ d', d' = after tries d →
        (d'.Blank ∨ d'.Opens k.current ∨ d'.Opens k.previous) ∧
        ∀ c : Call, c.keys = k → c.format = f → c.Calm →
          (∃ out, c.result d' = some (.ok (mapperPath c.name, out))) ∧
          (c.left d').mapped = true ∧
          (c.left d').Opens k.current ∧
          (k.previous ≠ k.current → ¬ (c.left d').Opens k.previous) ∧
          (∃ h, (c.left d').header = some h ∧ h.label = labelFormatted) ∧
          (c.left d').fs = true ∧
          c.left d' = c.left d) ∧
    (d.header ≠ none → ¬ d.Opens k.current → ¬ d.Opens k.previous →
      ∀ c : Call, c.keys = k →
        (c.Calm → ∃ e, c.result d = some (.error e) ∧ e.is .wrongKey = true) ∧
        (c.Genuine d → (c.left d).header = d.header)) := by
  obtain ⟨hs, hm⟩ := hd.sound
  refine ⟨?_, ?_⟩
  · rintro hr tries ht hg d' rfl
    obtain ⟨hs', hr', hp'⟩ := after_ready hs ((hs.ready_iff k).mpr hr) hm ht hg
    refine ⟨(hs'.ready_iff k).mp hr', ?_⟩
    rintro c rfl rfl hc
    obtain ⟨hres, hleft⟩ := (hc.spec (after_mapped tries hm)).1 hr'
    obtain ⟨-, hstart⟩ := (hc.spec hm).1 ((hs.ready_iff c.keys).mpr hr)
    obtain ⟨hmap, hfs, hlab⟩ := hs'.prepared_made hr' c.format
    have ho := hs'.prepared_opens hr' c.format
    refine ⟨hres, ?_⟩
    rw [hstart, hleft]
    refine ⟨hmap, (ho _).mpr (Or.inl rfl), ?_, hlab, hfs, hp'⟩
    rintro hne hop
    rcases (ho _).mp hop with he | ⟨-, he⟩
    · exact hne he
    · exact he rfl
  · rintro hn hc hp c rfl
    have hl : d.Locked c.keys := ⟨hn, hc, hp⟩
    refine ⟨fun hcalm => ?_, fun hg => ?_⟩
    · refine ⟨_, ((hcalm.spec hm).2 hl).1, ?_⟩
      simp [Err.is]
    · refine (Call.spec (I := fun d' => d'.header = d.header) ?_ hm hg rfl).1
      intro d' d'' hst he
      have hl' : d'.Locked c.keys := by
        unfold Device.Locked Device.Opens at *
        rwa [he]
      exact (hst.header_of_locked hl').trans he

/-- Formatted for `keyA`, then cut off between adding `keyB` and removing `keyA`. -/
def interrupted : List Call :=
  [quiet ⟨keyA, [], by decide⟩ none, quiet ⟨keyB, keyA, by decide⟩ (some 4)]

theorem interrupted_genuine : GenuineCalls interrupted blankDevice :=
  genuineCalls_of_calm (by simp [interrupted, quiet]) _

theorem interrupted_reachable : Reachable (after interrupted blankDevice) :=
  ⟨blankDevice, interrupted, by decide +kernel, rfl, interrupted_genuine, rfl⟩

theorem rotation_converges_interrupted :
    Reachable (after interrupted blankDevice) ∧
    (after interrupted blankDevice).Opens keyA ∧
    ¬ ((quiet ⟨keyB, keyA, by decide⟩ none).left (after interrupted blankDevice)).Opens keyA := by
  have ho : (after interrupted blankDevice).Opens keyA := ⟨_, rfl, by decide⟩
  refine ⟨interrupted_reachable, ho, ?_⟩
  have h := (rotation_converges _ interrupted_reachable ⟨keyB, keyA, by decide⟩ defaultFormat).1
    (Or.inr (Or.inr ho)) [] (by simp) trivial _ rfl
  exact (h.2 (quiet ⟨keyB, keyA, by decide⟩ none) rfl rfl ⟨rfl, fun _ => rfl⟩).2.2.2.1 (by decide)

/-- A call that succeeds leaves the current key as the only one exactly when no
other key than its two opened the volume before. -/
theorem only_current_opens_iff (d : Device) (hd : Reachable d) (c : Call) (hg : c.Genuine d)
    (hs : c.Succeeds d) :
    (∀ key, (c.left d).Opens key ↔ key = c.keys.current) ↔
      ∀ key, d.Opens key → key = c.keys.current ∨ key = c.keys.previous := by
  obtain ⟨hsound, hm⟩ := hd.sound
  obtain ⟨hr, hleft⟩ :=
    (Call.spec (I := fun _ => True) (fun _ _ _ _ => trivial) hm hg trivial).2.2 hs
  rw [hleft]
  simp only [hsound.prepared_opens hr]
  refine forall_congr' fun key => ?_
  tauto

/-- After one more rotation the key of the interrupted one still opens the volume. -/
theorem retired_key_opens :
    Reachable (after interrupted blankDevice) ∧
    (quiet ⟨keyC, keyB, by decide⟩ none).Genuine (after interrupted blankDevice) ∧
    (quiet ⟨keyC, keyB, by decide⟩ none).Succeeds (after interrupted blankDevice) ∧
    ¬ ∀ key, ((quiet ⟨keyC, keyB, by decide⟩ none).left (after interrupted blankDevice)).Opens key ↔
      key = keyC := by
  refine ⟨interrupted_reachable, (Call.Calm.genuine ⟨rfl, fun _ => rfl⟩ _), ⟨_, rfl⟩, ?_⟩
  intro h
  exact absurd ((h keyA).mp ⟨_, rfl, by decide⟩) (by decide)

theorem only_current_opens_finished :
    Reachable (after interrupted blankDevice) ∧
    ∀ key, ((quiet ⟨keyB, keyA, by decide⟩ none).left (after interrupted blankDevice)).Opens key ↔
      key = keyB := by
  refine ⟨interrupted_reachable, ?_⟩
  refine (only_current_opens_iff _ interrupted_reachable (quiet ⟨keyB, keyA, by decide⟩ none)
    (Call.Calm.genuine ⟨rfl, fun _ => rfl⟩ _) ⟨_, rfl⟩).mpr ?_
  rintro key ⟨h, hh, hk⟩
  cases hh
  simpa [quiet] using hk

end Fileblock.Crypt
