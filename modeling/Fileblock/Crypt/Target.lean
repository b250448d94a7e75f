import Fileblock.Crypt.Prepare

/-! The device `prepare` is on its way to, and what its commands may find. -/
namespace Fileblock.Crypt
open Go Interaction Prog

def Device.formatted (k : Keys) (f : Format) (d : Device) : Device :=
  match d.header with
  | some _ => d
  | none => { d with
      header := some ⟨labelUnformatted, [k.current], f, defaultBlockSize⟩, fs := false }

/-- The slots after a rotation: the previous key gives way to the current one. -/
def rotatedSlots (k : Keys) (slots : List Key) : List Key :=
  if k.previous ≠ [] ∧ k.previous ≠ k.current ∧ slots.contains k.previous then
    (slots.insert k.current).erase k.previous
  else slots

def Device.rotated (k : Keys) (d : Device) : Device :=
  { d with header := d.header.map fun h => { h with slots := rotatedSlots k h.slots } }

def Device.opened (d : Device) : Device := { d with mapped := true }

def Device.made (d : Device) : Device :=
  if d.header.map Header.label = some labelUnformatted then
    { d with header := d.header.map fun h => { h with label := labelFormatted }, fs := true }
  else d

def Device.prepared (k : Keys) (f : Format) (d : Device) : Device :=
  ((d.formatted k f).rotated k).opened.made

/-- What a command of `prepare dev name k f` finds when it is issued. -/
def Lawful (k : Keys) (f : Format) (d : Device) (c : Cmd) (_ : Choice) : Prop :=
  match c with
  | .luksFormat key f' sector label =>
    d.Blank ∧ key = k.current ∧ f' = f ∧ sector = defaultBlockSize ∧ label = labelUnformatted
  | .luksAddKey old new =>
    old = k.previous ∧ new = k.current ∧ k.previous ≠ [] ∧ k.previous ≠ k.current ∧
      d.Opens k.previous ∧ ¬ d.Opens k.current
  | .luksRemoveKey key =>
    key = k.previous ∧ k.previous ≠ [] ∧ k.previous ≠ k.current ∧
      d.Opens k.previous ∧ d.Opens k.current
  | .open key => key = k.current ∧ d.mapped = false
  | .mkfs => ∃ h, d.header = some h ∧ h.label = labelUnformatted ∧ k.current ∈ h.slots
  | .config label =>
    label = labelFormatted ∧ d.fs = true ∧
      ∃ h, d.header = some h ∧ h.label = labelUnformatted ∧ k.current ∈ h.slots
  | _ => True

/-- Blank, or opened by one of the two keys. -/
def Device.Ready (d : Device) (k : Keys) : Prop :=
  d.Blank ∨ d.Opens k.current ∨ (k.previous ≠ [] ∧ d.Opens k.previous)

theorem Device.formatted_mapped (d : Device) (k : Keys) (f : Format) :
    (d.formatted k f).mapped = d.mapped := by
  unfold Device.formatted
  split <;> rfl

theorem Device.formatted_header (d : Device) (k : Keys) (f : Format) :
    ∃ h, (d.formatted k f).header = some h := by
  unfold Device.formatted
  split
  · exact ⟨_, ‹_›⟩
  · exact ⟨_, rfl⟩

theorem Device.formatted_of_unopened {d : Device} {k : Keys} {f : Format} {h : Header}
    (hh : (d.formatted k f).header = some h) (hc : k.current ∉ h.slots) :
    d.formatted k f = d ∧ d.header = some h := by
  unfold Device.formatted at *
  split at hh
  · exact ⟨rfl, hh⟩
  · cases hh
    exact absurd List.mem_cons_self hc

theorem Device.ready_of_formatted {d : Device} {k : Keys} {f : Format} {h : Header}
    (hd : d.header ≠ none ∨ d.Blank) (hh : (d.formatted k f).header = some h)
    (hk : k.current ∈ h.slots ∨ (k.previous ≠ [] ∧ k.previous ∈ h.slots)) : d.Ready k := by
  rcases hd with hd | hd
  · obtain ⟨h', hh'⟩ := Option.ne_none_iff_exists'.mp hd
    have he : h' = h := by simpa [Device.formatted, hh'] using hh
    subst he
    rcases hk with hk | ⟨hn, hk⟩
    · exact Or.inr (Or.inl ⟨h', hh', hk⟩)
    · exact Or.inr (Or.inr ⟨hn, h', hh', hk⟩)
  · exact Or.inl hd

theorem current_mem_rotatedSlots {k : Keys} {slots : List Key}
    (hk : k.current ∈ slots ∨ (k.previous ≠ [] ∧ k.previous ∈ slots)) :
    k.current ∈ rotatedSlots k slots := by
  unfold rotatedSlots
  split_ifs with hp
  · exact (List.mem_erase_of_ne (Ne.symm hp.2.1)).mpr List.mem_insert_self
  · rcases hk with hk | ⟨hn, hk⟩
    · exact hk
    · by_contra hc
      exact hp ⟨hn, fun he => hc (he ▸ hk), List.contains_iff_mem.mpr hk⟩

theorem Device.rotated_mapped (d : Device) (k : Keys) : (d.rotated k).mapped = d.mapped := rfl

theorem Device.rotated_eq {d : Device} {k : Keys} {h : Header} (hh : d.header = some h) :
    d.rotated k = { d with header := some { h with slots := rotatedSlots k h.slots } } := by
  simp [Device.rotated, hh]

theorem Device.rotated_self {d : Device} {k : Keys} {h : Header} (hh : d.header = some h)
    (hs : rotatedSlots k h.slots = h.slots) : d.rotated k = d := by
  rw [Device.rotated_eq hh, hs, ← hh]

theorem Device.made_eq {d : Device} {h : Header} (hh : d.header = some h) (hl : h.label = labelUnformatted) :
    d.made = { d with header := some { h with label := labelFormatted }, fs := true } := by
  simp [Device.made, hh, hl]

theorem Device.made_self {d : Device} {h : Header} (hh : d.header = some h) (hl : h.label ≠ labelUnformatted) :
    d.made = d := by
  simp [Device.made, hh, hl]

theorem Device.prepared_eq {d : Device} {k : Keys} {f : Format} {h : Header}
    (hh : (d.formatted k f).header = some h) :
    d.prepared k f =
      { header := some { h with
          label := if h.label = labelUnformatted then labelFormatted else h.label
          slots := rotatedSlots k h.slots }
        raw := d.raw
        fs := if h.label = labelUnformatted then true else (d.formatted k f).fs
        mapped := true } := by
  have hr := Device.rotated_eq (k := k) hh
  have hraw : (d.formatted k f).raw = d.raw := by
    unfold Device.formatted
    split <;> rfl
  unfold Device.prepared
  rw [hr]
  split_ifs with hl
  · rw [Device.made_eq (h := { h with slots := rotatedSlots k h.slots }) rfl hl, ← hraw]
    rfl
  · rw [Device.made_self (h := { h with slots := rotatedSlots k h.slots }) rfl hl, ← hraw]
    rfl

theorem Device.formatted_self {d : Device} {h : Header} (hh : d.header = some h) (k : Keys)
    (f : Format) : d.formatted k f = d := by
  simp [Device.formatted, hh]

theorem Device.prepared_of_header {d : Device} {k : Keys} {f : Format} {h : Header}
    (hh : d.header = some h) :
    d.prepared k f =
      { header := some { h with
          label := if h.label = labelUnformatted then labelFormatted else h.label
          slots := rotatedSlots k h.slots }
        raw := d.raw
        fs := if h.label = labelUnformatted then true else d.fs
        mapped := true } := by
  have hf := d.formatted_self hh k f
  rw [Device.prepared_eq (h := h) (by rw [hf, hh]), hf]

theorem Device.prepared_mapped (d : Device) (b : Bool) (k : Keys) (f : Format) :
    { d with mapped := b }.prepared k f = d.prepared k f := by
  cases hh : d.header with
  | none => simp [Device.prepared, Device.formatted, hh, Device.rotated, Device.opened]
  | some h =>
    rw [Device.prepared_of_header hh]
    exact Device.prepared_of_header rfl

/-- What a lawful command can do to the device. -/
inductive Step (k : Keys) (f : Format) (d : Device) : Device → Prop
  | stay : Step k f d d
  | format (hb : d.Blank) : Step k f d (d.formatted k f)
  | addKey {h : Header} (hh : d.header = some h) (hn : k.previous ≠ [])
      (hne : k.previous ≠ k.current) (hp : k.previous ∈ h.slots) (hc : k.current ∉ h.slots) :
      Step k f d { d with header := some { h with slots := k.current :: h.slots } }
  | removeKey {h : Header} (hh : d.header = some h) (hn : k.previous ≠ [])
      (hne : k.previous ≠ k.current) (hp : k.previous ∈ h.slots) (hc : k.current ∈ h.slots) :
      Step k f d { d with header := some { h with slots := h.slots.erase k.previous } }
  | open {h : Header} (hh : d.header = some h) : Step k f d { d with mapped := true }
  | close (hm : d.mapped = true) : Step k f d { d with mapped := false }
  | mkfs {h : Header} (hh : d.header = some h) (hl : h.label = labelUnformatted)
      (hc : k.current ∈ h.slots) : Step k f d { d with fs := true }
  | relabel {h : Header} (hh : d.header = some h) (hl : h.label = labelUnformatted)
      (hc : k.current ∈ h.slots) (hfs : d.fs = true) :
      Step k f d { d with header := some { h with label := labelFormatted } }

theorem Device.formatted_blank {d : Device} (hd : d.header = none) (k : Keys) (f : Format) :
    d.formatted k f = { d with
      header := some ⟨labelUnformatted, [k.current], f, defaultBlockSize⟩, fs := false } := by
  simp [Device.formatted, hd]

theorem Lawful.step {k : Keys} {f : Format} {d : Device} {c : Cmd} {o : Choice}
    (h : Lawful k f d c o) : Step k f d (exec o c d).2 := by
  unfold exec
  cases o.fault with
  | some e => exact .stay
  | none =>
    cases c with
    | isLuks | openDevice => exact .stay
    | luksDump | dumpMetadata | testPassphrase | read =>
      simp only [execOk]
      split <;> exact .stay
    | luksFormat key f' sector label =>
      obtain ⟨hb, rfl, rfl, rfl, rfl⟩ := h
      simp only [execOk, ← d.formatted_blank hb.1]
      exact .format hb
    | luksAddKey old new =>
      obtain ⟨rfl, rfl, hn, hne, ⟨h, hh, hp⟩, hc⟩ := h
      simp only [execOk, hh, hp, if_true]
      exact .addKey hh hn hne hp fun hc' => hc ⟨h, hh, hc'⟩
    | luksRemoveKey key =>
      obtain ⟨rfl, hn, hne, ⟨h, hh, hp⟩, ⟨h', hh', hc⟩⟩ := h
      cases hh.symm.trans hh'
      simp only [execOk, hh, hp, if_true]
      exact .removeKey hh hn hne hp hc
    | «open» key =>
      cases hh : d.header with
      | none =>
        simp only [execOk, hh]
        exact .stay
      | some h =>
        simp only [execOk, hh]
        split_ifs
        · exact .stay
        · have hs : Step k f d { d with mapped := true } := .open hh
          rwa [hh] at hs
        · exact .stay
    | mkfs =>
      obtain ⟨h, hh, hl, hc⟩ := h
      simp only [execOk]
      split_ifs with hm
      · exact .mkfs hh hl hc
      · exact .stay
    | config label =>
      obtain ⟨rfl, hfs, h, hh, hl, hc⟩ := h
      simp only [execOk, hh]
      exact .relabel hh hl hc hfs
    | close =>
      simp only [execOk]
      split_ifs with hm
      · exact .close hm
      · exact .stay

end Fileblock.Crypt
