import Fileblock.Node.Holding

/-! Where a stage may be when it comes to one of its commands, and the rules for its parts:
what each makes of the tables, and that it does not fail when nothing stands in its way. -/
namespace Fileblock.Node
open Go Store Interaction

variable {S : Site} {ι : Type} {V : Volumes S ι} {v : ι} {w w' w₀ : World} {c : Cmd} {o : Choice}
  {dev : ℕ} {ε δ α β : Type}

/-! Where a stage may be when it comes to a command. -/

/-- The image is as good as it was. -/
structure AsGood (V : Volumes S ι) (v : ι) (mode : Mode) (w w' : World) : Prop where
  present : (w'.images (V.image v)).present = (w.images (V.image v)).present
  usable : mode.Usable (w.images (V.image v)).device → mode.Usable (w'.images (V.image v)).device

/-- The filesystem is mounted at the staging path, and its entry may have been written. -/
structure Mounted (V : Volumes S ι) (v : ι) (req : StageRequest) (mode : Mode) (dev : ℕ)
    (w w' : World) : Prop where
  loops : w'.loops = w.loops
  dm : w'.dm = w.dm
  images : w'.images = w.images
  mounts : ∃ ro, w'.mounts =
    ⟨S.resolve req.stagingTargetPath, stageTarget dev (mode.cryptDev (V.mapper v)), ro⟩ :: w.mounts
  mapping : ∀ name, mode.cryptDev (V.mapper v) = some name → (name, dev) ∈ w.dm
  entries : ∀ m, m ∈ w'.state ∨ m ∈ w'.stateFile → (m ∈ w.state ∨ m ∈ w.stateFile) ∨
    m = req.mapping (V.image v) (some dev) (mode.cryptDev (V.mapper v))

/-- Nothing has changed but what the plugin remembers of a volume that is mounted. -/
structure Noted (V : Volumes S ι) (v : ι) (req : StageRequest) (mode : Mode) (w w' : World) :
    Prop where
  mountedAt : w.mountedAt (S.resolve req.stagingTargetPath) = true
  loops : w'.loops = w.loops
  dm : w'.dm = w.dm
  images : w'.images = w.images
  mounts : w'.mounts = w.mounts
  entries : ∀ m, m ∈ w'.state ∨ m ∈ w'.stateFile → (m ∈ w.state ∨ m ∈ w.stateFile) ∨
    ∃ dev, V.Owns w v (.loop dev) ∧
      m = req.mapping (V.image v) (some dev) (mode.cryptDev (V.mapper v))

inductive Phase (V : Volumes S ι) (v : ι) (req : StageRequest) (mode : Mode) (w : World) :
    World → Prop
  | undone {w' : World} (h : Undone V v w w') : Phase V v req mode w w'
  | holding {w₀ w' : World} {dev : ℕ} {d : Crypt.Device} (ha : Attaching V v w w₀ dev)
      (h : Holding V v w₀ dev d w') : Phase V v req mode w w'
  | mounted {w₀ w₁ w' : World} {dev : ℕ} {d : Crypt.Device} (ha : Attaching V v w w₀ dev)
      (h : Holding V v w₀ dev d w₁) (hm : Mounted V v req mode dev w₁ w') :
      Phase V v req mode w w'
  | noted {w' : World} (h : Noted V v req mode w w') : Phase V v req mode w w'

structure Midway (V : Volumes S ι) (v : ι) (req : StageRequest) (mode : Mode) (w w' : World) :
    Prop where
  good : AsGood V v mode w w'
  phase : Phase V v req mode w w'

/-- The place shows the volume's own device, over its only loop. -/
structure Visible (V : Volumes S ι) (v : ι) (place : Str) (mode : Mode) (dev : ℕ) (w : World) :
    Prop where
  owns : V.Owns w v (.loop dev)
  top : (w.top place).map Mount.source = some (stageTarget dev (mode.cryptDev (V.mapper v)))
  mapping : ∀ name, mode.cryptDev (V.mapper v) = some name → (name, dev) ∈ w.dm

/-- Nothing stands in the way of the request: `findmnt` prints the staging path as it is
given, the image is there, and either it is not in use and can be, or the staging path shows
it and the entry, if there is one, says so. -/
structure Fit (V : Volumes S ι) (v : ι) (req : StageRequest) (mode : Mode) (w : World) : Prop where
  parse : req.parse = .ok (V.config v, mode)
  capability : validateCapability req.capability = .ok ()
  printed : Printed S req.stagingTargetPath
  present : (w.images (V.image v)).present = true
  filed : w.stateFile = w.state
  idle : w.mountedAt (S.resolve req.stagingTargetPath) = false →
    (∀ l ∈ w.loops, l.file = V.image v → w.busy l.dev = false) ∧
      w.isOpen (V.mapper v) = false ∧ mode.Usable (w.images (V.image v)).device
  visible : w.mountedAt (S.resolve req.stagingTargetPath) = true →
    ∃ dev, Visible V v (S.resolve req.stagingTargetPath) mode dev w ∧
      ∀ m, Mapping.get w.state (V.id v) = some m →
        m.loopDev = some dev ∧ m.cryptDev = mode.cryptDev (V.mapper v)

/-- The volume is staged, and the plugin knows how. -/
def Done (V : Volumes S ι) (v : ι) (place : Str) (mode : Mode) (w : World) : Prop :=
  ∃ dev, Visible V v place mode dev w ∧ w.stateFile = w.state ∧
    ∃ m, Mapping.get w.state (V.id v) = some m ∧ m.loopDev = some dev ∧
      m.cryptDev = mode.cryptDev (V.mapper v)

/-- How a stage from `w` is tried: what its commands may meet, and whether it may fail. -/
structure Trial (V : Volumes S ι) (v : ι) (req : StageRequest) (mode : Mode) (w : World) where
  adm : World → Cmd → Choice → Prop
  faulty : ∀ {w' c o}, adm w' c o → Faulty S w.attaches w' c o
  fails : Prop
  faultless : ¬ fails → ∀ {w' c o}, adm w' c o → o.fault = none
  fit : ¬ fails → Fit V v req mode w

namespace Trial
variable {req : StageRequest} {mode : Mode} {T : Trial V v req mode w} {w₁ : World}

/-- The machine as the stage meets it on the way. -/
def regime (T : Trial V v req mode w) : Regime Cmd Resp Choice World :=
  ⟨exec S, T.adm, fun w' _ _ => Midway V v req mode w w'⟩

theorem fails_of_fault {e : ExecError} (ho : T.adm w' c o) (hf : o.fault = some e) : T.fails := by
  by_contra hn
  exact Option.some_ne_none e (hf.symm.trans (T.faultless hn ho))

theorem issue {Q : Resp c → World → Prop} (hmid : Midway V v req mode w w₁)
    (hbad : T.fails → ∀ o e, Honest S w₁ e c → c.cleans w.attaches w₁ = false →
      Q (execFail S o e c w₁).1 (execFail S o e c w₁).2)
    (hok : ∀ o, Q (execOk S o c w₁).1 (execOk S o c w₁).2) : (Node.issue c).wp T.regime Q w₁ := by
  intro o ho
  obtain ⟨halone, hgen, hclean⟩ := T.faulty ho
  refine ⟨hmid, ?_⟩
  rw [exec_alone halone]
  unfold step
  cases hf : o.fault with
  | none => exact hok o
  | some e =>
    refine hbad (T.fails_of_fault ho hf) o e (hgen e hf) ?_
    by_contra hc
    exact Option.some_ne_none e (hf.symm.trans (hclean (by simpa using hc)))

theorem quiet (hn : ¬ T.fails) (ho : T.adm w' c o) : o.Quiet := by
  obtain ⟨⟨hm, hb, hu⟩, -, -⟩ := T.faulty ho
  exact ⟨T.faultless hn ho, hm, hb, hu⟩

theorem look {p : Run α} {K P : α → Prop} {Q : α → World → Prop} (hall : p.All (·.observes = true))
    (hmid : Midway V v req mode w w₁)
    (hknown : p.wp ⟨exec S, T.adm, fun _ _ _ => True⟩ (fun a _ => K a) w₁)
    (hcalm : ¬ T.fails → p.wp (calm S) (fun a _ => P a) w₁)
    (hq : ∀ a, K a → (¬ T.fails → P a) → Q a w₁) : p.wp T.regime Q w₁ := by
  have hsame : p.wp T.regime (fun _ w' => w' = w₁) w₁ := by
    refine Prog.wp_of_all (I := (· = w₁)) (fun w' c o hc ho hw => ⟨hw ▸ hmid, ?_⟩) hall rfl
    rw [exec_alone (T.faulty ho).1, step_observes hc, hw]
  have hboth : p.wp T.regime (fun a w' => w' = w₁ ∧ K a) w₁ :=
    Prog.wp_both (fun _ _ _ h _ => h) hsame hknown
  by_cases hf : T.fails
  · refine Prog.wp_mono ?_ hboth
    rintro a w' ⟨rfl, hk⟩
    exact hq a hk fun hn => absurd hf hn
  · have hc : p.wp ⟨exec S, T.adm, fun _ _ _ => True⟩ (fun a _ => P a) w₁ :=
      Prog.wp_weaken (fun _ _ _ h => T.quiet hf h) (fun _ _ _ _ _ => trivial) (hcalm hf)
    refine Prog.wp_mono ?_ (Prog.wp_both (fun _ _ _ h _ => h) hboth hc)
    rintro a w' ⟨⟨rfl, hk⟩, hp⟩
    exact hq a hk fun _ => hp

theorem look_bind {x : ExceptT ε Run α} {f : α → ExceptT ε Run β} {P : α → Prop}
    {Q : Except ε β → World → Prop} (hall : x.run.All (·.observes = true))
    (hmid : Midway V v req mode w w₁)
    (hcalm : ¬ T.fails → x.run.wp (calm S) (fun r _ => ∃ a, r = .ok a ∧ P a) w₁)
    (herr : T.fails → ∀ e, Q (.error e) w₁)
    (hok : ∀ a, (¬ T.fails → P a) → (f a).run.wp T.regime Q w₁) : (x >>= f).run.wp T.regime Q w₁ := by
  refine (Prog.wp_run_bind _ _ _ _).mpr (look (K := fun _ => True) hall hmid
    (Prog.wp_mono (fun _ _ _ => trivial) (Prog.wp_of_all (I := fun _ => True)
      (fun _ _ _ _ _ _ => ⟨trivial, trivial⟩) (Prog.all_true _) trivial)) hcalm ?_)
  intro r _ hr
  cases r with
  | error e =>
    refine herr ?_ e
    by_contra hn
    obtain ⟨a, ha, -⟩ := hr hn
    cases ha
  | ok a =>
    refine hok a fun hn => ?_
    obtain ⟨a', ha, hp⟩ := hr hn
    cases ha
    exact hp

theorem wp_of_alone {p : Run α} {Q : α → World → Prop} (hs : Sane V w₁)
    (hp : p.wp (Setting.alone V v).regime Q w₁) :
    p.wp ⟨exec S, T.adm, fun _ _ _ => True⟩ Q w₁ := by
  have hwp := Setting.wp_alone hs (Setting.wp_operating (Z := fun _ => True) hp)
  exact Prog.wp_weaken (fun _ _ _ h => (T.faulty h).2.1) (fun _ _ _ _ _ => trivial) hwp

theorem known_of_alone {p : Run α} {Q : α → World → Prop} (hall : p.All (·.observes = true))
    (hs : Sane V w₁) (hp : p.wp (Setting.alone V v).regime Q w₁) :
    p.wp ⟨exec S, T.adm, fun _ _ _ => True⟩ (fun a _ => Q a w₁) w₁ := by
  have hsame : p.wp ⟨exec S, T.adm, fun _ _ _ => True⟩ (fun _ w' => w' = w₁) w₁ := by
    refine Prog.wp_of_all (I := (· = w₁)) (fun w' c o hc ho hw => ⟨trivial, ?_⟩) hall rfl
    rw [exec_alone (T.faulty ho).1, step_observes hc, hw]
  refine Prog.wp_mono ?_ (Prog.wp_both (fun _ _ _ h _ => h) hsame (wp_of_alone hs hp))
  rintro a w' ⟨rfl, h⟩
  exact h

end Trial

/-! The stage, from its inner parts outwards. -/

theorem AsGood.refl (V : Volumes S ι) (v : ι) (mode : Mode) (w : World) : AsGood V v mode w w :=
  ⟨rfl, fun h => h⟩

theorem AsGood.congr {mode : Mode} (h : AsGood V v mode w w₀) (hi : w'.images = w₀.images) :
    AsGood V v mode w w' := by
  refine ⟨?_, ?_⟩
  · rw [hi]
    exact h.present
  · rw [hi]
    exact h.usable

/-- A stage that has attached its loop, and what it has made of the image. -/
structure Held (V : Volumes S ι) (v : ι) (mode : Mode) (w w₀ : World) (dev : ℕ) (d : Crypt.Device)
    (w' : World) : Prop where
  attaching : Attaching V v w w₀ dev
  holding : Holding V v w₀ dev d w'
  usable : mode.Usable (w.images (V.image v)).device → mode.Usable d

namespace Held
variable {req : StageRequest} {mode : Mode} {d : Crypt.Device} {w₁ : World}

theorem good (h : Held V v mode w w₀ dev d w₁) : AsGood V v mode w w₁ := by
  refine ⟨?_, fun hu => ?_⟩
  · rw [h.holding.present, h.attaching.image]
  · have hd := (h.usable hu).setMapped (w₁.images (V.image v)).device.mapped
    rwa [← h.holding.device] at hd

theorem midway (h : Held V v mode w w₀ dev d w₁) : Midway V v req mode w w₁ :=
  ⟨h.good, .holding h.attaching h.holding⟩

theorem hasFS (h : Held V v mode w w₀ dev d w₁)
    (hd : d.mapped = (mode.cryptDev (V.mapper v)).isSome) (hfs : d.fs = true)
    (hplain : mode = .plain → d.header = none) :
    w₁.hasFS (stageTarget dev (mode.cryptDev (V.mapper v))) = true ∧
      w₁.mounted (stageTarget dev (mode.cryptDev (V.mapper v))) = false := by
  have hdevice := h.holding.device
  have hfs' : (w₁.images (V.image v)).device.fs = true := by
    rw [← hdevice] at hfs
    exact hfs
  cases mode with
  | plain =>
    have hh : (w₁.images (V.image v)).device.header = none := by
      have := hplain rfl
      rw [← hdevice] at this
      exact this
    refine ⟨?_, h.holding.mounted_loop h.attaching⟩
    show w₁.hasFS (.loop dev) = true
    unfold World.hasFS
    dsimp only
    rw [h.holding.loop? h.attaching, h.holding.held h.attaching, hd]
    dsimp only
    rw [hh, hfs']
    rfl
  | encrypted k f =>
    refine ⟨?_, h.holding.mounted_mapper h.attaching⟩
    have hm : d.mapped = true := hd
    have hfind : w₁.dm.find? (·.1 = V.mapper v) = some (V.mapper v, dev) := by
      rw [h.holding.dm, hm, if_pos rfl]
      simp
    show w₁.hasFS (.mapper (V.mapper v)) = true
    unfold World.hasFS
    dsimp only
    rw [hfind]
    dsimp only
    rw [h.holding.loop? h.attaching]
    exact hfs'

end Held

/-- A stage that has failed and has taken back what it did. -/
def TakenBack (V : Volumes S ι) (v : ι) (mode : Mode) (w w' : World) : Prop :=
  Undone V v w w' ∧ AsGood V v mode w w'

theorem TakenBack.midway {req : StageRequest} {mode : Mode} (h : TakenBack V v mode w w') :
    Midway V v req mode w w' := ⟨h.2, .undone h.1⟩

theorem TakenBack.refl (V : Volumes S ι) (v : ι) (mode : Mode) (w : World) :
    TakenBack V v mode w w := ⟨.refl V v w, .refl V v mode w⟩

namespace Trial
variable {req : StageRequest} {mode : Mode} {T : Trial V v req mode w} {w₁ : World}
  {d : Crypt.Device} {cryptDev : Option String}

theorem wp_detachHeld (h : Held V v mode w w₀ dev d w₁) (hd : d.mapped = false) :
    (ignore (detachLoop dev)).wp T.regime (fun _ w' => TakenBack V v mode w w') w₁ := by
  rw [Prog.wp_ignore]
  unfold detachLoop
  rw [ExceptT.run_mk, Prog.wp_bind]
  refine issue h.midway (fun _ o e _ hc => ?_) fun o => ?_
  · have hin : Cmd.cleans w.attaches w₁ (.losetupDetach dev) = true :=
      List.any_eq_true.mpr ⟨_, h.holding.mem, by simp [h.attaching.attaches]⟩
    exact absurd (hin.symm.trans hc) (by simp)
  · dsimp only [execOk]
    rw [h.holding.loop? h.attaching]
    exact ⟨h.holding.undone h.attaching hd, h.good.congr rfl⟩

theorem wp_release (h : Held V v mode w w₀ dev d w₁)
    (hd : d.mapped = (mode.cryptDev (V.mapper v)).isSome) :
    (release dev (mode.cryptDev (V.mapper v))).wp T.regime (fun _ w' => TakenBack V v mode w w') w₁ := by
  cases mode with
  | plain => exact wp_detachHeld h hd
  | encrypted k f =>
    have hm : d.mapped = true := hd
    show (ignore (closeCrypt (V.mapper v)) >>= fun _ => ignore (detachLoop dev)).wp T.regime _ w₁
    rw [Prog.wp_bind, Prog.wp_ignore]
    unfold closeCrypt
    rw [ExceptT.run_mk, Prog.wp_bind]
    refine issue h.midway (fun _ o e _ hc => absurd hc (by simp [Cmd.cleans])) fun o => ?_
    obtain ⟨hr, hclosed⟩ := h.holding.closeMapping h.attaching
    simp only [Crypt.execOk, hm, if_true] at hr hclosed
    dsimp only [execOk]
    rw [hr]
    exact wp_detachHeld ⟨h.attaching, hclosed, fun hu => (h.usable hu).setMapped false⟩ rfl

theorem wp_prepareCrypt {k : StageKeys} {f : Crypt.Format}
    {T : Trial V v req (.encrypted k f) w} (h : Held V v (.encrypted k f) w w₀ dev d w₁)
    (hd : d.mapped = false) (hfit : ¬ T.fails → d.Usable k.1) :
    (prepareCrypt dev (V.mapper v) k f).run.wp T.regime (fun r w' =>
      ∃ d', Held V v (.encrypted k f) w w₀ dev d' w' ∧
        (T.fails ∧ (∃ e, r = .error e) ∧ d'.mapped = false ∨
          (∃ a, r = .ok a) ∧ d'.mapped = true ∧ (¬ T.fails → d'.fs = true))) w₁ := by
  -- the choices of the simulated device
  let A : Crypt.Device → Crypt.Cmd → Crypt.Choice → Prop := fun d c o =>
    Crypt.Genuine d c o ∧ (c = .close → o.fault = none) ∧ (¬ T.fails → o.fault = none)
  have hspec := Crypt.prepare_spec (A := A) (showDevice (.loop dev)) (V.mapper v) k.1 f
    (fun _ _ _ h => h.1) (fun _ _ h => h.2.1 rfl) hd
  unfold prepareCrypt
  rw [ExceptT.run_mk]
  refine (Prog.wp_lift _ _ _ _ _).mpr (Prog.wp_mono ?_ (Prog.wp_simulate
    (fun w' d' => Holding V v w₀ dev d' w') ?_ h.holding hspec))
  · rintro r w' ⟨d', hh, hu, hr⟩
    have hheld : Held V v (.encrypted k f) w w₀ dev d' w' :=
      ⟨h.attaching, hh, fun hw => hu (h.usable hw)⟩
    refine ⟨d', hheld, ?_⟩
    rcases hr with ⟨⟨e, rfl⟩, hm, hbad⟩ | ⟨⟨out, rfl⟩, hready, rfl⟩
    · refine Or.inl ⟨?_, ⟨e, rfl⟩, hm⟩
      by_contra hn
      rcases hbad with ⟨_, _, _, ha, hf⟩ | hnot
      · exact hf (ha.2.2 hn)
      · exact hnot (hfit hn).ready
    · refine Or.inr ⟨⟨_, rfl⟩, ?_, fun hn => ?_⟩
      · obtain ⟨hdr, hh'⟩ := d.formatted_header k.1 f
        rw [Crypt.Device.prepared_eq hh']
      · exact ((hfit hn).sound.prepared_made hready f).2.1
  · intro w' d' c o hh ho
    obtain ⟨halone, hgen, hclean⟩ := T.faulty ho
    refine ⟨⟨o.fault, o.pick⟩, ⟨fun e he => hgen e he, ?_, fun hn => T.faultless hn ho⟩, ?_⟩
    · rintro rfl
      exact hclean rfl
    · rintro ⟨hlaw, hu⟩
      have hheld : Held V v (.encrypted k f) w w₀ dev d' w' :=
        ⟨h.attaching, hh, fun hw => hu (h.usable hw)⟩
      have hopen : ∀ key, c = .open key → d'.mapped = false := by
        rintro key rfl
        exact hlaw.2
      refine ⟨hheld.midway, ?_⟩
      dsimp only
      rw [exec_alone halone]
      exact hh.luks h.attaching hopen

theorem setCapacity_observes (dev : Option ℕ) : (setCapacity dev).run.All (·.observes = true) :=
  Prog.all_attempt (issue_observes rfl) _

theorem calm_setCapacity (h : w₁.loop? dev ≠ none) :
    (setCapacity (some dev)).run.wp (calm S) (fun r _ => r = .ok ()) w₁ := by
  unfold setCapacity shell
  rw [Prog.wp_attempt]
  refine calm_issue fun o _ => ?_
  dsimp only [execOk, okIf]
  rw [if_pos (by simpa [Option.isSome_iff_ne_none] using h)]
  rfl

theorem wp_openTarget (h : Held V v mode w w₀ dev d w₁) (hd : d.mapped = false)
    (hfit : ¬ T.fails → mode.Usable d) {Q : Except Status (Option String) → World → Prop}
    (herr : T.fails → ∀ e w', TakenBack V v mode w w' → Q (.error e) w')
    (hok : ∀ d' w', Held V v mode w w₀ dev d' w' →
      d'.mapped = (mode.cryptDev (V.mapper v)).isSome →
      (¬ T.fails → d'.fs = true ∧ (mode = .plain → d'.header = none)) →
      Q (.ok (mode.cryptDev (V.mapper v))) w') :
    (openTarget S (V.id v) dev mode).run.wp T.regime Q w₁ := by
  cases mode with
  | plain => exact hok d w₁ h hd fun hn => ⟨(hfit hn).2, fun _ => (hfit hn).1⟩
  | encrypted k f =>
    have hback : T.fails → ∀ e {d' w'}, Held V v (.encrypted k f) w w₀ dev d' w' →
        d'.mapped = false → (ignore (detachLoop dev)).wp T.regime (fun _ w'' => Q (.error e) w'') w' :=
      fun hf e _ _ h hd => Prog.wp_mono (fun _ w' hu => herr hf e w' hu) (wp_detachHeld h hd)
    unfold openTarget
    rw [Prog.wp_cleanup]
    refine look_bind (P := fun _ => True) (orStatus_all (setCapacity_observes _) _ _) h.midway
      (fun _ => ?_) (fun hf e => hback hf e h hd) fun _ _ => ?_
    · rw [wp_orStatus]
      refine Prog.wp_mono ?_ (calm_setCapacity (by simp [h.holding.loop? h.attaching]))
      rintro r - rfl
      exact ⟨(), rfl, trivial⟩
    · rw [Prog.wp_run_bind, Prog.wp_attempt]
      refine Prog.wp_mono ?_ (wp_prepareCrypt h hd hfit)
      rintro r w' ⟨d', h', ⟨hf, ⟨e, rfl⟩, hm⟩ | ⟨⟨a, rfl⟩, hm, hfs⟩⟩
      · exact hback hf _ h' hm
      · exact hok d' w' h' hm fun hn => ⟨hfs hn, fun hp => by cases hp⟩

end Trial

/-- The filesystem of a stage that holds its target is mounted. -/
structure Staging (V : Volumes S ι) (v : ι) (req : StageRequest) (mode : Mode) (w w₀ w₁ : World)
    (dev : ℕ) (d : Crypt.Device) (w' : World) : Prop where
  held : Held V v mode w w₀ dev d w₁
  mounted : Mounted V v req mode dev w₁ w'

namespace Staging
variable {req : StageRequest} {mode : Mode} {d : Crypt.Device} {w₁ w₂ : World}

theorem midway (h : Staging V v req mode w w₀ w₁ dev d w₂) : Midway V v req mode w w₂ :=
  ⟨h.held.good.congr h.mounted.images, .mounted h.held.attaching h.held.holding h.mounted⟩

theorem congr (h : Staging V v req mode w w₀ w₁ dev d w₂) (hl : w'.loops = w₂.loops)
    (hd : w'.dm = w₂.dm) (hi : w'.images = w₂.images) (hm : w'.mounts = w₂.mounts)
    (hs : w'.state = w₂.state) (hf : w'.stateFile = w₂.stateFile) :
    Staging V v req mode w w₀ w₁ dev d w' := by
  have hmt := h.mounted
  refine ⟨h.held, hl.trans hmt.loops, hd.trans hmt.dm, hi.trans hmt.images, ?_, hmt.mapping, ?_⟩
  · rw [hm]
    exact hmt.mounts
  · rw [hs, hf]
    exact hmt.entries

theorem visible (h : Staging V v req mode w w₀ w₁ dev d w₂) :
    Visible V v (S.resolve req.stagingTargetPath) mode dev w₂ := by
  have hmt := h.mounted
  refine ⟨⟨_, hmt.loops ▸ h.held.holding.mem, rfl, rfl⟩, ?_,
    fun name hn => hmt.dm ▸ hmt.mapping name hn⟩
  obtain ⟨ro, hm⟩ := hmt.mounts
  unfold World.top
  rw [hm]
  simp

theorem state (h : Staging V v req mode w w₀ w₁ dev d w₂) : w₁.state = w.state :=
  (congrArg Memory.state h.held.holding.memory).trans
    (congrArg Memory.state h.held.attaching.undone.memory)

end Staging

theorem Mapping.get_put (l : List Mapping) (m : Mapping) : get (put l m) m.volumeID = some m := by
  unfold get put
  simp

namespace Trial
variable {req : StageRequest} {mode : Mode} {T : Trial V v req mode w} {w₁ : World}
  {d : Crypt.Device}

/-- How the stage ends: it has taken back what it did, or it has staged the volume. -/
def Outcome (T : Trial V v req mode w) (r : Except Status Unit) (w' : World) : Prop :=
  T.fails ∧ (∃ e, r = .error e) ∧ TakenBack V v mode w w' ∨
    r = .ok () ∧ Midway V v req mode w w' ∧ (¬ T.fails → Done V v (S.resolve req.stagingTargetPath) mode w')

theorem Outcome.error {e : Status} (hf : T.fails) (h : TakenBack V v mode w w') :
    T.Outcome (.error e) w' := Or.inl ⟨hf, ⟨e, rfl⟩, h⟩

theorem Outcome.midway {r : Except Status Unit} (h : T.Outcome r w') :
    Midway V v req mode w w' := by
  rcases h with ⟨-, -, hback⟩ | ⟨-, hmid, -⟩
  · exact hback.midway
  · exact hmid

theorem fsck_observes (device : Source) : (fsck device).run.All (·.observes = true) := by
  unfold fsck
  refine (issue_observes (c := .fsck _) rfl).bind fun r => ?_
  cases r with
  | ok u => exact Prog.all_ret _ _
  | error e =>
    dsimp only
    split_ifs <;> exact Prog.all_ret _ _

theorem growLoop_observes (dev : ℕ) (cryptDev : Option String) :
    (growLoop dev cryptDev).run.All (·.observes = true) := by
  cases cryptDev with
  | none => exact orStatus_all (setCapacity_observes _) _ _
  | some name => exact Prog.all_ret _ _

section Calm
variable {target : Source}

theorem calm_fsck (hfs : w₁.hasFS target = true) (hm : w₁.mounted target = false) :
    (fsck target).run.wp (calm S) (fun r _ => r = .ok ()) w₁ := by
  unfold fsck
  rw [ExceptT.run_mk, Prog.wp_bind]
  refine calm_issue fun o _ => ?_
  dsimp only [execOk, okIf]
  rw [hfs, hm]
  rfl

theorem calm_resize2fs (hfs : w₁.hasFS target = true) :
    (resize2fs target).run.wp (calm S) (fun r _ => r = .ok ()) w₁ := by
  unfold resize2fs shell
  rw [Prog.wp_attempt]
  refine calm_issue fun o _ => ?_
  dsimp only [execOk, okIf]
  rw [hfs, if_pos rfl]
  rfl

theorem calm_growLoop (cryptDev : Option String) (h : w₁.loop? dev ≠ none) :
    (growLoop dev cryptDev).run.wp (calm S) (fun r _ => r = .ok ()) w₁ := by
  cases cryptDev with
  | some name => exact rfl
  | none =>
    unfold growLoop
    rw [wp_orStatus]
    refine Prog.wp_mono ?_ (calm_setCapacity h)
    rintro r - rfl
    rfl

theorem calm_ok {x : ExceptT ε Run Unit} (h : x.run.wp (calm S) (fun r _ => r = .ok ()) w₁) :
    x.run.wp (calm S) (fun r _ => ∃ a, r = .ok a ∧ True) w₁ :=
  Prog.wp_mono (fun _ _ hr => ⟨(), hr, trivial⟩) h

theorem calm_orStatus_ok {code : Code} {context : String} {x : ExceptT Err Run Unit}
    (h : x.run.wp (calm S) (fun r _ => r = .ok ()) w₁) :
    (orStatus code context x).run.wp (calm S) (fun r _ => ∃ a, r = .ok a ∧ True) w₁ := by
  rw [wp_orStatus]
  refine Prog.wp_mono ?_ h
  rintro r - rfl
  exact ⟨(), rfl, trivial⟩

end Calm

theorem wp_mountAndRecord (h : Held V v mode w w₀ dev d w₁)
    (hd : d.mapped = (mode.cryptDev (V.mapper v)).isSome)
    (hfit : ¬ T.fails → d.fs = true ∧ (mode = .plain → d.header = none))
    {Q : Except Status Unit → World → Prop}
    (herr : T.fails → ∀ e w', Held V v mode w w₀ dev d w' → Q (.error e) w')
    (hok : ∀ w₂ w', Staging V v req mode w w₀ w₂ dev d w' → w'.stateFile = w'.state →
      w'.state = Mapping.put w.state
        (req.mapping (V.image v) (some dev) (mode.cryptDev (V.mapper v))) → Q (.ok ()) w') :
    (mountAndRecord req (V.image v) dev (mode.cryptDev (V.mapper v))).run.wp T.regime Q w₁ := by
  have hmapped : ∀ {w'}, Held V v mode w w₀ dev d w' →
      ∀ name, mode.cryptDev (V.mapper v) = some name → (name, dev) ∈ w'.dm := by
    intro w' h name hn
    cases mode with
    | plain => cases hn
    | encrypted k f =>
      have hm : d.mapped = true := hd
      rw [← Option.some.inj hn, h.holding.dm, hm, if_pos rfl]
      exact List.mem_cons_self
  have hloop : w₁.loop? dev ≠ none := by simp [h.holding.loop? h.attaching]
  have hfs : ¬ T.fails → ∀ {w'}, Held V v mode w w₀ dev d w' → _ := fun hn _ h =>
    h.hasFS hd (hfit hn).1 (hfit hn).2
  unfold mountAndRecord
  refine look_bind (P := fun _ => True) (orStatus_all (fsck_observes _) _ _) h.midway
    (fun hn => calm_orStatus_ok (calm_fsck (hfs hn h).1 (hfs hn h).2)) (fun hf e => herr hf e w₁ h)
    fun _ _ => ?_
  refine look_bind (P := fun _ => True) (growLoop_observes _ _) h.midway
    (fun hn => calm_ok (calm_growLoop _ hloop)) (fun hf e => herr hf e w₁ h) fun _ _ => ?_
  refine look_bind (P := fun _ => True)
    (orStatus_all (Prog.all_attempt (issue_observes rfl) _) _ _) h.midway
    (fun hn => calm_orStatus_ok (calm_resize2fs (hfs hn h).1)) (fun hf e => herr hf e w₁ h)
    fun _ _ => ?_
  rw [Prog.wp_run_bind, wp_orStatus, Prog.wp_attempt]
  refine issue h.midway (fun hf o e _ _ => herr hf _ w₁ h) fun o => ?_
  -- the directory is there now
  have hdir : Held V v mode w w₀ dev d (execOk S o (.mkdirAll req.stagingTargetPath) w₁).2 :=
    ⟨h.attaching, h.holding.congr rfl rfl rfl rfl rfl, h.usable⟩
  have hin : S.resolve req.stagingTargetPath ∈
      (execOk S o (.mkdirAll req.stagingTargetPath) w₁).2.dirs := List.mem_insert_self
  generalize (execOk S o (.mkdirAll req.stagingTargetPath) w₁).2 = w₂ at hdir hin
  show (orStatus .internal "mount: " (mountDevice _ _ _) >>= fun _ => _).run.wp T.regime Q w₂
  rw [Prog.wp_run_bind, wp_orStatus]
  unfold mountDevice shell
  rw [Prog.wp_attempt]
  refine issue hdir.midway (fun hf o e _ _ => herr hf _ w₂ hdir) fun o => ?_
  dsimp only [execOk, okIf]
  split_ifs with hmount
  · generalize hm : World.addMount w₂ _ = w₃
    have hst : Staging V v req mode w w₀ w₂ dev d w₃ := by
      subst hm
      exact ⟨hdir, rfl, rfl, rfl, ⟨decide ("ro" ∈ mountOptionsFromCap req.capability), rfl⟩,
        hmapped hdir, fun m hm => Or.inl hm⟩
    have hstate : w₃.state = w.state := by
      rw [← hst.state, ← hm]
      rfl
    show (cleanup _ _).run.wp T.regime Q w₃
    rw [Prog.wp_cleanup, wp_orStatus, Prog.wp_attempt]
    refine issue hst.midway (fun _ o e _ hc => absurd hc (by simp [Cmd.cleans])) fun o => ?_
    have hput : Staging V v req mode w w₀ w₂ dev d (execOk S o (.statePut
        (req.mapping (V.image v) (some dev) (mode.cryptDev (V.mapper v)))) w₃).2 := by
      refine ⟨hst.held, hst.mounted.loops, hst.mounted.dm, hst.mounted.images, hst.mounted.mounts,
        hst.mounted.mapping, fun m hm' => ?_⟩
      rcases List.mem_cons.mp ((or_self_iff).mp hm') with rfl | hm'
      · exact Or.inr rfl
      · exact hst.mounted.entries m (Or.inl (List.mem_of_mem_filter hm'))
    exact hok w₂ _ hput rfl (congrArg (Mapping.put · _) hstate)
  · refine herr ?_ _ w₂ hdir
    by_contra hn
    refine hmount ?_
    rw [List.contains_iff_mem.mpr hin, (hfs hn hdir).1]
    rfl

theorem wp_finish {I : World → Prop} {id : VolumeID} (hmid : ∀ w', I w' → Midway V v req mode w w')
    (hkeep : ∀ w' keys failed, I w' → I { w' with keys, failed }) (hi : I w₁) :
    Prog.wp T.regime (do
      mode.cacheKeys id true
      always (Node.issue (.failedClear id)) : Rpc Unit).run (fun r w' => r = .ok () ∧ I w') w₁ := by
  have hclear : ∀ w', I w' → (always (Node.issue (.failedClear id)) : Rpc Unit).run.wp T.regime
      (fun r w' => r = .ok () ∧ I w') w' := by
    intro w' hi
    rw [Prog.wp_always]
    refine issue (hmid w' hi) (fun _ o e _ _ => ?_) fun o => ?_
    · exact ⟨rfl, hkeep w' w'.keys _ hi⟩
    · exact ⟨rfl, hkeep w' w'.keys _ hi⟩
  rw [Prog.wp_run_bind]
  cases mode with
  | plain => exact hclear w₁ hi
  | encrypted k f =>
    have hcache : ∀ o, I (execOk S o (.keysCache id k true) w₁).2 := by
      intro o
      dsimp only [execOk]
      split_ifs
      · exact hi
      · exact hkeep w₁ _ w₁.failed hi
    show (always (Node.issue (.keysCache id k true)) : Rpc Unit).run.wp T.regime _ w₁
    rw [Prog.wp_always]
    exact issue (hmid w₁ hi) (fun _ o e _ _ => hclear _ (hcache o)) fun o => hclear _ (hcache o)

theorem wp_detachEach {loops : List ℕ} (hu : TakenBack V v mode w w₀) (hs : Sane V w₀)
    (hp : Listed V v loops w₀ ∧ ∀ n ∈ loops, n ∈ [] ∨ w₀.busy n = false)
    {Q : Except Status Unit → World → Prop}
    (herr : T.fails → ∀ e w', TakenBack V v mode w w' → Q (.error e) w')
    (hok : ∀ w', Undone V v w w' → Sane V w' → Listed V v [] w' → w'.attaches = w₀.attaches →
      w'.images = w₀.images → Q (.ok ()) w') :
    (detachEach loops).run.wp T.regime Q w₀ := by
  induction loops generalizing w₀ with
  | nil => exact hok w₀ hu.1 hs hp.1 rfl rfl
  | cons dev loops ih =>
    have hown : V.Owns w₀ v (.loop dev) := hp.1.mine dev List.mem_cons_self
    have hidle : w₀.busy dev = false := (hp.2 dev List.mem_cons_self).resolve_left (by simp)
    have hs' : Sane V (step S ⟨none, 0, 0, [], [], []⟩ (.losetupDetach dev) w₀).2 :=
      hs.move trivial (by simp)
    obtain ⟨l, hl, hd, -⟩ := id hown
    have hfound : w₀.loop? dev = some l := hd ▸ hs.loop?_of_mem hl
    simp only [step, execOk, hfound] at hs'
    unfold detachEach
    rw [Prog.wp_run_bind, wp_orStatus]
    unfold detachLoop
    rw [ExceptT.run_mk, Prog.wp_bind]
    refine issue hu.midway (fun hf o e hhonest _ => ?_) fun o => ?_
    · dsimp only [execFail]
      rw [if_neg (by rw [hhonest]; exact Bool.false_ne_true)]
      exact herr hf _ _ hu
    · dsimp only [execOk]
      rw [hfound]
      refine ih ⟨hu.1.detach hs.toTidy hown hidle, hu.2.congr rfl⟩ hs'
        ⟨hp.1.detach hs.toTidy hidle, fun n hn => hp.2 n (List.mem_cons_of_mem _ hn)⟩ ?_
      exact fun w' hu hs hl ha hi => hok w' hu hs hl ha hi

end Trial

end Fileblock.Node
