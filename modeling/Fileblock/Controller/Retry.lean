import Fileblock.Controller.World

/-! A create that is repeated: `CreateVolume` with the store mounted and the image there
already. -/
namespace Fileblock.Controller
open Go Store Interaction
open Registry (Setup Caller CheckRes)
open Image (alignUp imageFile adopted)

/-- None of the answers denies the mount. -/
def Affirmed (m : Str) (o : Choice) : Prop := ∀ a ∈ o.answers, a.1 = m → a.2.2 ≠ .ok false

/-- No command fails, the store directory is a directory, and no check denies the
mount. -/
structure Undisturbed (m : Str) (o : Choice) : Prop where
  fault : o.fault = none
  isDir : o.isDir = true
  answers : Affirmed m o

theorem arrived_eq {β : Type} {f : Registry.State → β}
    (hf : ∀ s m ch r, f (Registry.State.answer s m ch r) = f s) (s : Registry.State) (o : Choice) :
    f (arrived s o) = f s := by
  unfold arrived
  induction o.answers generalizing s with
  | nil => rfl
  | cons a as ih =>
    rw [List.foldl_cons, ih]
    unfold arrive
    split_ifs
    · exact hf ..
    · rfl

@[simp] theorem arrived_mounted (s : Registry.State) (o : Choice) :
    (arrived s o).mounted = s.mounted := arrived_eq (fun _ _ _ _ => rfl) s o

@[simp] theorem arrived_stores (s : Registry.State) (o : Choice) :
    (arrived s o).stores = s.stores := arrived_eq (fun _ _ _ _ => rfl) s o

@[simp] theorem arrived_configs (s : Registry.State) (o : Choice) :
    (arrived s o).configs = s.configs := arrived_eq (fun _ _ _ _ => rfl) s o

theorem Affirmed.arrived {m : Str} {o : Choice} (h : Affirmed m o) {s : Registry.State}
    {ch : ℕ} (hs : (s.chan m ch).answer ≠ some (.ok false)) :
    ((arrived s o).chan m ch).answer ≠ some (.ok false) := by
  unfold Affirmed at h
  unfold Controller.arrived
  generalize o.answers = as at h
  induction as generalizing s with
  | nil => exact hs
  | cons a as ih =>
    rw [List.foldl_cons]
    refine ih ?_ fun b hb => h b (List.mem_cons_of_mem _ hb)
    unfold arrive
    split_ifs
    · by_cases hm : a.1 = m
      · by_cases hch : a.2.1 = ch
        · simpa [Registry.State.answer, Registry.State.setChan, hm, hch] using
            h a List.mem_cons_self hm
        · simpa [Registry.State.answer, Registry.State.setChan, hm, Ne.symm hch] using hs
      · simpa [Registry.State.answer, Registry.State.setChan, Ne.symm hm] using hs
    · exact hs

/-- The commands of a check. -/
def Checking : Registry.Cmd → Prop
  | .openSlot _ | .poll .. | .start .. | .await .. | .clearCheck _ => True
  | _ => False

section Check
variable {P : Type} [DecidableEq P] {W : Setup} {place : Source → Str → P} {m : Str} {t : Caller}
  {A : World P → Registry.Cmd → Choice → Prop} {I : World P → Prop} {w : World P}

theorem wp_ownCheck (hA : ∀ w c o, A w c o → Affirmed m o)
    (hI : ∀ w c o, Checking c → A w c o → I w → I (exec W place o (.registry t c) w).2)
    {ch : ℕ} {path : Str} (h : I w) :
    (Registry.ownCheck m ch path).wp ⟨fun o c w => exec W place o (.registry t c) w, A,
      fun _ _ _ => True⟩ (fun r w => r ≠ some (.ok false) ∧ I w) w := by
  refine (Prog.wp_bind _ _ _ _).mpr fun o ho => ⟨trivial, ?_⟩
  have h1 := hI w (.start m ch path) o trivial ho h
  have hstart : ((exec W place o (.registry t (.start m ch path)) w).2.reg.chan m ch).answer ≠
      some (.ok false) := by
    simp [exec, Registry.exec, Registry.act, Registry.State.setChan]
  generalize (exec W place o (.registry t (.start m ch path)) w).2 = w₁ at h1 hstart
  refine (Prog.wp_bind _ _ _ _).mpr fun o ho => ⟨trivial, ?_⟩
  have h2 := hI w₁ (.await m ch) o trivial ho h1
  have hr : (exec W place o (.registry t (.await m ch)) w₁).1 ≠ some (.ok false) := by
    simp only [exec, Registry.exec, Registry.act]
    split_ifs
    · simp
    · exact (hA _ _ _ ho).arrived hstart
  cases hres : (exec W place o (.registry t (.await m ch)) w₁).1 with
  | none => exact ⟨by simp, h2⟩
  | some res =>
    refine (Prog.wp_bind _ _ _ _).mpr fun o ho => ⟨trivial, ?_⟩
    exact ⟨hres ▸ hr, hI _ (.clearCheck m) o trivial ho h2⟩

theorem wp_checkMountPoint (hA : ∀ w c o, A w c o → Affirmed m o)
    (hI : ∀ w c o, Checking c → A w c o → I w → I (exec W place o (.registry t c) w).2)
    {path : Str} (h : I w) :
    (Registry.checkMountPoint m path).wp ⟨fun o c w => exec W place o (.registry t c) w, A,
      fun _ _ _ => True⟩ (fun r w => r ≠ some (.ok false) ∧ I w) w := by
  refine (Prog.wp_bind _ _ _ _).mpr fun o ho => ⟨trivial, ?_⟩
  have h1 := hI w (.openSlot m) o trivial ho h
  rw [Prog.wp_ret]
  split_ifs
  · have hdrain : (Registry.drain m (exec W place o (.registry t (.openSlot m)) w).1.1).All
        Checking := by
      refine Prog.All.bind ((Prog.all_perform _ _).mpr trivial) fun b => ?_
      cases b
      · exact Prog.all_ret _ _
      · exact (Prog.all_perform _ _).mpr trivial
    refine (Prog.wp_bind _ _ _ _).mpr (Prog.wp_mono (Q := fun _ w => I w) ?_ ?_)
    · exact fun _ w h => ⟨by simp, h⟩
    · exact Prog.wp_of_all (fun w c o hc ho h => ⟨trivial, hI w c o hc ho h⟩) hdrain h1
  · exact wp_ownCheck hA hI h1

theorem wp_stillMounted (hA : ∀ w c o, A w c o → Affirmed m o)
    (hI : ∀ w c o, Checking c → A w c o → I w → I (exec W place o (.registry t c) w).2)
    {path : Str} (h : I w) :
    (Registry.stillMounted W m path).wp ⟨fun o c w => exec W place o (.registry t c) w, A,
      fun _ _ _ => True⟩ (fun r w => r = true ∧ I w) w := by
  unfold Registry.stillMounted
  split_ifs
  · refine (Prog.wp_bind _ _ _ _).mpr (Prog.wp_mono ?_ (wp_checkMountPoint hA hI h))
    rintro (_ | _ | mounted) w' ⟨hr, h'⟩
    · exact ⟨rfl, h'⟩
    · exact ⟨rfl, h'⟩
    · exact ⟨by simpa using hr, h'⟩
  · exact ⟨rfl, h⟩

end Check

section Mounted
variable {P : Type} [DecidableEq P] {W : Setup} {place : Source → Str → P} {m : Str}
  {t : Caller} {w₀ w : World P}

/-- The mount is cached, and the mounts and the files are those of `w₀`. -/
structure Holds (W : Setup) (m : Str) (w₀ w : World P) : Prop where
  cached : w.reg.mounted.lookup m = some (W.target m)
  mounts : w.mounts = w₀.mounts
  files : w.files = w₀.files

/-- The commands that neither mount nor forget a mount. -/
def Quiet : Registry.Cmd → Prop
  | .evict .. | .mount .. | .putMounted .. => False
  | _ => True

theorem Holds.exec (h : Holds W m w₀ w) {c : Registry.Cmd} (hc : Quiet c) (o : Choice) :
    Holds W m w₀ (exec W place o (.registry t c) w).2 := by
  have hk : ∀ s : Registry.State,
      (Registry.exec t ⟨o.fault, o.timeout⟩ c s).2.mounted = s.mounted := by
    intro s
    cases c with
    | evict | mount | putMounted => exact hc.elim
    | openSlot m' => simp only [Registry.exec, Registry.act]; split <;> rfl
    | poll m' ch => simp only [Registry.exec, Registry.act]; split <;> rfl
    | await m' ch => simp only [Registry.exec, Registry.act]; split_ifs <;> rfl
    | lock | unlock | cached | start | clearCheck | mkdirAll | seen | putStore => rfl
  have hm : mountsAfter t o c w.mounts = w.mounts := by
    cases c with
    | mount => exact hc.elim
    | _ => rfl
  refine ⟨?_, hm.trans h.mounts, h.files⟩
  change (Registry.exec t _ c (arrived w.reg o)).2.mounted.lookup m = _
  rw [hk, arrived_mounted]
  exact h.cached

/-- The weakest precondition of a part of `Get` that is not disturbed. -/
abbrev gwp (W : Setup) (place : Source → Str → P) (m : Str) (t : Caller) {α : Type}
    (p : Registry.Run α) (Q : α → World P → Prop) (w : World P) : Prop :=
  p.wp ⟨fun o c w => Controller.exec W place o (.registry t c) w, fun _ _ o => Undisturbed m o,
    fun _ _ _ => True⟩ Q w

theorem gwp_issue {c : Registry.Cmd} {Q : Registry.Resp c → World P → Prop} (hc : Quiet c)
    (hq : ∀ o, Undisturbed m o → Holds W m w₀ (exec W place o (.registry t c) w).2 →
      Q (exec W place o (.registry t c) w).1 (exec W place o (.registry t c) w).2)
    (h : Holds W m w₀ w) : gwp W place m t (Registry.issue c) Q w :=
  fun o ho => ⟨trivial, hq o ho (h.exec hc o)⟩

theorem gwp_verified (h : Holds W m w₀ w) :
    gwp W place m t (Registry.verified W m)
      (fun r w' => r = some (W.target m) ∧ Holds W m w₀ w') w := by
  have hI : ∀ w c o, Checking c → Undisturbed m o → Holds W m w₀ w →
      Holds W m w₀ (exec W place o (.registry t c) w).2 := by
    intro w c o hc _ h
    refine h.exec ?_ o
    cases c <;> trivial
  refine (Prog.wp_bind _ _ _ _).mpr (gwp_issue trivial ?_ h)
  intro o _ h'
  have hc : (exec W place o (.registry t (.cached m)) w).1 = some (W.target m) := by
    simpa [exec, Registry.exec, Registry.act] using h.cached
  rw [hc]
  refine (Prog.wp_bind _ _ _ _).mpr (Prog.wp_mono ?_
    (wp_stillMounted (fun _ _ _ ho => ho.answers) hI h'))
  rintro r w' ⟨rfl, h''⟩
  exact ⟨rfl, h''⟩

theorem gwp_storeDir {cfg : Config} (hm : cfg.mountID W.hash = m) (h : Holds W m w₀ w) :
    gwp W place m t (Registry.storeDir W cfg (W.target m)).run
      (fun r w' => r = .ok (W.storePath cfg) ∧ Holds W m w₀ w') w := by
  unfold Registry.storeDir Setup.storePath
  rw [hm]
  split_ifs
  · exact ⟨rfl, h⟩
  · have hmk : ∀ {w : World P}, Holds W m w₀ w → gwp W place m t
        (Registry.mkdirAll (join (W.target m) cfg.subDir)).run
        (fun r w' => r = .ok () ∧ Holds W m w₀ w') w := by
      intro w h
      unfold Registry.mkdirAll
      rw [gwp, Prog.wp_attempt]
      refine gwp_issue trivial ?_ h
      intro o ho h'
      refine ⟨?_, h'⟩
      simp [exec, Registry.exec, Registry.act, ho.fault, Registry.okUnless, Except.mapError]
    rw [gwp, Prog.wp_run_bind, Prog.wp_always]
    refine gwp_issue trivial ?_ h
    intro o _ h'
    generalize (exec W place o (.registry t (.seen (cfg.storeID W.hash))) w).1 = seen
    cases seen with
    | false =>
      refine (Prog.wp_run_bind (Registry.mkdirAll _) _ _ _).mpr (Prog.wp_mono ?_ (hmk h'))
      rintro r w' ⟨rfl, h''⟩
      exact ⟨rfl, h''⟩
    | true => exact ⟨rfl, h'⟩

theorem gwp_get {cfg : Config} (hm : cfg.mountID W.hash = m) (h : Holds W m w₀ w) :
    gwp W place m t (Registry.get W cfg)
      (fun r w' => r = .ok (W.storePath cfg) ∧ Holds W m w₀ w') w := by
  unfold Registry.get Registry.getLocked
  rw [hm]
  refine (Prog.wp_bind _ _ _ _).mpr (gwp_issue trivial ?_ h)
  intro o _ h
  rw [Prog.wp_bind, Prog.wp_run_bind, Prog.wp_always]
  refine Prog.wp_mono ?_ (gwp_verified h)
  rintro r w' ⟨rfl, h'⟩
  refine (Prog.wp_run_bind (Registry.storeDir W cfg _) _ _ _).mpr (Prog.wp_mono ?_ (gwp_storeDir hm h'))
  rintro r w' ⟨rfl, h'⟩
  refine (Prog.wp_run_bind _ _ _ _).mpr ((Prog.wp_always _ _ _).mpr (gwp_issue trivial ?_ h'))
  intro o _ h'
  refine (Prog.wp_bind _ _ _ _).mpr (gwp_issue trivial ?_ h')
  intro o _ h'
  exact ⟨rfl, h'⟩

/-- The machine of a request that is not disturbed. -/
abbrev uwp (W : Setup) (place : Source → Str → P) (m : Str) {α : Type} (p : Run α)
    (Q : α → World P → Prop) (w : World P) : Prop :=
  p.wp ⟨Controller.exec W place, fun _ _ o => Undisturbed m o, fun _ _ _ => True⟩ Q w

theorem uwp_registryGet {cfg : Config} (hm : cfg.mountID W.hash = m) (h : Holds W m w₀ w) :
    uwp W place m (registryGet W cfg)
      (fun r w' => r = .ok (W.storePath cfg) ∧ Holds W m w₀ w') w := by
  have hget : gwp W place m ⟨0, cfg.mountID W.hash⟩ (Registry.get W cfg)
      (fun r w' => r = .ok (W.storePath cfg) ∧ Holds W m w₀ w') w := gwp_get hm h
  exact (Prog.wp_lift _ _ _ _ _).mpr hget

theorem Holds.image (h : Holds W m w₀ w) {o : Choice} {root : Str} {c : Image.Cmd}
    (hc : (Image.exec ⟨o.fault, o.isDir, o.subdirs⟩ c (w.files (w.dir W place root))).2 =
      w.files (w.dir W place root)) :
    Holds W m w₀ (Controller.exec W place o (.image root c) w).2 := by
  refine ⟨h.cached, h.mounts, ?_⟩
  change Function.update w.files _ _ = _
  rw [hc, Function.update_eq_self]
  exact h.files

theorem uwp_new {root : Str} (h : Holds W m w₀ w) :
    uwp W place m (inStore root (Image.new root))
      (fun r w' => r = .ok () ∧ Holds W m w₀ w') w := by
  refine (Prog.wp_lift _ _ _ _ _).mpr ?_
  unfold Image.new
  rw [Prog.wp_run_bind, Prog.wp_attempt]
  intro o ho
  refine ⟨trivial, ?_⟩
  have hd : (exec W place o (.image root .statRoot) w).1 = .ok true := by
    simp [exec, Image.exec, Image.answer, ho.fault, ho.isDir]
  simp only [hd]
  have h' : Holds W m w₀ (exec W place o (.image root .statRoot) w).2 := h.image rfl
  exact ⟨rfl, h'⟩

theorem uwp_create_existing {root v : Str} {capacity : ℤ} {unformatted : Bool} {f : Image.File}
    (hv : Image.validateVolumeID v = .ok ()) (hpos : 0 < capacity) (h : Holds W m w₀ w)
    (hf : (w₀.files (w₀.dir W place root)).files.lookup (imageFile v) = some f) :
    uwp W place m (inStore root (Image.create root v capacity unformatted))
      (fun r w' => r = adopted v capacity f.size ∧ w'.files = w₀.files) w := by
  refine (Prog.wp_lift _ _ _ _ _).mpr ?_
  unfold Image.create
  rw [Prog.wp_run_bind, hv]
  refine (Prog.wp_run_bind _ _ _ _).mpr ?_
  rw [if_neg (by omega)]
  refine (Prog.wp_run_bind _ _ _ _).mpr ((Prog.wp_attempt _ _ _ _).mpr ?_)
  intro o ho
  refine ⟨trivial, ?_⟩
  have hdir : w.dir W place root = w₀.dir W place root := by
    unfold World.dir
    rw [h.mounts]
  have hs : (exec W place o (.image root (.stat (imageFile v))) w).1 = .ok (some f.size) := by
    simp [exec, Image.exec, Image.answer, ho.fault, hdir, h.files, hf]
  simp only [hs]
  have h' : Holds W m w₀ (exec W place o (.image root (.stat (imageFile v))) w).2 := h.image rfl
  exact ⟨rfl, h'.files⟩

/-- What `CreateVolume` answers for `n` required bytes when the image is there. -/
def retried (W : Setup) (req : CreateVolumeRequest) (cfg : Config) (v : Str) (n size : ℤ) :
    Except Status Volume :=
  if size = alignUp n then .ok ⟨v, size, volumeContext W.hash req.params cfg false,
    topologyForCfg cfg req.accessibility⟩
  else .error (createStatus (.mismatch (alignUp n) size))

theorem alignedCapacity_required {r : CapacityRange} (hn : 0 < r.requiredBytes)
    (hl : r.limitBytes ≤ 0) : alignedCapacity (some r) = .ok (alignUp r.requiredBytes) := by
  simp [alignedCapacity, hn, hl]

theorem validateVolumeID_ok {hash : Str → Str} {cfg : Config} {name v : Str}
    (h : volumeIDFromName hash cfg name = .ok v)
    (hhash : ∀ c ∈ cfg.storeID hash, isHex c = true) : Image.validateVolumeID v = .ok () := by
  obtain ⟨-, hv⟩ := volumeIDFromName_ok h
  unfold volumeIDFromName at h
  split_ifs at h with hn
  have hbad : ∀ c ∈ invalidChars, c ∉ ['f', 'b', '-'] ∧ isHex c = false := by
    simp [invalidChars, isHex]
  have hclean : ∀ c ∈ invalidChars, c ∉ v := by
    intro c hc hm
    rw [hv] at hm
    rcases List.mem_append.mp hm with hm | hm
    · rcases List.mem_append.mp hm with hm | hm
      · exact (hbad c hc).1 hm
      · exact absurd (hhash c hm) (by simp [(hbad c hc).2])
    · rcases List.mem_cons.mp hm with rfl | hm
      · exact (hbad _ hc).1 (by simp)
      · exact hn (List.any_eq_true.mpr ⟨c, hm, by simpa using hc⟩)
  unfold Image.validateVolumeID
  rw [if_neg (by simp [hv]), if_neg]
  intro ha
  obtain ⟨c, hm, hc⟩ := List.any_eq_true.mp ha
  exact hclean c (of_decide_eq_true hc) hm

theorem adopted_alignUp (v : Str) {n : ℤ} (hn : 0 < n) (hn' : n < 2 ^ 62) (size : ℤ) :
    adopted v (alignUp n) size =
      if size = alignUp n then .ok ⟨v, size⟩ else .error (.mismatch (alignUp n) size) := by
  unfold Image.adopted
  rw [Image.alignUp_alignUp hn.le hn']
  by_cases h : size = alignUp n
  · simp [h]
  · simp [h]

theorem uwp_createVolume_existing {req : CreateVolumeRequest} {cfg : Config} {v : Str}
    {r : CapacityRange} {f : Image.File} (hreq : createChecks req = .ok (cfg, false))
    (hname : volumeIDFromName W.hash cfg req.name = .ok v) (hcap : req.capacity = some r)
    (hn : 0 < r.requiredBytes) (hn' : r.requiredBytes < 2 ^ 62) (hl : r.limitBytes ≤ 0)
    (hm : w.reg.mounted.lookup (cfg.mountID W.hash) = some (W.target (cfg.mountID W.hash)))
    (hf : (w.files (w.dir W place (W.storePath cfg))).files.lookup (imageFile v) = some f) :
    uwp W place (cfg.mountID W.hash) (createVolume W req).run
      (fun a w' => a = retried W req cfg v r.requiredBytes f.size ∧ w'.files = w.files) w := by
  have hpos : 0 < alignUp r.requiredBytes := by
    rw [Image.alignUp_eq hn.le (by omega)]
    omega
  have hv := validateVolumeID_ok hname (W.hash_hex _)
  unfold createVolume
  rw [hreq]
  refine (Prog.wp_run_bind _ _ _ _).mpr ?_
  refine (Prog.wp_run_bind _ _ _ _).mpr ((Prog.wp_attempt _ _ _ _).mpr ?_)
  refine Prog.wp_mono ?_ (uwp_registryGet rfl ⟨hm, rfl, rfl⟩)
  rintro _ w₁ ⟨rfl, h₁⟩
  refine (Prog.wp_run_bind _ _ _ _).mpr ((Prog.wp_attempt _ _ _ _).mpr ?_)
  refine Prog.wp_mono ?_ (uwp_new h₁)
  rintro _ w₂ ⟨rfl, h₂⟩
  rw [hcap, alignedCapacity_required hn hl, hname]
  refine (Prog.wp_run_bind _ _ _ _).mpr ?_
  refine (Prog.wp_run_bind _ _ _ _).mpr ?_
  refine (Prog.wp_run_bind _ _ _ _).mpr ?_
  refine (Prog.wp_run_bind _ _ _ _).mpr ((Prog.wp_attempt _ _ _ _).mpr ?_)
  refine Prog.wp_mono ?_ (uwp_create_existing hv hpos h₂ hf)
  rintro _ w₃ ⟨rfl, hfiles⟩
  rw [adopted_alignUp v hn hn']
  unfold retried
  split_ifs
  · exact ⟨rfl, hfiles⟩
  · exact ⟨rfl, hfiles⟩

/-- A create that is repeated finds its image: one of the size asked for, rounded or not,
is adopted with its own size, one of another size is refused, and no file is changed. -/
structure Matches (n size : ℤ) (w : World P) (a : Except Status Volume × World P) : Prop where
  adopts : size = n ∨ size = alignUp n → ∃ v, a.1 = .ok v ∧ v.capacityBytes = size
  refuses : size ≠ n → size ≠ alignUp n → ∃ e, a.1 = .error e ∧ e.code = .alreadyExists
  untouched : a.2.files = w.files

/-- The size that was asked for is rounded before it is compared, so an image of that very
size is adopted only when rounding has nothing to do. -/
theorem create_matches_iff {req : CreateVolumeRequest} {cfg : Config} {v : Str}
    {r : CapacityRange} {f : Image.File} {o : ℕ → Choice}
    (hreq : createChecks req = .ok (cfg, false))
    (hname : volumeIDFromName W.hash cfg req.name = .ok v) (hcap : req.capacity = some r)
    (hn : 0 < r.requiredBytes) (hn' : r.requiredBytes < 2 ^ 62) (hl : r.limitBytes ≤ 0)
    (hm : w.reg.mounted.lookup (cfg.mountID W.hash) = some (W.target (cfg.mountID W.hash)))
    (hf : (w.files (w.dir W place (W.storePath cfg))).files.lookup (imageFile v) = some f)
    (ho : ∀ i, Undisturbed (cfg.mountID W.hash) (o i)) :
    Matches r.requiredBytes f.size w ((createVolume W req).run.eval (exec W place) o w) ↔
      r.requiredBytes % 4096 = 0 ∨ f.size ≠ r.requiredBytes := by
  obtain ⟨⟨ha, hfiles⟩, -⟩ := Prog.wp_eval
    (uwp_createVolume_existing hreq hname hcap hn hn' hl hm hf)
    (o := o) fun e he => by
      obtain ⟨i, hi⟩ := Prog.events_choice he
      rw [hi]
      exact ho i
  have hround := Image.alignUp_eq_self_iff hn.le hn'
  constructor
  · intro h
    by_contra hne
    obtain ⟨h1, h2⟩ : ¬ r.requiredBytes % 4096 = 0 ∧ f.size = r.requiredBytes := by
      simpa using hne
    obtain ⟨v', hv', -⟩ := h.adopts (Or.inl h2)
    rw [ha, retried, if_neg (by rw [h2]; exact fun he => h1 (hround.mp he.symm))] at hv'
    cases hv'
  · intro h
    refine ⟨?_, ?_, hfiles⟩
    · intro hs
      have hs' : f.size = alignUp r.requiredBytes := by
        rcases hs with hs | hs
        · rw [hs, hround.mpr (h.resolve_right fun hne => hne hs)]
        · exact hs
      rw [ha, retried, if_pos hs']
      exact ⟨_, rfl, rfl⟩
    · intro _ hs
      rw [ha, retried, if_neg hs]
      exact ⟨_, rfl, rfl⟩

end Mounted

section Examples

/-- A request for a volume on the export `b` of `a`, in the directory `c`. -/
def teamRequest (n : ℤ) : CreateVolumeRequest where
  name := "p"
  capabilities := [⟨.mount "" [], .singleNodeWriter⟩]
  params := [(paramType, "nfs"), (paramNFSServer, "a"), (paramNFSPath, "b"), (paramNFSSubDir, "c")]
  capacity := some ⟨n, 0⟩
  accessibility := none

def teamVolume : Str := "fb-".toList ++ Registry.zeros ++ "-p".toList

def teamWorld (f : Image.File) : World Unit where
  reg := Registry.initial (AList.singleton Registry.zeros (Registry.smallSite.target Registry.zeros))
    fun _ => true
  mounts _ := [Registry.team]
  files _ := ⟨AList.singleton (imageFile teamVolume) f, 1⟩

def smooth : Choice := ⟨none, false, [], false, true, [], 0, 0⟩

theorem undisturbed_smooth (m : Str) : Undisturbed m smooth :=
  ⟨rfl, rfl, fun _ ha => absurd ha List.not_mem_nil⟩

theorem createChecks_teamRequest (n : ℤ) :
    createChecks (teamRequest n) = .ok (Registry.team, false) := by
  rfl

theorem create_matches_aligned :
    Matches 8192 8192 (teamWorld ⟨0, 8192, true⟩) ((createVolume Registry.smallSite
      (teamRequest 8192)).run.eval (exec Registry.smallSite fun _ _ => ()) (fun _ => smooth)
      (teamWorld ⟨0, 8192, true⟩)) :=
  (create_matches_iff (r := ⟨8192, 0⟩) (f := ⟨0, 8192, true⟩) (createChecks_teamRequest 8192)
    rfl rfl (by decide) (by decide) (by decide) rfl rfl
    fun _ => undisturbed_smooth _).mpr (Or.inl (by decide))

/-- An image of 5000 bytes is refused to a request for 5000 bytes. -/
theorem create_refuses_unrounded :
    createChecks (teamRequest 5000) = .ok (Registry.team, false) ∧
      volumeIDFromName Registry.smallSite.hash Registry.team "p".toList = .ok teamVolume ∧
      ((teamWorld ⟨0, 5000, true⟩).files (.backing ())).files.lookup (imageFile teamVolume) =
        some ⟨0, 5000, true⟩ ∧
      ∃ e, ((createVolume Registry.smallSite (teamRequest 5000)).run.eval
        (exec Registry.smallSite fun _ _ => ()) (fun _ => smooth) (teamWorld ⟨0, 5000, true⟩)).1 =
          .error e ∧ e.code = .alreadyExists :=
  ⟨rfl, rfl, rfl, _, rfl, rfl⟩

end Examples
end Fileblock.Controller
