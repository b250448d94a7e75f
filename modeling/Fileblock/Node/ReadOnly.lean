import Fileblock.Node.Published

/-! Read-only publishes of one target. Beside the world stands what each mount on the
target is a bind of. -/
namespace Fileblock.Node
open Go Store Interaction

/-- What the mounts stacked on the target are binds of, the newest first. -/
def boundFrom (S : Site) (target : Str) (sources : List Str) : (c : Cmd) → Resp c → List Str
  | .bind source path, .ok _ =>
    if S.resolve path = S.resolve target then source :: sources else sources
  | .umount path, .ok _ => if S.resolve path = S.resolve target then sources.tail else sources
  | _, _ => sources

structure Watched where
  world : World
  sources : List Str

/-- The node, with a record of the binds of the target. -/
def watch (S : Site) (target : Str) (o : Choice) (c : Cmd) (x : Watched) : Resp c × Watched :=
  let r := exec S o c x.world
  (r.1, ⟨r.2, boundFrom S target x.sources c r.1⟩)

/-- No remount of the target fails, and a `findmnt` that fails does not list it. -/
structure RemountsWork (S : Site) (target : Str) (x : Watched) (c : Cmd) (o : Choice) : Prop where
  remount : c = .remountReadOnly target → o.fault = none
  listed : c = .findmntExact target → Genuine S x.world c o

/-- Read-only binds of `source`. -/
def ReadOnlyBinds (source : Str) (stack : List Mount) (sources : List Str) : Prop :=
  List.Forall₂ (fun m s => m.readOnly = true ∧ s = source) stack sources

/-- Every mount on the target is a read-only bind of `source`. -/
structure Bound (S : Site) (target source : Str) (x : Watched) : Prop where
  binds : ReadOnlyBinds source (x.world.stack (S.resolve target)) x.sources
  apart : Apart S (S.resolve target) x.world

/-- The same, but for a newest one, which is not read-only yet. -/
structure Writable (S : Site) (target source : Str) (x : Watched) : Prop where
  binds : ∃ m stack sources, x.world.stack (S.resolve target) = m :: stack ∧ x.sources = source :: sources ∧
    ReadOnlyBinds source stack sources
  apart : Apart S (S.resolve target) x.world

/-- The target is visibly a read-only bind of `source`. -/
def Shown (S : Site) (target source : Str) (x : Watched) : Prop :=
  ∃ m, x.world.top (S.resolve target) = some m ∧ m.readOnly = true ∧ x.sources.head? = some source

section Target
variable {S : Site} {target source : Str} {x : Watched} {c : Cmd} {o : Choice} {id : VolumeID}

theorem boundFrom_untouched (hc : c.touches S (S.resolve target) = false) (sources : List Str) (r : Resp c) :
    boundFrom S target sources c r = sources := by
  cases c with
  | bind s path | umount path =>
    have hp : S.resolve path ≠ S.resolve target := by simpa [Cmd.touches] using hc
    cases r with
    | error e => rfl
    | ok u => exact if_neg hp
  | _ => rfl

theorem Bound.watch (h : Bound S target source x) (hc : Untouched S (S.resolve target) c) :
    Bound S target source (Node.watch S target o c x).2 := by
  refine ⟨?_, h.apart.exec hc⟩
  change ReadOnlyBinds source ((exec S o c x.world).2.stack (S.resolve target))
    (boundFrom S target x.sources c _)
  rw [exec_stack hc.mounts, boundFrom_untouched hc.mounts]
  exact h.binds

theorem watch_eq {r : Resp c} {w : World} (h : exec S o c x.world = (r, w)) :
    watch S target o c x = (r, ⟨w, boundFrom S target x.sources c r⟩) := by
  unfold watch
  rw [h]

theorem Bound.disturb (h : Bound S target source x) (o : Choice) :
    Bound S target source ⟨x.world.disturb o, x.sources⟩ := by
  refine ⟨?_, h.apart.of_state (x.world.disturb_disturbed o).state⟩
  change ReadOnlyBinds source ((x.world.disturb o).stack (S.resolve target)) x.sources
  rw [World.disturb_stack]
  exact h.binds

theorem Bound.umount (h : Bound S target source x) (o : Choice) :
    Bound S target source (Node.watch S target o (.umount target) x).2 := by
  have h' := h.disturb o
  rcases exec_umount S o target x.world with ⟨e, he⟩ | ⟨-, he⟩
  · rw [watch_eq he]
    exact h'
  · rw [watch_eq he]
    refine ⟨?_, h'.apart⟩
    change ReadOnlyBinds source
      (((x.world.disturb o).unmount (S.resolve target)).stack (S.resolve target))
      (if S.resolve target = S.resolve target then x.sources.tail else x.sources)
    rw [if_pos rfl, World.unmount_stack]
    have hb := h'.binds
    dsimp only at hb
    generalize (x.world.disturb o).stack (S.resolve target) = stack at hb
    generalize x.sources = sources at hb
    cases hb with
    | nil => exact .nil
    | cons _ htail => exact htail

theorem Bound.bind (h : Bound S target source x) (o : Choice) :
    (∃ e, Node.watch S target o (.bind source target) x =
        (.error e, ⟨x.world.disturb o, x.sources⟩)) ∨
      ∃ x', Node.watch S target o (.bind source target) x = (.ok (), x') ∧
        Writable S target source x' := by
  have h' := h.disturb o
  rcases exec_bind S o source target x.world with ⟨e, he⟩ | ⟨-, he⟩
  · exact Or.inl ⟨e, watch_eq he⟩
  · refine Or.inr ⟨_, watch_eq he, ⟨_, _, x.sources,
      World.addMount_stack _ (World.bound_target ..), if_pos rfl, h'.binds⟩, h'.apart⟩

theorem Writable.remountReadOnly (h : Writable S target source x) (hf : o.fault = none) :
    ∃ x', Node.watch S target o (.remountReadOnly target) x = (.ok (), x') ∧
      Bound S target source x' ∧ Shown S target source x' := by
  obtain ⟨m, stack, sources, hstack, hsources, hb⟩ := h.binds
  have hd := x.world.disturb_disturbed o
  rcases exec_remountReadOnly S o target x.world with ⟨e, -, hno⟩ | he
  · have hnil := World.stack_eq_nil.mpr (hno hf)
    rw [hstack] at hnil
    cases hnil
  · have hstack' :
        ((x.world.disturb o).remountReadOnly (S.resolve target)).stack (S.resolve target) =
        { m with readOnly := true } :: stack := by
      rw [World.remountReadOnly_stack, if_pos rfl, World.disturb_stack, hstack,
        List.modify_zero_cons]
    refine ⟨_, watch_eq he, ⟨?_, h.apart.of_state hd.state⟩, { m with readOnly := true }, ?_, rfl, ?_⟩
    · change ReadOnlyBinds source
        (((x.world.disturb o).remountReadOnly (S.resolve target)).stack (S.resolve target)) x.sources
      rw [hstack', hsources]
      exact .cons ⟨rfl, rfl⟩ hb
    · rw [World.top_eq_head, hstack']
      rfl
    · change x.sources.head? = some source
      rw [hsources]
      rfl

theorem Bound.shown (h : Bound S target source x) (hm : x.world.mountedAt (S.resolve target) = true) :
    Shown S target source x := by
  have hne := World.mountedAt_iff_stack.mp hm
  have hb := h.binds
  unfold Shown
  rw [World.top_eq_head]
  generalize x.world.stack (S.resolve target) = stack at hb hne
  generalize x.sources = sources at hb
  cases hb with
  | nil => exact absurd rfl hne
  | cons hm _ => exact ⟨_, rfl, hm.1, congrArg some hm.2⟩

/-- The weakest precondition on the node with the record. -/
abbrev bwp (S : Site) (target : Str) {α : Type} (p : Run α) (Q : α → Watched → Prop)
    (x : Watched) : Prop :=
  p.wp ⟨watch S target, RemountsWork S target, fun _ _ _ => True⟩ Q x

theorem bwp_isMountPoint (h : Bound S target source x) :
    bwp S target (isMountPoint target).run
      (fun r x => Bound S target source x ∧ (r = .ok true → Shown S target source x)) x := by
  have hother : ∀ {r : Except Err Bool} {x}, Bound S target source x → r ≠ .ok true →
      Bound S target source x ∧ (r = .ok true → Shown S target source x) :=
    fun h hr => ⟨h, fun hr' => absurd hr' hr⟩
  unfold isMountPoint
  refine (Prog.wp_bind _ _ _ _).mpr fun o _ => ⟨trivial, ?_⟩
  have h1 := h.watch (S := S) (o := o) (c := .stat target) (untouched_of_observes rfl)
  cases (watch S target o (.stat target) x).1 with
  | error e => exact hother h1 (by simp)
  | ok found =>
    cases found with
    | false => exact hother h1 (by simp)
    | true =>
      refine (Prog.wp_bind _ _ _ _).mpr fun o _ => ⟨trivial, ?_⟩
      have h2 := h1.watch (S := S) (o := o) (c := .findmntTarget target) (untouched_of_observes rfl)
      cases (watch S target o (.findmntTarget target) _).1 with
      | error e =>
        change bwp S target (if e.exitCode = 1 then _ else _) _ _
        split_ifs
        · exact hother h2 (by simp)
        · exact hother h2 (by simp)
      | ok u =>
        generalize (watch S target o (.findmntTarget target) _).2 = x at h2
        refine (Prog.wp_bind _ _ _ _).mpr fun o ho => ⟨trivial, ?_⟩
        have h3 := h2.watch (S := S) (o := o) (c := .findmntExact target)
          (untouched_of_observes rfl)
        refine ⟨h3, fun hr => h3.shown ?_⟩
        have hm : (x.world.disturb o).mountedAt (S.resolve target) =
            x.world.mountedAt (S.resolve target) := by
          rw [World.mountedAt, (x.world.disturb_disturbed o).mounts, World.mountedAt]
        have hg : Genuine S (x.world.disturb o) (.findmntExact target) o := by
          intro e he hl
          rw [hm]
          exact ho.listed rfl e he hl
        have hmounted := step_exact hg (Except.ok.inj hr)
        rw [hm] at hmounted
        exact (exec_mountedAt rfl).trans hmounted

theorem bwp_publish (h : Bound S target source x) {req : PublishRequest}
    (hs : req.stagingTargetPath = source) (hro : req.readonly = true) :
    bwp S target (TargetCall.run S target (.publish req))
      (fun r x => Bound S target source x ∧ (r = .ok () → Shown S target source x)) x := by
  have hI : ∀ x c o, Untouched S (S.resolve target) c → Bound S target source x →
      True ∧ Bound S target source (watch S target o c x).2 := fun x c o hc h => ⟨trivial, h.watch hc⟩
  have herr : ∀ (e : Status) x, Bound S target source x →
      Bound S target source x ∧ (Except.error e = .ok () → Shown S target source x) :=
    fun e x h => ⟨h, fun he => by cases he⟩
  refine wp_nodePublishVolume hI (fun x o h m hm => h.apart.get hm) ?_ herr h
  intro x h
  refine wp_bindTarget hI herr (fun x h => ?_) h
  refine Prog.wp_mono ?_ (bwp_isMountPoint h)
  rintro r x ⟨h, hr⟩
  split_ifs with hok
  · exact ⟨h, fun _ => hr hok⟩
  · unfold bindMount shell
    rw [hs, hro]
    refine (Prog.wp_run_bind _ _ _ _).mpr ((Prog.wp_attempt _ _ _ _).mpr fun o _ => ⟨trivial, ?_⟩)
    rcases h.bind (S := S) o with ⟨e, he⟩ | ⟨x', he, h'⟩
    · rw [he]
      exact herr _ _ (h.disturb o)
    · rw [he]
      refine (Prog.wp_attempt _ _ _ _).mpr fun o ho => ⟨trivial, ?_⟩
      obtain ⟨x'', he, h'', hshown⟩ := h'.remountReadOnly (S := S) (ho.remount rfl)
      rw [he]
      exact ⟨h'', fun _ => hshown⟩

theorem bwp_unpublish (h : Bound S target source x) (id : VolumeID) :
    bwp S target (TargetCall.run S target (.unpublish id)) (fun _ x => Bound S target source x) x := by
  refine Prog.wp_of_all (P := fun c => Untouched S (S.resolve target) c ∨ c = .umount target) ?_ ?_ h
  · rintro x c o (hc | rfl) - h
    · exact ⟨trivial, h.watch hc⟩
    · exact ⟨trivial, h.umount o⟩
  · unfold TargetCall.run nodeUnpublishVolume
    dsimp only
    split_ifs
    · exact Prog.all_ret _ _
    · refine Prog.all_run_bind (orStatus_all (unmount_all ?_ ?_ ?_ ?_) _ _) fun _ => ?_
      · exact Or.inl (untouched_of_observes rfl)
      · exact Or.inl (untouched_of_observes rfl)
      · exact Or.inl (untouched_of_observes rfl)
      · exact Or.inr rfl
      · refine Prog.all_run_bind (Prog.All.bind ((Prog.all_perform _ _).mpr ?_) fun _ =>
          Prog.all_ret _ _) fun _ => Prog.all_ret _ _
        exact Or.inl ⟨rfl, fun _ he => by cases he⟩

/-- The publishes of one pod: read-only, and from one staging path. -/
def TargetCall.ReadOnly (source : Str) : TargetCall → Prop
  | .publish req => req.stagingTargetPath = source ∧ req.readonly = true
  | .unpublish _ => True

theorem bwp_call {call : TargetCall} (h : Bound S target source x) (hc : call.ReadOnly source) :
    bwp S target (call.run S target)
      (fun r x => Bound S target source x ∧
        ∀ req, call = .publish req → r = .ok () → Shown S target source x) x := by
  cases call with
  | publish req =>
    refine Prog.wp_mono ?_ (bwp_publish h hc.1 hc.2)
    exact fun r x h => ⟨h.1, fun _ _ => h.2⟩
  | unpublish id =>
    refine Prog.wp_mono ?_ (bwp_unpublish h id)
    exact fun r x h => ⟨h, fun req he => by cases he⟩

/-- Read-only publishes of one staging path at a target that was not mounted: as long as no
remount fails, success means a read-only bind of that path, whatever else fails. -/
theorem readOnly_publish (h : Prog.Runs (watch S target) (RemountsWork S target)
      (fun p => ∃ call : TargetCall, call.ReadOnly source ∧ p = call.run S target)
      (fun x => x.world.mountedAt (S.resolve target) = false ∧
        Apart S (S.resolve target) x.world ∧ x.sources = []) x)
    (req : PublishRequest) (hs : req.stagingTargetPath = source) (hro : req.readonly = true)
    {o : ℕ → Choice}
    (ho : ((TargetCall.publish req).run S target).Admissible (watch S target)
      (RemountsWork S target) o x)
    (hr : (((TargetCall.publish req).run S target).eval (exec S) o x.world).1 = .ok ()) :
    ∃ m, (((TargetCall.publish req).run S target).eval (exec S) o x.world).2.top
        (S.resolve target) = some m ∧
      m.readOnly = true ∧ (((TargetCall.publish req).run S target).eval (watch S target) o
        x).2.sources.head? = some req.stagingTargetPath := by
  have hx : Bound S target source x := by
    refine Prog.Runs.inv (G := fun _ _ _ => True) ?_ ?_ h
    · rintro x ⟨hm, ha, hnil⟩
      refine ⟨?_, ha⟩
      rw [World.stack_eq_nil.mpr hm, hnil]
      exact .nil
    · rintro p x ⟨call, hc, rfl⟩ h
      exact Prog.wp_mono (fun _ _ h => h.1) (bwp_call h hc)
  -- the record is kept beside the node: without it the call does the same
  have hrun : ((TargetCall.publish req).run S target).eval (exec S) o x.world =
      ((((TargetCall.publish req).run S target).eval (watch S target) o x).1,
        (((TargetCall.publish req).run S target).eval (watch S target) o x).2.world) :=
    Prog.eval_map (fun _ _ _ => rfl) o _ x
  rw [hrun] at hr ⊢
  rw [hs]
  exact (Prog.wp_eval (bwp_publish hx hs hro) ho).1.2 hr

end Target

theorem RemountsWork.calm {target : Str} {x : Watched} {p : Run (Except Status Unit)} :
    p.Admissible (watch demoSite target) (RemountsWork demoSite target) (fun _ => .calm) x := by
  intro e he
  obtain ⟨i, hi⟩ := Prog.events_choice he
  have hf : e.choice.fault = none := by
    rw [hi]
    rfl
  exact ⟨fun _ => hf, fun _ => .of_calm hf⟩

theorem readOnly_publish_twice :
    let publish := (TargetCall.publish (podRequest true)).run demoSite podTarget
    let x := (publish.eval (watch demoSite podTarget) (fun _ => .calm) ⟨stagedWorld, []⟩).2
    let r := publish.eval (exec demoSite) (fun _ => .calm) x.world
    r.1 = .ok () ∧ ∃ m, r.2.top podTarget = some m ∧ m.readOnly = true ∧
      (publish.eval (watch demoSite podTarget) (fun _ => .calm) x).2.sources.head? =
        some "/s/a" := by
  intro publish x r
  have hr : r.1 = .ok () := by decide +kernel
  have hrun : Prog.Runs (watch demoSite podTarget) (RemountsWork demoSite podTarget)
      (fun p => ∃ call : TargetCall, call.ReadOnly "/s/a" ∧ p = call.run demoSite podTarget)
      (fun x => x.world.mountedAt (clean podTarget) = false ∧
        Apart demoSite (clean podTarget) x.world ∧ x.sources = []) x :=
    .run _ _ (.init ⟨by decide, stagedWorld_apart, rfl⟩)
      ⟨.publish (podRequest true), ⟨rfl, rfl⟩, rfl⟩ .calm
  exact ⟨hr, readOnly_publish hrun (podRequest true) rfl rfl .calm hr⟩

/-- The remount fails after the bind; the retry finds the target mounted, and leaves it
writable. -/
theorem readOnly_publish_writable :
    let publish := (TargetCall.publish (podRequest true)).run demoSite podTarget
    let r1 := publish.eval (exec demoSite) (failAt 6) stagedWorld
    let r2 := publish.eval (exec demoSite) (fun _ => .calm) r1.2
    stagedWorld.mountedAt podTarget = false ∧ r1.1 ≠ .ok () ∧ r2.1 = .ok () ∧
      r2.2.top podTarget = some ⟨podTarget, .loop 0, false⟩ := by
  decide +kernel

end Fileblock.Node
