import Fileblock.Monitor.Pace

/-! Which pods the monitor deletes: whatever the requests do while a pass works through
its snapshot, a delete is for a pod that the snapshot shows on the failed device. -/
namespace Fileblock.Monitor
open Go Interaction
open Node (MountInfo Mapping PublishTarget lastAt publishTargets podVolume)

/-- The newest event that `f` tells something of tells `v`. -/
def Latest {β : Type} (f : Event → Option β) (v : β) (log : List Event) : Prop :=
  log.findSome? f = some v

/-- What the API answered with to a listing of the pods. -/
def Event.listing : Event → Option (ℕ × Except Err (List Pod))
  | ⟨n, .listPods, pods⟩ => some (n, pods)
  | _ => none

/-- The failure time recorded for a volume. -/
def Event.recorded (id : Str) : Event → Option (ℕ × Option ℕ)
  | ⟨n, .failedAt id', t⟩ => if id' = id then some (n, t) else none
  | _ => none

/-- Commands that tell nothing of pods and failure times. -/
def Cmd.plain : Cmd → Bool
  | .listPods | .failedAt _ => false
  | _ => true

section Latest
variable {β : Type} {f : Event → Option β} {v : β} {o : Choice} {c : Cmd} {s : State}

theorem Latest.exec (h : Latest f v s.log) (hf : ∀ r, f ⟨s.passes, c, r⟩ = none) :
    Latest f v (exec o c s).2.log := by
  unfold Latest
  rw [exec_log, List.findSome?_cons, hf]
  exact h

theorem latest_exec (hf : f ⟨s.passes, c, (exec o c s).1⟩ = some v) :
    Latest f v (exec o c s).2.log := by
  unfold Latest
  rw [exec_log, List.findSome?_cons, hf]

end Latest

/-- A pod that may be deleted for a failure at the time. -/
structure Deletable (p : Pod) (failed : ℕ) : Prop where
  owner : p.controllerOwner ≠ none
  alive : p.deletionTimestamp = none
  start : ∃ t, p.startTime = some t ∧ t < failed

theorem deletable_of_skipReason {p : Pod} {failedAt : ℕ} (h : skipReason p failedAt = none) :
    Deletable p failedAt := by
  unfold skipReason at h
  split_ifs at h with h1 h2
  refine ⟨h1, not_not.mp h2, ?_⟩
  cases hs : p.startTime with
  | none => simp [hs] at h
  | some t =>
    simp only [hs] at h
    split_ifs at h with hlt
    exact ⟨t, rfl, hlt⟩

/-- The pod has a pod volume mount on the device. -/
def Uses (entries : List MountInfo) (device : Node.Source) (p : Pod) : Prop :=
  ∃ row ∈ entries, row.device = device ∧ podVolume row.mountPoint = some p.uid

theorem mem_usersOf {pods : List Pod} {targets : List PublishTarget} {p : Pod}
    (h : p ∈ usersOf pods targets) : p ∈ pods ∧ ∃ t ∈ targets, t.podUID = p.uid := by
  unfold usersOf at h
  obtain ⟨t, ht, hl⟩ := List.mem_filterMap.mp h
  rw [StrMap.lookup_fill, Option.map_eq_some_iff] at hl
  obtain ⟨q, hq, rfl⟩ := hl
  obtain ⟨hmem, huid⟩ := List.mem_filter.mp (List.mem_of_getLast? hq)
  exact ⟨hmem, t, ht, (of_decide_eq_true huid).symm⟩

theorem uses_of_mem {entries : List MountInfo} {device : Node.Source} {pods : List Pod} {p : Pod}
    (h : p ∈ usersOf pods (publishTargets entries device)) : p ∈ pods ∧ Uses entries device p := by
  obtain ⟨hp, t, ht, huid⟩ := mem_usersOf h
  refine ⟨hp, ?_⟩
  unfold publishTargets at ht
  obtain ⟨row, hrow, hr⟩ := List.mem_filterMap.mp ht
  split_ifs at hr with hd
  obtain ⟨uid, hu, rfl⟩ := Option.map_eq_some_iff.mp hr
  exact ⟨row, hrow, hd, hu.trans (congrArg some huid)⟩

/-- The pod has a volume mount on the device of the mount that is visible at the path. -/
def Publishes (entries : List MountInfo) (path : Str) (p : Pod) : Prop :=
  ∃ e, lastAt entries path = some e ∧ Uses entries e.device p

/-- Why a pod is deleted for a volume, by a pass over `vols` whose snapshot is `entries`:
automatic deletion is on; in the snapshot the mount visible at the staging path of the
volume was forced read-only, and the pod had a volume mount on its device; and the pod is
in the listing of the pass, and may be deleted for the failure time that is recorded. -/
structure Justified (auto : Bool) (entries : List MountInfo) (vols : List Mapping) (n : ℕ)
    (log : List Event) (id : Str) (p : Pod) : Prop where
  auto : auto = true
  snapshot : ∃ vol ∈ vols, vol.volumeID = id ∧
    ∃ e, lastAt entries vol.stagePath = some e ∧ e.forcedReadOnly = true ∧ Uses entries e.device p
  listed : ∃ pods, Latest Event.listing (n, .ok pods) log ∧ p ∈ pods
  recorded : ∃ failed, Latest (Event.recorded id) (n, some failed) log ∧ Deletable p failed

section Passes
variable {kube auto : Bool} {entries : List MountInfo} {vols : List Mapping} {s : State} {β : Type}

/-- The weakest precondition of a part of the pass in which every delete is justified. -/
abbrev jwp (auto : Bool) (entries : List MountInfo) (vols : List Mapping) (p : Run β)
    (Q : β → State → Prop) (s : State) : Prop :=
  p.wp ⟨exec, fun _ _ _ => True, fun s c _ => ∀ id t p, c = .deletePod id t p →
    Justified auto entries vols s.passes s.log id p⟩ Q s

theorem jwp_issue {c : Cmd} {Q : Resp c → State → Prop} (hc : c.quiet = true)
    (h : ∀ o, Q (exec o c s).1 (exec o c s).2) : jwp auto entries vols (issue c) Q s := by
  intro o _
  refine ⟨?_, h o⟩
  rintro id t p rfl
  cases hc

theorem jwp_plain {p : Run β} {I : State → Prop}
    (hI : ∀ s c o, c.plain = true → I s → I (exec o c s).2)
    (hp : p.All fun c => c.quiet = true ∧ c.plain = true) (h : I s) :
    jwp auto entries vols p (fun _ s => I s) s := by
  refine Prog.wp_of_all (fun s c o hc _ hs => ⟨?_, hI s c o hc.2 hs⟩) hp h
  rintro id t p rfl
  cases hc.1

/-- The failure time of the volume has been read, … -/
def Recorded (id : Str) (failedAt : Option ℕ) (s : State) : Prop :=
  Latest (Event.recorded id) (s.passes, failedAt) s.log

/-- … and the pods have been listed. -/
def Listed (pods : List Pod) (s : State) : Prop := Latest Event.listing (s.passes, .ok pods) s.log

variable {vol : Mapping} {e : MountInfo} {failedAt : Option ℕ} {pods : List Pod} {c : Cmd}
  {o : Choice}

theorem Recorded.exec {id : Str} (h : Recorded id failedAt s)
    (hc : ∀ r, Event.recorded id ⟨s.passes, c, r⟩ = none) :
    Recorded id failedAt (exec o c s).2 := by
  unfold Recorded
  rw [exec_passes]
  exact Latest.exec h hc

theorem Listed.exec (h : Listed pods s) (hc : ∀ r, Event.listing ⟨s.passes, c, r⟩ = none) :
    Listed pods (exec o c s).2 := by
  unfold Listed
  rw [exec_passes]
  exact Latest.exec h hc

theorem Recorded.plain {id : Str} (h : Recorded id failedAt s) (hc : c.plain = true)
    (o : Choice) : Recorded id failedAt (Monitor.exec o c s).2 := by
  apply h.exec
  intro r
  cases c <;> first | rfl | cases hc

/-- What a pass knows when it goes through the pods of a volume. -/
structure Informed (id : Str) (failedAt : Option ℕ) (pods : List Pod) (s : State) : Prop where
  recorded : Recorded id failedAt s
  listed : Listed pods s

theorem Informed.plain {id : Str} (h : Informed id failedAt pods s) (hc : c.plain = true)
    (o : Choice) : Informed id failedAt pods (exec o c s).2 := by
  refine ⟨h.recorded.plain hc o, h.listed.exec ?_⟩
  intro r
  cases c <;> first | rfl | cases hc

theorem informed_listPods {id : Str} (h : Recorded id failedAt s)
    (hl : (exec o .listPods s).1 = .ok pods) :
    Informed id failedAt pods (exec o .listPods s).2 := by
  refine ⟨h.exec fun _ => rfl, ?_⟩
  unfold Listed
  rw [exec_passes]
  exact latest_exec (by simp [Event.listing, hl])

theorem recorded_failedAt (id : Str) (o : Choice) (s : State) :
    Recorded id (exec o (.failedAt id) s).1 (exec o (.failedAt id) s).2 := by
  unfold Recorded
  rw [exec_passes]
  exact latest_exec (by simp [Event.recorded])

section Volume
variable (hvol : vol ∈ vols) (hlast : lastAt entries vol.stagePath = some e)
  (hforced : e.forcedReadOnly = true)
include hvol hlast hforced

theorem justified_of_skipReason {p : Pod} (h : Informed vol.volumeID failedAt pods s)
    (hp : p ∈ pods) (hu : Uses entries e.device p) (hs : skipReason p (failedAt.getD 0) = none) :
    Justified true entries vols s.passes s.log vol.volumeID p := by
  refine ⟨rfl, ⟨vol, hvol, rfl, e, hlast, hforced, hu⟩, ⟨pods, h.listed, hp⟩, ?_⟩
  have hd := deletable_of_skipReason hs
  cases hf : failedAt with
  | none =>
    obtain ⟨t, -, hlt⟩ := hd.start
    rw [hf] at hlt
    exact absurd hlt (Nat.not_lt_zero t)
  | some failed =>
    refine ⟨failed, hf ▸ h.recorded, ?_⟩
    rwa [hf] at hd

theorem jwp_deletes {now : ℕ} (users : List Pod) (attempted : Bool)
    (hu : ∀ p ∈ users, p ∈ pods ∧ Uses entries e.device p)
    (h : Informed vol.volumeID failedAt pods s) :
    jwp true entries vols (deletes vol.volumeID now (failedAt.getD 0) users attempted)
      (fun _ _ => True) s := by
  induction users generalizing attempted s with
  | nil => trivial
  | cons p ps ih =>
    have hps : ∀ q ∈ ps, q ∈ pods ∧ Uses entries e.device q :=
      fun q hq => hu q (List.mem_cons_of_mem _ hq)
    unfold deletes jwp
    cases hs : skipReason p (failedAt.getD 0) with
    | some reason =>
      dsimp only
      rw [Prog.wp_bind]
      exact Prog.wp_mono (fun _ s hi => ih attempted hps hi)
        (jwp_plain (fun _ _ o hc hi => hi.plain hc o)
          (skip_all ⟨rfl, rfl⟩ (fun _ => ⟨rfl, rfl⟩) _) h)
    | none =>
      dsimp only
      rw [Prog.wp_bind]
      intro o _
      refine ⟨?_, ih true hps (h.plain rfl o)⟩
      rintro id t q hc
      obtain ⟨rfl, -, rfl⟩ := Cmd.deletePod.inj hc
      obtain ⟨hp, huse⟩ := hu p List.mem_cons_self
      exact justified_of_skipReason hvol hlast hforced h hp huse hs

theorem jwp_remediate {now : ℕ} {users : List Pod}
    (hu : ∀ p ∈ users, p ∈ pods ∧ Uses entries e.device p)
    (h : Informed vol.volumeID failedAt pods s) :
    jwp true entries vols (remediate vol.volumeID now (failedAt.getD 0) users)
      (fun _ _ => True) s := by
  unfold remediate jwp
  rw [Prog.wp_bind]
  refine jwp_issue rfl fun o => ?_
  split_ifs
  · trivial
  · rw [Prog.wp_bind]
    refine Prog.wp_mono ?_ (jwp_deletes hvol hlast hforced users false hu (h.plain rfl o))
    intro attempted s _
    cases attempted with
    | false => trivial
    | true =>
      intro o _
      refine ⟨?_, trivial⟩
      intro _ _ _ hc
      cases hc

theorem jwp_withPods {now : ℕ} (h : Recorded vol.volumeID failedAt s) :
    jwp auto entries vols (withPods auto vol e entries now (failedAt.getD 0))
      (fun _ _ => True) s := by
  unfold withPods jwp
  rw [Prog.wp_bind]
  refine jwp_issue rfl fun o => ?_
  rw [Prog.wp_bind]
  refine Prog.wp_mono ?_ (jwp_plain (I := Recorded vol.volumeID failedAt)
    (fun _ _ o hc h => h.plain hc o) (needPods_all ⟨rfl, rfl⟩ ..) (h.plain rfl o))
  intro need s h
  cases need with
  | false => trivial
  | true =>
    rw [if_pos rfl, Prog.wp_bind]
    refine jwp_issue rfl fun o => ?_
    cases hl : (exec o .listPods s).1 with
    | error e => trivial
    | ok pods =>
      dsimp only
      rw [Prog.wp_bind]
      refine Prog.wp_mono ?_ (jwp_plain (I := Informed vol.volumeID failedAt pods)
        (fun _ _ o hc h => h.plain hc o) (notify_all ⟨rfl, rfl⟩ (fun _ _ => ⟨rfl, rfl⟩) ..)
        (informed_listPods h hl))
      intro _ s h
      cases auto with
      | true => exact jwp_remediate hvol hlast hforced (fun p hp => uses_of_mem hp) h
      | false => exact jwp_issue rfl fun _ => trivial

theorem jwp_handleFailed :
    jwp auto entries vols (handleFailed kube auto vol e entries) (fun _ _ => True) s := by
  unfold handleFailed jwp
  rw [Prog.wp_bind]
  refine jwp_issue rfl fun o => ?_
  rw [Prog.wp_bind]
  refine jwp_issue rfl fun o' => ?_
  rw [Prog.wp_bind]
  refine jwp_issue rfl fun o'' => ?_
  rw [Prog.wp_bind]
  refine Prog.wp_mono ?_ (jwp_plain (I := Recorded vol.volumeID _)
    (fun _ _ o hc h => h.plain hc o) (forgetIf_all ⟨rfl, rfl⟩ _) (recorded_failedAt vol.volumeID o'' _))
  intro _ s h
  cases kube with
  | true => exact jwp_withPods hvol hlast hforced h
  | false => trivial

end Volume

theorem jwp_tickVolume (hvol : vol ∈ vols) :
    jwp auto entries vols (tickVolume kube auto entries vol) (fun _ _ => True) s := by
  unfold tickVolume
  cases hlast : lastAt entries vol.stagePath with
  | none => exact jwp_issue rfl fun _ => trivial
  | some e =>
    dsimp only
    split_ifs with hforced
    · exact jwp_handleFailed hvol hlast hforced
    · unfold jwp
      rw [Prog.wp_bind]
      exact jwp_issue rfl fun _ => jwp_issue rfl fun _ => trivial

theorem jwp_each_tickVolume :
    jwp auto entries vols (Prog.each (tickVolume kube auto entries) vols) (fun _ _ => True) s := by
  refine Prog.wp_each (I := fun vs _ => vs ⊆ vols) ?_ (fun _ _ => trivial) (List.Subset.refl vols)
  intro vol vs s hsub
  obtain ⟨hvol, hvs⟩ := List.cons_subset.mp hsub
  exact Prog.wp_mono (fun _ _ _ => hvs) (jwp_tickVolume hvol)

end Passes

/-- A delete of a pass comes after its snapshot and its list of the volumes. -/
theorem justified_of_mem_events {kube auto : Bool} {s : State} {o : ℕ → Choice}
    {ev : Interaction.Event Cmd Choice State} (hev : ev ∈ (tick kube auto).events exec o s)
    {id : Str} {t : ℕ} {p : Pod} (hd : ev.cmd = .deletePod id t p) :
    ∃ entries, (o 0).mounts = .ok entries ∧
      Justified auto entries (o 1).vols ev.before.passes ev.before.log id p := by
  rcases List.mem_cons.mp hev with rfl | hev
  · cases hd
  · change ev ∈ Prog.events exec (fun i => o (i + 1)) (match (o 0).mounts with
      | .error _ => pure ()
      | .ok entries => do
        let vols ← issue .stateAll
        Prog.each (tickVolume kube auto entries) vols) _ at hev
    cases hm : (o 0).mounts with
    | error e =>
      rw [hm] at hev
      cases hev
    | ok entries =>
      rw [hm] at hev
      rcases List.mem_cons.mp hev with rfl | hev
      · cases hd
      · exact ⟨entries, rfl, (Prog.wp_eval jwp_each_tickVolume fun _ _ => trivial).2 ev hev id t p hd⟩

/-- A pass from any state, with anything at all happening between any two of its
commands: each pod that it deletes is justified by its snapshot, its listing and the
recorded failure time. So for mount tables `table` that change as volumes are staged
again, and a snapshot taken before such a change, a pod that has the volume mounted only
after it is not deleted. -/
theorem deletes_justified (kube auto : Bool) (s : State) (o : ℕ → Choice) :
    (∀ ev ∈ (tick kube auto).events exec o s, ∀ id t p, ev.cmd = .deletePod id t p →
      ∃ entries, (o 0).mounts = .ok entries ∧
        Justified auto entries (o 1).vols ev.before.passes ev.before.log id p) ∧
    ∀ (table : ℕ → List MountInfo) (taken restaged : ℕ) (id : Str) (p : Pod),
      (o 0).mounts = .ok (table taken) → taken ≤ restaged →
      (∀ vol ∈ (o 1).vols, vol.volumeID = id → ∀ t ≤ restaged,
        ¬ Publishes (table t) vol.stagePath p) →
      ∀ ev ∈ (tick kube auto).events exec o s, ∀ t, ev.cmd ≠ .deletePod id t p := by
  refine ⟨fun ev hev id t p hd => justified_of_mem_events hev hd, ?_⟩
  intro table taken restaged id p hm hle hbound ev hev t hd
  obtain ⟨entries, hm', hj⟩ := justified_of_mem_events hev hd
  obtain rfl := Except.ok.inj (hm'.symm.trans hm)
  obtain ⟨vol, hvol, hid, e, hlast, -, huse⟩ := hj.snapshot
  exact hbound vol hvol hid taken hle ⟨e, hlast, huse⟩

def lostPod : Pod where
  name := "web-0".toList
  namespaceName := "default".toList
  uid := "0b6c0d5e-7a0f-4d3c-9a52-1f6f3f0c8e11".toList
  deletionTimestamp := none
  ownerReferences := [⟨"apps/v1".toList, "StatefulSet".toList, "web".toList, some true⟩]
  nodeName := "node-a".toList
  startTime := some 5

/-- The next pod of the set. -/
def latePod : Pod :=
  { lostPod with
    name := "web-1".toList
    uid := "4f0a7c52-93d1-4c1e-8f0b-6a2d1e9b7c30".toList }

/-- Where the pod has a volume. -/
def Pod.target (p : Pod) (volume : Str) : Str :=
  "/var/lib/kubelet/pods/".toList ++ p.uid ++ "/volumes/kubernetes.io~csi/".toList ++ volume ++
    "/mount".toList

/-- A volume whose filesystem was forced read-only under the pod. -/
def lostTable : List MountInfo :=
  [⟨.loop 0, "/stage/v".toList, ["rw"], ["ro"]⟩,
    ⟨.loop 0, lostPod.target "v".toList, ["rw"], ["ro"]⟩]

def lostVolume : Choice where
  wait := 10
  clears := []
  mounts := .ok lostTable
  vols := [⟨"v".toList, some 0, "/img/v".toList, "/stage/v".toList, none, none, []⟩]
  pods := .ok [lostPod, latePod]
  answer := .ok ()

/-- The volume is staged again, for the next pod, after the snapshot of the pass. -/
def restagedTable (t : ℕ) : List MountInfo :=
  if t = 0 then lostTable
  else
    [⟨.loop 1, "/stage/v".toList, ["rw"], []⟩, ⟨.loop 1, latePod.target "v".toList, ["rw"], []⟩]

theorem deletes_justified_lostPod :
    (∃ ev ∈ (tick true true).events exec (fun _ => lostVolume) (fresh 0),
      ev.cmd = .deletePod "v".toList 30 lostPod ∧ ∃ entries, lostVolume.mounts = .ok entries ∧
        Justified true entries lostVolume.vols ev.before.passes ev.before.log "v".toList lostPod) ∧
    ∀ ev ∈ (tick true true).events exec (fun _ => lostVolume) (fresh 0), ∀ t,
      ev.cmd ≠ .deletePod "v".toList t latePod := by
  have hmem := List.mem_of_getElem? (i := 11)
    (l := (tick true true).events exec (fun _ => lostVolume) (fresh 0)) rfl
  have hj := deletes_justified true true (fresh 0) fun _ => lostVolume
  refine ⟨⟨_, hmem, rfl, hj.1 _ hmem _ _ _ rfl⟩, ?_⟩
  refine hj.2 restagedTable 0 0 "v".toList latePod rfl le_rfl ?_
  rintro vol - - t ht ⟨e, -, row, hrow, -, hpod⟩
  rw [Nat.le_zero.mp ht] at hrow
  have hnone : ∀ row ∈ lostTable, podVolume row.mountPoint ≠ some latePod.uid := by decide
  exact hnone row hrow hpod

end Fileblock.Monitor
