import Fileblock.Interaction.Part
import Fileblock.Monitor.Tick
import Fileblock.Node.Runs

/-! The pass of the monitor as the node sees it. To the tables of the node the pass is
`Node.tick`; its clock, its own memory and the API are hidden from them. -/
namespace Fileblock.Monitor
open Go Store Interaction
open Node (MountInfo Mapping)

/-- The commands that do not concern the node. -/
def Cmd.offNode : Cmd → Bool
  | .mountInfo | .stateAll | .mark .. | .failedAt _ | .clear _ => false
  | _ => true

/-- The node knows that a volume is marked, and not since when. -/
inductive Stands : (c : Cmd) → (d : Node.Cmd) → (Resp c → Node.Resp d → Prop) → Prop
  | mountInfo : Stands .mountInfo .mountInfo (Prog.Alike (· = ·))
  | stateAll : Stands .stateAll .stateAll fun r a => r = a
  | mark (id : Str) (t : ℕ) : Stands (.mark id t) (.failedMark id) fun r a => r = a
  | failedAt (id : Str) : Stands (.failedAt id) (.failedGet id) fun r a => r.isSome = a
  | clear (id : Str) : Stands (.clear id) (.failedClear id) fun _ _ => True

def nodeView : View Cmd Resp Node.Cmd Node.Resp := ⟨fun c => c.offNode = true, Stands⟩

section Shows
variable {kube auto : Bool} {entries : List MountInfo} {vol : Mapping} {e : MountInfo}

theorem issue_offNode {c : Cmd} (h : c.offNode = true) : (issue c).All (·.offNode = true) :=
  issue_all h

theorem deletes_offNode (id : Str) (now failedAt : ℕ) (users : List Pod) (attempted : Bool) :
    (deletes id now failedAt users attempted).All (·.offNode = true) := by
  induction users generalizing attempted with
  | nil => exact Prog.all_ret _ _
  | cons p ps ih =>
    unfold deletes
    cases skipReason p failedAt with
    | some reason =>
      exact (skip_all (P := (·.offNode = true)) rfl (fun _ => rfl) reason).bind
        fun _ => ih attempted
    | none => exact Prog.All.bind (issue_offNode rfl) fun _ => ih true

theorem remediate_offNode (id : Str) (now failedAt : ℕ) (users : List Pod) :
    (remediate id now failedAt users).All (·.offNode = true) := by
  unfold remediate
  refine Prog.All.bind (issue_offNode rfl) fun held => ?_
  split_ifs
  · exact Prog.all_ret _ _
  · refine (deletes_offNode id now failedAt users false).bind fun attempted => ?_
    split_ifs
    · exact issue_offNode rfl
    · exact Prog.all_ret _ _

theorem withPods_offNode (now failedAt : ℕ) :
    (withPods auto vol e entries now failedAt).All (·.offNode = true) := by
  unfold withPods
  refine Prog.All.bind (issue_offNode rfl) fun sent => ?_
  refine (needPods_all (P := (·.offNode = true)) rfl auto now sent).bind fun need => ?_
  cases need with
  | false => exact Prog.all_ret _ _
  | true =>
    refine Prog.All.bind (issue_offNode rfl) fun pods => ?_
    cases pods with
    | error e => exact Prog.all_ret _ _
    | ok pods =>
      refine (notify_all (P := (·.offNode = true)) rfl (fun _ _ => rfl) sent _).bind fun _ => ?_
      cases auto with
      | true => exact remediate_offNode vol.volumeID now failedAt _
      | false => exact issue_offNode rfl

theorem handleFailed_shows : (handleFailed kube auto vol e entries).Shows nodeView
    (fun _ _ => True) (Node.handleFailed vol.volumeID) := by
  unfold handleFailed Node.handleFailed
  refine Prog.Shows.hide (issue_offNode rfl) fun now => ?_
  apply (Prog.shows_perform (V := nodeView) (.mark vol.volumeID now)).bind
  intro isNew _ _
  apply (Prog.shows_perform (V := nodeView) (.failedAt vol.volumeID)).bind
  intro failedAt _ _
  apply Prog.shows_ret_of_all _ fun _ => trivial
  refine Prog.All.bind (forgetIf_all (P := nodeView.hidden) rfl isNew) fun _ => ?_
  split_ifs
  · exact withPods_offNode now (failedAt.getD 0)
  · exact Prog.all_ret _ _

theorem tickVolume_shows : (tickVolume kube auto entries vol).Shows nodeView (fun _ _ => True)
    (Node.tickVolume entries vol) := by
  unfold tickVolume Node.tickVolume
  cases Node.lastAt entries vol.stagePath with
  | none => exact Prog.shows_ret_of_all (issue_offNode rfl) fun _ => trivial
  | some e =>
    dsimp only
    split_ifs
    · exact handleFailed_shows
    · rw [← Prog.bind_ret (Node.issue (.failedClear vol.volumeID))]
      apply (Prog.shows_perform (V := nodeView) (.clear vol.volumeID)).bind
      intro _ _ _
      exact Prog.shows_ret_of_all (issue_offNode rfl) fun _ => trivial

/-- With a client and without, deleting pods or not, a pass is to the node what `Node.tick` is. -/
theorem tick_shows (kube auto : Bool) :
    (tick kube auto).Shows nodeView (fun _ _ => True) Node.tick := by
  apply (Prog.shows_perform (V := nodeView) .mountInfo).bind
  rintro (e | entries) (e' | rows) hrows
  · exact Prog.shows_ret trivial
  · exact hrows.elim
  · exact hrows.elim
  · obtain rfl : entries = rows := hrows
    apply (Prog.shows_perform (V := nodeView) .stateAll).bind
    rintro vols _ rfl
    apply Prog.shows_each (T := Eq) (List.forall₂_same.mpr fun _ _ => rfl)
    rintro vol _ rfl
    exact tickVolume_shows

end Shows

/-- A pass on a node: the tables answer for themselves, and what is hidden from them is
answered at will. -/
def onNode (S : Site) (o : Node.Choice × ((c : Cmd) → Resp c)) :
    (c : Cmd) → Node.World → Resp c × Node.World
  | .mountInfo, w =>
    let r := Node.exec S o.1 .mountInfo w
    (r.1.mapError Node.sysErr, r.2)
  | .stateAll, w => Node.exec S o.1 .stateAll w
  | .mark id _, w => Node.exec S o.1 (.failedMark id) w
  | .failedAt id, w =>
    let r := Node.exec S o.1 (.failedGet id) w
    (if r.1 then some ((o.2 (.failedAt id)).getD 0) else none, r.2)
  | .clear id, w => Node.exec S o.1 (.failedClear id) w
  | c, w => (o.2 c, w)

/-- What is known of `Node.tick` is known of the pass. -/
theorem wp_pass {S : Site} {A G : Node.World → Node.Cmd → Node.Choice → Prop}
    {Q : Unit → Node.World → Prop} {w : Node.World} (kube auto : Bool)
    (h : Node.tick.wp ⟨Node.exec S, A, G⟩ Q w) :
    (tick kube auto).wp ⟨onNode S, fun w c o => ∀ d reads, Stands c d reads → A w d o.1,
      fun w c o => ∀ d reads, Stands c d reads → G w d o.1⟩ Q w := by
  refine Prog.wp_mono ?_ (Prog.Shows.wp (V := nodeView) (· = ·) ?_ ?_ rfl (tick_shows kube auto) h)
  · rintro _ w' ⟨_, _, -, rfl, hq⟩
    exact hq
  · rintro w _ c o hc rfl -
    refine ⟨?_, ?_⟩
    · intro d reads hs
      cases hs <;> cases hc
    · cases c <;> first | rfl | cases hc
  · rintro w _ c d reads o hs rfl ho
    refine ⟨o.1, ho d reads hs, fun hg => ?_⟩
    have hguard : ∀ d' reads', Stands c d' reads' → G w d' o.1 := by
      intro d' reads' hs'
      cases hs <;> cases hs' <;> exact hg
    refine ⟨hguard, ?_⟩
    cases hs with
    | mountInfo =>
      refine ⟨?_, rfl⟩
      dsimp only [onNode]
      cases (Node.exec S o.1 .mountInfo w).1 with
      | error e => trivial
      | ok rows => rfl
    | failedAt id =>
      refine ⟨?_, rfl⟩
      dsimp only [onNode]
      cases (Node.exec S o.1 (.failedGet id) w).1 <;> rfl
    | stateAll => exact ⟨rfl, rfl⟩
    | mark id t => exact ⟨rfl, rfl⟩
    | clear id => exact ⟨trivial, rfl⟩

theorem pass_sane {S : Site} {ι : Type} {V : Node.Volumes S ι} {w : Node.World} (kube auto : Bool)
    (hs : Node.Sane V w) : (tick kube auto).wp ⟨onNode S,
      fun w c o => ∀ d reads, Stands c d reads → Node.Genuine S w d o.1, fun _ _ _ => True⟩
      (fun _ w' => Node.Sane V w') w := by
  have hnode := Prog.wp_invariant (I := Node.Sane V) (fun _ _ _ _ hk hs => hk hs)
    (Node.wp_harmless (V := V) Node.tick_harmless w) hs
  exact Prog.wp_weaken (fun _ _ _ h => h) (fun _ _ _ _ _ => trivial)
    (wp_pass kube auto (Prog.wp_mono (fun _ _ h => h.2) hnode))

end Fileblock.Monitor
