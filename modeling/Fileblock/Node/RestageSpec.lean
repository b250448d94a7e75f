import Fileblock.Node.UnstageSpec
import Fileblock.Node.Publish

/-! The re-stage of a failed volume keeps to its volume, whatever fails; it is
careful if the loop its entry names is the volume's own when the entry is read. -/
namespace Fileblock.Node
open Go Store Interaction

variable {S : Site} {ι : Type} {V : Volumes S ι} {v : ι} {w : World} {m : Mapping}

/-- The loop the entry names is on the volume's image and stays there. -/
def Mapping.Mine (m : Mapping) (V : Volumes S ι) (v : ι) (w : World) : Prop :=
  ∀ dev, m.loopDev = some dev → Attached V v dev w

theorem steady_mine (V : Volumes S ι) (v : ι) (m : Mapping) (careful : Prop) :
    Steady V v fun w => careful → m.Mine V v w :=
  fun w w' ht ht' hf hp hc dev hd => steady_attached V v dev w w' ht ht' hf (hp hc dev hd)

theorem Mapping.Records.blanked (h : m.Records V v) : m.blanked.Records V v :=
  ⟨h.volumeID, h.imagePath, h.stagePath, by simp [Mapping.blanked], h.stageContext⟩

theorem Mapping.Records.stageRequest (h : m.Records V v) {context : Params}
    (hc : m.stageContext = some context) (secrets : Secrets) :
    (m.stageRequest context secrets).For V v :=
  ⟨h.volumeID, h.stagePath, h.stageContext context hc⟩

namespace Setting
variable {E : Setting V v} {Q : Except Status Unit → World → Prop}

theorem wp_tearDown (hrec : m.Records V v) (h : E.Inv true w ∧ (E.careful → m.Mine V v w)) :
    (tearDown m).run.wp E.regime (fun _ w => E.Inv true w) w := by
  have hP := steady_mine V v m E.careful
  unfold tearDown
  cases hd : m.loopDev with
  | none => exact h.1
  | some dev =>
    have hclose : (closeEntry m).run.wp E.regime
        (fun _ w => E.Inv true w ∧ (E.careful → m.Mine V v w)) w := by
      unfold closeEntry
      cases hc : m.cryptDev with
      | none => exact h
      | some name =>
        rw [hrec.cryptDev name hc]
        dsimp only
        rw [wp_orStatus]
        refine wp_closeCrypt hP h.1 h.2 (fun _ w hi hp => ⟨hi, hp⟩) (fun w hi hp _ => ⟨hi, hp⟩) ?_
        exact fun w _ hp hi => ⟨hi, fun hc n hn => Attached.reap ((hp hc n hn).congr rfl)⟩
    dsimp only
    refine Prog.wp_seq hclose (fun _ w h => h.1) fun _ w h => ?_
    refine Prog.wp_seq (I := fun w => E.Inv true w) ?_ (fun _ w h => h) fun _ w hi => ?_
    · rw [wp_orStatus]
      refine wp_detachLoop hP h.1 h.2 ?_ (fun _ w hi _ => hi) (fun w hi _ _ => hi)
        fun w _ _ hi => hi
      intro w hi hp hc l hl hdev
      obtain ⟨l', hl', hd', hf⟩ := (hp hc dev hd).owns
      rw [hi.sane.loop_unique hl hl' (hdev.trans hd'.symm)]
      exact hf
    · rw [wp_orStatus, Prog.wp_attempt]
      exact wp_remember (c := .statePut _) rfl (by simp) (steady_true V v) (fun _ _ _ h => h) hi
        trivial (fun _ => hrec.blanked) fun _ w hi _ => hi

theorem wp_restage {context : Params} {secrets : Secrets} (hrec : m.Records V v)
    (hc : m.stageContext = some context) (hback : ∀ w, E.ctx true w → E.ctx false w)
    (h : E.Inv true w ∧ (E.careful → m.Mine V v w)) (herr : ∀ e w, E.Over w → Q (.error e) w)
    (hok : ∀ w, E.Over w → V.Staged v w → Q (.ok ()) w) :
    (restage S m context secrets).run.wp E.regime Q w := by
  unfold restage popStageMounts
  refine Prog.wp_seq ((Prog.wp_attempt _ _ _ _).mpr (wp_popMounts hrec.stagePath (steady_mine V v m E.careful) ?_ _ h))
    (fun e w h => herr e w h.1.over) fun _ w h => ?_
  · intro w hp hc n hn
    unfold World.unmount
    exact Attached.reap ((hp hc n hn).congr rfl)
  refine Prog.wp_seq (wp_tearDown hrec h) (fun e w hi => herr e w hi.over) fun _ w hi => ?_
  rw [Prog.wp_attempt]
  have hreq := hrec.stageRequest hc secrets
  exact wp_stageLocked hreq ⟨hi.sane, hback w hi.ctx⟩ (fun e w h => herr _ w h)
    fun w h hm => hok w h ⟨_, hreq.place, hm⟩

theorem watches_restageSecrets (id : VolumeID) (context : Params) :
    (restageSecrets id context).run.All E.watches := by
  have hw : ∀ c : Cmd, c.observes = true → (∀ w, Tended V v E.careful w c) →
      (always (ε := Status) (issue c)).run.All E.watches :=
    fun c h h' => Prog.All.bind ((Prog.all_perform _ _).mpr ⟨h, h'⟩) fun _ => Prog.all_ret _ _
  unfold restageSecrets
  split_ifs
  · refine Prog.all_run_bind (hw (.keysGet id) rfl fun _ => trivial) fun k => ?_
    cases k with
    | some k => exact Prog.all_ret _ _
    | none =>
      exact Prog.all_run_bind (hw (.podEvent _) rfl fun _ => trivial) fun _ => Prog.all_ret _ _
  · exact Prog.all_ret _ _

theorem wp_restageUnpublished (hrec : m.Records V v) (hback : ∀ w, E.ctx true w → E.ctx false w)
    (h : E.Inv true w ∧ (E.careful → m.Mine V v w)) (herr : ∀ e w, E.Over w → Q (.error e) w)
    (hok : ∀ w, E.Over w → V.Staged v w → Q (.ok ()) w) :
    (restageUnpublished S m).run.wp E.regime Q w := by
  have hP := steady_mine V v m E.careful
  unfold restageUnpublished
  cases hc : m.stageContext with
  | none =>
    dsimp only
    refine Prog.wp_seq (I := fun w => E.Inv true w ∧ (E.careful → m.Mine V v w)) ?_
      (fun e w h => herr e w h.1.over) fun _ w h => herr _ w h.1.over
    rw [Prog.wp_always]
    exact wp_see rfl hP h.1 h.2 (fun _ _ _ => trivial) fun w _ hi hp _ => ⟨hi, hp⟩
  | some context =>
    refine Prog.wp_seq (wp_watched (watches_restageSecrets _ _) hP h) (fun e w h => herr e w h.1.over) ?_
    exact fun secrets w h => wp_restage hrec hc hback h herr hok

end Setting

/-- What a re-stage needs beyond its setting. `marked` is what it knows once it has
seen the failure mark under the lock; a look at the mounts then shows the volume to
be unused. `unmarked` is what it returns with when the mark is gone. -/
structure Restaging (E : Setting V v) where
  marked : World → Prop
  unmarked : World → Prop
  held : ∀ {w}, marked w → E.held w
  rely : ∀ {c w w'}, marked w → E.rely c w w' → marked w'
  disturb : ∀ {w} (o : Choice), marked w → marked (w.disturb o)
  mark : ∀ {w}, E.held w → V.id v ∈ w.failed → marked w
  unmark : ∀ {w o}, E.adm w (.failedGet (V.id v)) o → V.id v ∉ (w.disturb o).failed →
    unmarked (w.disturb o)
  mounted : ∀ {w}, V.Staged v w → unmarked w
  mine : E.careful → ∀ {w o m}, E.adm w (.stateGet (V.id v)) o →
    Mapping.get (w.disturb o).state (V.id v) = some m → m.Mine V v (w.disturb o)
  unused : ∀ {w o m}, E.adm w .mountInfo o → marked (w.disturb o) → Sane V (w.disturb o) →
    Mapping.get (w.disturb o).state (V.id v) = some m →
    refusePublished m (w.disturb o).mountRows = .ok () → E.ctx true (w.disturb o)
  back : ∀ {w}, E.ctx true w → E.ctx false w

namespace Restaging
variable {E : Setting V v} (K : Restaging E) {Q : Except Status Unit → World → Prop}

theorem wp_restageEntry (hm : Mapping.get w.state (V.id v) = some m) (hs : Sane V w)
    (hk : K.marked w) (hp : E.careful → m.Mine V v w) (herr : ∀ e w, E.Over w → Q (.error e) w)
    (hok : ∀ w, E.Over w → V.Staged v w → Q (.ok ()) w) :
    (restageEntry S m).run.wp E.regime Q w := by
  have hrec := hs.records hm
  have hP : Steady V v fun w => Mapping.get w.state (V.id v) = some m ∧
      (E.careful → m.Mine V v w) :=
    fun w w' ht ht' hf hp => ⟨hf.entry.trans hp.1, steady_mine V v m E.careful w w' ht ht' hf hp.2⟩
  unfold restageEntry
  rw [Prog.wp_run_bind, wp_orStatus, Prog.wp_attempt]
  refine Setting.wp_early (c := .mountInfo) rfl (fun _ => trivial) hP (fun _ => K.held) (fun _ _ => K.rely)
    (fun _ o => K.disturb o) hs hk ⟨hm, hp⟩ fun w o hadm hs hk hp => ?_
  unfold step
  cases o.fault with
  | some e => exact herr _ _ ⟨hs, K.held hk⟩
  | none =>
    show Prog.wp E.regime (known (refusePublished m (w.disturb o).mountRows) >>= fun _ =>
      restageUnpublished S m).run Q (w.disturb o)
    rw [Prog.wp_run_bind, Prog.wp_known]
    cases hr : refusePublished m (w.disturb o).mountRows with
    | error e => exact herr _ _ ⟨hs, K.held hk⟩
    | ok u =>
      exact Setting.wp_restageUnpublished hrec (fun _ => K.back)
        ⟨⟨hs, K.unused hadm hk hs hp.1 hr⟩, hp.2⟩ herr hok

theorem wp_restageMarked (hs : Sane V w) (hk : K.marked w)
    (herr : ∀ e w, E.Over w → Q (.error e) w)
    (hok : ∀ w, E.Over w → V.Staged v w → Q (.ok ()) w) :
    (restageMarked S (V.id v)).run.wp E.regime Q w := by
  unfold restageMarked
  rw [Prog.wp_run_bind, Prog.wp_always]
  refine Setting.wp_early (c := .stateGet _) rfl (fun _ => trivial) (steady_true V v) (fun _ => K.held)
    (fun _ _ => K.rely) (fun _ o => K.disturb o) hs hk trivial fun w o hadm hs hk _ => ?_
  have hentry : (step S o (.stateGet (V.id v)) (w.disturb o)).1 =
      Mapping.get (w.disturb o).state (V.id v) := by
    unfold step
    cases o.fault <;> rfl
  rw [hentry]
  cases hm : Mapping.get (w.disturb o).state (V.id v) with
  | none => exact herr _ _ ⟨hs, K.held hk⟩
  | some m => exact K.wp_restageEntry hm hs hk (fun hc => K.mine hc hadm hm) herr hok

theorem wp_restageLocked (h : E.Over w) (herr : ∀ e w, E.Over w → Q (.error e) w)
    (hok : ∀ w, E.Over w → K.unmarked w → Q (.ok ()) w) :
    (restageLocked S (V.id v)).run.wp E.regime Q w := by
  unfold restageLocked
  rw [Prog.wp_run_bind, Prog.wp_always]
  refine Setting.wp_early (c := .failedGet _) rfl (fun _ => trivial) (steady_true V v) (fun _ h => h)
    (fun _ _ hh hr => (E.frame hh hr).1) (fun _ o => E.held_disturb o) h.sane h.held trivial ?_
  intro w o hadm hs hh _
  rw [step_failedGet]
  by_cases hf : V.id v ∈ (w.disturb o).failed
  · rw [decide_eq_true hf]
    exact K.wp_restageMarked hs (K.mark hh hf) herr fun w h hm => hok w h (K.mounted hm)
  · rw [decide_eq_false hf]
    exact hok _ ⟨hs, hh⟩ (K.unmark hadm hf)

end Restaging
end Fileblock.Node
