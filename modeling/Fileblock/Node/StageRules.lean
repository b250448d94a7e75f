import Fileblock.Node.Rules
import Fileblock.Node.Stage

/-! What `stageLocked` does to its volume, whatever fails on the way: it attaches a
loop only when the image has none, mounts nothing but the volume's own device, and
returns success only with the staging path mounted. -/
namespace Fileblock.Node
open Go Store Interaction

variable {S : Site} {ι : Type} {V : Volumes S ι} {v : ι} {w w' : World} {loops : List ℕ} {dev : ℕ}

namespace Setting
variable {E : Setting V v} {b : Bool} {α : Type}

/-- Known when the operation is over: the lock is still held. -/
structure Over (E : Setting V v) (w : World) : Prop where
  sane : Sane V w
  held : E.held w

theorem Inv.over (h : E.Inv b w) : E.Over w := ⟨h.sane, E.ctx_held h.ctx⟩

theorem wp_refuseBusy {rest : List ℕ} {Q : Except Status Unit → World → Prop}
    (herr : ∀ e w, E.Inv b w → Q (.error e) w)
    (hok : ∀ w, E.Inv b w → Listed V v loops w ∧ (∀ n ∈ loops, n ∈ [] ∨ w.busy n = false) →
      Q (.ok ()) w)
    (hsub : ∀ n ∈ rest, n ∈ loops) (hi : E.Inv b w)
    (hp : Listed V v loops w ∧ ∀ n ∈ loops, n ∈ rest ∨ w.busy n = false) :
    (refuseBusy (V.id v) rest).run.wp E.regime Q w := by
  induction rest generalizing w with
  | nil => exact hok w hi hp
  | cons dev rest ih =>
    unfold refuseBusy
    rw [Prog.wp_run_bind, wp_orStatus]
    refine wp_loopBusy (steady_idle V v loops (dev :: rest)) hi hp ?_ ?_ ?_ ?_
    · exact fun w hp => hp.1.mine dev (hsub dev List.mem_cons_self)
    · exact fun e w hi _ => herr _ w hi
    · exact fun w hi _ => herr _ w hi
    · intro w hi hp hb
      refine ih (fun n hn => hsub n (List.mem_cons_of_mem _ hn)) hi ⟨hp.1, fun n hn => ?_⟩
      rcases hp.2 n hn with hn | hn
      · rcases List.mem_cons.mp hn with rfl | hn
        · exact Or.inr hb
        · exact Or.inl hn
      · exact Or.inr hn

theorem wp_detachEach {Q : Except Status Unit → World → Prop}
    (herr : ∀ e w, E.Inv b w → Q (.error e) w)
    (hok : ∀ w, E.Inv b w → Listed V v [] w → Q (.ok ()) w) (hi : E.Inv b w)
    (hp : Listed V v loops w ∧ ∀ n ∈ loops, n ∈ [] ∨ w.busy n = false) :
    (detachEach loops).run.wp E.regime Q w := by
  induction loops generalizing w with
  | nil => exact hok w hi hp.1
  | cons dev loops ih =>
    unfold detachEach
    rw [Prog.wp_run_bind, wp_orStatus]
    refine wp_detachLoop (steady_idle V v _ []) hi hp ?_ ?_ ?_ ?_
    · intro w hi hp _ l hl hd
      obtain ⟨l', hl', hd', hf⟩ := hp.1.mine dev List.mem_cons_self
      rw [hi.sane.loop_unique hl hl' (hd.trans hd'.symm)]
      exact hf
    · exact fun e w hi _ => herr _ w hi
    · intro w hi hp hfree
      obtain ⟨l, hl, hd, -⟩ := hp.1.mine dev List.mem_cons_self
      exact absurd hd (hfree l hl)
    · intro w hi hp hi'
      have hb : w.busy dev = false := (hp.2 dev List.mem_cons_self).resolve_left (by simp)
      refine ih hi' ⟨hp.1.detach hi.sane.toTidy hb, fun n hn => ?_⟩
      exact hp.2 n (List.mem_cons_of_mem _ hn)

theorem wp_detachAttached {Q : Except Err Unit → World → Prop} (hi : E.Inv true w)
    (hp : Attached V v dev w) (hq : ∀ r w, E.Inv true w → Q r w) :
    (detachLoop dev).run.wp E.regime Q w := by
  refine wp_detachLoop (steady_attached V v dev) hi hp ?_ ?_ ?_ ?_
  · intro w hi hp _ l hl hd
    obtain ⟨l', hl', hd', hf⟩ := hp.owns
    rw [hi.sane.loop_unique hl hl' (hd.trans hd'.symm)]
    exact hf
  · exact fun e w hi _ => hq _ w hi
  · exact fun w hi _ _ => hq _ w hi
  · exact fun w _ _ hi => hq _ _ hi

theorem wp_release {cryptDev : Option String} {Q : Unit → World → Prop} (hi : E.Inv true w)
    (hp : Attached V v dev w) (hc : ∀ name, cryptDev = some name → name = V.mapper v)
    (hq : ∀ w, E.Inv true w → Q () w) : (release dev cryptDev).wp E.regime Q w := by
  have hdetach : ∀ w, E.Inv true w → Attached V v dev w → (ignore (detachLoop dev)).wp E.regime Q w := by
    intro w hi hp
    rw [Prog.wp_ignore]
    exact wp_detachAttached hi hp fun _ w hi => hq w hi
  cases cryptDev with
  | none => exact hdetach w hi hp
  | some name =>
    show (ignore (closeCrypt name) >>= fun _ => ignore (detachLoop dev)).wp E.regime Q w
    rw [hc name rfl, Prog.wp_bind, Prog.wp_ignore]
    refine wp_closeCrypt (steady_attached V v dev) hi hp ?_ ?_ ?_
    · exact fun e w hi hp => hdetach w hi hp
    · exact fun w hi hp _ => hdetach w hi hp
    · exact fun w _ hp hi => hdetach _ hi (Attached.reap (hp.congr rfl))

theorem wp_prepareCrypt {k : StageKeys} {f : Crypt.Format}
    {Q : Except Err (String × Crypt.Outcome) → World → Prop} (hi : E.Inv true w)
    (hp : Attached V v dev w) (hq : ∀ r w, E.Inv true w → Attached V v dev w → Q r w) :
    (prepareCrypt dev (V.mapper v) k f).run.wp E.regime Q w := by
  refine Prog.wp_mono (fun r w h => hq r w h.1 h.2) (wp_all (C := fun c => ∃ c', c = .luks dev (V.mapper v) c')
    (Prog.lift_all (fun c _ => ⟨c, rfl⟩) (Prog.all_true _)) (steady_attached V v dev) ?_ ?_ ?_ ?_ hi hp)
  · rintro c w ⟨c', rfl⟩ _ hp
    exact ⟨rfl, hp.owns⟩
  · rintro c ⟨c', rfl⟩ id
    simp
  · rintro c ⟨c', rfl⟩ _
    rfl
  · rintro c w o ⟨c', rfl⟩ _ hp
    exact hp.step (by simp)

theorem wp_openTarget {mode : Mode} {Q : Except Status (Option String) → World → Prop}
    (hi : E.Inv true w) (hp : Attached V v dev w) (herr : ∀ e w, E.Inv true w → Q (.error e) w)
    (hok : ∀ cryptDev w, (∀ name, cryptDev = some name → name = V.mapper v) → E.Inv true w →
      Attached V v dev w → Q (.ok cryptDev) w) :
    (openTarget S (V.id v) dev mode).run.wp E.regime Q w := by
  cases mode with
  | plain => exact hok none w (by simp) hi hp
  | encrypted k f =>
    have hrelease : ∀ e w, E.Inv true w → Attached V v dev w →
        (ignore (detachLoop dev)).wp E.regime (fun _ w' => Q (.error e) w') w := by
      intro e w hi hp
      rw [Prog.wp_ignore]
      exact wp_detachAttached hi hp fun _ w hi => herr e w hi
    unfold openTarget setCapacity shell
    rw [Prog.wp_cleanup, Prog.wp_run_bind, wp_orStatus, Prog.wp_attempt]
    refine wp_see rfl (steady_attached V v dev) hi hp ?_ fun w o hi hp _ => ?_
    · intro w _ hp n hn
      rw [← Option.some.inj hn]
      exact hp.owns
    · cases (step S o (.losetupSetCapacity (some dev)) w).1 with
      | error e => exact hrelease _ w hi hp
      | ok u =>
        dsimp only [Except.mapError]
        rw [Prog.wp_run_bind, Prog.wp_attempt]
        refine wp_prepareCrypt hi hp fun r w hi hp => ?_
        cases r with
        | error e => exact hrelease _ w hi hp
        | ok r => exact hok (some (V.mapper v)) w (fun name h => (Option.some.inj h).symm) hi hp

section Kept
variable {P : World → Prop} {src : Source}

theorem wp_fsck (hP : Steady V v P) (ho : ∀ w, P w → V.Owns w v src) (h : E.Inv b w ∧ P w) :
    (fsck src).run.wp E.regime (fun _ w => E.Inv b w ∧ P w) w := by
  unfold fsck
  rw [ExceptT.run_mk, Prog.wp_bind]
  refine wp_see rfl hP h.1 h.2 (fun w _ hp => ho w hp) fun w o hi hp _ => ?_
  cases (step S o (.fsck src) w).1 with
  | ok u => exact ⟨hi, hp⟩
  | error e =>
    dsimp only
    split_ifs <;> exact ⟨hi, hp⟩

theorem wp_resize2fs (hP : Steady V v P) (ho : ∀ w, P w → V.Owns w v src) (h : E.Inv b w ∧ P w) :
    (resize2fs src).run.wp E.regime (fun _ w => E.Inv b w ∧ P w) w := by
  unfold resize2fs shell
  rw [Prog.wp_attempt]
  exact wp_see rfl hP h.1 h.2 (fun w _ hp => ho w hp) fun w o hi hp _ => ⟨hi, hp⟩

theorem wp_growLoop {cryptDev : Option String} (h : E.Inv b w ∧ Attached V v dev w) :
    (growLoop dev cryptDev).run.wp E.regime (fun _ w => E.Inv b w ∧ Attached V v dev w) w := by
  cases cryptDev with
  | some name => exact h
  | none =>
    unfold growLoop setCapacity shell
    rw [wp_orStatus, Prog.wp_attempt]
    refine wp_see rfl (steady_attached V v dev) h.1 h.2 ?_ fun w o hi hp _ => ⟨hi, hp⟩
    intro w _ hp n hn
    rw [← Option.some.inj hn]
    exact hp.owns

theorem wp_mkdirAll {path : Str} (hpath : path ∈ V.paths v) (h : E.Inv b w ∧ Attached V v dev w) :
    (attempt (issue (.mkdirAll path)) sysErr).run.wp E.regime
      (fun _ w => E.Inv b w ∧ Attached V v dev w) w := by
  rw [Prog.wp_attempt]
  refine wp_do (steady_attached V v dev) h.1 h.2 (fun _ _ _ => hpath) (by simp)
    (by simp [Cmd.releases]) ?_
  exact fun w o _ hp _ hi => ⟨hi, hp.step (by simp)⟩

end Kept

theorem wp_record {req : StageRequest} {image : Str} {cryptDev : Option String}
    {Q : Except Status Unit → World → Prop} (hpath : req.stagingTargetPath ∈ V.paths v)
    (hrec : (req.mapping image (some dev) cryptDev).Records V v)
    (hi : E.Inv true w) (hp : Attached V v dev w ∧ w.mountedAt (S.resolve req.stagingTargetPath) = true)
    (herr : ∀ e w, E.Inv true w ∧ Attached V v dev w → Q (.error e) w)
    (hok : ∀ w, E.Inv true w → w.mountedAt (S.resolve req.stagingTargetPath) = true → Q (.ok ()) w) :
    Prog.wp E.regime (cleanup (orStatus .internal "persist state: "
        (attempt (issue (.statePut (req.mapping image (some dev) cryptDev))) sysErr))
      (ignore (unmount req.stagingTargetPath))).run Q w := by
  rw [Prog.wp_cleanup, wp_orStatus, Prog.wp_attempt]
  refine wp_remember (c := .statePut _) rfl (by simp)
    ((steady_attached V v dev).and (steady_mountedAt (V.mem_places hpath))) ?_ hi hp (fun _ => hrec)
    fun r w hi hp => ?_
  · intro w w' hs hp
    exact ⟨hp.1.congr hs.loops, hs.mountedAt hp.2⟩
  · cases r with
    | ok u => exact hok w hi hp.2
    | error e =>
      dsimp only [Except.mapError]
      rw [Prog.wp_ignore]
      refine wp_unmount hpath (steady_attached V v dev) hi hp.1
        (fun _ w hi hp => herr _ w ⟨hi, hp⟩) ?_
      intro w _ hp hi
      unfold World.unmount at hi ⊢
      exact herr _ _ ⟨hi, Attached.reap (hp.congr rfl)⟩

theorem wp_mountAndRecord {req : StageRequest} {image : Str} {cryptDev : Option String}
    {Q : Except Status Unit → World → Prop} (hpath : req.stagingTargetPath ∈ V.paths v)
    (hrec : (req.mapping image (some dev) cryptDev).Records V v)
    (h : E.Inv true w ∧ Attached V v dev w)
    (herr : ∀ e w, E.Inv true w ∧ Attached V v dev w → Q (.error e) w)
    (hok : ∀ w, E.Inv true w → w.mountedAt (S.resolve req.stagingTargetPath) = true → Q (.ok ()) w) :
    (mountAndRecord req image dev cryptDev).run.wp E.regime Q w := by
  have hP := steady_attached V v dev
  have ho : ∀ w, Attached V v dev w → V.Owns w v (stageTarget dev cryptDev) := by
    intro w hp
    cases cryptDev with
    | none => exact hp.owns
    | some name => exact hrec.cryptDev name rfl
  unfold mountAndRecord
  refine Prog.wp_seq ((wp_orStatus _ _ _ _ _).mpr (wp_fsck hP ho h)) herr fun _ w h => ?_
  refine Prog.wp_seq (wp_growLoop h) herr fun _ w h => ?_
  refine Prog.wp_seq ((wp_orStatus _ _ _ _ _).mpr (wp_resize2fs hP ho h)) herr fun _ w h => ?_
  refine Prog.wp_seq ((wp_orStatus _ _ _ _ _).mpr (wp_mkdirAll hpath h)) herr fun _ w h => ?_
  rw [Prog.wp_run_bind, wp_orStatus]
  refine wp_mountDevice hpath hP h.1 h.2 ho (fun _ w hi hp => herr _ w ⟨hi, hp⟩) fun w ro _ hp hi => ?_
  refine wp_record hpath hrec hi ⟨hp.congr rfl, ?_⟩ herr hok
  exact World.mountedAt_iff.mpr ⟨_, List.mem_cons_self, rfl⟩

end Setting
end Fileblock.Node
