import BootCard.Proofs.Deployment.Stages
import BootCard.Settings.Project

/-!
This module contains what a run stops for. It fails for the generator if and only if that has been
run and has not ended well, and nothing else is taken for such a failure.
-/

namespace BootCard

open FileSystem

variable {P : Option Cause → Prop} {w w' : World} {image config generator card : Pathname}

namespace Image

theorem stopsFor_locate (h : ∀ cause : Cause, ¬ cause.IsGenerators → P (some cause))
    (path : Pathname) : (locate path).StopsFor P := by
  have habsolute : (absolute path).IsDirect (¬ ·.IsGenerators) := by
    unfold absolute
    split
    . exact .pure path
    . exact .bind (.askDisk _) fun cwd =>
        .bind (.during _ (.ofExcept Cause.not_isGenerators_io cwd)) fun _ => .pure _
  have hflat (fs : FileSystem) (image : Pathname) :
      (Action.ofExcept id (flatForm fs image)).StopsFor P := by
    cases hflat : flatForm fs image with
    | ok flat => exact .pure flat
    | error cause =>
      refine .fail (h cause ?_)
      rintro ⟨generator, status, rfl⟩
      unfold flatForm at hflat
      split at hflat
      . simp at hflat
      split at hflat
      . simp at hflat
      split at hflat <;> simp at hflat
  unfold locate
  exact .bind (habsolute.stopsFor h) fun path => .bind_askDisk fun fs =>
    .bind (hflat fs _) fun flat => .bind (.happen _) fun _ => .pure flat

end Image

namespace CardMemory

variable {file : Pathname}

theorem isDirect_load : (CardMemory.file file).load.IsDirect (¬ ·.IsGenerators) := by
  refine .bind (.askDisk _) fun there => ?_
  split
  . exact .pure none
  . exact .bind (.during _ (.onDisk Cause.not_isGenerators_io _)) fun _ => .pure _

theorem isDirect_save : ((CardMemory.file file).save card).IsDirect (¬ ·.IsGenerators) :=
  .during _ (.onDisk Cause.not_isGenerators_io _)

end CardMemory

theorem VolumeManager.stopsFor_list (command : CommandLine) (volumes : Pathname) :
    (list command volumes).StopsFor P := by
  unfold list
  cases command with
  | nil => exact .pure ()
  | cons program args =>
    refine .bind (.run _ _) fun outcome => ?_
    cases outcome with
    | ok status => exact .pure ()
    | error e => exact .happen _

namespace Choice

variable {volumes file : Pathname} {listing : CommandLine} {named : Option Pathname}

theorem stopsFor_askOperator (h : ∀ cause : Cause, ¬ cause.IsGenerators → P (some cause)) :
    (askOperator volumes (.atTerminal listing)).StopsFor P := by
  have hanswer : ((Operator.atTerminal listing).answer volumes).StopsFor P := by
    unfold Operator.atTerminal
    refine .bind (VolumeManager.stopsFor_list _ _) fun _ => .bind (.happen _) fun _ =>
      .bind (.happen _) fun _ => .bind (.ask _) fun line => ?_
    cases line with
    | some text => exact .pure text
    | none => exact .during _ (.fail (h _ (Cause.not_isGenerators_io _)))
  unfold askOperator
  refine .bind (.happen _) fun _ => .bind hanswer fun answer => ?_
  split
  . exact .pure _
  . exact .fail (h _ (by simp [Cause.IsGenerators]))

theorem stopsFor_choose (h : ∀ cause : Cause, ¬ cause.IsGenerators → P (some cause))
    (hwait : P none) :
    (choose volumes (.file file) (.atTerminal listing) named).StopsFor P := by
  have hpick : (pick volumes (.file file) (.atTerminal listing) named).StopsFor P := by
    unfold pick rememberedOrAsked
    cases named with
    | some card => exact .pure card
    | none =>
      refine .bind (CardMemory.isDirect_load.stopsFor h) fun remembered => ?_
      cases remembered with
      | some card => exact .bind (.happen _) fun _ => .pure card
      | none => exact stopsFor_askOperator h
  rw [choose_eq]
  exact .bind hpick fun card => .bind (Waiting.stopsFor_untilDirectory hwait) fun _ =>
    .bind (CardMemory.isDirect_save.stopsFor h) fun _ => .pure card

end Choice

namespace Deployment

variable {settings : Settings} {memory : CardMemory} {operator : Operator} {order : Order}
variable {file : Pathname} {listing : CommandLine} {outcome : Except IoError ExitStatus}

/--
Whether a run gets as far as to run the generator, which comes to an outcome and leaves a world
behind.
-/
def Generates (settings : Settings) (memory : CardMemory) (operator : Operator) (order : Order)
    (w : World) (outcome : Except IoError ExitStatus) (w' : World) : Prop :=
  ∃ image card chosen tally cleared config,
    (choose settings memory operator order).start w = (.ok (image, card), chosen) ∧
    (Clearing.clear card).start chosen = (.ok tally, cleared) ∧
    BootText.beside? image = some config ∧
    BootText.isPrebuilt cleared.disk image config = false ∧
    (BootText.call image config settings.generator).start cleared = (.ok outcome, w')

theorem stopsFor_choose (h : ∀ cause : Cause, ¬ cause.IsGenerators → P (some cause))
    (hwait : P none) :
    (choose settings (.file file) (.atTerminal listing) order).StopsFor P :=
  .bind (Image.stopsFor_locate h _) fun _ => .bind (.happen _) fun _ =>
    .bind (.during _ (Choice.stopsFor_choose h hwait)) fun _ => .pure _

theorem Generates.lt {n : Nat}
    (h : Generates settings memory operator order w (.ok (.exited n)) w') : n < 256 := by
  obtain ⟨image, card, chosen, tally, cleared, config, -, -, -, -, hcall⟩ := h
  unfold BootText.call at hcall
  rw [Action.start_bind, Action.start_printLine] at hcall
  exact Action.lt_of_run hcall

theorem Generates.carryOut (h : Generates settings memory operator order w outcome w')
    (hfailure : outcome ≠ .ok (.exited 0)) :
    (carryOut settings memory operator order).start w =
      (.error (.failed (BootText.failure settings.generator outcome)), w') := by
  obtain ⟨image, card, chosen, tally, cleared, config, hchoose, hclear, hbeside, hprebuilt,
    hcall⟩ := h
  have hobtain := BootText.obtain_of_call hbeside hprebuilt hcall hfailure
  have hplan : (plan settings image).start cleared = _ := Action.start_bind_of_error hobtain
  rw [carryOut_eq, Action.start_bind_of_ok hchoose]
  dsimp only
  rw [Action.start_bind_of_ok hclear, Action.start_bind_of_error hplan]

theorem generates_of_carryOut {f : Failure}
    (h : (carryOut settings (.file file) (.atTerminal listing) order).start w =
      (.error (.failed f), w')) (hcause : f.cause.IsGenerators) :
    ∃ outcome, Generates settings (.file file) (.atTerminal listing) order w outcome w' ∧
      outcome ≠ .ok (.exited 0) := by
  have hother {α : Type} {x : Action α} {v : World}
      (hx : x.StopsFor fun c => ∀ cause ∈ c, ¬ cause.IsGenerators)
      (hfail : x.start v = (.error (.failed f), w')) : False :=
    hx v (.failed f) (by rw [hfail]) f.cause rfl hcause
  have hdirect {α : Type} {x : Action α} {v : World} (hx : x.IsDirect (¬ ·.IsGenerators))
      (hfail : x.start v = (.error (.failed f), w')) : False :=
    hother (hx.stopsFor (by simp)) hfail
  rw [carryOut_eq, Action.start_bind_eq_error] at h
  rcases h with h | ⟨⟨image, card⟩, chosen, hchoose, h⟩
  . exact (hother (stopsFor_choose (by simp) (by simp)) h).elim
  dsimp only at h
  rw [Action.start_bind_eq_error] at h
  rcases h with h | ⟨tally, cleared, hclear, h⟩
  . exact (hdirect Clearing.isDirect_clear h).elim
  rw [Action.start_bind_eq_error] at h
  rcases h with h | ⟨plan, planned, -, h⟩
  . unfold Deployment.plan at h
    rw [Action.start_bind_eq_error] at h
    rcases h with h | ⟨config, w₁, -, h⟩
    . obtain ⟨config, outcome, hbeside, hprebuilt, hcall, hfailure⟩ :=
        BootText.obtain_eq_error h hcause
      exact ⟨outcome, ⟨image, card, chosen, tally, cleared, config, hchoose, hclear, hbeside,
        hprebuilt, hcall⟩, hfailure⟩
    . exact (hdirect Plan.isDirect_all h).elim
  rw [Action.start_bind_eq_error] at h
  rcases h with h | ⟨staged, filled, -, h⟩
  . exact (hdirect Staging.isDirect_stageAll h).elim
  -- Ejecting the card does not fail.
  obtain ⟨outcome, w₁, heject, -⟩ := VolumeManager.callsExactly_eject (.atTerminal listing) Eq
    settings.ejectCommand card filled
  rw [Action.start_bind_of_ok heject] at h
  simp at h

end Deployment

end BootCard
