import BootCard.Proofs.Card.Polling
import BootCard.Proofs.Deployment.Stages

/-!
This module contains that the commands of a run have no part in what it comes to: neither the one
that lists the volumes, but for what it does to the disk, nor the one that ejects the card.
-/

namespace BootCard

open FileSystem

variable {w w₁ w₂ : World} {volumes card : Pathname}

namespace World

def silent (w : World) : World := { w with transcript := [] }

/-- Whether two worlds differ in nothing but what has been told. -/
def Alike (w₁ w₂ : World) : Prop := w₁.silent = w₂.silent

namespace Alike

theorem symm (h : w₁.Alike w₂) : w₂.Alike w₁ := Eq.symm h

theorem trans {w₃ : World} (h : w₁.Alike w₂) (h' : w₂.Alike w₃) : w₁.Alike w₃ := Eq.trans h h'

theorem congr {α : Type} {f : World → α} (h : w₁.Alike w₂) (hf : ∀ w, f w.silent = f w) :
    f w₁ = f w₂ := by
  rw [← hf w₁, ← hf w₂]
  exact congrArg f h

theorem agrees (h : w₁.Alike w₂) : w₁.Agrees w₂ :=
  ⟨h.congr fun _ => rfl, h.congr fun _ => rfl, h.congr fun _ => rfl, h.congr fun _ => rfl⟩

theorem withDisk (h : w₁.Alike w₂) (disk : FileSystem) :
    Alike { w₁ with disk := disk } { w₂ with disk := disk } :=
  h.congr (f := fun w => silent { w with disk := disk }) fun _ => rfl

end Alike

end World

namespace Action

variable {α β : Type} {x y : Action α} {f : α → Action β}

namespace Respects

theorem happen (e : Event) : Respects World.Alike (happen e) := fun _ _ h => ⟨rfl, h⟩

theorem askDisk (question : FileSystem → α) : Respects World.Alike (askDisk question) := by
  intro w₁ w₂ h
  rw [start_askDisk, start_askDisk, h.agrees.disk]
  exact ⟨rfl, h⟩

theorem attempt (session : Session α) : Respects World.Alike (attempt session) := by
  intro w₁ w₂ h
  rw [start_attempt, start_attempt, h.agrees.disk]
  exact ⟨rfl, h.withDisk _⟩

theorem onDisk (session : Session α) : Respects World.Alike (onDisk session) :=
  .bind (.attempt session) fun r => .ofExcept .io r

theorem run (program : Bytes) (args : List Bytes) : Respects World.Alike (run program args) := by
  intro w₁ w₂ h
  have hresolve : Program.resolve w₁.programs w₁.disk (w₁.value? "PATH") program args =
      Program.resolve w₂.programs w₂.disk (w₂.value? "PATH") program args := by
    rw [h.agrees.programs, h.agrees.disk, h.agrees.value?_eq]
  rw [start_run, start_run, hresolve, h.agrees.disk]
  split
  next => exact ⟨rfl, h.withDisk _⟩
  next => exact ⟨rfl, h.withDisk _⟩

end Respects

/-- Whether two actions come to the same in a world, and leave worlds that are alike. -/
def Matches (w : World) (x y : Action α) : Prop :=
  (x.start w).1 = (y.start w).1 ∧ (x.start w).2.Alike (y.start w).2

namespace Matches

theorem refl (x : Action α) : Matches w x x := ⟨rfl, rfl⟩

theorem during (activity : Activity) (h : Matches w x y) :
    Matches w (during activity x) (during activity y) := by
  obtain ⟨hresult, halike⟩ := h
  refine ⟨?_, by rwa [start_during_snd, start_during_snd]⟩
  rw [start_during, start_during]
  rcases hx : x.start w with ⟨r, w₁⟩
  rcases hy : y.start w with ⟨r₂, w₂⟩
  rw [hx, hy] at hresult
  obtain rfl : r = r₂ := hresult
  rcases r with (f | _) | a <;> rfl

theorem bind (h : Matches w x y) (hf : ∀ a, Respects World.Alike (f a)) :
    Matches w (x >>= f) (y >>= f) := by
  obtain ⟨hresult, halike⟩ := h
  unfold Matches
  rw [start_bind, start_bind]
  rcases hx : x.start w with ⟨r, w₁⟩
  rcases hy : y.start w with ⟨r₂, w₂⟩
  rw [hx, hy] at hresult halike
  obtain rfl : r = r₂ := hresult
  cases r with
  | error s => exact ⟨rfl, halike⟩
  | ok a => exact hf a halike

theorem after {g : α → Action β} (h : ∀ a w', x.start w = (.ok a, w') → Matches w' (f a) (g a)) :
    Matches w (x >>= f) (x >>= g) := by
  unfold Matches
  rw [start_bind, start_bind]
  rcases hx : x.start w with ⟨r, w'⟩
  cases r with
  | error s => exact ⟨rfl, rfl⟩
  | ok a => exact h a w' hx

theorem fst_eq (h : Matches w x y) (hf : ∀ a, IsSteady (f a)) :
    ((x >>= f).start w).1 = ((y >>= f).start w).1 := by
  obtain ⟨hresult, halike⟩ := h
  rw [start_bind, start_bind]
  rcases hx : x.start w with ⟨r, w₁⟩
  rcases hy : y.start w with ⟨r₂, w₂⟩
  rw [hx, hy] at hresult halike
  obtain rfl : r = r₂ := hresult
  cases r with
  | error s => rfl
  | ok a => exact (hf a halike.agrees).1

end Matches

end Action

namespace Waiting

variable {path : Pathname} {limit : Option Nat}

theorem afterDot_silent (w : World) : (afterDot w.silent).silent = (afterDot w).silent := by
  unfold afterDot World.silent
  dsimp only
  cases w.mount with
  | none => rfl
  | some mount =>
    dsimp only
    split <;> rfl

theorem respects_pollWorld : (pollWorld path limit).Respects World.Alike := by
  have hpoll (rounds : Nat) (w : World) :
      poll (·.disk.isDir path) (fun w => (afterDot w).silent) limit rounds 0 w.silent =
        (poll (·.disk.isDir path) afterDot limit rounds 0 w).map
          fun (ready, w) => (ready, w.silent) :=
    poll_map (fun _ => rfl) afterDot_silent rounds 0 w
  intro w₁ w₂ h
  have hleft : dotsLeft w₁ = dotsLeft w₂ := h.congr fun _ => rfl
  have heq := (hpoll (limit.getD (dotsLeft w₂)) w₁).symm.trans
    ((congrArg _ (show w₁.silent = w₂.silent from h)).trans (hpoll (limit.getD (dotsLeft w₂)) w₂))
  unfold pollWorld Action.start
  dsimp only
  rw [hleft]
  revert heq
  generalize poll (·.disk.isDir path) afterDot limit (limit.getD (dotsLeft w₂)) 0 w₁ = r₁
  generalize poll (·.disk.isDir path) afterDot limit (limit.getD (dotsLeft w₂)) 0 w₂ = r₂
  intro heq
  match r₁, r₂ with
  | some (ready, w₁'), some (ready', w₂') =>
    obtain ⟨rfl, halike⟩ := Prod.mk.inj (Option.some.inj heq)
    exact ⟨rfl, halike⟩
  | none, none => exact ⟨rfl, h⟩
  | some _, none | none, some _ => simp at heq

theorem respects_untilDirectory : (untilDirectory path limit).Respects World.Alike := by
  unfold untilDirectory
  refine .bind (.askDisk _) fun there => ?_
  split
  . exact .pure true
  . exact .bind (.happen _) fun _ => .bind (.happen _) fun _ => .bind respects_pollWorld fun _ =>
      .bind (.happen _) fun _ => .pure _

end Waiting

namespace VolumeManager

variable {command command' : CommandLine}

theorem respects_list (command : CommandLine) (volumes : Pathname) :
    (list command volumes).Respects World.Alike := by
  unfold list
  cases command with
  | nil => exact .pure ()
  | cons program args =>
    refine .bind (.run _ _) fun outcome => ?_
    cases outcome with
    | ok status => exact .pure ()
    | error e => exact .happen _

theorem exists_list (command : CommandLine) (volumes : Pathname) (w : World) :
    ∃ w', (list command volumes).start w = (.ok (), w') ∧
      World.Alike w' { w with disk := w'.disk } := by
  unfold list
  cases command with
  | nil => exact ⟨w, rfl, rfl⟩
  | cons program args =>
    rw [Action.start_bind, Action.start_run]
    cases Program.resolve w.programs w.disk (w.value? "PATH") program (args ++ [volumes.bytes]) with
    | error e => exact ⟨_, rfl, rfl⟩
    | ok behaviour => exact ⟨_, rfl, rfl⟩

theorem list_matches (halike : w.Alike w₁) (hdisk : ((list command volumes).start w).2.disk =
    ((list command' volumes).start w).2.disk) :
    Action.Matches w₁ (list command volumes) (list command' volumes) := by
  obtain ⟨u, hu, hrest⟩ := exists_list command volumes w
  obtain ⟨u', hu', hrest'⟩ := exists_list command' volumes w
  obtain ⟨hresult, hafter⟩ := respects_list command volumes halike
  obtain ⟨hresult', hafter'⟩ := respects_list command' volumes halike
  rw [hu, hu'] at hdisk
  rw [hu] at hresult hafter
  rw [hu'] at hresult' hafter'
  dsimp only at hdisk
  rw [← hdisk] at hrest'
  exact ⟨hresult.symm.trans hresult', hafter.symm.trans
    (hrest.trans (hrest'.symm.trans hafter'))⟩

end VolumeManager

namespace Operator

def typed : Action String := do
  Action.printLine "[target] please provide an installation directory"
  Action.print "(input) > "
  let line ← Action.ask fun w => Utf8.decode? (firstLine w.input)
  match line with
  | some text => pure text
  | none => Action.during .readingAnswer (Action.fail (.io .notText))

theorem answer_eq (command : CommandLine) : (atTerminal command).answer volumes = (do
    VolumeManager.list command volumes
    typed) := rfl

theorem respects_typed : typed.Respects World.Alike := by
  have hline : (Action.ask fun w => Utf8.decode? (firstLine w.input)).Respects World.Alike := by
    intro w₁ w₂ h
    have hread : Utf8.decode? (firstLine w₁.input) = Utf8.decode? (firstLine w₂.input) :=
      h.congr (f := fun w => Utf8.decode? (firstLine w.input)) fun _ => rfl
    exact ⟨congrArg Except.ok hread, h⟩
  unfold typed
  refine .bind (.happen _) fun _ => .bind (.happen _) fun _ => .bind hline fun line => ?_
  cases line with
  | some text => exact .pure text
  | none => exact .during _ (.fail _)

end Operator

namespace Choice

variable {command command' : CommandLine} {named : Option Pathname} {file : Pathname}

theorem askOperator_matches (halike : w.Alike w₁)
    (hdisk : ((VolumeManager.list command volumes).start w).2.disk =
      ((VolumeManager.list command' volumes).start w).2.disk) :
    Action.Matches w₁ (askOperator volumes (.atTerminal command))
      (askOperator volumes (.atTerminal command')) := by
  unfold askOperator
  apply Action.Matches.after
  intro _ w₂ hasked
  have halike' : w₁.Alike w₂ := by
    obtain ⟨-, rfl⟩ := Prod.mk.inj hasked
    rfl
  apply Action.Matches.bind
  . rw [Operator.answer_eq, Operator.answer_eq]
    exact .bind (VolumeManager.list_matches (halike.trans halike') hdisk) fun _ =>
      Operator.respects_typed
  . intro answer
    cases ofAnswer? volumes answer with
    | some card => exact .pure card
    | none => exact .fail _

theorem pick_matches (halike : w.Alike w₁)
    (hdisk : ((VolumeManager.list command volumes).start w).2.disk =
      ((VolumeManager.list command' volumes).start w).2.disk) :
    Action.Matches w₁ (pick volumes (.file file) (.atTerminal command) named)
      (pick volumes (.file file) (.atTerminal command') named) := by
  cases named with
  | some card => exact .refl _
  | none =>
    unfold pick rememberedOrAsked
    dsimp only
    apply Action.Matches.after
    intro remembered w₂ hload
    have hsame := (CardMemory.IsPlain.file file).load_snd (w := w₁)
    rw [hload] at hsame
    cases remembered with
    | some card => exact .refl _
    | none =>
      rw [show w₂ = w₁ from hsame]
      exact askOperator_matches halike hdisk

end Choice

namespace Deployment

variable {settings : Settings} {order : Order} {file : Pathname}

theorem choose_matches {listing listing' : CommandLine}
    (hdisk : ((VolumeManager.list listing settings.volumes).start w).2.disk =
      ((VolumeManager.list listing' settings.volumes).start w).2.disk) :
    Action.Matches w (choose settings (.file file) (.atTerminal listing) order)
      (choose settings (.file file) (.atTerminal listing') order) := by
  rw [choose_eq, choose_eq]
  apply Action.Matches.bind
  . unfold pick
    apply Action.Matches.after
    intro image w₁ hlocate
    apply Action.Matches.after
    intro _ w₂ hprint
    -- Nothing but the transcript has changed so far.
    have halike : w.Alike w₂ := by
      obtain ⟨-, rfl⟩ := Prod.mk.inj hprint
      rcases Image.locate_cases order.image w with ⟨s, h⟩ | ⟨_, _, -, h⟩
      . simp [h] at hlocate
      . rw [h] at hlocate
        obtain ⟨-, rfl⟩ := Prod.mk.inj hlocate
        rfl
    exact .bind (.during _ (Choice.pick_matches halike hdisk)) fun _ => .pure _
  . rintro ⟨image, card⟩
    exact .bind (.during _ Waiting.respects_untilDirectory) fun _ =>
      .bind (.during _ (.during _ (.onDisk _))) fun _ => .pure _

/--
A run comes to the same with any command to list the volumes that does the same to the disk, and
with any command to eject the card.
-/
theorem carryOut_of_commands {listing ejecting : CommandLine}
    (hdisk : ((VolumeManager.list listing settings.volumes).start w).2.disk =
      ((VolumeManager.list settings.listCommand settings.volumes).start w).2.disk) :
    ((carryOut { settings with listCommand := listing, ejectCommand := ejecting } (.file file)
        (.atTerminal listing) order).start w).1 =
      ((carryOut settings (.file file) (.atTerminal settings.listCommand) order).start w).1 := by
  rw [carryOut_fst, carryOut_fst, fillCard_eq, fillCard_eq]
  refine Action.Matches.fst_eq (choose_matches hdisk) ?_
  rintro ⟨image, card⟩
  exact .bind Clearing.isDirect_clear.isSteady fun _ => .bind isSteady_plan fun _ =>
    .bind Staging.isDirect_stageAll.isSteady fun _ => .pure _

end Deployment

end BootCard
