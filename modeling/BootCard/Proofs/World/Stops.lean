import BootCard.Proofs.World.Children

/-!
This module contains what actions stop for. There is a rule for each way to build one, so that only
the generator's own end has to be told apart from all other causes.
-/

namespace BootCard

def Stop.cause? : Stop → Option Cause
  | .failed f => some f.cause
  | .waiting => none

/-- Whether a generator has run and has not ended well. -/
def Cause.IsGenerators (cause : Cause) : Prop :=
  ∃ generator status, cause = .generatorFailed generator status

theorem Cause.not_isGenerators_io (e : IoError) : ¬ (Cause.io e).IsGenerators := by
  simp [IsGenerators]

namespace Action

variable {α β ε : Type} {P : Option Cause → Prop} {x : Action α} {f : α → Action β}
variable {cause : Cause}

/-- Whether an action, if it stops, does so for a cause of some kind. -/
def StopsFor (P : Option Cause → Prop) (x : Action α) : Prop :=
  ∀ w s, (x.start w).1 = .error s → P s.cause?

namespace StopsFor

theorem of_ok (h : ∀ w, ∃ a, (x.start w).1 = .ok a) : StopsFor P x := by
  intro w s hs
  obtain ⟨a, ha⟩ := h w
  simp [ha] at hs

theorem pure (a : α) : StopsFor P (pure a : Action α) := of_ok fun _ => ⟨a, rfl⟩

theorem ask (question : World → α) : StopsFor P (ask question) := of_ok fun _ => ⟨_, rfl⟩

theorem askDisk (question : FileSystem → α) : StopsFor P (askDisk question) :=
  of_ok fun _ => ⟨_, rfl⟩

theorem happen (e : Event) : StopsFor P (happen e) := of_ok fun _ => ⟨(), rfl⟩

theorem attempt (session : Session α) : StopsFor P (attempt session) := of_ok fun _ => ⟨_, rfl⟩

theorem run (program : Bytes) (args : List Bytes) : StopsFor P (run program args) := by
  apply of_ok
  intro w
  obtain ⟨outcome, w', hrun⟩ := exists_run program args w
  exact ⟨outcome, by rw [hrun]⟩

theorem fail (h : P (some cause)) : StopsFor P (fail cause : Action α) := by
  intro w s hs
  obtain rfl := Except.error.inj hs
  exact h

theorem during (activity : Activity) (hx : StopsFor P x) : StopsFor P (during activity x) := by
  intro w s hs
  rw [start_during] at hs
  rcases hstart : x.start w with ⟨r, w₁⟩
  rw [hstart] at hs
  cases r with
  | ok a => simp at hs
  | error s' =>
    have hs' := hx w s' (by rw [hstart])
    cases s' with
    | failed f =>
      obtain rfl := Except.error.inj hs
      exact hs'
    | waiting =>
      obtain rfl := Except.error.inj hs
      exact hs'

theorem bind (hx : StopsFor P x) (hf : ∀ a, StopsFor P (f a)) : StopsFor P (x >>= f) := by
  intro w s hs
  rw [start_bind] at hs
  rcases hstart : x.start w with ⟨r, w₁⟩
  rw [hstart] at hs
  cases r with
  | ok a => exact hf a w₁ s hs
  | error s' =>
    obtain rfl := Except.error.inj hs
    exact hx w _ (by rw [hstart])

theorem bind_askDisk {question : FileSystem → α} (hf : ∀ fs, StopsFor P (f (question fs))) :
    StopsFor P (Action.askDisk question >>= f) :=
  fun w => hf w.disk w

theorem ofExcept {cause : ε → Cause} (h : ∀ e, P (some (cause e))) (r : Except ε α) :
    StopsFor P (ofExcept cause r) := by
  cases r with
  | ok a => exact .pure a
  | error e => exact .fail (h e)

theorem onDisk (h : ∀ e, P (some (.io e))) (session : Session α) : StopsFor P (onDisk session) :=
  .bind (.attempt session) fun r => .ofExcept h r

end StopsFor

end Action

end BootCard
