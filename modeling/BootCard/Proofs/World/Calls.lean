import BootCard.Card.Choice
import BootCard.Proofs.World.Children

/-!
This module contains what actions call: an operator who is asked for a card, and programs. A run is
a path from world to world, whose labels are its calls, and what an action calls is bound by a list.
-/

namespace BootCard

/-- The question for a card, or a program with its arguments. -/
inductive Call where
  | operator (volumes : Pathname)
  | program (name : Bytes) (args : List Bytes)
deriving DecidableEq

def CommandLine.on (command : CommandLine) (path : Pathname) : List Call :=
  match command with
  | [] => []
  | program :: args => [.program program (args ++ [path.bytes])]

def Event.call? : Event → Option Call
  | .asked volumes => some (.operator volumes)
  | .ran program args _ => some (.program program args)
  | .printed _ => none
  | .noted _ _ => none

namespace Call

def made (operator : Operator) (call : Call) (w : World) : World :=
  match call with
  | .operator volumes =>
    ((operator.answer volumes).start { w with transcript := w.transcript ++ [.asked volumes] }).2
  | .program name args => ((Action.run name args).start w).2

def atTerminal (listCommand : CommandLine) : Call → List Call
  | .operator volumes => .operator volumes :: listCommand.on volumes
  | .program name args => [.program name args]

end Call

namespace World

def calls (w : World) : List Call := w.transcript.filterMap Event.call?

def Waits (w w' : World) : Prop := w' = Waiting.afterDot w

def Reworks (w w' : World) : Prop :=
  w' = { w with disk := w'.disk, mount := w'.mount, remembered := w'.remembered }

/-- Something is told, one makes a step of one's own, or calls somebody. -/
inductive Step (operator : Operator) (own : World → World → Prop) :
    List Call → World → World → Prop where
  | tell (e : Event) (w : World) : e.call? = none →
    Step operator own [] w { w with transcript := w.transcript ++ [e] }
  | own {w w' : World} : own w w' → Step operator own [] w w'
  | call (c : Call) (w : World) : Step operator own [c] w (c.made operator w)

/-- Whether steps lead from a world to another one, with these calls in this order. -/
inductive Leads (operator : Operator) (own : World → World → Prop) :
    List Call → World → World → Prop where
  | refl (w : World) : Leads operator own [] w w
  | head {w w₁ w' : World} {made calls : List Call} : Step operator own made w w₁ →
    Leads operator own calls w₁ w' → Leads operator own (made ++ calls) w w'

variable {operator : Operator} {own own' : World → World → Prop} {calls calls' : List Call}
variable {w w' w₁ : World}

namespace Leads

theorem of_step (h : Step operator own calls w w') : Leads operator own calls w w' := by
  rw [← List.append_nil calls]
  exact .head h (.refl w')

theorem append (h : Leads operator own calls w w₁) (h' : Leads operator own calls' w₁ w') :
    Leads operator own (calls ++ calls') w w' := by
  induction h with
  | refl => exact h'
  | head hstep _ ih =>
    rw [List.append_assoc]
    exact .head hstep (ih h')

theorem append_nil (h : Leads operator own calls w w₁) (h' : Leads operator own [] w₁ w') :
    Leads operator own calls w w' := by
  rw [← List.append_nil calls]
  exact h.append h'

theorem mono (hown : ∀ w w', own w w' → Leads operator own' [] w w')
    (h : Leads operator own calls w w') : Leads operator own' calls w w' := by
  induction h with
  | refl w => exact .refl w
  | head hstep _ ih =>
    cases hstep with
    | tell e _ htold => exact .head (.tell e _ htold) ih
    | own hstep => exact (hown _ _ hstep).append ih
    | call c _ => exact .head (.call c _) ih

theorem reworks_of_eq (h : Leads operator Eq calls w w') : Leads operator Reworks calls w w' := by
  apply h.mono
  rintro w _ rfl
  exact .refl w

theorem reworks_of_waits (h : Leads operator Waits calls w w') :
    Leads operator Reworks calls w w' := by
  apply h.mono
  rintro w _ rfl
  refine .head (.tell (.printed (utf8 ".")) w rfl) (of_step (.own ?_))
  unfold Waiting.afterDot Reworks
  dsimp only
  cases w.mount with
  | none => rfl
  | some mount =>
    dsimp only
    split <;> rfl

end Leads

end World

namespace Action

variable {α β ε : Type} {operator : Operator} {own : World → World → Prop}
variable {calls calls' limit limit' : List Call} {x : Action α} {f : α → Action β}

/-- Whether an action, whatever it comes to, makes no calls but some of these, in this order. -/
def CallsAtMost (operator : Operator) (own : World → World → Prop) (limit : List Call)
    (x : Action α) : Prop :=
  ∀ w : World, ∃ calls, List.Sublist calls limit ∧ w.Leads operator own calls (x.start w).2

namespace CallsAtMost

theorem of_leads (h : ∀ w : World, w.Leads operator own [] (x.start w).2) :
    CallsAtMost operator own limit x :=
  fun w => ⟨[], List.nil_sublist limit, h w⟩

theorem of_same (h : ∀ w, (x.start w).2 = w) : CallsAtMost operator own limit x := by
  apply of_leads
  intro w
  rw [h w]
  exact .refl w

theorem pure (a : α) : CallsAtMost operator own limit (pure a : Action α) := of_same fun _ => rfl

theorem fail (cause : Cause) : CallsAtMost operator own limit (fail cause : Action α) :=
  of_same fun _ => rfl

theorem askDisk (question : FileSystem → α) : CallsAtMost operator own limit (askDisk question) :=
  of_same fun _ => rfl

theorem happen {e : Event} (he : e.call? = none) : CallsAtMost operator own limit (happen e) :=
  of_leads fun w => .of_step (.tell e w he)

theorem print (text : String) : CallsAtMost operator own limit (print text) := happen rfl

theorem printLine (text : String) : CallsAtMost operator own limit (printLine text) := happen rfl

theorem note (level : Level) (text : String) : CallsAtMost operator own limit (note level text) :=
  happen rfl

theorem attempt (session : Session α) :
    CallsAtMost operator World.Reworks limit (attempt session) :=
  of_leads fun _ => .of_step (.own rfl)

theorem run (program : Bytes) (args : List Bytes) :
    CallsAtMost operator own [.program program args] (run program args) :=
  fun w => ⟨_, .refl _, .of_step (.call (.program program args) w)⟩

theorem during (activity : Activity) (hx : CallsAtMost operator own limit x) :
    CallsAtMost operator own limit (during activity x) := by
  intro w
  rw [start_during_snd]
  exact hx w

theorem bind (hx : CallsAtMost operator own limit x)
    (hf : ∀ a, CallsAtMost operator own limit' (f a)) :
    CallsAtMost operator own (limit ++ limit') (x >>= f) := by
  intro w
  obtain ⟨calls, hsub, hleads⟩ := hx w
  rw [start_bind]
  rcases h : x.start w with ⟨r, w₁⟩
  rw [h] at hleads
  cases r with
  | error s => exact ⟨calls, hsub.trans (List.sublist_append_left limit limit'), hleads⟩
  | ok a =>
    obtain ⟨calls', hsub', hleads'⟩ := hf a w₁
    exact ⟨calls ++ calls', hsub.append hsub', hleads.append hleads'⟩

theorem before (hx : CallsAtMost operator own [] x)
    (hf : ∀ a, CallsAtMost operator own limit (f a)) : CallsAtMost operator own limit (x >>= f) :=
  bind hx hf

theorem after (hx : CallsAtMost operator own limit x)
    (hf : ∀ a, CallsAtMost operator own [] (f a)) : CallsAtMost operator own limit (x >>= f) := by
  rw [← List.append_nil limit]
  exact bind hx hf

theorem leads {w w' : World} {r : Except Stop α} (hx : CallsAtMost operator own [] x)
    (h : x.start w = (r, w')) : w.Leads operator own [] w' := by
  obtain ⟨calls, hcalls, hleads⟩ := hx w
  obtain rfl := List.sublist_nil.mp hcalls
  rwa [h] at hleads

end CallsAtMost

/-- Whether an action always succeeds, and makes these calls in this order. -/
def CallsExactly (operator : Operator) (own : World → World → Prop) (calls : List Call)
    (x : Action α) : Prop :=
  ∀ w : World, ∃ a w', x.start w = (.ok a, w') ∧ w.Leads operator own calls w'

namespace CallsExactly

theorem pure (a : α) : CallsExactly operator own [] (pure a : Action α) :=
  fun w => ⟨a, w, rfl, .refl w⟩

theorem ask (question : World → α) : CallsExactly operator own [] (ask question) :=
  fun w => ⟨question w, w, rfl, .refl w⟩

theorem happen {e : Event} (he : e.call? = none) : CallsExactly operator own [] (happen e) :=
  fun w => ⟨(), _, rfl, .of_step (.tell e w he)⟩

theorem run (program : Bytes) (args : List Bytes) :
    CallsExactly operator own [.program program args] (run program args) := by
  intro w
  obtain ⟨outcome, w', hok⟩ := exists_run program args w
  have hmade : (Call.program program args).made operator w = w' := by
    unfold Call.made
    dsimp only
    rw [hok]
  refine ⟨outcome, w', hok, ?_⟩
  rw [← hmade]
  exact .of_step (.call (.program program args) w)

theorem bind (hx : CallsExactly operator own calls x)
    (hf : ∀ a, CallsExactly operator own calls' (f a)) :
    CallsExactly operator own (calls ++ calls') (x >>= f) := by
  intro w
  obtain ⟨a, w₁, hstart, hleads⟩ := hx w
  obtain ⟨b, w', hstart', hleads'⟩ := hf a w₁
  exact ⟨b, w', (start_bind_of_ok hstart).trans hstart', hleads.append hleads'⟩

theorem before (hx : CallsExactly operator own [] x)
    (hf : ∀ a, CallsExactly operator own calls (f a)) :
    CallsExactly operator own calls (x >>= f) :=
  bind hx hf

theorem after (hx : CallsExactly operator own calls x)
    (hf : ∀ a, CallsExactly operator own [] (f a)) : CallsExactly operator own calls (x >>= f) := by
  rw [← List.append_nil calls]
  exact bind hx hf

end CallsExactly

end Action

/-! The transcript tells of the calls that are made. -/

section Transcript

variable {own : World → World → Prop} {calls : List Call} {w w' : World}
variable {listCommand : CommandLine} {volumes : Pathname}

theorem World.calls_tell {e : Event} (he : e.call? = none) :
    ({ w with transcript := w.transcript ++ [e] } : World).calls = w.calls := by
  unfold World.calls
  simp [he]

theorem Action.run_calls (program : Bytes) (args : List Bytes) :
    ((Action.run program args).start w).2.calls = w.calls ++ [.program program args] := by
  rw [Action.start_run]
  unfold World.calls
  split
  next => simp [Event.call?]
  next =>
    dsimp only
    split <;> simp [List.filterMap_cons, Event.call?]

theorem VolumeManager.list_calls :
    ((VolumeManager.list listCommand volumes).start w).2.calls =
      w.calls ++ listCommand.on volumes := by
  unfold VolumeManager.list
  cases listCommand with
  | nil => simp [CommandLine.on]
  | cons program args =>
    rw [CommandLine.on, ← Action.run_calls]
    symm
    apply Action.frame_after (R := Eq)
    intro outcome w₁ _
    cases outcome with
    | ok status => rfl
    | error e => exact (World.calls_tell rfl).symm

theorem Operator.answer_calls :
    (((Operator.atTerminal listCommand).answer volumes).start w).2.calls =
      w.calls ++ listCommand.on volumes := by
  rw [← VolumeManager.list_calls]
  symm
  unfold Operator.atTerminal
  dsimp only
  apply Action.frame_after (R := Eq)
  intro _ w₁ _
  apply Action.frame_bind (R := Eq)
  . exact (World.calls_tell rfl).symm
  intro _ w₂ _
  apply Action.frame_bind (R := Eq)
  . exact (World.calls_tell rfl).symm
  intro _ w₃ _
  apply Action.frame_bind (R := Eq)
  . rfl
  intro line w₄ _
  cases line with
  | none => rfl
  | some text => rfl

theorem Call.calls_made (call : Call) :
    (call.made (.atTerminal listCommand) w).calls = w.calls ++ call.atTerminal listCommand := by
  cases call with
  | operator volumes =>
    unfold Call.made
    dsimp only
    rw [Operator.answer_calls]
    unfold World.calls
    simp [Event.call?, Call.atTerminal]
  | program name args => exact Action.run_calls name args

theorem World.Leads.calls_eq (h : w.Leads (.atTerminal listCommand) World.Reworks calls w') :
    w'.calls = w.calls ++ calls.flatMap (Call.atTerminal listCommand) := by
  induction h with
  | refl w => simp
  | head hstep _ ih =>
    rw [ih, List.flatMap_append, ← List.append_assoc]
    congr 1
    cases hstep with
    | tell e w htold => simp [World.calls_tell htold]
    | own hstep =>
      unfold World.Reworks at hstep
      rw [hstep]
      simp [World.calls]
    | call c w => simp [Call.calls_made]

end Transcript

end BootCard
