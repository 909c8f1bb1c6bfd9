import BootCard.Proofs.World.Calls
import BootCard.Proofs.World.Stops

/-!
This module contains the actions that work on the disk by themselves: they ask, change and tell, and
may fail, but call nobody. How an action is built tells that once, and all else follows from it.
-/

namespace BootCard

namespace Action

/-- Whether an action calls nobody and looks at nothing but the disk, and what it may fail for. -/
inductive IsDirect (P : Cause → Prop) : {α : Type} → Action α → Prop where
  | pure {α : Type} (a : α) : IsDirect P (pure a : Action α)
  | fail {α : Type} {cause : Cause} : P cause → IsDirect P (fail cause : Action α)
  | print (text : String) : IsDirect P (print text)
  | note (level : Level) (text : String) : IsDirect P (note level text)
  | askDisk {α : Type} (question : FileSystem → α) : IsDirect P (askDisk question)
  | askListing : IsDirect P (ask World.listing)
  | attempt {α : Type} (session : Session α) : IsDirect P (attempt session)
  | during {α : Type} {x : Action α} (activity : Activity) : IsDirect P x →
    IsDirect P (during activity x)
  | bind {α β : Type} {x : Action α} {f : α → Action β} : IsDirect P x →
    (∀ a, IsDirect P (f a)) → IsDirect P (x >>= f)

namespace IsDirect

variable {P : Cause → Prop} {α β ε : Type} {x : Action α}

theorem printLine (text : String) : IsDirect P (printLine text) := .print (text ++ "\n")

theorem ofExcept {cause : ε → Cause} (h : ∀ e, P (cause e)) (r : Except ε α) :
    IsDirect P (ofExcept cause r) := by
  cases r with
  | ok a => exact .pure a
  | error e => exact .fail (h e)

theorem onDisk (h : ∀ e, P (.io e)) (session : Session α) : IsDirect P (onDisk session) :=
  .bind (.attempt session) fun r => .ofExcept h r

theorem require {question : FileSystem → Bool} {cause : Cause} (h : P cause) :
    IsDirect P (require question cause) := by
  unfold Action.require
  refine .bind (.askDisk question) fun holds => ?_
  split
  . exact .fail h
  . exact .pure ()

theorem foldlM {g : β → α → Action β} {xs : List α} {b : β} (hg : ∀ b a, IsDirect P (g b a)) :
    IsDirect P (xs.foldlM g b) := by
  induction xs generalizing b with
  | nil => exact .pure b
  | cons a xs ih =>
    rw [List.foldlM_cons]
    exact .bind (hg b a) fun _ => ih

theorem stopsFor {Q : Option Cause → Prop} (hx : IsDirect P x)
    (h : ∀ cause, P cause → Q (some cause)) : StopsFor Q x := by
  induction hx with
  | pure a => exact .pure a
  | fail hcause => exact .fail (h _ hcause)
  | print text => exact .happen _
  | note level text => exact .happen _
  | askDisk question => exact .askDisk question
  | askListing => exact .ask _
  | attempt session => exact .attempt session
  | during activity _ ih => exact .during activity ih
  | bind _ _ ihx ihf => exact .bind ihx ihf

theorem isSteady (hx : IsDirect P x) : IsSteady x := by
  induction hx with
  | pure a => exact .pure a
  | fail => exact .fail _
  | print text => exact .happen _
  | note level text => exact .happen _
  | askDisk question => exact .askDisk question
  | askListing => exact .askListing
  | attempt session => exact .attempt session
  | during activity _ ih => exact .during activity ih
  | bind _ _ ihx ihf => exact .bind ihx ihf

theorem callsAtMost (operator : Operator) (hx : IsDirect P x) :
    CallsAtMost operator World.Reworks [] x := by
  induction hx with
  | pure a => exact .pure a
  | fail => exact .fail _
  | print text => exact .print text
  | note level text => exact .note level text
  | askDisk question => exact .askDisk question
  | askListing => exact .of_same fun _ => rfl
  | attempt session => exact .attempt session
  | during activity _ ih => exact .during activity ih
  | bind _ _ ihx ihf => exact .before ihx ihf

theorem agrees (hx : IsDirect P x) (w : World) :
    w.Agrees { (x.start w).2 with disk := w.disk } := by
  induction hx generalizing w with
  | pure | fail | print | note | askDisk | askListing | attempt => exact ⟨rfl, rfl, rfl, rfl⟩
  | during activity _ ih =>
    rw [start_during_snd]
    exact ih w
  | bind _ _ ihx ihf =>
    rename_i x f _ _
    rw [start_bind]
    rcases h : x.start w with ⟨r, w₁⟩
    have hx := ihx w
    rw [h] at hx
    cases r with
    | error s => exact hx
    | ok a =>
      have hf := ihf a w₁
      exact ⟨rfl, hx.programs.trans hf.programs, hx.listing.trans hf.listing,
        hx.environment.trans hf.environment⟩

theorem exists_ok (hx : IsDirect (fun _ => False) x) (w : World) :
    ∃ a w', x.start w = (.ok a, w') := by
  have hstops : x.StopsFor fun _ => False := hx.stopsFor fun _ => False.elim
  rcases h : x.start w with ⟨r, w'⟩
  cases r with
  | ok a => exact ⟨a, w', rfl⟩
  | error s => exact absurd (by rw [h]) (hstops w s)

theorem callsExactly (operator : Operator) (hx : IsDirect (fun _ => False) x) :
    CallsExactly operator World.Reworks [] x := by
  intro w
  obtain ⟨a, w', h⟩ := hx.exists_ok w
  exact ⟨a, w', h, (hx.callsAtMost operator).leads h⟩

end IsDirect

end Action

end BootCard
