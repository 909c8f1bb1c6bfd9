import BootCard.Proofs.Disk.Writing

/-!
This module contains what child programs do to a world. A program may do anything to the file
system, but the world is otherwise as it was.
-/

namespace BootCard

open FileSystem

variable {fs : FileSystem} {args : List Bytes}

namespace Program

variable {programs : Programs}

theorem load_of_find {path : Pathname} {loc : Location} {f : RegularFile}
    (hfind : fs.find path = .ok (.file loc f)) (hmay : f.mode.canEnter = true) :
    load programs fs path = programs fs f := by
  unfold load
  rw [hfind]
  exact if_pos hmay

theorem resolve_of_find {name : Bytes} {searchPath : Option Bytes} {loc : Location}
    {f : RegularFile} (hslash : name.contains Bytes.slash = true)
    (hzero : (name.contains 0 || args.any (·.contains 0)) = false)
    (hfind : fs.find ⟨name⟩ = .ok (.file loc f)) (hmay : f.mode.canEnter = true) :
    resolve programs fs searchPath name args = programs fs f := by
  have hne : name ≠ [] := by
    rintro rfl
    simp at hslash
  unfold resolve
  rw [hzero, if_neg (by simp), if_neg hne, if_pos hslash]
  exact load_of_find hfind hmay

end Program

namespace Script

variable {f : RegularFile}

theorem programs_of_shell (h : interpreter? f.data = some shell) :
    programs fs f = .ok (behaviour f) := by
  unfold programs
  rw [h]
  exact if_pos rfl

end Script

namespace World

/-- Whether two worlds have the same file system, which works the same, and the same programs. -/
structure Agrees (w₁ w₂ : World) : Prop where
  disk : w₁.disk = w₂.disk
  programs : w₁.programs = w₂.programs
  listing : w₁.listing = w₂.listing
  environment : w₁.environment = w₂.environment

theorem Agrees.value?_eq {w₁ w₂ : World} (h : w₁.Agrees w₂) (name : String) :
    w₁.value? name = w₂.value? name := by
  unfold value?
  rw [h.environment]

end World

namespace Action

variable {α β ε : Type} {w : World} {program : Bytes} {x : Action α}

theorem start_run (program : Bytes) (args : List Bytes) (w : World) :
    (run program args).start w =
      match Program.resolve w.programs w.disk (w.value? "PATH") program args with
      | .error e =>
        (.ok (.error e), { w with transcript := w.transcript ++ [.ran program args (.error e)] })
      | .ok behaviour =>
        let outcome := behaviour.run args w.disk
        let printed := if outcome.output ≠ [] then [Event.printed outcome.output] else []
        (.ok (.ok outcome.status),
          { w with
            disk := outcome.disk
            transcript := w.transcript ++ printed ++ [.ran program args (.ok outcome.status)] }) := by
  unfold run
  rw [start_bind, start_ask]
  dsimp only [id]
  cases Program.resolve w.programs w.disk (w.value? "PATH") program args with
  | error e => rfl
  | ok behaviour =>
    dsimp only
    by_cases h : (behaviour.run args w.disk).output = []
    . simp only [h, ne_eq, not_true_eq_false, if_false, List.append_nil]
      rfl
    . simp only [h, ne_eq, not_false_eq_true, if_true]
      rfl

theorem exists_run (program : Bytes) (args : List Bytes) (w : World) :
    ∃ outcome w', (run program args).start w = (.ok outcome, w') := by
  rw [start_run]
  split <;> exact ⟨_, _, rfl⟩

theorem lt_of_run {args : List Bytes} {w' : World} {n : Nat}
    (h : (run program args).start w = (.ok (.ok (.exited n)), w')) : n < 256 := by
  rw [start_run] at h
  split at h
  next => simp at h
  next behaviour hresolve =>
    obtain ⟨hstatus, -⟩ := Prod.mk.inj h
    exact behaviour.lt_of_run _ _ _ (Except.ok.inj (Except.ok.inj hstatus))

/-- Whether an action comes to the same in related worlds, and leaves them related. -/
def Respects (R : World → World → Prop) (x : Action α) : Prop :=
  ∀ ⦃w₁ w₂ : World⦄, R w₁ w₂ → (x.start w₁).1 = (x.start w₂).1 ∧ R (x.start w₁).2 (x.start w₂).2

namespace Respects

variable {R : World → World → Prop} {f : α → Action β}

theorem pure (a : α) : Respects R (pure a : Action α) := fun _ _ h => ⟨rfl, h⟩

theorem fail (cause : Cause) : Respects R (fail cause : Action α) := fun _ _ h => ⟨rfl, h⟩

theorem ofExcept (cause : ε → Cause) (r : Except ε α) : Respects R (ofExcept cause r) := by
  cases r with
  | ok a => exact .pure a
  | error e => exact .fail (cause e)

theorem bind (hx : Respects R x) (hf : ∀ a, Respects R (f a)) : Respects R (x >>= f) := by
  intro w₁ w₂ h
  obtain ⟨hresult, hrelated⟩ := hx h
  rw [start_bind, start_bind]
  rcases h₁ : x.start w₁ with ⟨r, w₁'⟩
  rcases h₂ : x.start w₂ with ⟨r₂, w₂'⟩
  rw [h₁, h₂] at hresult hrelated
  obtain rfl : r = r₂ := hresult
  cases r with
  | error s => exact ⟨rfl, hrelated⟩
  | ok a => exact hf a hrelated

theorem during (activity : Activity) (hx : Respects R x) : Respects R (during activity x) := by
  intro w₁ w₂ h
  obtain ⟨hresult, hrelated⟩ := hx h
  refine ⟨?_, by rwa [start_during_snd, start_during_snd]⟩
  rw [start_during, start_during]
  rcases h₁ : x.start w₁ with ⟨r, w₁'⟩
  rcases h₂ : x.start w₂ with ⟨r₂, w₂'⟩
  rw [h₁, h₂] at hresult
  obtain rfl : r = r₂ := hresult
  rcases r with (f | _) | a <;> rfl

end Respects

/-- Whether what an action comes to is told by the file system and the environment. -/
def IsSteady (x : Action α) : Prop :=
  ∀ ⦃w₁ w₂ : World⦄, w₁.Agrees w₂ →
    (x.start w₁).1 = (x.start w₂).1 ∧ (x.start w₁).2.Agrees (x.start w₂).2

namespace IsSteady

variable {f : α → Action β}

theorem pure (a : α) : IsSteady (pure a : Action α) := Respects.pure a

theorem fail (cause : Cause) : IsSteady (fail cause : Action α) := Respects.fail cause

theorem happen (e : Event) : IsSteady (happen e) :=
  fun _ _ h => ⟨rfl, h.disk, h.programs, h.listing, h.environment⟩

theorem ask {question : World → α}
    (hquestion : ∀ ⦃w₁ w₂ : World⦄, w₁.Agrees w₂ → question w₁ = question w₂) :
    IsSteady (ask question) := by
  intro w₁ w₂ h
  rw [start_ask, start_ask, hquestion h]
  exact ⟨rfl, h⟩

theorem askDisk (question : FileSystem → α) : IsSteady (askDisk question) :=
  .ask fun _ _ h => congrArg question h.disk

theorem askListing : IsSteady (Action.ask World.listing) := .ask fun _ _ h => h.listing

theorem attempt (session : Session α) : IsSteady (attempt session) := by
  intro w₁ w₂ h
  rw [start_attempt, start_attempt, h.disk]
  exact ⟨rfl, rfl, h.programs, h.listing, h.environment⟩

theorem ofExcept (cause : ε → Cause) (r : Except ε α) : IsSteady (ofExcept cause r) :=
  Respects.ofExcept cause r

theorem bind (hx : IsSteady x) (hf : ∀ a, IsSteady (f a)) : IsSteady (x >>= f) :=
  Respects.bind hx hf

theorem during (activity : Activity) (hx : IsSteady x) : IsSteady (during activity x) :=
  Respects.during activity hx

theorem run : IsSteady (run program args) := by
  intro w₁ w₂ h
  rw [start_run, start_run, h.disk, h.programs, h.value?_eq]
  split
  next => exact ⟨rfl, rfl, rfl, h.listing, h.environment⟩
  next => exact ⟨rfl, rfl, rfl, h.listing, h.environment⟩

end IsSteady

theorem run_disk {args : List Bytes} {x : Action Unit}
    {f : Except IoError ExitStatus → Action β}
    (hx : ∃ w₁, x.start w = (.ok (), w₁) ∧ w.Agrees w₁)
    (hf : ∀ outcome w₁, w₁.disk = ((f outcome).start w₁).2.disk) :
    ((run program args).start w).2.disk = ((x >>= fun _ => run program args >>= f).start w).2.disk := by
  obtain ⟨w₁, hx, hagrees⟩ := hx
  rw [start_bind, hx]
  dsimp only
  rw [(IsSteady.run hagrees).2.disk]
  apply frame_after
  intro outcome w₂ _
  exact hf outcome w₂

end Action

end BootCard
