import BootCard.World.Action
import Mathlib.Order.Defs.Unbundled

/-!
This module contains the laws of doing one thing after another: how a sequence that succeeds falls
apart into its steps, and what a sequence keeps, whether it succeeds or not, if every step keeps it.
-/

namespace BootCard

variable {α β ε : Type}

@[simp]
theorem except_bind_eq_ok {x : Except ε α} {f : α → Except ε β} {b : β} :
    (x >>= f) = .ok b ↔ ∃ a, x = .ok a ∧ f a = .ok b := by
  cases x <;> simp [bind, Except.bind]

@[simp]
theorem except_mapError_eq_ok {ε' : Type} {x : Except ε α} {f : ε → ε'} {a : α} :
    x.mapError f = .ok a ↔ x = .ok a := by
  cases x with
  | error e =>
    show Except.error (f e) = .ok a ↔ _
    simp
  | ok b =>
    show Except.ok b = .ok a ↔ _
    simp

@[simp]
theorem except_toOption_eq_some {x : Except ε α} {a : α} : x.toOption = some a ↔ x = .ok a := by
  cases x <;> simp [Except.toOption]

namespace Session

variable {fs fs' : FileSystem}

def start (session : Session α) (fs : FileSystem) : Except IoError α × FileSystem := session fs

@[simp]
theorem start_pure (a : α) : (pure a : Session α).start fs = (.ok a, fs) := rfl

@[simp]
theorem start_throw (e : IoError) : (throw e : Session α).start fs = (.error e, fs) := rfl

@[simp]
theorem start_ask (question : FileSystem → Except IoError α) :
    (ask question).start fs = (question fs, fs) := rfl

theorem start_bind (x : Session α) (f : α → Session β) :
    (x >>= f).start fs =
      match x.start fs with
      | (.ok a, fs₁) => (f a).start fs₁
      | (.error e, fs₁) => (.error e, fs₁) := by
  show StateT.bind x (ExceptT.bindCont f) fs = _
  unfold start StateT.bind
  rcases x fs with ⟨r, s⟩
  cases r <;> rfl

@[simp]
theorem start_bind_eq_ok {x : Session α} {f : α → Session β} {b : β} :
    (x >>= f).start fs = (.ok b, fs') ↔
      ∃ a fs₁, x.start fs = (.ok a, fs₁) ∧ (f a).start fs₁ = (.ok b, fs') := by
  rw [start_bind]
  rcases x.start fs with ⟨r, fs₁⟩
  cases r <;> simp [and_assoc]

theorem start_change (op : FileSystem → Except IoError FileSystem) :
    (change op).start fs =
      match op fs with
      | .ok fs' => (.ok (), fs')
      | .error e => (.error e, fs) := rfl

@[simp]
theorem start_change_eq_ok {op : FileSystem → Except IoError FileSystem} {u : Unit} :
    (change op).start fs = (.ok u, fs') ↔ op fs = .ok fs' := by
  rw [start_change]
  split <;> simp_all

theorem start_orElse (x : Session α) (y : IoError → Session α) :
    (x.orElse y).start fs =
      match x.start fs with
      | (.ok a, fs₁) => (.ok a, fs₁)
      | (.error e, fs₁) => (y e).start fs₁ := rfl

section Frame

variable {R : FileSystem → FileSystem → Prop} [IsTrans FileSystem R]

theorem frame_bind {x : Session α} {f : α → Session β} (hx : R fs (x.start fs).2)
    (hf : ∀ a fs₁, x.start fs = (.ok a, fs₁) → R fs₁ ((f a).start fs₁).2) :
    R fs ((x >>= f).start fs).2 := by
  rw [start_bind]
  rcases h : x.start fs with ⟨r, fs₁⟩
  rw [h] at hx
  cases r with
  | error e => exact hx
  | ok a => exact trans_of R hx (hf a fs₁ h)

theorem frame_orElse {x : Session α} {y : IoError → Session α} (hx : R fs (x.start fs).2)
    (hy : ∀ e fs₁, x.start fs = (.error e, fs₁) → R fs₁ ((y e).start fs₁).2) :
    R fs ((x.orElse y).start fs).2 := by
  rw [start_orElse]
  rcases h : x.start fs with ⟨r, fs₁⟩
  rw [h] at hx
  cases r with
  | error e => exact trans_of R hx (hy e fs₁ h)
  | ok a => exact hx

end Frame

theorem frame_change {R : FileSystem → FileSystem → Prop} [Std.Refl R]
    {op : FileSystem → Except IoError FileSystem} (h : ∀ fs', op fs = .ok fs' → R fs fs') :
    R fs ((change op).start fs).2 := by
  rw [start_change]
  split
  next fs' hop => exact h fs' hop
  next => exact refl_of R fs

theorem frame_forM {R : FileSystem → FileSystem → Prop} [Std.Refl R] [IsTrans FileSystem R]
    {f : α → Session PUnit} {xs : List α} (hf : ∀ a ∈ xs, ∀ fs, R fs ((f a).start fs).2) :
    R fs ((xs.forM f).start fs).2 := by
  induction xs generalizing fs with
  | nil => exact refl_of R fs
  | cons x xs ih =>
    apply frame_bind
    . exact hf x (by simp) fs
    . intro _ fs₁ _
      exact ih fun a ha => hf a (by simp [ha])

theorem forM_cons_eq_ok {f : α → Session PUnit} {x : α} {xs : List α} {u : PUnit} :
    ((x :: xs).forM f).start fs = (.ok u, fs') ↔
      ∃ fs₁, (f x).start fs = (.ok ⟨⟩, fs₁) ∧ (xs.forM f).start fs₁ = (.ok u, fs') := by
  show (f x >>= fun _ => xs.forM f).start fs = _ ↔ _
  rw [start_bind_eq_ok]
  exact ⟨fun ⟨_, fs₁, h⟩ => ⟨fs₁, h⟩, fun ⟨fs₁, h⟩ => ⟨⟨⟩, fs₁, h⟩⟩

theorem forM_keeps {I : FileSystem → Prop} {f : α → Session PUnit} {xs : List α} {u : PUnit}
    (hstep : ∀ x ∈ xs, ∀ fs fs', I fs → (f x).start fs = (.ok ⟨⟩, fs') → I fs')
    (h : (xs.forM f).start fs = (.ok u, fs')) (hI : I fs) : I fs' := by
  induction xs generalizing fs with
  | nil =>
    obtain ⟨-, rfl⟩ := Prod.mk.inj h
    exact hI
  | cons x xs ih =>
    obtain ⟨fs₁, hx, hxs⟩ := forM_cons_eq_ok.mp h
    exact ih (fun y hy => hstep y (by simp [hy])) hxs (hstep x (by simp) fs fs₁ hI hx)

theorem forM_eq_ok {I : FileSystem → Prop} {P : α → FileSystem → Prop} {f : α → Session PUnit}
    {xs : List α} {u : PUnit}
    (hstep : ∀ x ∈ xs, ∀ fs fs', I fs → (f x).start fs = (.ok ⟨⟩, fs') → I fs' ∧ P x fs')
    (hkeep : ∀ x ∈ xs, ∀ y fs fs', P y fs → (f x).start fs = (.ok ⟨⟩, fs') → P y fs')
    (h : (xs.forM f).start fs = (.ok u, fs')) (hI : I fs) : I fs' ∧ ∀ x ∈ xs, P x fs' := by
  induction xs generalizing fs with
  | nil =>
    obtain ⟨-, rfl⟩ := Prod.mk.inj h
    exact ⟨hI, by simp⟩
  | cons x xs ih =>
    obtain ⟨fs₁, hx, hxs⟩ := forM_cons_eq_ok.mp h
    obtain ⟨hI₁, hP⟩ := hstep x (by simp) fs fs₁ hI hx
    have hkeep' : ∀ y ∈ xs, ∀ z fs fs', P z fs → (f y).start fs = (.ok ⟨⟩, fs') → P z fs' :=
      fun y hy => hkeep y (by simp [hy])
    obtain ⟨hI', hPs⟩ := ih (fun y hy => hstep y (by simp [hy])) hkeep' hxs hI₁
    refine ⟨hI', fun y hy => ?_⟩
    rcases List.mem_cons.mp hy with rfl | hy
    . exact forM_keeps (I := P y) (fun z hz => hkeep' z hz y) hxs hP
    . exact hPs y hy

end Session

namespace World

def told (events : List Event) (w : World) : World :=
  { w with transcript := w.transcript ++ events }

theorem told_nil (w : World) : w.told [] = w := by
  simp [told]

theorem told_told (events events' : List Event) (w : World) :
    (w.told events).told events' = w.told (events ++ events') := by
  simp [told]

end World

namespace Action

variable {w w' : World}

@[simp]
theorem start_pure (a : α) : (pure a : Action α).start w = (.ok a, w) := rfl

@[simp]
theorem start_throw (s : Stop) : (throw s : Action α).start w = (.error s, w) := rfl

@[simp]
theorem start_ask (question : World → α) : (ask question).start w = (.ok (question w), w) := rfl

@[simp]
theorem start_askDisk (question : FileSystem → α) :
    (askDisk question).start w = (.ok (question w.disk), w) := rfl

@[simp]
theorem start_fail (cause : Cause) :
    (fail cause : Action α).start w = (.error (.failed { cause := cause }), w) := rfl

@[simp]
theorem start_attempt (session : Session α) :
    (attempt session).start w =
      (.ok (session.start w.disk).1, { w with disk := (session.start w.disk).2 }) := rfl

theorem start_bind (x : Action α) (f : α → Action β) :
    (x >>= f).start w =
      match x.start w with
      | (.ok a, w₁) => (f a).start w₁
      | (.error s, w₁) => (.error s, w₁) := by
  show (match x w with | (r, s) => (ExceptT.bindCont f r : StateM World _) s) = _
  unfold start
  rcases x w with ⟨r, s⟩
  cases r <;> rfl

@[simp]
theorem start_bind_eq_ok {x : Action α} {f : α → Action β} {b : β} :
    (x >>= f).start w = (.ok b, w') ↔
      ∃ a w₁, x.start w = (.ok a, w₁) ∧ (f a).start w₁ = (.ok b, w') := by
  rw [start_bind]
  rcases x.start w with ⟨r, w₁⟩
  cases r <;> simp [and_assoc]

theorem start_bind_eq_error {x : Action α} {f : α → Action β} {s : Stop} :
    (x >>= f).start w = (.error s, w') ↔ x.start w = (.error s, w') ∨
      ∃ a w₁, x.start w = (.ok a, w₁) ∧ (f a).start w₁ = (.error s, w') := by
  rw [start_bind]
  rcases x.start w with ⟨r, w₁⟩
  cases r <;> simp [and_assoc]

theorem start_bind_of_ok {x : Action α} {f : α → Action β} {a : α}
    (h : x.start w = (.ok a, w')) : (x >>= f).start w = (f a).start w' := by
  rw [start_bind, h]

theorem start_bind_of_error {x : Action α} {f : α → Action β} {s : Stop}
    (h : x.start w = (.error s, w')) : (x >>= f).start w = (.error s, w') := by
  rw [start_bind, h]

theorem keeps_bind {P : World → Prop} {x : Action α} {f : α → Action β} (hx : P (x.start w).2)
    (hf : ∀ a w₁, x.start w = (.ok a, w₁) → P w₁ → P ((f a).start w₁).2) :
    P ((x >>= f).start w).2 := by
  rw [start_bind]
  rcases h : x.start w with ⟨r, w₁⟩
  rw [h] at hx
  cases r with
  | error s => exact hx
  | ok a => exact hf a w₁ h hx

theorem start_print (text : String) :
    (print text).start w = (.ok (), w.told [.printed (utf8 text)]) := rfl

@[simp]
theorem start_printLine (text : String) :
    (printLine text).start w =
      (.ok (), { w with transcript := w.transcript ++ [.printed (utf8 (text ++ "\n"))] }) := rfl

@[simp]
theorem start_note (level : Level) (text : String) :
    (note level text).start w =
      (.ok (), { w with transcript := w.transcript ++ [.noted level text] }) := rfl

@[simp]
theorem start_ofExcept_eq_ok {cause : ε → Cause} {x : Except ε α} {a : α} :
    (ofExcept cause x).start w = (.ok a, w') ↔ x = .ok a ∧ w = w' := by
  cases x <;> simp [ofExcept]

@[simp]
theorem start_ofExcept_snd (cause : ε → Cause) (x : Except ε α) :
    ((ofExcept cause x).start w).2 = w := by
  cases x <;> rfl

theorem start_during (activity : Activity) (x : Action α) :
    (during activity x).start w =
      match x.start w with
      | (.error (.failed f), w₁) =>
        (.error (.failed { f with during := activity :: f.during }), w₁)
      | result => result := rfl

@[simp]
theorem start_during_eq_ok {activity : Activity} {x : Action α} {a : α} :
    (during activity x).start w = (.ok a, w') ↔ x.start w = (.ok a, w') := by
  rw [start_during]
  split
  next h => simp [h]
  next => rfl

@[simp]
theorem start_during_snd (activity : Activity) (x : Action α) :
    ((during activity x).start w).2 = (x.start w).2 := by
  rw [start_during]
  split
  next h => rw [h]
  next => rfl

theorem during_bind (activity : Activity) (x : Action α) (f : α → Action β) :
    during activity (x >>= f) = during activity x >>= fun a => during activity (f a) := by
  funext w
  show (during activity (x >>= f)).start w = (during activity x >>= _).start w
  rw [start_during, start_bind, start_bind, start_during]
  rcases x.start w with ⟨r, w₁⟩
  rcases r with (f | _) | a <;> rfl

@[simp]
theorem start_onDisk_eq_ok {session : Session α} {a : α} :
    (onDisk session).start w = (.ok a, w') ↔
      ∃ fs, session.start w.disk = (.ok a, fs) ∧ { w with disk := fs } = w' := by
  unfold onDisk
  rcases h : session.start w.disk with ⟨r, fs⟩
  simp [h, and_assoc]

@[simp]
theorem start_onDisk_disk (session : Session α) :
    ((onDisk session).start w).2.disk = (session.start w.disk).2 := by
  unfold onDisk
  rw [start_bind]
  simp

theorem start_onDisk_ask (question : FileSystem → Except IoError α) :
    (onDisk (Session.ask question)).start w =
      ((question w.disk).mapError fun e => .failed { cause := .io e }, w) := by
  unfold onDisk
  rw [start_bind, start_attempt]
  show (ofExcept .io (question w.disk)).start w = _
  cases question w.disk <;> rfl

@[simp]
theorem start_onDisk_ask_snd (question : FileSystem → Except IoError α) :
    ((onDisk (Session.ask question)).start w).2 = w := by
  rw [start_onDisk_ask]

section Require

variable {question : FileSystem → Bool} {cause : Cause}

def require (question : FileSystem → Bool) (cause : Cause) : Action Unit := do
  if !(← askDisk question) then fail cause

theorem start_require : (require question cause).start w =
    if question w.disk then (.ok (), w) else (.error (.failed { cause := cause }), w) := by
  unfold require
  rw [start_bind, start_askDisk]
  dsimp
  cases question w.disk <;> rfl

@[simp]
theorem start_require_eq_ok {u : Unit} :
    (require question cause).start w = (.ok u, w') ↔ question w.disk = true ∧ w = w' := by
  rw [start_require]
  split <;> simp_all

@[simp]
theorem start_require_snd : ((require question cause).start w).2 = w := by
  rw [start_require]
  split <;> rfl

theorem require_bind (f : Unit → Action α) : (require question cause >>= f) = (do
    if !(← askDisk question) then
      fail cause
    f ()) := by
  unfold require
  rw [bind_assoc]
  congr 1
  funext b
  cases b <;> simp

end Require

section Frame

variable {σ : Type} {view : World → σ} {R : σ → σ → Prop} [IsTrans σ R]

theorem frame_bind {x : Action α} {f : α → Action β} (hx : R (view w) (view (x.start w).2))
    (hf : ∀ a w₁, x.start w = (.ok a, w₁) → R (view w₁) (view ((f a).start w₁).2)) :
    R (view w) (view ((x >>= f).start w).2) := by
  rw [start_bind]
  rcases h : x.start w with ⟨r, w₁⟩
  rw [h] at hx
  cases r with
  | error s => exact hx
  | ok a => exact trans_of R hx (hf a w₁ h)

omit [IsTrans σ R] in
theorem frame_after [Std.Refl R] {x : Action α} {f : α → Action β}
    (hf : ∀ a w₁, x.start w = (.ok a, w₁) → R (view w₁) (view ((f a).start w₁).2)) :
    R (view (x.start w).2) (view ((x >>= f).start w).2) := by
  rw [start_bind]
  rcases h : x.start w with ⟨r, w₁⟩
  cases r with
  | error s => exact refl_of R (view w₁)
  | ok a => exact hf a w₁ h

theorem frame_foldlM [Std.Refl R] {f : β → α → Action β} {xs : List α} {b : β}
    (hf : ∀ a ∈ xs, ∀ b w, R (view w) (view ((f b a).start w).2)) :
    R (view w) (view ((xs.foldlM f b).start w).2) := by
  induction xs generalizing b w with
  | nil => exact refl_of R (view w)
  | cons x xs ih =>
    rw [List.foldlM_cons]
    apply frame_bind
    . exact hf x (by simp) b w
    . intro b' w₁ _
      exact ih fun a ha => hf a (by simp [ha])

end Frame

end Action

end BootCard
