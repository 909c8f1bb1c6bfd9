import BootCard.Card.Choice
import BootCard.Proofs.Card.Polling
import BootCard.Proofs.Disk.Growth
import BootCard.Proofs.Disk.Writing
import BootCard.Proofs.World.Stops

/-!
This module contains what choosing a card does to the files that are there. While a card is waited
for a directory may appear, and no more. All else is up to the memory and the operator.
-/

namespace BootCard

open FileSystem

variable {fs fs' : FileSystem} {path card file : Pathname} {w w' : World}

namespace FileSystem

/-- Whether new directories are all that a file system has got. -/
structure Widened (fs fs' : FileSystem) : Prop where
  here : fs'.here = fs.here
  same : ∀ loc, fs'.node? loc = fs.node? loc ∨
    fs.node? loc = none ∧ ∃ mode, fs'.node? loc = some (.dir mode)

namespace Widened

instance : Std.Refl Widened := ⟨fun _ => ⟨rfl, fun _ => .inl rfl⟩⟩

instance : IsTrans FileSystem Widened where
  trans fs₁ fs₂ fs₃ h₁ h₂ := by
    refine ⟨h₂.here.trans h₁.here, fun loc => ?_⟩
    rcases h₁.same loc with heq₁ | ⟨hnone₁, mode, hdir₁⟩
    . rw [← heq₁]
      exact h₂.same loc
    . rcases h₂.same loc with heq₂ | ⟨hnone₂, -⟩
      . exact .inr ⟨hnone₁, mode, heq₂.trans hdir₁⟩
      . simp [hdir₁] at hnone₂

theorem node?_of_eq_some (h : Widened fs fs') {loc : Location} {node : Node}
    (hnode : fs.node? loc = some node) : fs'.node? loc = some node := by
  rcases h.same loc with heq | ⟨hnone, -⟩
  . rw [heq, hnode]
  . simp [hnone] at hnode

theorem file_iff (h : Widened fs fs') {loc : Location} {f : RegularFile} :
    fs'.node? loc = some (.file f) ↔ fs.node? loc = some (.file f) := by
  rcases h.same loc with heq | ⟨hnone, mode, hdir⟩
  . rw [heq]
  . simp [hnone, hdir]

theorem keeps (h : Widened fs fs') : Keeps path fs fs' := fun _ _ hfind =>
  (find_file_of_routesIn (fun _ _ hnode _ => h.node?_of_eq_some hnode) h.here
    (h.node?_of_eq_some (mem_visits_of_find hfind).2) hfind).2

end Widened

theorem makeDir_widened {x : Pathname} (h : fs.makeDir x = .ok fs') : Widened fs fs' := by
  obtain ⟨dir, name, closed, hwalk, rfl⟩ := makeDir_eq_ok h
  obtain ⟨-, hnone, -⟩ := walk_eq_entry hwalk
  refine ⟨rfl, fun loc => ?_⟩
  rw [node?_put]
  split
  next heq => exact .inr ⟨heq ▸ hnone, _, rfl⟩
  next => exact .inl rfl

end FileSystem

theorem Session.makeDirs_widened {dir : Pathname} : Widened fs ((makeDirs dir).start fs).2 :=
  frame_makeDirsFrom fun _ _ _ _ _ => makeDir_widened

structure World.Widened (w w' : World) : Prop where
  disk : w.disk.Widened w'.disk
  remembered : w'.remembered = w.remembered

namespace World.Widened

theorem of_same (hdisk : w'.disk = w.disk) (hremembered : w'.remembered = w.remembered) :
    w.Widened w' := by
  refine ⟨?_, hremembered⟩
  rw [hdisk]
  exact refl_of _ w.disk

instance : Std.Refl World.Widened := ⟨fun _ => of_same rfl rfl⟩

instance : IsTrans World World.Widened where
  trans _ _ _ h₁ h₂ := ⟨trans_of _ h₁.disk h₂.disk, h₂.remembered.trans h₁.remembered⟩

end World.Widened

namespace Waiting

theorem frame_poll {σ τ : Type} {view : σ → τ} {R : τ → τ → Prop} [Std.Refl R] [IsTrans τ R]
    {isReady : σ → Bool} {dot : σ → σ} {limit : Option Nat} {rounds dots : Nat} {s s' : σ}
    {ready : Bool} (hdot : ∀ s, R (view s) (view (dot s)))
    (h : poll isReady dot limit rounds dots s = some (ready, s')) : R (view s) (view s') := by
  fun_induction poll isReady dot limit rounds dots s with
  | case1 | case2 =>
    obtain ⟨-, rfl⟩ := Prod.mk.inj (Option.some.inj h)
    exact refl_of R _
  | case3 => simp at h
  | case4 dots s _ _ rounds ih => exact trans_of R (hdot s) (ih h)

theorem isReady_of_poll {σ : Type} {isReady : σ → Bool} {dot : σ → σ} {rounds dots : Nat}
    {s s' : σ} {ready : Bool} (h : poll isReady dot none rounds dots s = some (ready, s')) :
    isReady s' = true := by
  obtain ⟨n, -, hends, rfl, -⟩ := poll_eq_some_iff.mp h
  obtain hready | ⟨m, hm, -⟩ := hends.isOver
  . exact hready
  . simp at hm

theorem isDir_of_untilDirectory {ready : Bool}
    (h : (untilDirectory card none).start w = (.ok ready, w')) : w'.disk.isDir card = true := by
  unfold untilDirectory at h
  rw [Action.start_bind_eq_ok] at h
  obtain ⟨there, _, hthere, h⟩ := h
  obtain ⟨hdir, rfl⟩ := Prod.mk.inj hthere
  obtain rfl : w.disk.isDir card = there := Except.ok.inj hdir
  split at h
  next hdir =>
    obtain ⟨-, rfl⟩ := Prod.mk.inj h
    exact hdir
  next =>
    simp only [Action.start_bind_eq_ok, Action.start_pure, Prod.mk.injEq] at h
    obtain ⟨_, w₁, -, _, w₂, -, _, w₃, hpoll, _, w₄, hprint, -, rfl⟩ := h
    have hprinted : w₄.disk = w₃.disk := by rw [← (Prod.mk.inj hprint).2]
    rw [hprinted]
    unfold pollWorld Action.start at hpoll
    dsimp only at hpoll
    split at hpoll
    next ready' w' hready =>
      obtain ⟨-, rfl⟩ := Prod.mk.inj hpoll
      have hthere := isReady_of_poll hready
      exact hthere
    next => simp at hpoll

theorem untilDirectory_of_isDir {limit : Option Nat} (h : w.disk.isDir card = true) :
    (untilDirectory card limit).start w = (.ok true, w) := by
  unfold untilDirectory
  rw [Action.start_bind, Action.start_askDisk]
  dsimp only
  rw [h]
  rfl

theorem stopsFor_untilDirectory {P : Option Cause → Prop} (hwait : P none) :
    (untilDirectory card none).StopsFor P := by
  have hpoll : (pollWorld card none).StopsFor P := by
    intro w s hs
    unfold pollWorld Action.start at hs
    dsimp only at hs
    split at hs
    next => simp at hs
    next =>
      obtain rfl := Except.error.inj hs
      exact hwait
  unfold untilDirectory
  refine .bind (.askDisk _) fun there => ?_
  split
  . exact .pure true
  . exact .bind (.happen _) fun _ => .bind (.happen _) fun _ => .bind hpoll fun _ =>
      .bind (.happen _) fun _ => .pure _

theorem afterDot_widened : w.Widened (afterDot w) := by
  unfold afterDot
  dsimp only
  split
  next => exact .of_same rfl rfl
  next =>
    split
    next => exact ⟨Session.makeDirs_widened, rfl⟩
    next => exact .of_same rfl rfl

theorem pollWorld_widened {limit : Option Nat} :
    w.Widened ((pollWorld card limit).start w).2 := by
  unfold pollWorld Action.start
  dsimp only
  split
  next ready w' h =>
    have hpoll : World.Widened (id w) (id w') := frame_poll (fun _ => afterDot_widened) h
    exact hpoll
  next => exact refl_of _ w

theorem untilDirectory_widened {limit : Option Nat} :
    w.Widened ((untilDirectory card limit).start w).2 := by
  have htell {w₁ : World} (h : w.Widened w₁) (e : Event) :
      w.Widened ((Action.happen e).start w₁).2 := by
    have htold : w₁.Widened ((Action.happen e).start w₁).2 := .of_same rfl rfl
    exact trans_of _ h htold
  unfold untilDirectory
  apply Action.keeps_bind (P := w.Widened)
  . exact refl_of _ w
  intro there w₁ _ h₁
  split
  . exact h₁
  apply Action.keeps_bind (P := w.Widened)
  . exact htell h₁ _
  intro _ w₂ _ h₂
  apply Action.keeps_bind (P := w.Widened)
  . exact htell h₂ _
  intro _ w₃ _ h₃
  apply Action.keeps_bind (P := w.Widened)
  . exact trans_of _ h₃ pollWorld_widened
  intro ready w₄ _ h₄
  apply Action.keeps_bind (P := w.Widened)
  . exact htell h₄ _
  intro _ w₅ _ h₅
  exact h₅

theorem untilDirectory_keeps {limit : Option Nat} :
    Keeps path w.disk ((untilDirectory card limit).start w).2.disk :=
  untilDirectory_widened.disk.keeps

end Waiting

namespace CardMemory

theorem save_file_eq_ok {u : Unit} : ((CardMemory.file file).save card).start w = (.ok u, w') ↔
    ∃ fs, w.disk.writeFile file card.bytes = .ok fs ∧ { w with disk := fs } = w' := by
  show (Action.during (.writingRemembered file)
    (Action.onDisk (Session.change (·.writeFile file card.bytes)))).start w = _ ↔ _
  rw [Action.start_during_eq_ok, Action.start_onDisk_eq_ok]
  simp only [Session.start_change_eq_ok]

theorem save_file_keeps
    (hother : ∀ loc f g, w.disk.find path = .ok (.file loc f) →
      w.disk.find file ≠ .ok (.file loc g)) :
    Keeps path w.disk (((CardMemory.file file).save card).start w).2.disk := by
  show Keeps path w.disk ((Action.during (.writingRemembered file)
    (Action.onDisk (Session.change (·.writeFile file card.bytes)))).start w).2.disk
  rw [Action.start_during_snd, Action.start_onDisk_disk]
  exact Session.frame_change fun _ => writeFile_keeps hother

end CardMemory

namespace Choice

variable {volumes : Pathname} {memory : CardMemory} {operator : Operator}
variable {named : Option Pathname}

def pick (volumes : Pathname) (memory : CardMemory) (operator : Operator)
    (named : Option Pathname) : Action Pathname :=
  match named with
  | some card => pure card
  | none => rememberedOrAsked volumes memory operator

theorem choose_eq : choose volumes memory operator named = (do
    let card ← pick volumes memory operator named
    let _ ← Waiting.untilDirectory card none
    memory.save card
    pure card) := by
  unfold choose pick
  cases named <;> rfl

end Choice

end BootCard
