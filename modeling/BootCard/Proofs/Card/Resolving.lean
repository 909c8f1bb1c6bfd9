import BootCard.Proofs.Card.Choosing
import BootCard.Proofs.Text.Trimming
import BootCard.Proofs.World.Calls

/-!
This module contains who is consulted when a card is chosen: the memory and the operator, whatever
they do, are asked in this order and only if need be, and the card is remembered last of all.
-/

namespace BootCard

open FileSystem

variable {w w' : World}

namespace CardMemory

variable {memory : CardMemory}

inductive IsPlain : CardMemory → Prop where
  | file (file : Pathname) : IsPlain (.file file)
  | inWorld : IsPlain .inWorld

theorem IsPlain.load_snd (h : memory.IsPlain) : (memory.load.start w).2 = w := by
  cases h with
  | inWorld => rfl
  | file file =>
    apply Action.keeps_bind (P := (· = w))
    . rfl
    rintro isFile w₁ _ rfl
    split
    . rfl
    apply Action.keeps_bind (P := (· = w₁))
    . rw [Action.start_during_snd, Action.start_onDisk_ask_snd]
    rintro text w₂ _ rfl
    rfl

theorem IsPlain.save_cases (h : memory.IsPlain) (card : Pathname) (w : World) :
    (∃ s, (memory.save card).start w = (.error s, w)) ∨
      ∃ w', (memory.save card).start w = (.ok (), w') ∧ w.Reworks w' ∧
        Written w.disk w'.disk := by
  cases h with
  | inWorld => exact .inr ⟨{ w with remembered := some card }, rfl, rfl, .refl w.disk⟩
  | file file =>
    cases hwrite : w.disk.writeFile file card.bytes with
    | ok fs =>
      exact .inr ⟨_, save_file_eq_ok.mpr ⟨fs, hwrite, rfl⟩, rfl, writeFile_written hwrite⟩
    | error e =>
      refine .inl ⟨.failed ⟨[.writingRemembered file], .io e⟩, ?_⟩
      show (Action.during (.writingRemembered file)
        (Action.onDisk (Session.change (·.writeFile file card.bytes)))).start w = _
      unfold Action.onDisk
      rw [Action.start_during, Action.start_bind, Action.start_attempt, Session.start_change,
        hwrite]
      rfl

/-- Whether reading a memory leaves the world alone, and so does remembering a card if it fails. -/
structure IsSafe (memory : CardMemory) : Prop where
  load_snd : ∀ w, (memory.load.start w).2 = w
  save_snd : ∀ card w s w', (memory.save card).start w = (.error s, w') → w' = w

theorem IsPlain.isSafe (h : memory.IsPlain) : memory.IsSafe where
  load_snd _ := h.load_snd
  save_snd card w s w' hsave := by
    rcases h.save_cases card w with ⟨_, hfails⟩ | ⟨_, hsaves, -⟩
    . rw [hfails] at hsave
      exact (Prod.mk.inj hsave).2.symm
    . simp [hsaves] at hsave

def failing (unread unsaved : Option Cause) : CardMemory where
  load := match unread with
    | some cause => Action.fail cause
    | none => inWorld.load
  save card := match unsaved with
    | some cause => Action.fail cause
    | none => inWorld.save card

theorem isSafe_failing (unread unsaved : Option Cause) : (failing unread unsaved).IsSafe where
  load_snd w := by
    unfold failing
    cases unread with
    | some cause => rfl
    | none => exact IsPlain.inWorld.load_snd
  save_snd card w s w' hsave := by
    unfold failing at hsave
    cases unsaved with
    | some cause => exact (Prod.mk.inj hsave).2.symm
    | none => exact IsPlain.inWorld.isSafe.save_snd card w s w' hsave

end CardMemory

/-- What is asked of a memory or of an operator. -/
inductive Consultation where
  | load
  | answer (volumes : Pathname)
  | save (card : Pathname)
deriving DecidableEq

namespace Choice

variable {volumes card : Pathname} {memory memory' : CardMemory} {operator operator' : Operator}
variable {named : Option Pathname} {r : Except Stop Pathname} {consulted : List Consultation}
variable {w₁ picked : World} {answer : String}

theorem ofAnswer?_of_trimsTo {name : String} (h : TrimsTo isBlank answer.toList name.toList)
    (hne : name ≠ "") : ofAnswer? volumes answer = some (volumes / Pathname.ofString name) := by
  have htrim : trimBlank answer = name := by
    unfold trimBlank
    rw [h.trimBoth_eq, String.ofList_toList]
  unfold ofAnswer?
  rw [htrim]
  exact if_neg hne

theorem ofAnswer?_of_blank (h : ∀ c ∈ answer.toList, isBlank c = true) :
    ofAnswer? volumes answer = none := by
  unfold ofAnswer? trimBlank
  rw [trimBoth_eq_nil h]
  rfl

theorem blank_or_trimsTo (answer : String) :
    (∀ c ∈ answer.toList, isBlank c = true) ∨
      ∃ name : String, TrimsTo isBlank answer.toList name.toList ∧ name ≠ "" := by
  by_cases h : trimBoth isBlank answer.toList = []
  . exact .inl (trimBoth_eq_nil_iff.mp h)
  . refine .inr ⟨trimBlank answer, ?_, ?_⟩
    . unfold trimBlank
      rw [String.toList_ofList]
      exact trimsTo_trimBoth isBlank answer.toList
    . intro hempty
      apply h
      simpa [trimBlank] using congrArg String.toList hempty

example : ofAnswer? "/media" " \u2003BOOT\n" = some "/media/BOOT" := by decide +kernel

def toldAsked (volumes : Pathname) (w : World) : World :=
  { w with transcript := w.transcript ++ [.asked volumes] }

def toldCached (card : Pathname) (w : World) : World :=
  { w with transcript := w.transcript ++ [.noted .debug s!"using cached target {card.display}"] }

/--
How it is told which card it is to be: who is consulted, what comes of it, and in which world. An
answer is taken without the blanks around it.
-/
inductive Picks (volumes : Pathname) (memory : CardMemory) (operator : Operator) (w : World) :
    Option Pathname → List Consultation → Except Stop Pathname → World → Prop where
  | named (card : Pathname) : Picks volumes memory operator w (some card) [] (.ok card) w
  | unread {s : Stop} {w₁ : World} :
    memory.load.start w = (.error s, w₁) →
    Picks volumes memory operator w none [.load] (.error s) w₁
  | remembered {card : Pathname} {w₁ : World} :
    memory.load.start w = (.ok (some card), w₁) →
    Picks volumes memory operator w none [.load] (.ok card) (toldCached card w₁)
  | unanswered {s : Stop} {w₁ w₂ : World} :
    memory.load.start w = (.ok none, w₁) →
    (operator.answer volumes).start (toldAsked volumes w₁) = (.error s, w₂) →
    Picks volumes memory operator w none [.load, .answer volumes] (.error s) w₂
  | blank {answer : String} {w₁ w₂ : World} :
    memory.load.start w = (.ok none, w₁) →
    (operator.answer volumes).start (toldAsked volumes w₁) = (.ok answer, w₂) →
    (∀ c ∈ answer.toList, isBlank c = true) →
    Picks volumes memory operator w none [.load, .answer volumes]
      (.error (.failed { cause := .noAnswer })) w₂
  | answered {answer name : String} {w₁ w₂ : World} :
    memory.load.start w = (.ok none, w₁) →
    (operator.answer volumes).start (toldAsked volumes w₁) = (.ok answer, w₂) →
    TrimsTo isBlank answer.toList name.toList → name ≠ "" →
    Picks volumes memory operator w none [.load, .answer volumes]
      (.ok (volumes / Pathname.ofString name)) w₂

theorem start_askOperator : (askOperator volumes operator).start w =
    (do
      let answer ← operator.answer volumes
      match ofAnswer? volumes answer with
      | some card => pure card
      | none => Action.fail .noAnswer : Action Pathname).start (toldAsked volumes w) := rfl

theorem Picks.start_pick (h : Picks volumes memory operator w named consulted r w') :
    (pick volumes memory operator named).start w = (r, w') := by
  unfold pick rememberedOrAsked
  cases h with
  | named => rfl
  | unread hload => exact Action.start_bind_of_error hload
  | remembered hload => exact Action.start_bind_of_ok hload
  | unanswered hload hanswer =>
    rw [Action.start_bind_of_ok hload]
    dsimp only
    rw [start_askOperator]
    exact Action.start_bind_of_error hanswer
  | blank hload hanswer hblank =>
    rw [Action.start_bind_of_ok hload]
    dsimp only
    rw [start_askOperator, Action.start_bind_of_ok hanswer, ofAnswer?_of_blank hblank]
    rfl
  | answered hload hanswer htrims hne =>
    rw [Action.start_bind_of_ok hload]
    dsimp only
    rw [start_askOperator, Action.start_bind_of_ok hanswer, ofAnswer?_of_trimsTo htrims hne]
    rfl

theorem exists_picks (volumes : Pathname) (memory : CardMemory) (operator : Operator)
    (named : Option Pathname) (w : World) :
    ∃ consulted r picked, Picks volumes memory operator w named consulted r picked := by
  cases named with
  | some card => exact ⟨_, _, _, .named card⟩
  | none =>
  rcases hload : memory.load.start w with ⟨_ | _ | card, w₁⟩
  . exact ⟨_, _, _, .unread hload⟩
  . rcases hanswer : (operator.answer volumes).start (toldAsked volumes w₁) with ⟨s | answer, w₂⟩
    . exact ⟨_, _, _, .unanswered hload hanswer⟩
    . rcases blank_or_trimsTo answer with hblank | ⟨name, htrims, hne⟩
      . exact ⟨_, _, _, .blank hload hanswer hblank⟩
      . exact ⟨_, _, _, .answered hload hanswer htrims hne⟩
  . exact ⟨_, _, _, .remembered hload⟩

/--
How choosing a card ends: who is consulted, in which world it is known which card it is to be or
that there is none, what comes of it, and which world is left.
-/
inductive Resolves (volumes : Pathname) (memory : CardMemory) (operator : Operator) (w : World)
    (named : Option Pathname) :
    List Consultation → World → Except Stop Pathname → World → Prop where
  | unpicked {consulted : List Consultation} {s : Stop} {picked : World} :
    Picks volumes memory operator w named consulted (.error s) picked →
    Resolves volumes memory operator w named consulted picked (.error s) picked
  | waiting {consulted : List Consultation} {card : Pathname} {picked w' : World} :
    Picks volumes memory operator w named consulted (.ok card) picked →
    (Waiting.untilDirectory card none).start picked = (.error .waiting, w') →
    Resolves volumes memory operator w named consulted picked (.error .waiting) w'
  | unsaved {consulted : List Consultation} {card : Pathname} {picked waited w' : World}
    {ready : Bool} {s : Stop} :
    Picks volumes memory operator w named consulted (.ok card) picked →
    (Waiting.untilDirectory card none).start picked = (.ok ready, waited) →
    waited.disk.isDir card = true →
    (memory.save card).start waited = (.error s, w') →
    Resolves volumes memory operator w named (consulted ++ [.save card]) picked (.error s) w'
  | saved {consulted : List Consultation} {card : Pathname} {picked waited w' : World}
    {ready : Bool} :
    Picks volumes memory operator w named consulted (.ok card) picked →
    (Waiting.untilDirectory card none).start picked = (.ok ready, waited) →
    waited.disk.isDir card = true →
    (memory.save card).start waited = (.ok (), w') →
    Resolves volumes memory operator w named (consulted ++ [.save card]) picked (.ok card) w'

theorem Resolves.start_choose
    (h : Resolves volumes memory operator w named consulted picked r w') :
    (choose volumes memory operator named).start w = (r, w') := by
  rw [choose_eq]
  cases h with
  | unpicked hpicks => exact Action.start_bind_of_error hpicks.start_pick
  | waiting hpicks hwait =>
    rw [Action.start_bind_of_ok hpicks.start_pick]
    exact Action.start_bind_of_error hwait
  | unsaved hpicks hwait _ hsave =>
    rw [Action.start_bind_of_ok hpicks.start_pick, Action.start_bind_of_ok hwait]
    exact Action.start_bind_of_error hsave
  | saved hpicks hwait _ hsave =>
    rw [Action.start_bind_of_ok hpicks.start_pick, Action.start_bind_of_ok hwait]
    exact Action.start_bind_of_ok hsave

theorem exists_resolves (volumes : Pathname) (memory : CardMemory) (operator : Operator)
    (named : Option Pathname) (w : World) :
    ∃ consulted picked r w', Resolves volumes memory operator w named consulted picked r w' := by
  obtain ⟨consulted, candidate, picked, hpicks⟩ := exists_picks volumes memory operator named w
  cases candidate with
  | error s => exact ⟨_, _, _, _, .unpicked hpicks⟩
  | ok card =>
    rcases hwait : (Waiting.untilDirectory card none).start picked with ⟨s | ready, waited⟩
    . have hstops : (Waiting.untilDirectory card none).StopsFor (· = none) :=
        Waiting.stopsFor_untilDirectory rfl
      have hs := hstops picked s (by rw [hwait])
      cases s with
      | waiting => exact ⟨_, _, _, _, .waiting hpicks hwait⟩
      | failed f => simp [Stop.cause?] at hs
    . have hdir := Waiting.isDir_of_untilDirectory hwait
      rcases hsave : (memory.save card).start waited with ⟨s | _, w'⟩
      . exact ⟨_, _, _, _, .unsaved hpicks hwait hdir hsave⟩
      . exact ⟨_, _, _, _, .saved hpicks hwait hdir hsave⟩

theorem start_choose_iff : (choose volumes memory operator named).start w = (r, w') ↔
    ∃ consulted picked, Resolves volumes memory operator w named consulted picked r w' := by
  constructor
  . intro h
    obtain ⟨consulted, picked, r', w₁, hresolves⟩ := exists_resolves volumes memory operator named w
    have hstart := hresolves.start_choose
    rw [h] at hstart
    obtain ⟨rfl, rfl⟩ := Prod.mk.inj hstart
    exact ⟨consulted, picked, hresolves⟩
  . rintro ⟨consulted, picked, hresolves⟩
    exact hresolves.start_choose

theorem Picks.asks (h : Picks volumes memory operator w named consulted r picked) :
    consulted <+: [.load, .answer volumes] ∧ (named ≠ none → consulted = []) := by
  cases h with
  | named => exact ⟨List.nil_prefix, fun _ => rfl⟩
  | unread | remembered => exact ⟨⟨_, rfl⟩, by simp⟩
  | unanswered | blank | answered => exact ⟨List.prefix_rfl, by simp⟩

theorem Picks.widened (h : Picks volumes memory operator w named consulted r picked)
    (hsafe : memory.IsSafe) (hasked : .answer volumes ∉ consulted) : w.Widened picked := by
  have hload := hsafe.load_snd w
  cases h with
  | named => exact refl_of _ w
  | unread hread =>
    rw [hread] at hload
    obtain rfl : picked = w := hload
    exact refl_of _ picked
  | @remembered _ w₁ hread =>
    rw [hread] at hload
    obtain rfl : w₁ = w := hload
    exact .of_same rfl rfl
  | unanswered | blank | answered => simp at hasked

theorem Resolves.widened (h : Resolves volumes memory operator w named consulted picked r w')
    (hsafe : memory.IsSafe) {s : Stop} (hr : r = .error s) : picked.Widened w' := by
  have hwaits {card : Pathname} {r : Except Stop Bool} {waited : World}
      (hwait : (Waiting.untilDirectory card none).start picked = (r, waited)) :
      picked.Widened waited := by
    have hwidened : picked.Widened ((Waiting.untilDirectory card none).start picked).2 :=
      Waiting.untilDirectory_widened
    rwa [hwait] at hwidened
  cases h with
  | unpicked => exact refl_of _ _
  | waiting _ hwait => exact hwaits hwait
  | unsaved _ hwait _ hsave =>
    rw [hsafe.save_snd _ _ _ _ hsave]
    exact hwaits hwait
  | saved => simp at hr

theorem Resolves.picks (h : Resolves volumes memory operator w named consulted picked r w') :
    ∃ asked candidate, Picks volumes memory operator w named asked candidate picked ∧
      asked ⊆ consulted := by
  cases h with
  | unpicked hpicks => exact ⟨_, _, hpicks, fun _ => id⟩
  | waiting hpicks => exact ⟨_, _, hpicks, fun _ => id⟩
  | unsaved hpicks => exact ⟨_, _, hpicks, List.subset_append_left _ _⟩
  | saved hpicks => exact ⟨_, _, hpicks, List.subset_append_left _ _⟩

theorem Resolves.asks (h : Resolves volumes memory operator w named consulted picked r w') :
    ∃ asked saves, consulted = asked ++ saves ∧ asked <+: [.load, .answer volumes] ∧
      (named ≠ none → asked = []) ∧ (saves = [] ∨ ∃ card, saves = [.save card]) ∧
      ∀ card, r = .ok card → saves = [.save card] := by
  cases h with
  | unpicked hpicks =>
    exact ⟨_, [], (List.append_nil _).symm, hpicks.asks.1, hpicks.asks.2, .inl rfl, by simp⟩
  | waiting hpicks =>
    exact ⟨_, [], (List.append_nil _).symm, hpicks.asks.1, hpicks.asks.2, .inl rfl, by simp⟩
  | unsaved hpicks =>
    exact ⟨_, _, rfl, hpicks.asks.1, hpicks.asks.2, .inr ⟨_, rfl⟩, by simp⟩
  | saved hpicks =>
    exact ⟨_, _, rfl, hpicks.asks.1, hpicks.asks.2, .inr ⟨_, rfl⟩, by simp⟩

theorem choose_named (hsave : memory'.save = memory.save) :
    choose volumes memory' operator' (some card) = choose volumes memory operator (some card) := by
  unfold choose
  rw [hsave]

theorem choose_remembered (hload : memory.load.start w = (.ok (some card), w₁)) :
    (choose volumes memory operator' none).start w =
      (choose volumes memory operator none).start w := by
  have hpick {operator : Operator} :
      (pick volumes memory operator none).start w = (.ok card, toldCached card w₁) :=
    (Picks.remembered hload).start_pick
  rw [choose_eq, choose_eq, Action.start_bind_of_ok hpick, Action.start_bind_of_ok hpick]

/--
How choosing a card ends is told by what those who are consulted do. Nobody is consulted without
need, and a card that is given was a directory when it was remembered, which was the last thing to
do. If none is given, a memory and all files are as they were, or as an operator has left them.
-/
theorem choose_resolves (volumes : Pathname) (memory : CardMemory) (operator : Operator)
    (named : Option Pathname) (w : World) :
    (∀ r w', (choose volumes memory operator named).start w = (r, w') ↔
      ∃ consulted picked, Resolves volumes memory operator w named consulted picked r w') ∧
    (∀ consulted picked r w',
      Resolves volumes memory operator w named consulted picked r w' →
      (∃ asked saves, consulted = asked ++ saves ∧ asked <+: [.load, .answer volumes] ∧
        (named ≠ none → asked = []) ∧ (saves = [] ∨ ∃ card, saves = [.save card]) ∧
        ∀ card, r = .ok card → saves = [.save card]) ∧
      ∀ s, r = .error s → ((∃ file, memory = .file file) ∨
          ∃ unread unsaved, memory = .failing unread unsaved) →
        ∃ base, (base = w ∨ .answer volumes ∈ consulted ∧ base = picked) ∧
          w'.remembered = base.remembered ∧
          (∀ loc f, w'.disk.node? loc = some (.file f) ↔ base.disk.node? loc = some (.file f)) ∧
          ∀ path, Keeps path base.disk w'.disk) ∧
    (∀ card memory' operator', named = some card → memory'.save = memory.save →
      choose volumes memory' operator' named = choose volumes memory operator named) ∧
    (∀ card w₁ operator', memory.load.start w = (.ok (some card), w₁) →
      (choose volumes memory operator' none).start w =
        (choose volumes memory operator none).start w) ∧
    ∀ path : Pathname, path.isAbsolute = true → volumes / path = path := by
  refine ⟨fun r w' => start_choose_iff, fun consulted picked r w' h => ⟨h.asks, ?_⟩, ?_,
    fun card w₁ operator' => choose_remembered, fun path => Pathname.join_of_isAbsolute⟩
  . intro s hr hmemory
    have hsafe : memory.IsSafe := by
      rcases hmemory with ⟨file, rfl⟩ | ⟨unread, unsaved, rfl⟩
      . exact (CardMemory.IsPlain.file file).isSafe
      . exact CardMemory.isSafe_failing unread unsaved
    have hspared {base : World} (hbase : base.Widened w') :
        w'.remembered = base.remembered ∧
          (∀ loc f, w'.disk.node? loc = some (.file f) ↔ base.disk.node? loc = some (.file f)) ∧
          ∀ path, Keeps path base.disk w'.disk :=
      ⟨hbase.remembered, fun loc f => hbase.disk.file_iff, fun path => hbase.disk.keeps⟩
    by_cases hasked : .answer volumes ∈ consulted
    . exact ⟨picked, .inr ⟨hasked, rfl⟩, hspared (h.widened hsafe hr)⟩
    . obtain ⟨asked, candidate, hpicks, hsubset⟩ := h.picks
      have hpicked := hpicks.widened hsafe fun hmem => hasked (hsubset hmem)
      exact ⟨w, .inl rfl, hspared (trans_of _ hpicked (h.widened hsafe hr))⟩
  . rintro card memory' operator' rfl hsave
    exact choose_named hsave

end Choice

end BootCard
