import BootCard.Proofs.Card.Resolving
import BootCard.Proofs.Deployment.Sources
import BootCard.Proofs.World.Calls

/-!
This module contains how a run ends and what it has called by then. A run that fails has made no
calls but those of the stages before, and the card is ejected by nothing but a run that succeeds.
-/

namespace BootCard

open FileSystem

variable {operator : Operator} {own : World → World → Prop} {w w' : World}
variable {card image : Pathname}

namespace Waiting

variable {path : Pathname} {limit : Option Nat}

theorem leads_of_poll {isReady : World → Bool} {rounds dots : Nat} {ready : Bool}
    (h : poll isReady afterDot limit rounds dots w = some (ready, w')) :
    w.Leads operator World.Waits [] w' := by
  fun_induction poll isReady afterDot limit rounds dots w with
  | case1 | case2 =>
    obtain ⟨-, rfl⟩ := Prod.mk.inj (Option.some.inj h)
    exact .refl _
  | case3 => simp at h
  | case4 _ w _ _ _ ih =>
    have hwait : w.Waits (afterDot w) := rfl
    exact .head (.own hwait) (ih h)

theorem callsAtMost_untilDirectory :
    (untilDirectory path limit).CallsAtMost operator World.Waits [] := by
  have hpoll : (pollWorld path limit).CallsAtMost operator World.Waits [] := by
    apply Action.CallsAtMost.of_leads
    intro w
    unfold pollWorld Action.start
    dsimp only
    split
    next h => exact leads_of_poll h
    next => exact .refl w
  unfold untilDirectory
  refine .before (.askDisk _) fun there => ?_
  split
  . exact .pure true
  . exact .before (.printLine _) fun _ => .before (.print _) fun _ => .before hpoll fun ready =>
      .before (.print _) fun _ => .pure ready

end Waiting

namespace Choice

variable {volumes : Pathname} {memory : CardMemory} {named : Option Pathname}

theorem callsAtMost_askOperator :
    (askOperator volumes operator).CallsAtMost operator own [.operator volumes] := by
  have hcall : (Action.happen (.asked volumes) >>= fun _ => operator.answer volumes).CallsAtMost
      operator own [.operator volumes] :=
    fun w => ⟨_, .refl _, .of_step (.call (.operator volumes) w)⟩
  unfold askOperator
  rw [← bind_assoc]
  refine .after hcall fun answer => ?_
  split
  . exact .pure _
  . exact .fail _

theorem callsAtMost_pick (h : memory.IsPlain) :
    (pick volumes memory operator named).CallsAtMost operator own [.operator volumes] := by
  unfold pick rememberedOrAsked
  cases named with
  | some card => exact .pure card
  | none =>
    refine .before (.of_same fun _ => h.load_snd) fun remembered => ?_
    cases remembered with
    | some card => exact .before (.note _ _) fun _ => .pure card
    | none => exact callsAtMost_askOperator

end Choice

namespace Clearing

theorem clear_of_isDir (operator : Operator) (h : w.disk.isDir card = true) : ∃ tally w',
    (clear card).start w = (.ok tally, w') ∧ w.Leads operator World.Reworks [] w' := by
  have hok : (Action.require (·.isDir card) (.cardNotDirectory card)).start w = (.ok (), w) :=
    Action.start_require_eq_ok.mpr ⟨h, rfl⟩
  rw [clear_eq, Action.start_bind_of_ok hok, Action.start_bind_of_ok (Action.start_ask _)]
  exact Action.CallsExactly.before (isDirect_clearEntries.callsExactly operator)
    (fun tally => .before (.happen rfl) fun _ => .pure tally) w

end Clearing

namespace Plan

variable {dir destDir : Pathname}

theorem callsAtMost_ofDirectory : (ofDirectory dir destDir).CallsAtMost operator own [] := by
  unfold ofDirectory
  refine .before (.askDisk _) fun there => ?_
  split
  . exact .before (.note _ _) fun _ => .pure []
  . exact .before (.askDisk _) fun listed =>
      .before (.during _ (.of_same fun _ => Action.start_ofExcept_snd _ listed)) fun _ => .pure _

theorem callsAtMost_all {config programsDir : Pathname} :
    (all dir image config programsDir).CallsAtMost operator own [] :=
  .before callsAtMost_ofDirectory fun _ => .before callsAtMost_ofDirectory fun _ => .pure _

end Plan

namespace VolumeManager

theorem callsExactly_eject (operator : Operator) (own : World → World → Prop)
    (command : CommandLine) (card : Pathname) :
    (eject command card).CallsExactly operator own (command.on card) := by
  cases command with
  | nil => exact .before (.happen rfl) fun _ => .pure none
  | cons program args =>
    rw [eject_cons]
    refine .before ?_ fun _ => .after (.run _ _) fun outcome => ?_
    . unfold announce
      refine .before (.ask _) fun available => ?_
      split
      . exact .before (.happen rfl) fun _ => .happen rfl
      . exact .happen rfl
    . cases outcome with
      | error e => exact .before (.happen rfl) fun _ => .pure none
      | ok status =>
        unfold conclude
        dsimp only
        split
        . exact .before (.happen rfl) fun _ => .pure _
        . exact .pure _

end VolumeManager

namespace Deployment

variable {settings : Settings} {memory : CardMemory} {order : Order}
variable {asked : List Call} {cleared : World}

def await (settings : Settings) (memory : CardMemory) (operator : Operator) (order : Order) :
    Action (Pathname × Pathname) := do
  let (image, card) ← pick settings memory operator order
  let _ ← Action.during .choosingCard (Waiting.untilDirectory card none)
  pure (image, card)

theorem choose_eq_await : choose settings memory operator order = (do
    let (image, card) ← await settings memory operator order
    Action.during .choosingCard (memory.save card)
    pure (image, card)) := by
  rw [choose_eq]
  unfold await
  simp only [bind_assoc, pure_bind]

theorem callsAtMost_await (settings : Settings) (operator : Operator) (order : Order)
    (hmemory : memory.IsPlain) :
    (await settings memory operator order).CallsAtMost operator World.Waits
      [.operator settings.volumes] := by
  have hlocate : (Image.locate order.image).CallsAtMost operator World.Waits [] := by
    apply Action.CallsAtMost.of_leads
    intro w
    rcases Image.locate_cases order.image w with ⟨s, h⟩ | ⟨_, image, -, h⟩
    . rw [h]
      exact .refl w
    . rw [h]
      exact .of_step (.tell _ w rfl)
  unfold await pick
  simp only [bind_assoc, pure_bind]
  exact .before hlocate fun image => .before (.printLine _) fun _ =>
    .after (.during _ (Choice.callsAtMost_pick hmemory)) fun card =>
    .before (.during _ Waiting.callsAtMost_untilDirectory) fun _ => .pure _

theorem isDir_of_await
    (h : (await settings memory operator order).start w = (.ok (image, card), w')) :
    w'.disk.isDir card = true := by
  unfold await at h
  simp only [Action.start_bind_eq_ok, Action.start_during_eq_ok, Action.start_pure, Prod.mk.injEq,
    Except.ok.injEq] at h
  obtain ⟨_, _, -, ready, _, hwait, ⟨rfl, rfl⟩, rfl⟩ := h
  exact Waiting.isDir_of_untilDirectory hwait

theorem choose_cases (settings : Settings) (operator : Operator) (order : Order)
    (hmemory : memory.IsPlain) (w : World) :
    ∃ asked waited, asked.Sublist [.operator settings.volumes] ∧
      w.Leads operator World.Waits asked waited ∧
      ((∃ s, (choose settings memory operator order).start w = (.error s, waited)) ∨
        ∃ image card chosen,
          (choose settings memory operator order).start w = (.ok (image, card), chosen) ∧
          (memory.save card).start waited = (.ok (), chosen) ∧ chosen.disk.isDir card = true) := by
  obtain ⟨asked, hasked, hleads⟩ :=
    callsAtMost_await settings operator order hmemory w
  rw [choose_eq_await]
  rcases hawait : (await settings memory operator order).start w with ⟨r, waited⟩
  rw [hawait] at hleads
  refine ⟨asked, waited, hasked, hleads, ?_⟩
  cases r with
  | error s => exact .inl ⟨s, Action.start_bind_of_error hawait⟩
  | ok picked =>
    obtain ⟨image, card⟩ := picked
    rw [Action.start_bind_of_ok hawait]
    rcases hmemory.save_cases card waited with ⟨s, hsave⟩ | ⟨chosen, hsave, -, hwritten⟩
    -- A card that cannot be remembered leaves the world as it was when the wait was over.
    . left
      dsimp only
      rw [Action.start_bind, Action.start_during, hsave]
      cases s with
      | failed f => exact ⟨_, rfl⟩
      | waiting => exact ⟨_, rfl⟩
    . right
      obtain ⟨p, hp⟩ := isDir_eq_true.mp (isDir_of_await hawait)
      refine ⟨image, card, chosen, ?_, hsave, ?_⟩
      . exact Action.start_bind_of_ok (Action.start_during_eq_ok.mpr hsave)
      . exact isDir_eq_true.mpr ⟨p, hwritten.find_eq_dir_iff.mpr hp⟩

theorem callsAtMost_plan (settings : Settings) (image : Pathname) (operator : Operator)
    (own : World → World → Prop) : (plan settings image).CallsAtMost operator own
    [.program settings.generator.bytes [(image.inForm .elf).bytes]] :=
  .after BootText.callsAtMost_obtain fun _ => Plan.callsAtMost_all

/--
A world where a card has been cleared. Before that nothing has been changed but by waiting, by an
operator who has been asked once at most, and by remembering the card.
-/
structure Cleared (settings : Settings) (memory : CardMemory) (operator : Operator) (order : Order)
    (w : World) (asked : List Call) (cleared : World) where
  image : Pathname
  card : Pathname
  tally : Tally
  waited : World
  chosen : World
  chooses : (choose settings memory operator order).start w = (.ok (image, card), chosen)
  asks : asked.Sublist [.operator settings.volumes]
  leads_waited : w.Leads operator World.Waits asked waited
  saves : (memory.save card).start waited = (.ok (), chosen)
  clears : (Clearing.clear card).start chosen = (.ok tally, cleared)
  leads_cleared : chosen.Leads operator World.Reworks [] cleared

/-- How a run ends: what comes of it, the calls that it has made, and the world that it leaves. -/
inductive Ends (settings : Settings) (memory : CardMemory) (operator : Operator) (order : Order)
    (w : World) : Except Stop Report → List Call → World → Prop where
  | unlocated {s : Stop} :
    (Image.locate order.image).start w = (.error s, w) →
    Ends settings memory operator order w (.error s) [] w
  | unchosen {image : Pathname} {located w' : World} {s : Stop} {asked : List Call} :
    (Image.locate order.image).start w = (.ok image, located) →
    (choose settings memory operator order).start w = (.error s, w') →
    asked.Sublist [.operator settings.volumes] →
    w.Leads operator World.Waits asked w' →
    Ends settings memory operator order w (.error s) asked w'
  /--
  There is no configuration or no plan, and nothing has been changed but by the generator since the
  card was cleared.
  -/
  | unplanned {cleared w' : World} {s : Stop} {asked generated : List Call}
    (c : Cleared settings memory operator order w asked cleared) :
    (plan settings c.image).start cleared = (.error s, w') →
    generated.Sublist [.program settings.generator.bytes [(c.image.inForm .elf).bytes]] →
    cleared.Leads operator Eq generated w' →
    Ends settings memory operator order w (.error s) (asked ++ generated) w'
  | unstaged {cleared planned w₁ w' : World} {s : Stop} {asked generated : List Call}
    {done rest : List Asset} {asset : Asset} {staged : List (Asset × Staged)}
    (c : Cleared settings memory operator order w asked cleared) :
    (plan settings c.image).start cleared = (.ok (done ++ asset :: rest), planned) →
    generated.Sublist [.program settings.generator.bytes [(c.image.inForm .elf).bytes]] →
    cleared.Leads operator Eq generated planned →
    (Staging.stageAll c.card done).start planned = (.ok staged, w₁) →
    planned.Leads operator World.Reworks [] w₁ →
    (Action.during (.staging asset.source asset.dest) (Staging.stage c.card asset)).start w₁ =
      (.error s, w') →
    w₁.Leads operator World.Reworks [] w' →
    Ends settings memory operator order w (.error s) (asked ++ generated) w'
  /-- Everything has been staged, and then the card has been ejected, as far as it could be. -/
  | ejected {cleared planned filled w' : World} {asked generated : List Call} {plan : List Asset}
    {staged : List (Asset × Staged)}
    (c : Cleared settings memory operator order w asked cleared) :
    (Deployment.plan settings c.image).start cleared = (.ok plan, planned) →
    generated.Sublist [.program settings.generator.bytes [(c.image.inForm .elf).bytes]] →
    cleared.Leads operator Eq generated planned →
    (Staging.stageAll c.card plan).start planned = (.ok staged, filled) →
    planned.Leads operator World.Reworks [] filled →
    filled.Leads operator Eq (settings.ejectCommand.on c.card) w' →
    Ends settings memory operator order w (.ok ⟨c.image, c.card, c.tally, staged⟩)
      (asked ++ generated ++ settings.ejectCommand.on c.card) w'

theorem Cleared.leads (hmemory : memory.IsPlain)
    (c : Cleared settings memory operator order w asked cleared) :
    w.Leads operator World.Reworks asked cleared := by
  have hsave : c.waited.Reworks c.chosen := by
    rcases hmemory.save_cases c.card c.waited with ⟨s, hsave⟩ | ⟨chosen, hsave, hreworks, -⟩
    . simp [c.saves] at hsave
    . rw [c.saves] at hsave
      obtain ⟨-, rfl⟩ := Prod.mk.inj hsave
      exact hreworks
  exact (c.leads_waited.reworks_of_waits.append_nil (.of_step (.own hsave))).append_nil
    c.leads_cleared

theorem Ends.leads {result : Except Stop Report} {calls : List Call} (hmemory : memory.IsPlain)
    (h : Ends settings memory operator order w result calls w') :
    w.Leads operator World.Reworks calls w' := by
  cases h with
  | unlocated => exact .refl w
  | unchosen _ _ _ hwait => exact hwait.reworks_of_waits
  | unplanned c _ _ hplan => exact (c.leads hmemory).append hplan.reworks_of_eq
  | unstaged c _ _ hplan _ hdone _ hfail =>
    exact ((c.leads hmemory).append hplan.reworks_of_eq).append_nil (hdone.append_nil hfail)
  | ejected c _ _ hplan _ hstage heject =>
    have hfilled := ((c.leads hmemory).append hplan.reworks_of_eq).append_nil hstage
    exact hfilled.append heject.reworks_of_eq

theorem carryOut_eq : carryOut settings memory operator order = (do
    let (image, card) ← choose settings memory operator order
    let cleared ← Clearing.clear card
    let plan ← plan settings image
    let staged ← Staging.stageAll card plan
    let _ ← VolumeManager.eject settings.ejectCommand card
    pure ⟨image, card, cleared, staged⟩) := by
  unfold carryOut
  rw [fillCard_eq]
  simp only [bind_assoc, pure_bind]

theorem Cleared.ends (c : Cleared settings memory operator order w asked cleared) :
    ∃ calls, Ends settings memory operator order w
      ((carryOut settings memory operator order).start w).1 calls
      ((carryOut settings memory operator order).start w).2 := by
  rw [carryOut_eq, Action.start_bind_of_ok c.chooses]
  dsimp only
  rw [Action.start_bind_of_ok c.clears]
  obtain ⟨generated, hgenerated, hleads⟩ :=
    callsAtMost_plan settings c.image operator Eq cleared
  rcases hplan : (plan settings c.image).start cleared with ⟨r, planned⟩
  rw [hplan] at hleads
  cases r with
  | error s =>
    rw [Action.start_bind_of_error hplan]
    exact ⟨_, .unplanned c hplan hgenerated hleads⟩
  | ok plan =>
    rw [Action.start_bind_of_ok hplan]
    rcases hstage : (Staging.stageAll c.card plan).start planned with ⟨r, filled⟩
    cases r with
    | error s =>
      rw [Action.start_bind_of_error hstage]
      obtain ⟨done, asset, rest, staged, w₁, rfl, hdone, hfail⟩ :=
        Staging.exists_asset_of_stageAll hstage
      have hstaged : planned.Leads operator World.Reworks [] w₁ :=
        (Staging.isDirect_stageAll.callsAtMost operator).leads hdone
      have hfailed : w₁.Leads operator World.Reworks [] filled :=
        ((Action.IsDirect.during _ Staging.isDirect_stage).callsAtMost operator).leads hfail
      exact ⟨_, .unstaged c hplan hgenerated hleads hdone hstaged hfail hfailed⟩
    | ok staged =>
      rw [Action.start_bind_of_ok hstage]
      obtain ⟨outcome, w', heject, hejects⟩ := VolumeManager.callsExactly_eject operator Eq
        settings.ejectCommand c.card filled
      rw [Action.start_bind_of_ok heject]
      have hstaged : planned.Leads operator World.Reworks [] filled :=
        (Staging.isDirect_stageAll.callsAtMost operator).leads hstage
      exact ⟨_, .ejected c hplan hgenerated hleads hstage hstaged hejects⟩

theorem exists_ends (settings : Settings) (operator : Operator) (order : Order)
    (hmemory : memory.IsPlain) (w : World) :
    ∃ calls, Ends settings memory operator order w
      ((carryOut settings memory operator order).start w).1 calls
      ((carryOut settings memory operator order).start w).2 := by
  rcases Image.locate_cases order.image w with ⟨s, hlocate⟩ | ⟨_, image, -, hlocate⟩
  . rw [carryOut_of_locate hlocate]
    exact ⟨[], .unlocated hlocate⟩
  obtain ⟨asked, waited, hasked, hleads, hchoose⟩ :=
    choose_cases settings operator order hmemory w
  rcases hchoose with ⟨s, hchoose⟩ | ⟨image, card, chosen, hchoose, hsave, hdir⟩
  . rw [carryOut_eq, Action.start_bind_of_error hchoose]
    exact ⟨asked, .unchosen hlocate hchoose hasked hleads⟩
  . obtain ⟨tally, cleared, hclear, hcleared⟩ := Clearing.clear_of_isDir operator hdir
    exact Cleared.ends
      ⟨image, card, tally, waited, chosen, hchoose, hasked, hleads, hsave, hclear, hcleared⟩

theorem carryOut_fst : ((carryOut settings memory operator order).start w).1 =
    ((fillCard settings memory operator order).start w).1 := by
  unfold carryOut
  rw [Action.start_bind]
  rcases (fillCard settings memory operator order).start w with ⟨r, filled⟩
  cases r with
  | error s => rfl
  | ok report =>
    dsimp only
    obtain ⟨outcome, w', heject, -⟩ := VolumeManager.callsExactly_eject operator Eq
      settings.ejectCommand report.card filled
    rw [Action.start_bind_of_ok heject]
    rfl

/--
A run ends in one of these ways, and with an operator at a terminal the transcript tells of the
calls that it makes and no others. Whatever the command is that ejects the card, and whatever it
comes to, the run comes to the same.
-/
theorem carryOut_ends (settings : Settings) (operator : Operator) (order : Order)
    (hmemory : memory.IsPlain) (w : World) :
    (∃ calls, Ends settings memory operator order w
        ((carryOut settings memory operator order).start w).1 calls
        ((carryOut settings memory operator order).start w).2 ∧
      ∀ listCommand, operator = .atTerminal listCommand →
        ((carryOut settings memory operator order).start w).2.calls =
          w.calls ++ calls.flatMap (Call.atTerminal listCommand)) ∧
    ∀ command,
      ((carryOut { settings with ejectCommand := command } memory operator order).start w).1 =
        ((fillCard settings memory operator order).start w).1 := by
  obtain ⟨calls, hends⟩ := exists_ends settings operator order hmemory w
  refine ⟨⟨calls, hends, ?_⟩, ?_⟩
  . rintro listCommand rfl
    exact (hends.leads hmemory).calls_eq
  . intro command
    rw [carryOut_fst]
    rfl

def attendedSettings : Settings :=
  { sampleSettings with volumes := "/", ejectCommand := [utf8 "/eject", utf8 "-f"] }

def attendant : Operator := .atTerminal [utf8 "/list"]

def attendedWorld : World :=
  { sampleWorld [
      ("/card", .dir Mode.newDirectory),
      ("/eject", .file ⟨utf8 "#!/bin/sh\nexit 1\n", Mode.ofNat 0o755, .at 0⟩)] with
    input := utf8 "card\n" }

def attendedRun : Except Stop Report × World :=
  (carryOut attendedSettings (.file "/remembered") attendant ⟨"/build/kernel8.img", none⟩).start
    attendedWorld

set_option maxRecDepth 100000 in
theorem carryOut_ends_attendedRun : attendedRun.1.isOk = true ∧
    ∃ calls, Ends attendedSettings (.file "/remembered") attendant ⟨"/build/kernel8.img", none⟩
        attendedWorld attendedRun.1 calls attendedRun.2 ∧
      calls.flatMap (Call.atTerminal [utf8 "/list"]) =
        [.operator "/", .program (utf8 "/list") [utf8 "/"],
          .program (utf8 "/eject") [utf8 "-f", utf8 "/card"]] := by
  have hcalls : attendedRun.2.calls = [.operator "/", .program (utf8 "/list") [utf8 "/"],
      .program (utf8 "/eject") [utf8 "-f", utf8 "/card"]] := by
    decide +kernel
  obtain ⟨⟨calls, hends, htold⟩, -⟩ := carryOut_ends attendedSettings attendant
    ⟨"/build/kernel8.img", none⟩ (.file "/remembered") attendedWorld
  exact ⟨by decide +kernel, calls, hends, (htold _ rfl).symm.trans hcalls⟩

end Deployment

end BootCard
