import BootCard.Card.Memory
import BootCard.Card.VolumeManager
import BootCard.Card.Waiting

/-!
Choosing the card: the one that is named, or else the one of the last run, or else one that the
operator is asked for. Once it is there it is remembered.
-/

namespace BootCard

structure Operator where
  answer : (volumes : Pathname) → Action String

namespace Operator

def firstLine (text : Bytes) : Bytes :=
  text.takeWhile (· != 0x0a) ++ (text.dropWhile (· != 0x0a)).take 1

def atTerminal (listCommand : CommandLine) : Operator where
  answer volumes := do
    VolumeManager.list listCommand volumes
    Action.printLine "[target] please provide an installation directory"
    Action.print "(input) > "
    let line ← Action.ask fun w => Utf8.decode? (firstLine w.input)
    match line with
    | some text => pure text
    | none => Action.during .readingAnswer (Action.fail (.io .notText))

end Operator

namespace Choice

def ofAnswer? (volumes : Pathname) (answer : String) : Option Pathname :=
  let name := trimBlank answer
  if name = "" then none else some (volumes / Pathname.ofString name)

def askOperator (volumes : Pathname) (operator : Operator) : Action Pathname := do
  Action.happen (.asked volumes)
  let answer ← operator.answer volumes
  match ofAnswer? volumes answer with
  | some card => pure card
  | none => Action.fail .noAnswer

def rememberedOrAsked (volumes : Pathname) (memory : CardMemory) (operator : Operator) :
    Action Pathname := do
  match ← memory.load with
  | some card =>
    Action.note .debug s!"using cached target {card.display}"
    pure card
  | none => askOperator volumes operator

def choose (volumes : Pathname) (memory : CardMemory) (operator : Operator)
    (named : Option Pathname) : Action Pathname := do
  let card ← match named with
    | some card => pure card
    | none => rememberedOrAsked volumes memory operator
  let _ ← Waiting.untilDirectory card none
  memory.save card
  pure card

end Choice

end BootCard
