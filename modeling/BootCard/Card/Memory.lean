import BootCard.World.Action
import BootCard.Text.Blank

/-!
Remembering the card of the last run.
-/

namespace BootCard

structure CardMemory where
  load : Action (Option Pathname)
  save : Pathname → Action Unit

namespace CardMemory

/-- The card that the text of a file stands for: blanks around the path are not part of it. -/
def ofText? (text : Bytes) : Option Pathname :=
  let path := text.trimAscii
  if path = [] then none else some ⟨path⟩

def file (file : Pathname) : CardMemory where
  load := do
    if !(← Action.askDisk (·.isFile file)) then
      pure none
    else
      let text ← Action.during (.readingRemembered file)
        (Action.onDisk (Session.ask (·.readFile file)))
      pure (ofText? text)
  save card :=
    Action.during (.writingRemembered file)
      (Action.onDisk (Session.change (·.writeFile file card.bytes)))

/-- A card that the world remembers by itself. -/
def inWorld : CardMemory where
  load := Action.ask (·.remembered)
  save card := Action.update fun w => { w with remembered := some card }

end CardMemory

end BootCard
