import BootCard.World.Action

/-!
Clearing a card. Every entry at its root is removed, and what cannot be removed is noted and left. A
symbolic link is removed and not followed.
-/

namespace BootCard

structure Tally where
  removed : Nat := 0
  failed : List Pathname := []
deriving DecidableEq

namespace Clearing

def removeEntry (order : ListingOrder) (path : Pathname) (isDir : Bool) : Session Unit :=
  if isDir then Session.removeTree order path else Session.change (·.removeFile path)

def clearEntry (order : ListingOrder) (card : Pathname) (tally : Tally) (entry : Name × Node) :
    Action Tally := do
  let path := card / Pathname.mk entry.1
  match ← Action.attempt (removeEntry order path entry.2.isDir) with
  | .ok () => pure { tally with removed := tally.removed + 1 }
  | .error e =>
    Action.note .warn s!"Failed to delete {path.display}: {e.message}"
    pure { tally with failed := tally.failed ++ [path] }

/-- Removes the entries of a card, if it can be listed, in the order in which they are listed. -/
def clearEntries (order : ListingOrder) (card : Pathname) : Action Tally := do
  match ← Action.askDisk (·.listDir order card) with
  | .ok entries => entries.foldlM (clearEntry order card) {}
  | .error e =>
    let reason := s!"IO error for operation on {card.display}: {e.message}"
    Action.note .warn s!"Failed to read entry under {card.display}: {reason}"
    pure { failed := [card] }

def clear (card : Pathname) : Action Tally := do
  if !(← Action.askDisk (·.isDir card)) then
    Action.fail (.cardNotDirectory card)
  let order ← Action.ask (·.listing)
  let tally ← clearEntries order card
  Action.note .debug
    s!"wiped {card.display}: {tally.removed} removed, {tally.failed.length} failed"
  pure tally

end Clearing

end BootCard
