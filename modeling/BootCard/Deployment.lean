import BootCard.Asset.Staging
import BootCard.Card.Choice
import BootCard.Card.Clearing
import BootCard.Image.BootText
import BootCard.Settings.Basic

/-!
Deploying a kernel: the image is located, the card chosen and cleared, the boot configuration
obtained, everything staged, and the card ejected. The first failure ends it, and only what comes
before the choice of the card leaves the card as it is.
-/

namespace BootCard

structure Order where
  image : Pathname
  card : Option Pathname
deriving DecidableEq

structure Report where
  image : Pathname
  card : Pathname
  cleared : Tally
  staged : List (Asset × Staged)

namespace Report

def count (r : Report) (staged : Staged) : Nat := r.staged.countP (·.2 = staged)

end Report

namespace Deployment

/-- Carries out an order up to the point where the card can be ejected. -/
def fillCard (settings : Settings) (memory : CardMemory) (operator : Operator) (order : Order) :
    Action Report := do
  let image ← Image.locate order.image
  Action.printLine s!"[install] kernel {image.display}"
  let card ← Action.during .choosingCard
    (Choice.choose settings.volumes memory operator order.card)
  let cleared ← Clearing.clear card
  let config ← BootText.obtain image settings.generator
  let plan ← Plan.all settings.firmware image config settings.programs
  let staged ← Staging.stageAll card plan
  pure ⟨image, card, cleared, staged⟩

/-- Carries out an order and ejects the card. -/
def carryOut (settings : Settings) (memory : CardMemory) (operator : Operator) (order : Order) :
    Action Report := do
  let report ← fillCard settings memory operator order
  let _ ← VolumeManager.eject settings.ejectCommand report.card
  pure report

end Deployment

end BootCard
