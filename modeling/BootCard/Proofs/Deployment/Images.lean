import BootCard.Proofs.Deployment.Course
import BootCard.Proofs.Image.Locating

/-!
This module contains what a run has made sure of before it touches the card: that there is an image.
It may be a directory, though, which is found out only when the card has been cleared.
-/

namespace BootCard

open FileSystem

namespace Deployment

variable {settings : Settings} {memory : CardMemory} {operator : Operator} {order : Order}
variable {w w' : World} {image card : Pathname}

theorem locate_of_choose
    (h : (choose settings memory operator order).start w = (.ok (image, card), w')) :
    ∃ located, (Image.locate order.image).start w = (.ok image, located) := by
  unfold choose at h
  simp only [Action.start_bind_eq_ok, Action.start_pure, Prod.mk.injEq, Except.ok.injEq] at h
  obtain ⟨_, located, hlocate, _, _, -, _, _, -, ⟨rfl, rfl⟩, -⟩ := h
  exact ⟨located, hlocate⟩

/--
A run fails before it does anything, or it has located something that is a regular file with the
extension of a flat form just when it is not a directory. This is the image of the run if it gets to
clearing the card.
-/
theorem carryOut_locates (settings : Settings) (memory : CardMemory) (operator : Operator)
    (order : Order) (w : World) :
    (∃ s, (Image.locate order.image).start w = (.error s, w) ∧
      (carryOut settings memory operator order).start w = (.error s, w)) ∨
    ∃ image located, (Image.locate order.image).start w = (.ok image, located) ∧
      located.disk = w.disk ∧
      (w.disk.IsFlatImage image ↔ w.disk.isDir image = false) ∧
      ∀ image' card chosen,
        (choose settings memory operator order).start w = (.ok (image', card), chosen) →
        image' = image := by
  rcases Image.locate_cases order.image w with ⟨s, hlocate⟩ | ⟨path, image, hflat, hlocate⟩
  . exact .inl ⟨s, hlocate, carryOut_of_locate hlocate⟩
  . refine .inr ⟨image, _, hlocate, rfl, Image.isFlatImage_iff hflat, ?_⟩
    intro image' card chosen hchoose
    obtain ⟨located, hlocate'⟩ := locate_of_choose hchoose
    rw [hlocate] at hlocate'
    exact (Except.ok.inj (Prod.mk.inj hlocate').1).symm

def hollowImage : World := sampleWorld [
  ("/build/kernel8.img", .dir Mode.newDirectory),
  ("/card/notes.txt", sampleFile "notes")]

def directoryOrder : Order := ⟨"/build", some "/card"⟩

def hollowRun : Except Stop Report × World :=
  (carryOut sampleSettings .inWorld silentOperator directoryOrder).start hollowImage

set_option maxRecDepth 100000 in
/-- A run that has no image to deploy may clear the card all the same. -/
theorem hollowImage_clears_card :
    ((Image.locate directoryOrder.image).start hollowImage).1 = .ok "/build/kernel8.img" ∧
      ¬ hollowImage.disk.IsFlatImage "/build/kernel8.img" ∧
      hollowImage.disk.isFile "/card/notes.txt" = true ∧
      hollowRun.1.isOk = false ∧ hollowRun.2.disk.exists? "/card/notes.txt" = false := by
  refine ⟨by decide +kernel, fun h => ?_, by decide +kernel, by decide +kernel, by decide +kernel⟩
  exact absurd h.isFile (by decide +kernel)

end Deployment

end BootCard
