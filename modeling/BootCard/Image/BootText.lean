import BootCard.Asset.Plan

/-!
The boot configuration of a kernel image. A prebuilt image may come with one beside it. For all
others a generator is run on the linked image and has to leave one there.
-/

namespace BootCard

namespace BootText

def beside? (image : Pathname) : Option Pathname :=
  image.parent?.map fun dir => dir / (bootConfigName : Pathname)

def isPrebuilt (disk : FileSystem) (image config : Pathname) : Bool :=
  ImageForm.of? image == some .img && disk.exists? config

/-- Runs a generator on the linked form of an image. -/
def generate (image config generator : Pathname) : Action Unit := do
  let linked := image.inForm .elf
  Action.printLine s!"[config] generating {config.display} from {linked.display}"
  let outcome ← Action.run generator.bytes [linked.bytes]
  let status ← Action.during (.runningGenerator generator) (Action.ofExcept .io outcome)
  if !status.isSuccess then
    Action.fail (.generatorFailed generator status)
  if !(← Action.askDisk (·.isFile config)) then
    Action.fail (.nothingGenerated generator config)

/-- Gives the configuration of an image, which is generated if need be. -/
def obtain (image generator : Pathname) : Action Pathname := do
  match beside? image with
  | none => Action.fail (.noImageDirectory image)
  | some config =>
    if ← Action.askDisk (isPrebuilt · image config) then
      Action.note .debug s!"reusing prepackaged {config.display}"
    else
      generate image config generator
    pure config

end BootText

end BootCard
