import BootCard.Deployment
import BootCard.Settings.Project

/-!
The command: its arguments, what it prints and the number that it ends with.
-/

namespace BootCard

inductive Request where
  | help
  | deploy (order : Order)
deriving DecidableEq

namespace Command

def usage : String :=
  "Usage:\n  install-kernel <kernel.\x7bbin|elf|img\x7d|kernel-dir> [sdcard-dir]\n\n" ++
    "If the sdcard directory is omitted, the one used last time is selected;\n" ++
    "on first use you are asked for it."

def isOption (arg : Bytes) : Bool := arg.head? == some 0x2d

def asksForHelp (arg : Bytes) : Bool := arg == utf8 "-h" || arg == utf8 "--help"

def parse (args : List Bytes) : Except Failure Request :=
  if args.any asksForHelp then
    .ok .help
  else if args.any isOption then
    .error { cause := .misuse usage }
  else
    match args with
    | [image] => .ok (.deploy ⟨⟨image⟩, none⟩)
    | [image, card] => .ok (.deploy ⟨⟨image⟩, some ⟨card⟩⟩)
    | _ => .error { cause := .misuse usage }

def deploy (order : Order) : Action Unit := do
  let settings ← Project.settings
  let report ← Deployment.carryOut settings (CardMemory.file settings.memoryFile)
    (Operator.atTerminal settings.listCommand) order
  let updated := report.count .updated
  let upToDate := report.count .upToDate
  Action.printLine
    s!"[install] {report.card.display}: {updated} updated, {upToDate} up-to-date"

def run (args : List Bytes) : Action Unit := do
  match parse args with
  | .error f => throw (.failed f)
  | .ok .help => Action.printLine usage
  | .ok (.deploy order) => deploy order

structure Result where
  code : Nat
  failure : Option Failure

/-- Runs the command in a world. Nothing comes of it if it waits for ever. -/
def runIn (args : List Bytes) (w : World) : Option Result × World :=
  match (run args).start w with
  | (.ok (), w') => (some ⟨0, none⟩, w')
  | (.error (.failed f), w') => (some ⟨f.exitCode, some f⟩, w')
  | (.error .waiting, w') => (none, w')

end Command

end BootCard
