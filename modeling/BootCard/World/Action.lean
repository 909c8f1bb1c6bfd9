import BootCard.Disk.Session
import BootCard.World.Basic

/-!
Actions: computations in the world that may fail, or wait for something that never happens. An
action that stops leaves the world as it is at that point.
-/

namespace BootCard

inductive Stop where
  | failed (f : Failure)
  | waiting
deriving DecidableEq

/-- A computation in the world. -/
abbrev Action := ExceptT Stop (StateM World)

namespace Action

def start (action : Action α) (w : World) : Except Stop α × World := action w

def ask (question : World → α) : Action α := fun w => (.ok (question w), w)

def askDisk (question : FileSystem → α) : Action α := ask fun w => question w.disk

def update (f : World → World) : Action Unit := fun w => (.ok (), f w)

def fail (cause : Cause) : Action α := throw (.failed { cause := cause })

def happen (e : Event) : Action Unit :=
  update fun w => { w with transcript := w.transcript ++ [e] }

def print (text : String) : Action Unit := happen (.printed (utf8 text))

def printLine (text : String) : Action Unit := print (text ++ "\n")

def note (level : Level) (text : String) : Action Unit := happen (.noted level text)

def attempt (session : Session α) : Action (Except IoError α) := fun w =>
  let (result, disk) := session w.disk
  (.ok result, { w with disk := disk })

def ofExcept (cause : ε → Cause) : Except ε α → Action α
  | .ok a => pure a
  | .error e => fail (cause e)

def onDisk (session : Session α) : Action α := do
  ofExcept .io (← attempt session)

def during (activity : Activity) (action : Action α) : Action α := fun w =>
  match action w with
  | (.error (.failed f), w') =>
    (.error (.failed { f with during := activity :: f.during }), w')
  | result => result

/--
Runs a program with arguments and waits for its end. What it prints is printed, and it is noted in
the transcript even if it cannot be started.
-/
def run (program : Bytes) (args : List Bytes) : Action (Except IoError ExitStatus) := do
  let w ← ask id
  match Program.resolve w.programs w.disk (w.value? "PATH") program args with
  | .error e =>
    happen (.ran program args (.error e))
    pure (.error e)
  | .ok behaviour =>
    let outcome := behaviour.run args w.disk
    update fun w => { w with disk := outcome.disk }
    if outcome.output ≠ [] then happen (.printed outcome.output)
    happen (.ran program args (.ok outcome.status))
    pure (.ok outcome.status)

end Action

end BootCard
