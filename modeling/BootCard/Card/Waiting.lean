import BootCard.World.Action

/-!
Waiting for a directory to appear. A dot is printed for every time that it is not there yet. The
loop is told apart from the world: it runs on any state in which a condition can be tested and a dot
can be printed.
-/

namespace BootCard

namespace Waiting

/--
Tests a condition and prints a dot until it holds or as many dots have been printed as are allowed.
Gives whether it held in the end, or nothing if it did not end within a number of rounds.
-/
def poll (isReady : σ → Bool) (dot : σ → σ) (limit : Option Nat) : (rounds : Nat) → (dots : Nat) →
    σ → Option (Bool × σ)
  | rounds, dots, s =>
    if isReady s then
      some (true, s)
    else if limit.any (· ≤ dots) then
      some (false, s)
    else
      match rounds with
      | 0 => none
      | rounds + 1 => poll isReady dot limit rounds (dots + 1) (dot s)

/-- The world once a waiting dot has been printed: the awaited directory may have appeared. -/
def afterDot (w : World) : World :=
  let w := { w with transcript := w.transcript ++ [Event.printed (utf8 ".")] }
  match w.mount with
  | none => w
  | some mount =>
    if mount.dots ≤ 1 then
      let (_, disk) := Session.makeDirs mount.path w.disk
      { w with disk := disk, mount := none }
    else
      { w with mount := some { mount with dots := mount.dots - 1 } }

def dotsLeft (w : World) : Nat := (w.mount.map fun mount => max mount.dots 1).getD 0

def pollWorld (path : Pathname) (limit : Option Nat) : Action Bool := fun w =>
  match poll (·.disk.isDir path) afterDot limit (limit.getD (dotsLeft w)) 0 w with
  | some (ready, w') => (.ok ready, w')
  | none => (.error .waiting, w)

/--
Waits until a path leads to a directory, or as many dots have been printed as are allowed. Gives
whether the directory is there.
-/
def untilDirectory (path : Pathname) (limit : Option Nat) : Action Bool := do
  if ← Action.askDisk (·.isDir path) then
    pure true
  else
    Action.printLine s!"[target] please insert your sdcard (mounting point: {path.display})"
    Action.print "    waiting"
    let ready ← pollWorld path limit
    Action.print "\n"
    pure ready

end Waiting

end BootCard
