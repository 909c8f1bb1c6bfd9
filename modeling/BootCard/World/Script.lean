import BootCard.Disk.Change
import BootCard.World.Program

/-!
Helper programs to run the installer with. A helper is a shell script made of a few simple commands:
keeping a record of its arguments, printing, writing a boot configuration beside its first argument,
and ending. A script has one text, which `parse?` reads back. Where a world says nothing else,
scripts are the only programs that can be started.
-/

namespace BootCard

inductive Script.Command where
  /-- Adds the number of the arguments and each of them to a file, a line each. -/
  | record (path : Bytes)
  | print (text : Bytes)
  | echo
  /-- Writes a text to `config.txt` in the directory of the first argument. -/
  | config (text : Bytes)
  | kill (signal : Nat)
  | exit (code : Nat)
deriving DecidableEq

abbrev Script := List Script.Command

namespace Script

abbrev quote : UInt8 := 0x27

def quoted (text : Bytes) : Bytes :=
  quote :: text.flatMap (fun b => if b = quote then utf8 "'\\''" else [b]) ++ [quote]

def unquote : Bytes → Option (Bytes × Bytes)
  | 0x27 :: 0x5c :: 0x27 :: 0x27 :: rest => (unquote rest).map fun (text, r) => (quote :: text, r)
  | 0x27 :: rest => some ([], rest)
  | b :: rest => (unquote rest).map fun (text, r) => (b :: text, r)
  | [] => none

def firstLine : Bytes := utf8 "#!/bin/sh\n"

namespace Command

def recordStart : Bytes := utf8 "for a in \"$#\" \"$@\"; do printf '%s\\n' \"$a\"; done >> "

def printStart : Bytes := utf8 "printf %s "

def echoText : Bytes := utf8 "printf '%s\\n' \"$*\"\n"

def configEnd : Bytes := utf8 " > \"$\x7b1%/*\x7d/config.txt\"\n"

def killStart : Bytes := utf8 "kill -"

def killEnd : Bytes := utf8 " $$\n"

def exitStart : Bytes := utf8 "exit "

def lineEnd : Bytes := utf8 "\n"

def render : Command → Bytes
  | .record path => recordStart ++ quoted path ++ lineEnd
  | .print text => printStart ++ quoted text ++ lineEnd
  | .echo => echoText
  | .config text => printStart ++ quoted text ++ configEnd
  | .kill signal => killStart ++ Bytes.ofNat signal ++ killEnd
  | .exit code => exitStart ++ Bytes.ofNat code ++ lineEnd

def after? (start bs : Bytes) : Option Bytes :=
  if start.isPrefixOf bs then some (bs.drop start.length) else none

def parseQuoted (bs : Bytes) : Option (Bytes × Bytes) :=
  match bs with
  | b :: rest => if b = quote then unquote rest else none
  | [] => none

def isDigit (b : UInt8) : Bool := 0x30 ≤ b && b ≤ 0x39

def parseNumber (bs : Bytes) : Option (Nat × Bytes) :=
  match bs.takeWhile isDigit with
  | [] => none
  | digits => some (digits.foldl (fun n b => 10 * n + (b.toNat - 0x30)) 0, bs.dropWhile isDigit)

def parse? (bs : Bytes) : Option (Command × Bytes) :=
  match after? recordStart bs with
  | some rest => do
    let (path, rest) ← parseQuoted rest
    some (.record path, ← after? lineEnd rest)
  | none =>
  match after? echoText bs with
  | some rest => some (.echo, rest)
  | none =>
  match after? printStart bs with
  | some rest => do
    let (text, rest) ← parseQuoted rest
    match after? configEnd rest with
    | some rest => some (.config text, rest)
    | none => some (.print text, ← after? lineEnd rest)
  | none =>
  match after? killStart bs with
  | some rest => do
    let (signal, rest) ← parseNumber rest
    some (.kill signal, ← after? killEnd rest)
  | none => do
    let (code, rest) ← parseNumber (← after? exitStart bs)
    some (.exit code, ← after? lineEnd rest)

end Command

def render (s : Script) : Bytes := firstLine ++ s.flatMap Command.render

def parseCommands : Nat → Bytes → Option Script
  | _, [] => some []
  | 0, _ => none
  | n + 1, bs => do
    let (c, rest) ← Command.parse? bs
    (c :: ·) <$> parseCommands n rest

def parse? (bs : Bytes) : Option Script := do
  let rest ← Command.after? firstLine bs
  parseCommands rest.length rest

def withoutLastSlash (bs : Bytes) : Bytes :=
  match bs.reverse.dropWhile (· != Bytes.slash) with
  | [] => bs
  | _ :: before => before.reverse

def recordLines (args : List Bytes) : Bytes :=
  (Bytes.ofNat args.length :: args).flatMap (· ++ utf8 "\n")

structure Progress where
  disk : FileSystem
  written : List Location := []
  output : Bytes := []

namespace Progress

def write (p : Progress) (path : Pathname) (data : Bytes → Bytes) : Progress :=
  match p.disk.openForWriting path FileSystem.defaultMode with
  | .ok (loc, f) =>
    { p with disk := p.disk.store loc f (data f.data), written := loc :: p.written }
  | .error _ => p

def print (p : Progress) (text : Bytes) : Progress := { p with output := p.output ++ text }

def ended (p : Progress) (status : ExitStatus) : Program.Outcome :=
  ⟨p.disk, p.written, p.output, status⟩

end Progress

def run (args : List Bytes) : Script → Progress → Program.Outcome
  | [], p => p.ended (.exited 0)
  | .record path :: rest, p => run args rest (p.write ⟨path⟩ (· ++ recordLines args))
  | .print text :: rest, p => run args rest (p.print text)
  | .echo :: rest, p => run args rest (p.print (Bytes.joinWith (utf8 " ") args ++ utf8 "\n"))
  | .config text :: rest, p =>
    run args rest (p.write ⟨withoutLastSlash (args.headD []) ++ utf8 "/config.txt"⟩ fun _ => text)
  | .kill signal :: rest, p =>
    if ExitStatus.isIgnored signal then run args rest p else p.ended (.killed signal)
  | .exit code :: _, p => p.ended (.exited (code % 256))

theorem lt_of_run {args : List Bytes} {script : Script} {p : Progress} {n : Nat}
    (h : (run args script p).status = .exited n) : n < 256 := by
  induction script generalizing p with
  | nil =>
    obtain rfl := ExitStatus.exited.inj h
    decide
  | cons command script ih =>
    cases command with
    | record | print | echo | config => exact ih h
    | kill signal =>
      unfold run at h
      split at h
      . exact ih h
      . simp [Progress.ended] at h
    | exit code =>
      obtain rfl := ExitStatus.exited.inj h
      exact Nat.mod_lt code (by decide)

/-- Whether all that a script has done to the files of a file system is among what it has written. -/
def Owns (disk fs : FileSystem) (written : List Location) : Prop :=
  ∀ loc, loc ∈ written ∨ fs.node? loc = disk.node? loc

theorem Progress.owns_write {disk : FileSystem} {p : Progress} (path : Pathname)
    (data : Bytes → Bytes) (h : Owns disk p.disk p.written) :
    Owns disk (p.write path data).disk (p.write path data).written := by
  unfold write
  split
  next loc f _ =>
    intro l
    by_cases hl : l = loc
    . exact .inl (by simp [hl])
    . rcases h l with hmem | hsame
      . exact .inl (List.mem_cons_of_mem loc hmem)
      . exact .inr ((FileSystem.node?_put_of_ne _ _ hl).trans hsame)
  next => exact h

theorem owns_run {disk : FileSystem} {args : List Bytes} {script : Script} {p : Progress}
    (h : Owns disk p.disk p.written) :
    Owns disk (run args script p).disk (run args script p).written := by
  induction script generalizing p with
  | nil => exact h
  | cons command script ih =>
    cases command with
    | record path => exact ih (p.owns_write _ _ h)
    | config text => exact ih (p.owns_write _ _ h)
    | print | echo => exact ih h
    | kill signal =>
      unfold run
      split
      . exact ih h
      . exact h
    | exit code => exact h

/-! Scripts as programs. -/

def shell : Bytes := utf8 "/bin/sh"

def interpreter? (data : Bytes) : Option Bytes :=
  match data with
  | 0x23 :: 0x21 :: rest =>
    let line := rest.takeWhile (· != 0x0a)
    let isGap := fun (b : UInt8) => b == 0x20 || b == 0x09
    let name := (line.dropWhile isGap).takeWhile (!isGap ·)
    if name = [] then none else some name
  | _ => none

def unreadable : ExitStatus := .exited 2

def unknownCommand : ExitStatus := .exited 127

/-- What the shell does with a file that it is given. -/
def interpret (f : RegularFile) (args : List Bytes) (disk : FileSystem) : Program.Outcome :=
  if !f.mode.canRead then
    Progress.ended { disk := disk } unreadable
  else
    match parse? f.data with
    | some script => run args script { disk := disk }
    | none => Progress.ended { disk := disk } unknownCommand

theorem lt_of_interpret {f : RegularFile} {args : List Bytes} {disk : FileSystem} {n : Nat}
    (h : (interpret f args disk).status = .exited n) : n < 256 := by
  unfold interpret at h
  split at h
  . obtain rfl := ExitStatus.exited.inj h
    decide
  . split at h
    . exact lt_of_run h
    . obtain rfl := ExitStatus.exited.inj h
      decide

theorem owns_interpret (f : RegularFile) (args : List Bytes) (disk : FileSystem) :
    Owns disk (interpret f args disk).disk (interpret f args disk).written := by
  have hstart : Owns disk disk [] := fun _ => .inr rfl
  unfold interpret
  split
  . exact hstart
  . split
    . exact owns_run hstart
    . exact hstart

def behaviour (f : RegularFile) : Program.Behaviour where
  run := interpret f
  lt_of_run _ _ _ h := lt_of_interpret h
  written_or_same args disk loc g hnode := by
    rcases owns_interpret f args disk loc with hmem | hsame
    . exact .inl hmem
    . exact .inr (hsame.symm.trans hnode)

/-- What comes of starting a file where scripts are the only programs. -/
def programs : Programs := fun disk f => do
  match interpreter? f.data with
  | none => .error (.refused .noExec)
  | some name =>
    if name = shell then
      .ok (behaviour f)
    else
      match ← disk.find ⟨name⟩ with
      | .dir _ => .error (.refused .accessDenied)
      | .file _ g => .error (.refused (if g.mode.canEnter then .noExec else .accessDenied))

end Script

end BootCard
