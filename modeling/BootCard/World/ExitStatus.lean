/-!
How a program ends: by itself with a number, or killed by a signal.
-/

namespace BootCard

inductive ExitStatus where
  | exited (code : Nat)
  | killed (signal : Nat)
deriving DecidableEq, Repr

namespace ExitStatus

def signalNames : List String := [
  "SIGHUP", "SIGINT", "SIGQUIT", "SIGILL", "SIGTRAP", "SIGABRT", "SIGBUS", "SIGFPE", "SIGKILL",
  "SIGUSR1", "SIGSEGV", "SIGUSR2", "SIGPIPE", "SIGALRM", "SIGTERM", "SIGSTKFLT", "SIGCHLD",
  "SIGCONT", "SIGSTOP", "SIGTSTP", "SIGTTIN", "SIGTTOU", "SIGURG", "SIGXCPU", "SIGXFSZ",
  "SIGVTALRM", "SIGPROF", "SIGWINCH", "SIGIO", "SIGPWR", "SIGSYS"]

def signalName? (signal : Nat) : Option String :=
  match signal with
  | 0 => none
  | n + 1 => signalNames[n]?

def isIgnored (signal : Nat) : Bool :=
  [0, 17, 18, 23, 28].contains signal || signal > 64

def isSuccess : ExitStatus → Bool
  | .exited 0 => true
  | _ => false

def code? : ExitStatus → Option Nat
  | .exited n => some n
  | .killed _ => none

def message : ExitStatus → String
  | .exited n => s!"exit status: {n}"
  | .killed signal =>
    match signalName? signal with
    | some name => s!"signal: {signal} ({name})"
    | none => s!"signal: {signal}"

end ExitStatus

end BootCard
