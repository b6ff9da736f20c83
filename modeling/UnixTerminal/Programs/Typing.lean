import UnixTerminal.Kernel.Keyboard
import UnixTerminal.Programs.Calls

set_option autoImplicit false

/-! # Programs and the keyboard

The machine with somebody at its keyboard: whenever a program reads descriptor 0, the next line is typed, key
by key through `keyboard_handler`, and Enter. `Typing.calls` are the system calls of a program on it.

For `execute`, whose caller goes on when the program that it starts has ended, that program has to be run:
`executeAndWait` does so with `_start`, which halts with the value of `main`, and with the handlers of the
exceptions, which put a message on the screen and call `halt_from_exc`. -/

namespace UnixTerminal

/-- The machine with the lines that will be typed, as the codes of their keys. -/
structure Typing where
  keys : Keys
  kernel : Kernel
  lines : List (List UInt8)

/-- The code of Enter. -/
def enterCode : UInt8 := 0x1C

/-! ## The end of a program -/

/-- `main` returns, or an exception is raised. The handlers `exc_0` to `exc_21` are one function but for the
    message that they put. -/
inductive ProgramEnd
  | returns (value : Int)
  | faults (message : List UInt8)

/-- What the program's end leads to. -/
def ProgramEnd.halt (fs : FileSys) (k : Kernel) (env : ExecEnv) : ProgramEnd → HaltOutcome × Kernel
  | .returns value => k.halt fs (UInt8.ofInt value) env
  | .faults message => (k.puts message).haltFromExc fs env

namespace Typing

/-! ## The system calls -/

section Calls

variable (lay : Layout) (fs : FileSys) (us : UserSpace) (frame : Frame) (env : ExecEnv)

/-- One key. -/
def press (s : Typing) (code : UInt8) : Typing :=
  let r := s.kernel.keyboardHandler lay fs 1 code frame env s.keys
  { s with keys := r.1, kernel := r.2 }

/-- A call that is the kernel's alone. -/
def call {α : Type} (f : Kernel → Option (α × Kernel)) (s : Typing) : Option (α × Typing) :=
  (f s.kernel).map fun r => (r.1, { s with kernel := r.2 })

/-- The calls of a program, with `run` for `execute`. With no line left a read of descriptor 0 does not
    return. -/
def calls (run : List UInt8 → Typing → Option (Int × Typing)) : UserCalls Typing where
  ece391Getargs nbytes := call ((kernelCalls fs us).ece391Getargs nbytes)
  ece391Open name := call ((kernelCalls fs us).ece391Open name)
  ece391Close fd := call ((kernelCalls fs us).ece391Close fd)
  ece391Read fd nbytes s :=
    if fd = 0 then
      match s.lines with
      | [] => none
      | codes :: lines =>
          call ((kernelCalls fs us).ece391Read fd nbytes)
            ((codes ++ [enterCode]).foldl (press lay fs frame env) { s with lines := lines })
    else call ((kernelCalls fs us).ece391Read fd nbytes) s
  ece391Write fd buf nbytes := call ((kernelCalls fs us).ece391Write fd buf nbytes)
  ece391Execute command s := run (memBytes us.span command) s

end Calls

/-! ## `execute` -/

/-- `execute` as its caller sees it: the program of that name runs to its end, and the call returns when
    `halt` comes back to its frame. `caller` and `halting` are the stack frames of the two calls. -/
def executeAndWait (fs : FileSys) (mains : List UInt8 → Typing → Option (ProgramEnd × Typing))
    (caller halting : ExecEnv) (command : List UInt8) (s : Typing) : Option (Int × Typing) :=
  match s.kernel.execute fs command caller with
  | (.returned v, k) => some (v, { s with kernel := k })
  | (.started _, k) =>
      (mains (commandName command) { s with kernel := k }).bind fun (stop, s) =>
        match stop.halt fs s.kernel halting with
        | (.resumed eax frame, k) =>
            if frame = caller.frame then some (eax.toInt32.toInt, { s with kernel := k }) else none
        | (.restarted _, _) => none

/-- The calls of a shell, with programs `mains` behind its commands. -/
def shellCalls (lay : Layout) (fs : FileSys) (us : UserSpace) (frame : Frame) (env caller halting : ExecEnv)
    (mains : Nat → List UInt8 → Typing → Option (ProgramEnd × Typing)) (fuel : Nat) : UserCalls Typing :=
  calls lay fs us frame env (executeAndWait fs (mains fuel) caller halting)

/-- A program that does not read the keyboard, on this machine. -/
def ofKernel (main : Kernel → Nat → Option (Int × Kernel)) (s : Typing) (fuel : Nat) :
    Option (ProgramEnd × Typing) :=
  (main s.kernel fuel).map fun r => (.returns r.1, { s with kernel := r.2 })

end Typing

end UnixTerminal
