import UnixTerminal.Library.StackCode

set_option autoImplicit false

/-! # The entry stubs of interrupts and system calls

`syscall_link.S`, instruction by instruction. The processor enters a stub with its own frame already
on the kernel stack; `iret` is the end of the code. `Tasks` is the register side of `switch_task`:
every preempted process waits inside its call of it, on its own kernel stack. Only that stack is kept of
it: the inline assembly of `switch_task` changes ESP and EBP, and no other register. -/

namespace UnixTerminal

/-! ## The functions behind the stubs -/

/-- The C functions that the stubs call. -/
inductive Handler
  | halt | execute | read | write | openFile | close | getargs | vidmap | setHandler | sigreturn
  | rtcHandler | keyboardHandler | switchTask
deriving DecidableEq

/-- The argument slots that a stub pushes for the function. -/
def Handler.args : Handler → Nat
  | .rtcHandler | .keyboardHandler | .switchTask => 0
  | _ => 3

def jumpTable : List Handler :=
  [.halt, .execute, .read, .write, .openFile, .close, .getargs, .vidmap, .setHandler, .sigreturn]

/-! ## The stubs -/

/-- `not_valid` -/
def notValid : Code Handler :=
  .block [.movl (-1) .eax,
    .popl .edi, .popl .esi, .popl .edx, .popl .ecx, .popl .ebx] .iret

def syscallLink : Code Handler :=
  .block [.pushl .ebx, .pushl .ecx, .pushl .edx, .pushl .esi, .pushl .edi] <|
  .block [.cmpl 0 .eax] <|
  .jle notValid <|
  .block [.cmpl 11 .eax] <|
  .jge notValid <|
  .block [.pushl .edx, .pushl .ecx, .pushl .ebx] <|
  .block [.subl 1 .eax, .callTable jumpTable .eax] <|
  .block [.popl .ebx, .popl .ecx, .popl .edx,
    .popl .edi, .popl .esi, .popl .edx, .popl .ecx, .popl .ebx] .iret

def rtcLinkage : Code Handler := .block [.pushal, .call .rtcHandler, .popal] .iret

def keyboardLinkage : Code Handler := .block [.pushal, .call .keyboardHandler, .popal] .iret

def pitLinkage : Code Handler := .block [.call .switchTask] .iret

/-! ## `switch_task` and the stacks -/

/-- The stack to which `ESP_SWITCH` and `EBP_SWITCH` of a PCB lead back. -/
structure SavedStack where
  base : UInt32
  stack : List UInt32

/-- The frame of `switch_task` below its return address: the EBP of the caller, and EBX, because the first
    inline statement writes into it. ESI and EDI are not used, so they are not saved. -/
def saveFrame (c : Cpu) : SavedStack :=
  let framed := (c.push (c.reg .ebp)).push (c.reg .ebx)
  ⟨framed.base, framed.stack⟩

/-- `switch_task` behind its second inline statement, which has put `ESP_SWITCH` and `EBP_SWITCH` of the
    next process into ESP and EBP: it returns from the frame found there. `scratch` is left in the registers
    that a function need not restore, the others are still those of `c`. -/
def returnFrame (scratch : Reg → UInt32) (next : SavedStack) (c : Cpu) : Option Cpu :=
  let switched : Cpu := ⟨fun r => if r.calleeSaved then c.reg r else scratch r, next.base, next.stack⟩
  (switched.pop .ebx).bind fun c => (c.pop .ebp).map fun c => { c with stack := c.stack.tail }

/-- The running process with its processor state, and the stacks of the processes that wait. -/
structure Tasks where
  running : UInt32
  cpu : Cpu
  parked : UInt32 → Option SavedStack

/-- What may happen next. -/
inductive TaskEvent
  /-- Execution goes on, up to the next PIT interrupt: in the running process, or in one that
      `execute` or `halt` makes the running one. -/
  | goesOn (process : UInt32) (cpu : Cpu)
  /-- `switch_terminal` saves the stack like `switch_task`, in a frame of the same form, and starts a shell. -/
  | startsShell (process : UInt32) (cpu : Cpu)
  /-- A PIT interrupt, after which `next` runs; `switch_task` leaves `scratch` in the registers that
      it need not restore. -/
  | tick (next : UInt32) (scratch : Reg → UInt32)

namespace Tasks

variable (s : Tasks)

/-- The stacks once the running process has saved its own, in a function that it called in `c`. -/
def park (c : Cpu) : UInt32 → Option SavedStack := Function.update s.parked s.running (some (saveFrame c))

/-- `switch_task`, entered in `c`; `none` for a switch to a process that has no saved stack. -/
def switchTask (next : UInt32) (scratch : Reg → UInt32) (c : Cpu) : Option Cpu :=
  (s.park c next).bind fun saved => returnFrame scratch saved c

/-- One step. -/
def step : TaskEvent → Option Tasks
  | .goesOn process cpu => some { s with running := process, cpu }
  | .startsShell process cpu => some { running := process, cpu, parked := s.park (s.cpu.push returnAddress) }
  | .tick next scratch =>
      (pitLinkage.exec (fun _ c => s.switchTask next scratch c) ⟨s.cpu, (0, 0), []⟩).map fun m =>
        { running := next
          cpu := m.cpu
          parked := s.park (s.cpu.push returnAddress) }

end Tasks

end UnixTerminal
