import UnixTerminal.Kernel.Process
import UnixTerminal.Library.CountedLoop
import UnixTerminal.Library.TracedArray

set_option autoImplicit false

/-! # The loops of `execute` over its command

`execute` copies the command to `buf`, looks for the end of the first word there while it copies that
word from the caller's string to `com`, skips blanks in the caller's string, and copies what is left to
`args` of the new PCB. `Kernel.execute` has the outcome of this as functions on lists; here are the
loops themselves, with the arrays they fill and every store they make. What a store outside an array
does to other variables is not followed. -/

namespace UnixTerminal

/-- `BUF_SIZE`: the size of `buf`, of `com` and of `args`. -/
def bufSize : Nat := 128

/-- `command[i]`. -/
def charAt (command : List UInt8) (i : Nat) : UInt8 := command.getD i 0

/-- The variables of the first loop. -/
structure NameScan where
  scan : Nat
  i : Nat
  com : TracedArray UInt8

/-- `'\0' != *scan && ' ' != *scan && '\n' != *scan` -/
def NameScan.goesOn (buf : Nat → UInt8) (s : NameScan) : Bool :=
  buf s.scan ≠ 0 && buf s.scan ≠ 32 && buf s.scan ≠ 10

/-- `com[i] = command[i]; i++;` and `scan++` -/
def NameScan.pass (command : List UInt8) (s : NameScan) : NameScan :=
  ⟨s.scan + 1, s.i + 1, s.com.store s.i (charAt command s.i)⟩

/-- The two local arrays, and `i` behind the blanks. -/
structure ParsedName where
  buf : TracedArray UInt8
  com : TracedArray UInt8
  i : Nat

/-- `execute` up to `get_process`; `none` if a loop has not ended after `fuel` passes. -/
def parseName (fuel : Nat) (buf com : TracedArray UInt8) (command : List UInt8) : Option ParsedName :=
  let buf := strcpy TracedArray.store buf 0 command
  (whileRun (NameScan.goesOn buf.mem) (NameScan.pass command) fuel ⟨0, 0, com⟩).bind fun s =>
    let com := s.com.store s.i 0
    (whileRun (fun i => charAt command i == 32) (· + 1) fuel s.i).map fun i => ⟨buf, com, i⟩

/-- The copy to `args`, with `arg_start = i` in a `uint8_t`. -/
def copyArgs (fuel : Nat) (args : TracedArray UInt8) (command : List UInt8) (i : Nat) :
    Option (TracedArray UInt8) :=
  let argStart := i % 256
  (whileRun (fun s : Nat × TracedArray UInt8 => charAt command s.1 != 0)
    (fun s => (s.1 + 1, s.2.store (s.1 - argStart) (charAt command s.1))) fuel (i, args)).map
    fun s => s.2.store (s.1 - argStart) 0

/-- What a call of `execute` does: its outcome, the state, what it passed to `read_dentry_by_name` (if it
    came as far as that), and the indices it stored to in the three arrays. -/
structure ExecuteRun where
  outcome : ExecOutcome
  kernel : Kernel
  looked : Option (List UInt8)
  bufStores : List Nat
  comStores : List Nat
  argsStores : List Nat

namespace Kernel

variable (fs : FileSys) (k : Kernel)

/-- `execute` behind the loops. -/
def executeNamed (newProcess : UInt32) (com : List UInt8) (env : ExecEnv) : ExecOutcome × Kernel :=
  match checkNamed fs com env.buffer with
  | .notFound => (.returned (-1), k.clearProcess)
  | .notExe => (.returned (-1), k)
  | .exe inode fileStart => (.started fileStart, k.startProcess fs newProcess inode env.frame)

/-- `execute`; `buf` and `com` are what its two local arrays hold before. -/
def executeLoops (fuel : Nat) (buf com : Nat → UInt8) (command : List UInt8) (env : ExecEnv) :
    Option ExecuteRun :=
  (parseName fuel (.fresh buf) (.fresh com) command).bind fun p =>
    let (newProcess, k) := k.getProcess
    if newProcess = minusOne then
      some ⟨.returned 0, k.puts tooManyProcesses, none, p.buf.stores, p.com.stores, []⟩
    else
      let currPcb := getPcbPointer newProcess
      (copyArgs fuel (.fresh (k.pcb currPcb).args) command p.i).map fun args =>
        let k := { k with currentPcb := currPcb }.setPcb currPcb (fun q => { q with args := args.mem })
        let looked := p.com.take bufSize
        let r := k.executeNamed fs newProcess looked env
        ⟨r.1, r.2, some looked, p.buf.stores, p.com.stores, args.stores⟩

end Kernel

end UnixTerminal
