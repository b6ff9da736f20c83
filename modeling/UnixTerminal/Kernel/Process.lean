import UnixTerminal.Kernel.Descriptors

set_option autoImplicit false

/-! # Processes (`execute`, `halt`, `halt_from_exc`, `getargs` of `syscall.c`)

`execute` does not come back when it starts a program: it jumps to user space, and the caller's
call returns when `halt` or `halt_from_exc` of the child loads the frame saved in the child's PCB
and executes `leave; ret` with the status in `%eax`. Both outcomes are values here
(`ExecOutcome`, `HaltOutcome`), with the frame and the return value as the assembly has them. -/

namespace UnixTerminal

/-- What a call of `execute` finds on its stack: the uninitialised bytes of `buffer`, and the frame
    (`%esp`, `%ebp`) at the statement that stores it. -/
structure ExecEnv where
  buffer : Nat → UInt8
  frame : Frame

/-- `returned v`: `execute` returns `v` to its caller. `started e`: it jumps to user address `e`. -/
inductive ExecOutcome
  | returned (v : Int)
  | started (entry : UInt32)
deriving DecidableEq, Repr

/-- `resumed v f`: the frame `f` is loaded and the call that owns it returns `v`. `restarted e`: a
    new shell is started at `e`. -/
inductive HaltOutcome
  | resumed (eax : UInt32) (frame : Frame)
  | restarted (entry : UInt32)
deriving DecidableEq, Repr

/-- The string `"shell"`. -/
def shellName : List UInt8 := [115, 104, 101, 108, 108]

/-- The text of the message for a full process table. -/
def tooManyProcesses : List UInt8 :=
  [116, 111, 111, 32, 109, 97, 110, 121, 32, 112, 114, 111, 99, 101, 115, 115, 101, 115, 10]

/-! ## Parsing the command -/

/-- The first word: the characters before the first NUL, blank or newline (`com`). -/
def commandName (command : List UInt8) : List UInt8 :=
  command.takeWhile (fun c => c ≠ 0 ∧ c ≠ 32 ∧ c ≠ 10)

/-- What is left of the command behind its first word and the blanks that follow it. -/
def commandRest (command : List UInt8) : List UInt8 :=
  (command.drop (commandName command).length).dropWhile (· = 32)

/-- Where the arguments start in the command (`i` when `arg_start` is set from it). -/
def argStart (command : List UInt8) : Nat := command.length - (commandRest command).length

/-- The copy loop into `args` and its NUL: byte `j` of the rest goes to index `i - arg_start`, where
    `arg_start` is an 8-bit variable. -/
def storeArgs (args : Nat → UInt8) (command : List UInt8) : Nat → UInt8 :=
  strcpy (fun a i c => Function.update a i c) args (argStart command - argStart command % 256)
    (commandRest command)

/-! ## Checking the file -/

/-- The bytes `read_data` stores over the start of a buffer. -/
def overlay (buffer : Nat → UInt8) (bytes : List UInt8) : Nat → UInt8 :=
  fun i => bytes.getD i (buffer i)

/-- The three ways the checks of `execute` on the named file end. -/
inductive FileCheck
  | notFound
  | notExe
  | exe (inode : Nat) (fileStart : UInt32)
deriving DecidableEq, Repr

/-- The checks of `execute` on the file named `com`: it is in the directory, and `buffer` holds the ELF
    magic after the first read. The entry address is then read over the same buffer. -/
def checkNamed (fs : FileSys) (com : List UInt8) (buffer : Nat → UInt8) : FileCheck :=
  match fs.readDentryByName com with
  | none => .notFound
  | some d =>
      let inode := d.inode.toNat
      let buffer := overlay buffer (fs.readData inode 0 4).2
      if buffer 0 ≠ 0x7F ∨ buffer 1 ≠ 0x45 ∨ buffer 2 ≠ 0x4C ∨ buffer 3 ≠ 0x46 then .notExe
      else
        let buffer := overlay buffer (fs.readData inode 24 4).2
        .exe inode (UInt32.ofNat (wordAt buffer 0))

/-- The checks on the file that the command names. -/
def checkFile (fs : FileSys) (command : List UInt8) (buffer : Nat → UInt8) : FileCheck :=
  checkNamed fs (commandName command) buffer

namespace Kernel

variable (fs : FileSys) (k : Kernel)

/-- A store of consecutive bytes at user virtual address `VIRTUAL_FILE_START + j`, through the 4 MB
    page mapped at `VIRTUAL_FILE_PAGE`. -/
def loadProgram (bytes : List UInt8) : Kernel :=
  let page := k.pageDirectory 32 &&& 0xFFC00000
  { k with
    userPage := Function.update k.userPage page (fun off =>
      if 0x48000 ≤ off then bytes.getD (off - 0x48000) (k.userPage page off)
      else k.userPage page off) }

/-- The table `execute` gives a new process: stdin and stdout, and nothing else. -/
def initFds (i : Nat) : Fds :=
  ⟨minusOne, 0, if i = 0 then stdinFlag else if i = 1 then stdoutFlag else notSet⟩

/-- The part of `execute` behind the checks: PCB, terminal, paging, program and `tss`, and the frame
    stored for `halt`. -/
def startProcess (newProcess : UInt32) (inode : Nat) (frame : Frame) : Kernel :=
  let currPcb := getPcbPointer newProcess
  let viewed := k.currTerminalNumber
  -- the first program of a terminal has no parent; which terminal is meant is the viewed one
  let ppid := if (k.terminals viewed).active = 0 then minusOne else k.currProcess
  let k := k.setTerminal viewed (fun t => if t.active = 0 then { t with active := 1 } else t)
  let k := k.setPcb currPcb (fun p => { p with
    ppid := ppid
    pid := newProcess
    fdsArray := fun i => if i < maxFile then initFds i else p.fdsArray i })
  let k := { k with currProcess := newProcess }.setCurrProcess newProcess
  let k := k.map virtualFilePage (processPage newProcess)
  let k := k.loadProgram (fs.readData inode 0 100000).2
  let k := { k with tssEsp0 := kernelStack newProcess }
  let k := k.setPcb currPcb (fun p => { p with esp0 := frame.esp, ebp0 := frame.ebp })
  k.setTerminal viewed (fun t => { t with esp := frame.esp, ebp := frame.ebp })

/-- `execute`. -/
def execute (command : List UInt8) (env : ExecEnv) : ExecOutcome × Kernel :=
  let (newProcess, k) := k.getProcess
  if newProcess = minusOne then (.returned 0, k.puts tooManyProcesses)
  else
    let currPcb := getPcbPointer newProcess
    let k := { k with currentPcb := currPcb }.setPcb currPcb (fun p =>
      { p with args := storeArgs p.args command })
    match checkFile fs command env.buffer with
    | .notFound => (.returned (-1), k.clearProcess)
    | .notExe => (.returned (-1), k)
    | .exe inode fileStart => (.started fileStart, k.startProcess fs newProcess inode env.frame)

/-- The closing loop of `halt` over the slots 2..7: it looks at the table of `curPcb` and calls
    `close`, which looks at `curr_process`. -/
def closeLoop (curPcb : UInt32) : Kernel :=
  [2, 3, 4, 5, 6, 7].foldl (fun k (i : Nat) =>
    if ((k.pcb curPcb).fdsArray i).flags ≠ 0 then (k.close i).2 else k) k

/-- The statements of `halt` that make `curPpid` the current process: `tss`, `curr_process`, the
    terminal's process and the user page. -/
def enterParent (curPpid : UInt32) : Kernel :=
  let k := { k with tssEsp0 := kernelStack curPpid, currProcess := curPpid }
  (k.setCurrProcess k.currProcess).map virtualFilePage (processPage curPpid)

/-- The part of `halt` behind the test for a root process. `childPcb` was computed before it. -/
def resumeParent (eax childPcb : UInt32) : HaltOutcome × Kernel :=
  let curPpid := (k.pcb (getPcbPointer k.currProcess)).ppid
  let curPcb := getPcbPointer curPpid
  let k := (k.enterParent curPpid).closeLoop curPcb
  (.resumed eax ⟨(k.pcb childPcb).esp0, (k.pcb childPcb).ebp0⟩, k)

/-- The common body of `halt` and `halt_from_exc`. Where the new shell cannot be started, `execute`
    returns and the code runs on with the parent number -1. -/
def haltWith (eax : UInt32) (env : ExecEnv) : HaltOutcome × Kernel :=
  let k := k.endProcess k.currProcess
  let childPcb := getPcbPointer k.currProcess
  if (k.pcb childPcb).ppid = minusOne then
    let k := k.setTerminal k.currTerminalNumber (fun t => { t with active := 0 })
    match k.execute fs shellName env with
    | (.started entry, k) => (.restarted entry, k)
    | (.returned _, k) => k.resumeParent eax childPcb
  else k.resumeParent eax childPcb

/-- `halt`. -/
def halt (status : UInt8) (env : ExecEnv) : HaltOutcome × Kernel :=
  k.haltWith fs status.toUInt32 env

/-- `halt_from_exc`. -/
def haltFromExc (env : ExecEnv) : HaltOutcome × Kernel := k.haltWith fs 256 env

/-- `getargs`: the value returned and the string stored, with its NUL. `nbytes` is not looked at.
    `behind` lists the bytes behind the PCB, which `strcpy` reads when there is no NUL before. -/
def getargs (behind : List UInt8) (buf : UInt32) (_nbytes : Int) : Transfer :=
  if buf = 0 then Transfer.fail (-1)
  else ⟨0, 0, cstr ((k.pcbOf k.currProcess).argsBytes ++ behind) ++ [0]⟩

end Kernel

end UnixTerminal
