import UnixTerminal.Kernel.Process

set_option autoImplicit false

/-! # The scheduler and the terminal switch (`scheduler.c`, `terminal.c`)

`switch_task` is the handler of the PIT interrupt, `switch_terminal` is called by the keyboard
handler. Both take the frame (`%esp`, `%ebp`) at their save statement as an argument; `switch_task`
yields the frame it loads. -/

namespace UnixTerminal

namespace Kernel

variable (lay : Layout) (fs : FileSys) (k : Kernel)

/-- The search loop of `switch_task` (`fuel` bounds its passes): the index is advanced and only then
    wrapped, so that the first test behind terminal 2 reads past the array. `none`: no pass ends the
    loop. -/
def findActive : Nat → Nat → Option Nat
  | 0, _ => none
  | fuel + 1, currTerm =>
      if (k.terminals currTerm).active = 0 then
        let next := (currTerm + 1) % 256
        findActive fuel (if next > 2 then 0 else next)
      else some currTerm

/-- The terminal `switch_task` switches to. Five tests settle the loop: the first, then at most one
    each for terminals 0, 1, 2 and the step past the array before them. -/
def nextTerm : Option Nat := k.findActive 5 ((k.currTerm + 1) % 256)

/-- The remapping of the video page that ends `switch_task` and `switch_terminal`: a process in the
    background writes to the screen buffer `physAdd`. -/
def backgroundVideo (physAdd : UInt32) : Kernel :=
  if k.currTerm ≠ k.currTerminalNumber then k.mapVideoWPt lay userVidMem physAdd else k

/-- `switch_task`, from the terminal it selects: the frame loaded, and the state. The pointer
    `&screen_start` is on a kernel stack, above the bound `vidmap` checks. When the terminal left has no
    process, the last store goes to the PCB at `get_pcb_pointer(-1)`, behind the mapped pages; the fault
    that it causes is not modelled. -/
def switchTo (currTerm : Nat) (frame : Frame) : Frame × Kernel :=
  let lastTerm := k.currTerm
  let k := { k with currTerm := currTerm }.mapWPt lay userVidMem video
  let k := k.setTerminal currTerm (fun t => { t with screen := attribScreen t.screen })
  -- `curr_task` is a `uint8_t`
  let currTask := (k.terminals currTerm).currentProcess.toUInt8
  let oldPcb := getPcbPointer (k.terminals lastTerm).currentProcess
  let newPcb := getPcbPointer (k.terminals currTerm).currentProcess
  let k := { k with currentPcb := newPcb, currProcess := currTask.toUInt32 }
  let k := k.map virtualFilePage (processPage currTask.toUInt32)
  let k := k.backgroundVideo lay (screenAddr lay currTerm)
  let k := { k with tssEsp0 := kernelStack (k.terminals currTerm).currentProcess }
  let k := k.setPcb oldPcb (fun p => { p with espSwitch := frame.esp, ebpSwitch := frame.ebp })
  (⟨(k.pcb newPcb).espSwitch, (k.pcb newPcb).ebpSwitch⟩, k)

/-- `switch_task`. -/
def switchTask (frame : Frame) : Option (Frame × Kernel) :=
  k.nextTerm.map (fun t => k.switchTo lay t frame)

/-- The branch of `switch_terminal` for a terminal that is not active yet: it starts a shell. -/
def openTerminal (newt : Nat) (frame : Frame) (env : ExecEnv) : ExecOutcome × Kernel :=
  let k := k.saveTerminalState
  let oldPcb := getPcbPointer (k.terminals k.currTerminalNumber).currentProcess
  let k := { k with currTerminalNumber := newt }
  let k := k.setPcb oldPcb (fun p => { p with espSwitch := frame.esp, ebpSwitch := frame.ebp })
  let k := { k with currTerm := newt }
  k.clear.execute fs shellName env

/-- The branch of `switch_terminal` for an active terminal: only the view changes. -/
def viewTerminal (newt : Nat) : Kernel :=
  let k := k.saveTerminalState.restoreTerminalState newt
  let k := { k with currTerminalNumber := newt }.mapWPt lay userVidMem video
  k.backgroundVideo lay (screenAddr lay k.currTerminalNumber)

/-- `switch_terminal`. -/
def switchTerminal (newt : Nat) (frame : Frame) (env : ExecEnv) : Kernel :=
  if newt = k.currTerminalNumber then k
  else if newt > 2 then k
  else if (k.terminals newt).active = 0 then (k.openTerminal fs newt frame env).2
  else k.viewTerminal lay newt

/-- `terminal_init`. The loop over the cells writes cell `i` of terminal `i` again and again. -/
def terminalInit : Kernel :=
  { k with
    currTerminalNumber := 0
    terminals := fun i =>
      let t := k.terminals i
      if i < 3 then
        { t with
          currentProcess := minusOne
          active := 0
          x := 0
          y := 0
          termEnter := 0
          keyboardLastIndex := 0
          keyboardIndex := 0
          inputBuf := fun j => if j < maxBufSize then 32 else t.inputBuf j
          screen := Function.update (Function.update t.screen (i * 2) 0) (i * 2 + 1) attrib }
      else t }

/-- `keyboard_init`, less the interrupt set-up. -/
def keyboardInit : Kernel :=
  { k with
    keyboardBuf := fun i => if 0 ≤ i ∧ i < maxBufSize then 32 else k.keyboardBuf i
    keyboardIdx := 0
    lastIdx := 0 }

/-- What `entry` does before it executes the first shell, on the globals `k` of a loaded kernel. -/
def entry : Kernel :=
  ((({ k.clear with tssEsp0 := 0x800000 }.keyboardInit).pagingInit lay).terminalInit).clearProcess

end Kernel

/-- The memory that a loaded kernel finds as it is: everything that is not a zeroed global. `past` is
    what lies behind the array `terminals`, read as terminal structs. -/
structure BootMemory where
  pcb : UInt32 → Pcb
  userPage : UInt32 → Nat → UInt8
  videoMem : Nat → UInt8
  cursor : UInt16
  past : Nat → Terminal
  beforeKeyboardBuf : UInt8
  rtcRegisterA : UInt8

namespace Kernel

/-- The zeroed globals of a kernel that was just loaded. -/
def loaded (mem : BootMemory) : Kernel where
  currProcess := 0
  currentPcb := 0
  processArray := fun _ => 0
  pcb := mem.pcb
  currTerm := 0
  currTerminalNumber := 0
  terminals := fun i =>
    if i < 3 then ⟨0, 0, 0, 0, 0, 0, fun _ => 0, fun _ => 0, 0, 0, 0⟩ else mem.past i
  pageDirectory := fun _ => 0
  pageTable := fun _ => 0
  userVideoPageTable := fun _ => 0
  tssEsp0 := 0
  userPage := mem.userPage
  videoMem := mem.videoMem
  screenX := 0
  screenY := 0
  cursor := mem.cursor
  keyboardBuf := fun i => if i < 0 then mem.beforeKeyboardBuf else 0
  keyboardIdx := 0
  lastIdx := 0
  dirReadIdxNew := 0
  rtcInterrupt := false
  rtcRegisterA := mem.rtcRegisterA

/-- The state in which `entry` executes the first shell. -/
def boot (lay : Layout) (mem : BootMemory) : Kernel := (loaded mem).entry lay

end Kernel

/-! ## The system

Every way the kernel is entered, as one event: the system calls of the process that is running, its
exceptions, the PIT interrupt and the terminal chords of the keyboard. `neighbours` is a change of the
variables that the linker placed behind the array `terminals`, whatever they are. -/

inductive Event
  | execute (command : List UInt8) (env : ExecEnv)
  | halt (status : UInt8) (env : ExecEnv)
  | haltFromExc (env : ExecEnv)
  | openFile (filename : List UInt8)
  | close (fd : Int)
  | read (fd : Int) (buf : UInt32) (nbytes : Int)
  | write (fd : Int) (buf : UInt32) (bytes : List UInt8) (nbytes : Int)
  | vidmap (screenStart : UInt32)
  | switchTask (frame : Frame)
  | switchTerminal (newt : Nat) (frame : Frame) (env : ExecEnv)
  | neighbours (past : Nat → Terminal)

namespace Kernel

/-- One event; `none` when it does not complete (a read that waits, no terminal to switch to). -/
def step (lay : Layout) (fs : FileSys) (k : Kernel) : Event → Option Kernel
  | .execute command env => some (k.execute fs command env).2
  | .halt status env => some (k.halt fs status env).2
  | .haltFromExc env => some (k.haltFromExc fs env).2
  | .openFile filename => some (k.openFile fs filename).2
  | .close fd => some (k.close fd).2
  | .read fd buf nbytes => (k.read fs fd buf nbytes).map (·.2)
  | .write fd buf bytes nbytes => (k.write fd buf bytes nbytes).map (·.2)
  | .vidmap screenStart => some (k.vidmap lay screenStart).2.2
  | .switchTask frame => (k.switchTask lay frame).map (·.2)
  | .switchTerminal newt frame env => some (k.switchTerminal lay fs newt frame env)
  | .neighbours past =>
      some { k with terminals := fun i => if i < 3 then k.terminals i else past i }

end Kernel

end UnixTerminal
