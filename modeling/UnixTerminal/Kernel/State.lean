import UnixTerminal.Kernel.Files

set_option autoImplicit false

/-! # The kernel state

The globals of the kernel as one record, field by field under their C names. C `uint32_t` and
`uint8_t` variables that carry process numbers, addresses and flags are `UInt32` and `UInt8`, so
that `-1` and the wrap-around of the C arithmetic are the machine's. Arrays are functions from the
index: an index outside the declared range reads and writes what lies behind the array, as in C.

The PCBs live in kernel memory at the addresses computed by `get_pcb_pointer`; `Kernel.pcb` is that
memory, by the address of the PCB. -/

namespace UnixTerminal

/-- `PHYS_FILE_START`. -/
def physFileStart : UInt32 := 0x800000
/-- `VIRTUAL_FILE_PAGE`. -/
def virtualFilePage : UInt32 := 0x8000000
/-- `PHYS_FILE_OFFSET`. -/
def physFileOffset : UInt32 := 0x400000
/-- `EIGHT_KB`. -/
def eightKb : UInt32 := 8192
/-- `NUM_PROCESSES`. -/
def numProcesses : Nat := 6
/-- `MAX_FILE`. -/
def maxFile : Nat := 8
/-- `USER_VID_MEM`. -/
def userVidMem : UInt32 := 0x9000000
/-- `VIDEO`. -/
def video : UInt32 := 0xB8000
/-- `ATTRIB`. -/
def attrib : UInt8 := 7
/-- `MAX_BUF_SIZE`. -/
def maxBufSize : Nat := 128
/-- `NUM_COLS` and `NUM_ROWS`. -/
def numCols : Nat := 80
def numRows : Nat := 25

/-- The values of the `flags` field: which driver of `fops_table` a descriptor uses. -/
def notSet : UInt32 := 0
def stdinFlag : UInt32 := 1
def stdoutFlag : UInt32 := 2
def rtcFlag : UInt32 := 3
def fileFlag : UInt32 := 4
def dirFlag : UInt32 := 5

/-- `-1` as the `uint32_t` it is stored in and compared with. -/
def minusOne : UInt32 := 0xFFFFFFFF

/-- `fds_t`. (`jump_table_pointer` is never read or written.) -/
structure Fds where
  inode : UInt32
  filePosition : UInt32
  flags : UInt32
deriving DecidableEq, Repr

/-- `pcb_t`. `fileName` is `file_name[8][32]` in one row: slot `i` starts at byte `32 * i`. -/
structure Pcb where
  pid : UInt32
  fdsArray : Nat → Fds
  args : Nat → UInt8
  fileName : Nat → UInt8
  esp0 : UInt32
  espSwitch : UInt32
  ebpSwitch : UInt32
  ppid : UInt32
  argsWord : UInt32
  ebp0 : UInt32

/-- `terminal_t`, less the fields `ESP0` and `pcb`, which nothing uses. `screen` holds character and
    attribute bytes in turn. -/
structure Terminal where
  active : UInt8
  currentProcess : UInt32
  esp : UInt32
  ebp : UInt32
  x : Int
  y : Int
  inputBuf : Nat → UInt8
  screen : Nat → UInt8
  keyboardLastIndex : UInt8
  keyboardIndex : UInt8
  termEnter : UInt32

/-- A kernel stack context: the values of `%esp` and `%ebp`. -/
structure Frame where
  esp : UInt32
  ebp : UInt32
deriving DecidableEq, Repr

/-- Where the linker put the arrays whose addresses go into page tables. The `aligned(FOUR_KB)`
    attributes of `paging.c` are the two proofs. -/
structure Layout where
  pageTable : UInt32
  userVideoPageTable : UInt32
  terminals : UInt32
  pageTable_aligned : pageTable &&& 0xFFF = 0
  userVideoPageTable_aligned : userVideoPageTable &&& 0xFFF = 0

structure Kernel where
  -- syscall.c
  currProcess : UInt32
  /-- `current_pcb`, a pointer. -/
  currentPcb : UInt32
  processArray : Nat → UInt32
  /-- The PCBs in kernel memory, by address. -/
  pcb : UInt32 → Pcb
  -- scheduler.c
  /-- `curr_term`, the executing terminal: a `uint8_t`, used as an index. -/
  currTerm : Nat
  -- terminal.c
  /-- `curr_terminal_number`, the viewed terminal. -/
  currTerminalNumber : Nat
  terminals : Nat → Terminal
  -- paging.c, x86_desc.S
  pageDirectory : Nat → UInt32
  pageTable : Nat → UInt32
  userVideoPageTable : Nat → UInt32
  tssEsp0 : UInt32
  /-- The 4 MB user pages, by physical address of the page and offset in it. -/
  userPage : UInt32 → Nat → UInt8
  -- lib.c
  videoMem : Nat → UInt8
  screenX : Int
  screenY : Int
  /-- The cursor position last sent to the VGA ports. -/
  cursor : UInt16
  -- keyboard.c; index -1 is the byte in front of the buffer
  keyboardBuf : Int → UInt8
  keyboardIdx : UInt8
  lastIdx : UInt8
  -- files.c, rtc.c
  dirReadIdxNew : Nat
  rtcInterrupt : Bool
  /-- Register A of the RTC chip. -/
  rtcRegisterA : UInt8

/-! ## Process numbers and PCBs -/

/-- `get_pcb_pointer`; every `pcb_t*` of the kernel is computed this way. The difference is written
    as a sum, which the kernel of Lean does not unfold for a variable `process`. -/
@[irreducible] def getPcbPointer (process : UInt32) : UInt32 :=
  physFileStart + -(eightKb * (process + 1))

/-- The kernel stack top that goes into `tss.esp0` for a process. -/
@[irreducible] def kernelStack (process : UInt32) : UInt32 :=
  physFileStart + -(eightKb * process) - 4

/-- The physical address of the 4 MB page of a process. -/
@[irreducible] def processPage (process : UInt32) : UInt32 := physFileStart + physFileOffset * process

/-- PCBs of different process slots do not overlap. -/
theorem getPcbPointer_inj {p q : UInt32} (hp : p < 6) (hq : q < 6)
    (h : getPcbPointer p = getPcbPointer q) : p = q := by
  unfold getPcbPointer physFileStart eightKb at h
  grind

theorem getPcbPointer_ne {p q : UInt32} (hp : p < 6) (hq : q < 6) (h : p ≠ q) :
    getPcbPointer p ≠ getPcbPointer q :=
  fun he => h (getPcbPointer_inj hp hq he)

namespace Kernel

variable (k : Kernel)

/-- The PCB of process number `process`. -/
def pcbOf (process : UInt32) : Pcb := k.pcb (getPcbPointer process)

/-- Write through a `pcb_t*`. -/
def setPcb (ptr : UInt32) (f : Pcb → Pcb) : Kernel :=
  { k with pcb := Function.update k.pcb ptr (f (k.pcb ptr)) }

/-- Write to a terminal struct. -/
def setTerminal (t : Nat) (f : Terminal → Terminal) : Kernel :=
  { k with terminals := Function.update k.terminals t (f (k.terminals t)) }

/-- `get_process`: claim the first free slot, or `-1`. -/
def getProcess : UInt32 × Kernel :=
  match (List.range numProcesses).find? (fun i => k.processArray i == 0) with
  | some i => (UInt32.ofNat i, { k with processArray := Function.update k.processArray i 1 })
  | none => (minusOne, k)

/-- `end_process`. -/
def endProcess (procNum : UInt32) : Kernel :=
  { k with processArray := Function.update k.processArray procNum.toNat 0 }

/-- `clear_process`: it takes no argument and frees every slot. -/
def clearProcess : Kernel :=
  { k with processArray := fun i => if i < numProcesses then 0 else k.processArray i }

/-- `set_curr_process`: the process of the executing terminal. -/
def setCurrProcess (processNumber : UInt32) : Kernel :=
  k.setTerminal k.currTerm (fun t => { t with currentProcess := processNumber })

end Kernel

end UnixTerminal
