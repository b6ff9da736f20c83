import UnixTerminal.Kernel.Paging

set_option autoImplicit false

/-! # File descriptors (`open`, `close`, `read`, `write` of `syscall.c`)

`open`, `close` and `file_read_setup` work on the PCB of `curr_process`; `read` and `write` pick the
driver through `current_pcb`. -/

namespace UnixTerminal

/-! ## The `file_name` slots of a PCB -/

/-- Replace byte `i` of a little-endian word. -/
def setByte (w : UInt32) (i : Nat) (b : UInt8) : UInt32 :=
  let sh := UInt32.ofNat (8 * i)
  (w &&& ~~~((0xFF : UInt32) <<< sh)) ||| (b.toUInt32 <<< sh)

/-- Byte `i` of a little-endian word. -/
def byteOf (w : UInt32) (i : Nat) : UInt8 := (w >>> UInt32.ofNat (8 * i)).toUInt8

namespace Pcb

/-- A byte store at offset `off` from `file_name`: past the 256 bytes of the array lie `ESP0` and
    the words behind it. -/
def storeByte (p : Pcb) (off : Nat) (b : UInt8) : Pcb :=
  if off < 256 then { p with fileName := Function.update p.fileName off b }
  else if off < 260 then { p with esp0 := setByte p.esp0 (off - 256) b }
  else if off < 264 then { p with espSwitch := setByte p.espSwitch (off - 260) b }
  else if off < 268 then { p with ebpSwitch := setByte p.ebpSwitch (off - 264) b }
  else if off < 272 then { p with ppid := setByte p.ppid (off - 268) b }
  else if off < 276 then { p with argsWord := setByte p.argsWord (off - 272) b }
  else if off < 280 then { p with ebp0 := setByte p.ebp0 (off - 276) b }
  else p

/-- The byte at offset `off` from `file_name`. -/
def loadByte (p : Pcb) (off : Nat) : UInt8 :=
  if off < 256 then p.fileName off
  else if off < 260 then byteOf p.esp0 (off - 256)
  else if off < 264 then byteOf p.espSwitch (off - 260)
  else if off < 268 then byteOf p.ebpSwitch (off - 264)
  else if off < 272 then byteOf p.ppid (off - 268)
  else if off < 276 then byteOf p.argsWord (off - 272)
  else byteOf p.ebp0 (off - 276)

/-- The string at `file_name[i]`. It is read up to the end of the PCB, which is more than 32 bytes
    away: a name with no NUL before that is too long for any lookup. -/
def nameAt (p : Pcb) (i : Nat) : List UInt8 :=
  (List.range (280 - maxFileChar * i)).map (fun j => p.loadByte (maxFileChar * i + j))

/-- The bytes from `args` to the end of the PCB: the 128 of the array, then those from `file_name` on. -/
def argsBytes (p : Pcb) : List UInt8 := (List.range 128).map p.args ++ (List.range 280).map p.loadByte

/-- Write one descriptor. -/
def setFds (p : Pcb) (i : Nat) (f : Fds → Fds) : Pcb :=
  { p with fdsArray := Function.update p.fdsArray i (f (p.fdsArray i)) }

/-- `strcpy(file_name[i], filename)`. -/
def setName (p : Pcb) (i : Nat) (filename : List UInt8) : Pcb :=
  strcpy storeByte p (maxFileChar * i) filename

end Pcb

/-- The strings `open` compares with. -/
def stdinName : List UInt8 := [115, 116, 100, 105, 110]
def stdoutName : List UInt8 := [115, 116, 100, 111, 117, 116]

namespace Kernel

variable (fs : FileSys) (k : Kernel)

/-- The loop of `open` over the slots 2..7: the first that is not in use. -/
def freeSlot (p : Pcb) : Option Nat :=
  [2, 3, 4, 5, 6, 7].find? (fun i => (p.fdsArray i).flags == notSet)

/-- What `open` writes into slot `i` for a directory entry, by its type; `none` for a type other
    than 0, 1, 2. An rtc entry sets neither `inode` nor the name. -/
def openSlot (p : Pcb) (i : Nat) (filename : List UInt8) (d : Dentry) : Option Pcb :=
  if d.fileType = rtcType then
    some (p.setFds i (fun f => { f with flags := rtcFlag, filePosition := 0 }))
  else if d.fileType = dirType then
    some ((p.setFds i (fun _ => ⟨d.inode, 0, dirFlag⟩)).setName i filename)
  else if d.fileType = fileType then
    some ((p.setFds i (fun _ => ⟨d.inode, 0, fileFlag⟩)).setName i filename)
  else none

/-- `open`. The slots written for the two reserved names are the ones numbered by the flags. -/
def openFile (filename : List UInt8) : Int × Kernel :=
  let currPcb := getPcbPointer k.currProcess
  if strncmp filename stdinName 5 = 0 then
    (0, k.setPcb currPcb (·.setFds 1 (fun f => { f with flags := stdinFlag })))
  else if strncmp filename stdoutName 6 = 0 then
    (0, k.setPcb currPcb (·.setFds 2 (fun f => { f with flags := stdoutFlag })))
  else
    match fs.readDentryByName filename with
    | none => (-1, k)
    | some d =>
        match freeSlot (k.pcb currPcb) with
        | none => (-1, k)
        | some i =>
            match openSlot (k.pcb currPcb) i filename d with
            | some p => (i, k.setPcb currPcb (fun _ => p))
            | none => (0, k)

/-- `close`, for any 32-bit `fd`. -/
def close (fd : Int) : Int × Kernel :=
  let currPcb := getPcbPointer k.currProcess
  if fd = 0 ∨ fd = 1 ∨ fd > maxFile - 1 ∨ fd < 0 then (-1, k)
  else if ((k.pcb currPcb).fdsArray fd.toNat).flags = notSet then (-1, k)
  else (0, k.setPcb currPcb (·.setFds fd.toNat (fun _ => ⟨0, 0, notSet⟩)))

/-- `file_read_setup`: `file_position` moves by the value returned, also when that is -1. -/
def fileReadSetup (fd : Nat) (nbytes : Nat) : Transfer × Kernel :=
  let currPcb := getPcbPointer k.currProcess
  let f := (k.pcb currPcb).fdsArray fd
  let r := fs.fileRead ((k.pcb currPcb).nameAt fd) f.filePosition.toNat nbytes
  (⟨r.1, 0, r.2⟩,
    k.setPcb currPcb (·.setFds fd (fun f =>
      { f with filePosition := f.filePosition + UInt32.ofInt r.1 })))

/-- `dir_readnew`: one global index for every reader. -/
def dirReadnew : Transfer × Kernel :=
  if k.dirReadIdxNew ≥ fs.numDentries then (Transfer.fail 0, { k with dirReadIdxNew := 0 })
  else
    let name := (fs.myDentry k.dirReadIdxNew).fileName
    (⟨strlen name, 0, cstr name ++ [0]⟩, { k with dirReadIdxNew := k.dirReadIdxNew + 1 })

/-- `read`. `none`: the driver waits, or the flags lie outside `fops_table`. -/
def read (fd : Int) (buf : UInt32) (nbytes : Int) : Option (Transfer × Kernel) :=
  if nbytes < 0 ∨ buf = 0 ∨ fd > maxFile - 1 ∨ fd < 0 then some (Transfer.fail (-1), k)
  else
    match ((k.pcb k.currentPcb).fdsArray fd.toNat).flags.toNat with
    | 0 => some (Transfer.fail (-1), k)
    | 1 => k.keyboardRead nbytes.toNat
    | 2 => some (Transfer.fail (-1), k)
    | 3 => k.rtcRead
    | 4 => some (k.fileReadSetup fs fd.toNat nbytes.toNat)
    | 5 => some (k.dirReadnew fs)
    | _ => none

/-- `write`; `bytes` lists what lies from `buf` on. -/
def write (fd : Int) (buf : UInt32) (bytes : List UInt8) (nbytes : Int) : Option (Int × Kernel) :=
  if nbytes < 0 ∨ buf = 0 ∨ fd < 0 ∨ fd > maxFile - 1 then some (-1, k)
  else
    match ((k.pcb k.currentPcb).fdsArray fd.toNat).flags.toNat with
    | 0 => some (-1, k)
    | 1 => some (k.keyboardWrite bytes)
    | 2 => some (k.terminalWrite bytes nbytes.toNat)
    | 3 => some (k.rtcWrite bytes nbytes.toNat)
    | 4 => some (-1, k)
    | 5 => some (-1, k)
    | _ => none

/-- The indices of `buf` that `write` loads. -/
def writeLoads (fd : Int) (buf : UInt32) (bytes : List UInt8) (nbytes : Int) : List Nat :=
  if nbytes < 0 ∨ buf = 0 ∨ fd < 0 ∨ fd > maxFile - 1 then []
  else
    match ((k.pcb k.currentPcb).fdsArray fd.toNat).flags.toNat with
    | 1 => k.keyboardWriteLoads
    | 2 => terminalWriteLoads bytes nbytes.toNat
    | 3 => rtcWriteLoads nbytes.toNat
    | _ => []

end Kernel

end UnixTerminal
