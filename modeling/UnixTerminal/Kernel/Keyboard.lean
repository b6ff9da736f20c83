import UnixTerminal.Kernel.Scheduler

set_option autoImplicit false

/-! # The keyboard interrupt (`keyboard_handler` of `keyboard.c`)

One call of the handler handles one scan code. The modifier flags and the counters of the Ctrl
commands, which nothing outside the handler reads, are the record `Keys`. The handler holds `lock`
from its first statement to its last, so that a call that finds it taken does nothing. -/

namespace UnixTerminal

/-- The scan codes of `keyboard.h`. -/
def backspace : UInt8 := 0x0E
def maxPressCode : UInt8 := 0x7F
def shiftDownL : UInt8 := 0x2A
def shiftDownR : UInt8 := 0x36
def shiftUpL : UInt8 := 0xAA
def shiftUpR : UInt8 := 0xB6
def capsDown : UInt8 := 0x3A
def ctrlDown : UInt8 := 0x1D
def ctrlUp : UInt8 := 0x9D
def altDown : UInt8 := 0x38
def altUp : UInt8 := 0xB8
def f1 : UInt8 := 0x3B
def f3 : UInt8 := 0x3D

/-- The rows of `keyboard_map`: the character of a press code without and with shift. The rows behind
    the last one are zero. -/
def keyboardMap : List (UInt8 × UInt8) :=
  [(0, 0), (27, 27), (49, 33), (50, 64), (51, 35), (52, 36), (53, 37), (54, 94), (55, 38), (56, 42),
   -- from 9 and 0 on; 14 is Backspace, which the map takes for a blank
   (57, 40), (48, 41), (45, 95), (61, 43), (32, 32), (9, 9), (113, 81), (119, 87), (101, 69), (114, 82),
   -- 28 is Enter
   (116, 84), (121, 89), (117, 85), (105, 73), (111, 79), (112, 80), (91, 123), (93, 125), (10, 10), (0, 0),
   -- 38 is the letter l
   (97, 65), (115, 83), (100, 68), (102, 70), (103, 71), (104, 72), (106, 74), (107, 75), (108, 76), (59, 58),
   (96, 34), (96, 126), (0, 0), (92, 124), (122, 90), (120, 88), (99, 67), (118, 86), (98, 66), (110, 78),
   -- 57 is the space bar
   (109, 77), (44, 60), (46, 62), (47, 63), (0, 0), (0, 0), (0, 0), (32, 32), (0, 0), (0, 0),
   (0, 0), (0, 0), (0, 0), (0, 0), (0, 0), (0, 0), (0, 0), (0, 0), (0, 0), (0, 0),
   (0, 0), (0, 0), (0, 0), (0, 0), (45, 45), (0, 0), (0, 0), (0, 0), (43, 43), (0, 0)]

/-- `keyboard_map[keycode][shift]`. -/
def keyChar (keycode : UInt8) (shift : Bool) : UInt8 :=
  let row := keyboardMap.getD keycode.toNat (0, 0)
  if shift then row.2 else row.1

/-- The variables of the handler. `count` is the file that Ctrl-3 shows next, `dirReadIdx` the entry
    that `dir_read` describes next. -/
structure Keys where
  lock : Bool
  shift : Bool
  caps : Bool
  ctrl : Bool
  alt : Bool
  count : Nat
  dirReadIdx : Nat
  currDentry : Dentry

/-- The handler's variables of a kernel that was just loaded. -/
def Keys.loaded : Keys := ⟨false, false, false, false, false, 0, 0, ⟨List.replicate 33 0, 0, 0⟩⟩

/-- A release code. -/
def Keys.release (keys : Keys) (keycode : UInt8) : Keys :=
  if keycode = shiftUpL ∨ keycode = shiftUpR then { keys with shift := false }
  else if keycode = ctrlUp then { keys with ctrl := false }
  else if keycode = altUp then { keys with alt := false }
  else keys

/-! ## Text of the file commands -/

/-- The digit loop of `itoa` for radix 10, from the lowest place on (`fuel` bounds its passes). -/
def itoaDigits : Nat → Nat → List UInt8
  | 0, _ => []
  | fuel + 1, newval =>
      if newval > 0 then UInt8.ofNat (48 + newval % 10) :: itoaDigits fuel (newval / 10) else []

/-- `itoa` for radix 10. A 32-bit value has at most ten digits. -/
def itoa (value : Nat) : List UInt8 :=
  if value = 0 then [48] else (itoaDigits 10 value).reverse

/-- The strings `"file_name:"`, `"file_type:"`, `"file_size:"` and `"frame0.txt"`. -/
def fileNameText : List UInt8 := [102, 105, 108, 101, 95, 110, 97, 109, 101, 58]
def fileTypeText : List UInt8 := [102, 105, 108, 101, 95, 116, 121, 112, 101, 58]
def fileSizeText : List UInt8 := [102, 105, 108, 101, 95, 115, 105, 122, 101, 58]
def frame0Name : List UInt8 := [102, 114, 97, 109, 101, 48, 46, 116, 120, 116]

/-- `dir_read`: the text it leaves in `one_line_buf`, which was filled with NULs before, and
    `dir_read_idx` after it. -/
def dirRead (fs : FileSys) (dirReadIdx : Nat) : List UInt8 × Nat :=
  let idx := if dirReadIdx ≥ fs.numDentries then 0 else dirReadIdx
  let d := fs.myDentry idx
  (fileNameText ++ cstr d.fileName ++ fileTypeText ++ itoa d.fileType.toNat
    ++ fileSizeText ++ itoa (fs.inodeWord d.inode.toNat 0), idx + 1)

namespace Kernel

variable (lay : Layout) (fs : FileSys) (k : Kernel)

/-- `toggle_freq`. -/
def toggleFreq : Kernel :=
  let aOld := k.rtcRegisterA
  let freqConst := if aOld ≠ 0 then aOld - 1 else 0x0F
  { k with rtcRegisterA := (0xF0 &&& aOld) ||| freqConst }

/-- The loop of Ctrl-1. The line goes through `terminal_write`, its newline straight to `putc`. -/
def listFiles (dirReadIdx : Nat) : Nat × Kernel :=
  (List.range fs.numDentries).foldl (fun (s : Nat × Kernel) _ =>
    let line := dirRead fs s.1
    (line.2, (s.2.terminalWrite line.1 (strlen line.1)).2.putc 10)) (dirReadIdx, k)

/-- What Ctrl-2 and Ctrl-3 do with the entry they find: the bytes of the file go to `putc`, its name
    through `terminal_write`. -/
def showFile (d : Dentry) : Kernel :=
  let fileSize := fs.inodeWord d.inode.toNat 0
  let r := fs.readData d.inode.toNat 0 fileSize
  let copied := if r.1 = 0 then (fileSize : Int) else r.1
  let k := (List.range copied.toNat).foldl (fun k i => k.putc (r.2.getD i 0)) k
  let k := (k.putc 10).terminalWrite fileNameText (strlen fileNameText)
  (k.2.terminalWrite d.fileName (strlen d.fileName)).2

/-! ## The line buffer -/

/-- The bytes of `keyboard_buf` that an 8-bit index reaches. -/
def lineBytes : List UInt8 := (List.range 256).map (fun (i : Nat) => k.keyboardBuf i)

/-- A store to `keyboard_buf`. -/
def setLine (i : Int) (c : UInt8) : Kernel :=
  { k with keyboardBuf := Function.update k.keyboardBuf i c }

/-- Ctrl-L. -/
def clearLine : Kernel :=
  { k.clear with
    keyboardBuf := fun i => if 0 ≤ i ∧ i < maxBufSize then 32 else k.clear.keyboardBuf i
    keyboardIdx := 0
    lastIdx := 0 }

/-- Enter: the newline is stored at the index, which does not move. -/
def enterLine : Kernel :=
  let k := if k.screenY ≠ numRows - 1 then { k with screenY := k.screenY + 1 } else k.vertScroll
  let k := { k with screenX := 0 }.updateCursor k.screenY 0
  let k := k.setLine k.keyboardIdx.toNat 10
  k.setTerminal k.currTerminalNumber (fun t => { t with termEnter := 1 })

/-- The character that a key stores: caps lock turns the shift of a letter around. -/
def typedChar (keys : Keys) (keycode ascii : UInt8) : UInt8 :=
  if keys.caps ∧ ((97 ≤ ascii ∧ ascii ≤ 122) ∨ (65 ≤ ascii ∧ ascii ≤ 90)) then
    keyChar keycode (!keys.shift)
  else ascii

/-- The end of the handler, for a character. (Its tests for a newline are not reached: Enter was
    handled before.) -/
def typeChar (c : UInt8) : Kernel :=
  if k.keyboardIdx = 128 then k
  else
    let k := if k.screenX = numCols - 1 ∧ k.screenY = numRows - 1 then k.vertScroll else k
    let k := k.setLine k.keyboardIdx.toNat c
    let k := { k with keyboardIdx := k.keyboardIdx + 1 }
    let k := (k.keyboardWrite k.lineBytes).2
    { k with lastIdx := k.lastIdx + 1 }

/-- `find_last_char`: the column in front of the first NUL of a line. -/
def findLastChar (line : Int) : Int :=
  match (List.range numCols).find? (fun (i : Nat) =>
      k.videoMem ((numCols * line + i) * 2).toNat = 0) with
  | some i => (i : Int) - 1
  | none => 79

/-- `handle_backspace`. On a line with nothing in front of the cursor's row, only the row changes. -/
def handleBackspace : Kernel :=
  if k.keyboardIdx ≠ 0 then
    let wraps := k.screenX = 0 ∧ k.screenY ≠ 0
    if wraps ∧ k.findLastChar (k.screenY - 1) = -1 then { k with screenY := k.screenY - 1 }
    else
      let x := (if wraps then k.findLastChar (k.screenY - 1) + 2 else k.screenX) - 1
      let y := if wraps then k.screenY - 1 else k.screenY
      let k := { k with screenX := x, screenY := y }.setLine (k.keyboardIdx.toNat - 1) 0
      let k := { k with lastIdx := k.lastIdx - 1 }
      let k := (k.keyboardWrite k.lineBytes).2
      { k with screenX := x, screenY := y, keyboardIdx := k.keyboardIdx - 1 }.updateCursor y x
  else k.updateCursor k.screenY k.screenX

/-! ## The handler -/

/-- The part of the handler behind the terminal chords, for a press code. -/
def handleAscii (keycode : UInt8) (keys : Keys) : Keys × Kernel :=
  let ascii := keyChar keycode keys.shift
  if ascii = 0 then (keys, k)
  else if keys.ctrl ∧ ascii = 108 then (keys, k.clearLine)
  else if ascii = 10 then (keys, k.enterLine)
  else if keys.ctrl ∧ ascii = 49 then
    let r := k.clear.listFiles fs keys.dirReadIdx
    ({ keys with dirReadIdx := r.1 }, r.2)
  else if keys.ctrl ∧ ascii = 50 then
    match fs.readDentryByName frame0Name with
    | some d => ({ keys with currDentry := d }, k.clear.showFile fs d)
    | none => (keys, k.clear)
  else if keys.ctrl ∧ ascii = 51 then
    let count := if keys.count ≥ fs.numDentries then 0 else keys.count
    match fs.readDentryByIndex count keys.currDentry with
    | some d => ({ keys with currDentry := d, count := count + 1 }, k.clear.showFile fs d)
    | none => ({ keys with count := count }, k.clear)
  else if keys.ctrl ∧ ascii = 52 then (keys, k.clear.toggleFreq)
  else if keys.ctrl ∧ ascii = 53 then (keys, (k.clear.setRate 0).2)
  else (keys, k.typeChar (typedChar keys keycode ascii))

/-- `keyboard_handler`, for the bytes `status` and `keycode` of the two ports. The frame and the
    environment are those of `switch_terminal`. -/
def keyboardHandler (status keycode : UInt8) (frame : Frame) (env : ExecEnv) (keys : Keys) :
    Keys × Kernel :=
  if keys.lock then (keys, k)
  else if status &&& 1 = 0 then (keys, k)
  else if keycode = backspace ∧ k.screenX + k.screenY ≠ 0 then (keys, k.handleBackspace)
  else if keycode > maxPressCode then (keys.release keycode, k)
  else if keycode = shiftDownL ∨ keycode = shiftDownR then ({ keys with shift := true }, k)
  else if keycode = capsDown then ({ keys with caps := !keys.caps }, k)
  else if keycode = ctrlDown then ({ keys with ctrl := true }, k)
  else if keycode = altDown then ({ keys with alt := true }, k)
  else if keys.alt ∧ f1 ≤ keycode ∧ keycode ≤ f3 then
    (keys, k.switchTerminal lay fs (keycode - f1).toNat frame env)
  else k.handleAscii fs keycode keys

end Kernel

end UnixTerminal
