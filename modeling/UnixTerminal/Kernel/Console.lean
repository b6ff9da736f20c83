import UnixTerminal.Kernel.State

set_option autoImplicit false

/-! # Screen, keyboard and clock drivers

The console half of `lib.c`, the drivers behind `fops_table` that do not touch the file system
(`terminal_read`/`terminal_write`, `keyboard_read`/`keyboard_write`, `rtc_read`/`rtc_write`), and the
saving and restoring of a terminal's screen and input line.

A driver that waits in a loop (`keyboard_read` for Enter, `rtc_read` for a tick) has the result
`none` in a state in which it is still waiting. What a read stores into the caller's buffer is a
`Transfer`: the value returned, the index of the first byte stored and the bytes stored from there. -/

namespace UnixTerminal

/-- What a `read` hands back: its value and the bytes it stores into `buf[start]`, `buf[start+1]`, … -/
structure Transfer where
  ret : Int
  start : Nat
  bytes : List UInt8
deriving DecidableEq, Repr

/-- A read that stores nothing. -/
def Transfer.fail (ret : Int) : Transfer := ⟨ret, 0, []⟩

/-! ## The screen -/

/-- One cell of the scrolling loops: column `i`, row `j` takes the character of the row below it
    (the last row a NUL) and the plain attribute. -/
def scrollCell (mem : Nat → UInt8) (i j : Nat) : Nat → UInt8 :=
  let c := if j < numRows - 1 then mem ((numCols * (j + 1) + i) * 2) else 0
  Function.update (Function.update mem ((numCols * j + i) * 2) c) ((numCols * j + i) * 2 + 1) attrib

/-- The two nested loops of `vert_scroll` and `vert_scroll_nodisplay`, column by column. -/
def scrollScreen (mem : Nat → UInt8) : Nat → UInt8 :=
  (List.range numCols).foldl
    (fun mem i => (List.range numRows).foldl (fun mem j => scrollCell mem i j) mem) mem

/-- The clearing loop: NUL characters with the plain attribute in all cells. -/
def blankScreen (mem : Nat → UInt8) : Nat → UInt8 := fun i =>
  if i < 2 * numRows * numCols then (if i % 2 = 0 then 0 else attrib) else mem i

/-- The loop of `switch_task` that sets the attribute byte of every cell. -/
def attribScreen (mem : Nat → UInt8) : Nat → UInt8 := fun i =>
  if i < 2 * numRows * numCols ∧ i % 2 = 1 then attrib else mem i

/-- Store a character and the plain attribute in the cell of column `x`, row `y`. -/
def putCell (mem : Nat → UInt8) (x y : Int) (c : UInt8) : Nat → UInt8 :=
  let cell := ((numCols * y + x) * 2).toNat
  Function.update (Function.update mem cell c) (cell + 1) attrib

namespace Kernel

variable (k : Kernel)

/-- `update_cursor`. -/
def updateCursor (row col : Int) : Kernel := { k with cursor := UInt16.ofInt (row * 80 + col) }

/-- `vert_scroll`. -/
def vertScroll : Kernel :=
  { k with videoMem := scrollScreen k.videoMem, screenX := 0, screenY := numRows - 1 }.updateCursor
    (numRows - 1) 0

/-- `putc`. -/
def putc (c : UInt8) : Kernel :=
  if c = 10 ∨ c = 13 then
    if k.screenY = numRows - 1 then k.vertScroll
    else { k with screenY := k.screenY + 1, screenX := 0 }.updateCursor (k.screenY + 1) 0
  else
    let k : Kernel := { k with videoMem := putCell k.videoMem k.screenX k.screenY c }
    if k.screenX = numCols - 1 ∧ k.screenY = numRows - 1 then k.vertScroll
    else
      let x := (k.screenX + 1) % numCols
      let y := if x = 0 then k.screenY + 1 else k.screenY
      { k with screenX := x, screenY := y }.updateCursor y x

/-- `vert_scroll_nodisplay`. -/
def vertScrollNodisplay : Kernel :=
  k.setTerminal k.currTerm (fun t =>
    { t with screen := scrollScreen t.screen, x := 0, y := numRows - 1 })

/-- `putc_nodisplay`: the same on the saved screen of the executing terminal. -/
def putcNodisplay (c : UInt8) : Kernel :=
  if c = 10 ∨ c = 13 then
    if (k.terminals k.currTerm).y = numRows - 1 then k.vertScrollNodisplay
    else k.setTerminal k.currTerm (fun t => { t with y := t.y + 1, x := 0 })
  else
    let k : Kernel := k.setTerminal k.currTerm (fun t => { t with screen := putCell t.screen t.x t.y c })
    if (k.terminals k.currTerm).x = numCols - 1 ∧ (k.terminals k.currTerm).y = numRows - 1 then
      k.vertScrollNodisplay
    else
      k.setTerminal k.currTerm (fun t =>
        let x := (t.x + 1) % numCols
        { t with x := x, y := if x = 0 then t.y + 1 else t.y })

/-- `puts`, for a string without NUL. -/
def puts (s : List UInt8) : Kernel := s.foldl putc k

/-- `clear_nodisplay`. -/
def clearNodisplay : Kernel :=
  k.setTerminal k.currTerm (fun t => { t with screen := blankScreen t.screen, x := 0, y := 0 })

/-- `clear`. -/
def clear : Kernel :=
  if k.currTerm ≠ k.currTerminalNumber then k.clearNodisplay
  else { k with videoMem := blankScreen k.videoMem, screenX := 0, screenY := 0 }

/-! ## Saving and restoring a terminal -/

/-- `save_terminal_state`. The indices pass through the `int8_t` getters. -/
def saveTerminalState : Kernel :=
  k.setTerminal k.currTerminalNumber (fun t =>
    { t with
      x := k.screenX
      y := k.screenY
      screen := fun i => if i < 2 * numRows * numCols then k.videoMem i else t.screen i
      inputBuf := fun i => if i < maxBufSize then k.keyboardBuf i else t.inputBuf i
      keyboardLastIndex := k.lastIdx.toInt8.toUInt8
      keyboardIndex := k.keyboardIdx.toInt8.toUInt8 })

/-- `restore_terminal_state`. -/
def restoreTerminalState (newt : Nat) : Kernel :=
  let t := k.terminals newt
  { k with
    videoMem := fun i => if i < 2 * numRows * numCols then t.screen i else k.videoMem i
    screenX := t.x
    screenY := t.y
    keyboardBuf := fun i => if 0 ≤ i ∧ i < maxBufSize then t.inputBuf i.toNat else k.keyboardBuf i
    lastIdx := t.keyboardLastIndex.toInt8.toUInt8
    keyboardIdx := t.keyboardIndex.toInt8.toUInt8 }.updateCursor t.y t.x

/-! ## Drivers -/

/-- `terminal_write`: `buf` lists the bytes from the pointer on. Each character goes to the screen
    when the executing terminal is the viewed one, and to its saved copy otherwise. -/
def terminalWrite (buf : List UInt8) (nbytes : Nat) : Int × Kernel :=
  let n := if strlen buf < nbytes then strlen buf else nbytes
  let emit := fun (k : Kernel) (i : Nat) =>
    if k.currTerm = k.currTerminalNumber then k.putc (buf.getD i 0)
    else k.putcNodisplay (buf.getD i 0)
  (n, (List.range n).foldl emit k)

/-- The indices of `buf` that `terminal_write` loads: `strlen` goes up to the NUL, whatever `nbytes`
    is, and the loop loads each character it prints. -/
def terminalWriteLoads (buf : List UInt8) (nbytes : Nat) : List Nat :=
  List.range (strlen buf + 1) ++ List.range (if strlen buf < nbytes then strlen buf else nbytes)

/-- `keyboard_write`: print the characters of `buf` between the two line-buffer indices. -/
def keyboardWrite (buf : List UInt8) : Int × Kernel :=
  if k.lastIdx ≠ k.keyboardIdx then
    let idx := (List.range k.keyboardIdx.toNat).drop k.lastIdx.toNat
    ((k.keyboardIdx.toNat : Int) - k.lastIdx.toNat,
      idx.foldl (fun k i => k.putc (buf.getD i 0)) k)
  else (-1, k)

/-- The indices of `buf` that `keyboard_write` loads. -/
def keyboardWriteLoads : List Nat :=
  if k.lastIdx ≠ k.keyboardIdx then (List.range k.keyboardIdx.toNat).drop k.lastIdx.toNat else []

/-- The backward scan of `keyboard_read`: the index behind the second newline found going down from
    `i - 1`, or 0. -/
def lineStart (buf : Int → UInt8) : Nat → Nat → Nat
  | 0, _ => 0
  | i + 1, count =>
      if buf i = 10 then (if count + 1 = 2 then i + 1 else lineStart buf i (count + 1))
      else lineStart buf i count

/-- The copy loop of `keyboard_read` from index `i`, with `room` bytes still asked for. -/
def copyLine (buf : Int → UInt8) : Nat → Nat → List UInt8
  | 0, _ => []
  | room + 1, i =>
      if buf i ≠ 0 ∧ buf (i - 1) ≠ 10 then buf i :: copyLine buf room (i + 1) else []

/-- `keyboard_read`. The destination is indexed like the line buffer. -/
def keyboardRead (nbytes : Nat) : Option (Transfer × Kernel) :=
  if (k.terminals k.currTerm).termEnter = 0 then none
  else
    let j := lineStart k.keyboardBuf k.keyboardIdx.toNat 0
    let line := copyLine k.keyboardBuf nbytes j
    let k' := k.setTerminal k.currTerm (fun t => { t with termEnter := 0 })
    some (⟨line.length, j, line ++ [0]⟩,
      { k' with
        keyboardBuf := fun i => if 0 ≤ i ∧ i < maxBufSize then 32 else k.keyboardBuf i
        keyboardIdx := 0
        lastIdx := 0 })

/-- `rtc_read`. -/
def rtcRead : Option (Transfer × Kernel) :=
  if k.rtcInterrupt then some (Transfer.fail 0, { k with rtcInterrupt := false }) else none

/-- The frequency constants of `set_rate`. -/
def freqConst : Nat → Option UInt8
  | 1024 => some 0x06
  | 512 => some 0x07
  | 256 => some 0x08
  | 128 => some 0x09
  | 64 => some 0x0A
  | 32 => some 0x0B
  | 16 => some 0x0C
  | 8 => some 0x0D
  | 4 => some 0x0E
  | 2 => some 0x0F
  | 0 => some 0x00
  | _ => none

/-- `set_rate`: an unknown frequency changes nothing and succeeds all the same. -/
def setRate (freq : Nat) : Int × Kernel :=
  match freqConst freq with
  | some c => (4, { k with rtcRegisterA := (0xF0 &&& k.rtcRegisterA) ||| c })
  | none => (4, k)

/-- `rtc_write`: the frequency is the word at `buf`. -/
def rtcWrite (buf : List UInt8) (nbytes : Nat) : Int × Kernel :=
  if nbytes ≠ 4 then (-1, k) else k.setRate (wordAt (fun i => buf.getD i 0) 0)

/-- The indices of `buf` that `rtc_write` loads. -/
def rtcWriteLoads (nbytes : Nat) : List Nat := if nbytes ≠ 4 then [] else [0, 1, 2, 3]

end Kernel

end UnixTerminal
