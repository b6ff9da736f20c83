import UnixTerminal.Kernel.ReadStatements

set_option autoImplicit false

/-! # Where the line buffer is accessed

The indices of `keyboard_buf`, loads and stores alike, at which `keyboard_handler` with its helpers and
`keyboard_read` touch it. The array has the indices 0 to 128. -/

namespace UnixTerminal

namespace Kernel

variable (k : Kernel)

/-- The bytes of a `memset` or `memcpy` of `MAX_BUF_SIZE`. -/
def wholeLine : List Int := (List.range maxBufSize).map (fun (i : Nat) => (i : Int))

/-- The loads of `keyboard_write`, called with `keyboard_buf`. -/
def echoAccesses : List Int := k.keyboardWriteLoads.map (fun (i : Nat) => (i : Int))

/-- The end of the handler, for a character: it is stored, and `keyboard_write` is called with the
    index behind it. -/
def typeCharAccesses : List Int :=
  if k.keyboardIdx = 128 then []
  else (k.keyboardIdx.toNat : Int) :: { k with keyboardIdx := k.keyboardIdx + 1 }.echoAccesses

/-- Enter stores the newline. -/
def enterLineAccesses : List Int := [(k.keyboardIdx.toNat : Int)]

/-- `handle_backspace` stores a NUL, and calls `keyboard_write` before the index moves. -/
def handleBackspaceAccesses : List Int :=
  if k.keyboardIdx ≠ 0 then
    let wraps := k.screenX = 0 ∧ k.screenY ≠ 0
    if wraps ∧ k.findLastChar (k.screenY - 1) = -1 then []
    else (k.keyboardIdx.toNat - 1 : Int) :: { k with lastIdx := k.lastIdx - 1 }.echoAccesses
  else []

/-- `switch_terminal` copies the line to the terminal it leaves, and perhaps another one back. -/
def switchAccesses (newt : Nat) : List Int :=
  if newt = k.currTerminalNumber then [] else if newt > 2 then [] else wholeLine

/-- The part of the handler behind the terminal chords. Of the commands behind Ctrl, only Ctrl-L touches the
    line. -/
def handleAsciiAccesses (keycode : UInt8) (keys : Keys) : List Int :=
  let ascii := keyChar keycode keys.shift
  if ascii = 0 then []
  else if keys.ctrl ∧ ascii = 108 then wholeLine
  else if ascii = 10 then k.enterLineAccesses
  else if keys.ctrl ∧ 49 ≤ ascii ∧ ascii ≤ 53 then []
  else k.typeCharAccesses

/-- `keyboard_handler`. -/
def keyboardHandlerAccesses (status keycode : UInt8) (keys : Keys) : List Int :=
  if keys.lock then []
  else if status &&& 1 = 0 then []
  else if keycode = backspace ∧ k.screenX + k.screenY ≠ 0 then k.handleBackspaceAccesses
  else if keycode > maxPressCode then []
  else if keycode = shiftDownL ∨ keycode = shiftDownR ∨ keycode = capsDown ∨ keycode = ctrlDown
    ∨ keycode = altDown then []
  else if keys.alt ∧ f1 ≤ keycode ∧ keycode ≤ f3 then k.switchAccesses (keycode - f1).toNat
  else k.handleAsciiAccesses keycode keys

end Kernel

/-- The accesses of one statement of `keyboard_read`. The condition of the copy loop looks at the character in
    front unless the one at the index is a NUL. -/
def readAccesses (p : ReadPoint) (k : Kernel) : List Int :=
  let l := p.2
  match p.1 with
  | .scan =>
      match l.i with
      | 0 => []
      | i + 1 => [(i : Int)]
  | .copyTest => if k.keyboardBuf l.i ≠ 0 then [(l.i : Int), l.i - 1] else [(l.i : Int)]
  | .copyStore => [(l.i : Int)]
  | .clearBuf => Kernel.wholeLine
  | _ => []

end UnixTerminal
