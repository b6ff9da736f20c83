import UnixTerminal.Kernel.Keyboard
import UnixTerminal.Proofs.Devices
import UnixTerminal.Proofs.QuietFields
import Mathlib.Tactic.Tauto

set_option autoImplicit false

/-! # What a key does

`keyAction` names what `keyboard_handler` does with a scan code: it looks at the modifier flags, and
for Backspace at the cursor, as the handler does. `KeyStep` says what becomes of the kernel for each
action, and `keyboardHandler_step` that this is what the handler does. What follows is said about
the actions. -/

namespace UnixTerminal

/-- What the handler does with a scan code. `nothing`: modifiers, releases and keys without a
    character. `command`: Ctrl-1 to Ctrl-5. `chord`: Alt-F1 to Alt-F3. -/
inductive KeyAction
  | nothing
  | typed (c : UInt8)
  | enter
  | erase
  | clear
  | command
  | chord (newt : Nat)
deriving DecidableEq, Repr

/-- The action of a press code that is no chord. -/
def asciiAction (keycode : UInt8) (keys : Keys) : KeyAction :=
  let ascii := keyChar keycode keys.shift
  if ascii = 0 then .nothing
  else if keys.ctrl ∧ ascii = 108 then .clear
  else if ascii = 10 then .enter
  else if keys.ctrl ∧ 49 ≤ ascii ∧ ascii ≤ 53 then .command
  else .typed (Kernel.typedChar keys keycode ascii)

namespace Kernel

variable (lay : Layout) (fs : FileSys) (k : Kernel)

/-- The action of a scan code. -/
def keyAction (status keycode : UInt8) (keys : Keys) : KeyAction :=
  if keys.lock ∨ status &&& 1 = 0 then .nothing
  else if keycode = backspace ∧ k.screenX + k.screenY ≠ 0 then .erase
  else if keycode > maxPressCode then .nothing
  else if keycode = shiftDownL ∨ keycode = shiftDownR ∨ keycode = capsDown ∨ keycode = ctrlDown
    ∨ keycode = altDown then .nothing
  else if keys.alt ∧ f1 ≤ keycode ∧ keycode ≤ f3 then .chord (keycode - f1).toNat
  else asciiAction keycode keys

/-- What one of the Ctrl commands leaves. -/
inductive CommandStep : Kernel → Prop
  | listFiles (dirReadIdx : Nat) : CommandStep (k.clear.listFiles fs dirReadIdx).2
  | showFile (d : Dentry) : CommandStep (k.clear.showFile fs d)
  | noFile : CommandStep k.clear
  | toggleFreq : CommandStep k.clear.toggleFreq
  | setRate : CommandStep (k.clear.setRate 0).2

/-- What an action leaves. -/
inductive KeyStep (frame : Frame) (env : ExecEnv) : KeyAction → Kernel → Prop
  | nothing : KeyStep frame env .nothing k
  | typed (c : UInt8) : KeyStep frame env (.typed c) (k.typeChar c)
  | enter : KeyStep frame env .enter k.enterLine
  | erase : KeyStep frame env .erase k.handleBackspace
  | clear : KeyStep frame env .clear k.clearLine
  | command {k' : Kernel} : CommandStep fs k k' → KeyStep frame env .command k'
  | chord (newt : Nat) : KeyStep frame env (.chord newt) (k.switchTerminal lay fs newt frame env)

theorem handleAscii_step (keycode : UInt8) (frame : Frame) (env : ExecEnv) (keys : Keys) :
    KeyStep lay fs k frame env (asciiAction keycode keys) (k.handleAscii fs keycode keys).2 := by
  unfold handleAscii asciiAction
  generalize keyChar keycode keys.shift = ascii
  dsimp only
  by_cases h0 : ascii = 0
  · rw [if_pos h0, if_pos h0]
    exact .nothing
  rw [if_neg h0, if_neg h0]
  by_cases hl : keys.ctrl ∧ ascii = 108
  · rw [if_pos hl, if_pos hl]
    exact .clear
  rw [if_neg hl, if_neg hl]
  by_cases h10 : ascii = 10
  · rw [if_pos h10, if_pos h10]
    exact .enter
  rw [if_neg h10, if_neg h10]
  -- the five commands, in the order of the tests
  by_cases h1 : keys.ctrl ∧ ascii = 49
  · rw [if_pos h1, if_pos (by simp [h1])]
    exact .command (.listFiles _)
  rw [if_neg h1]
  by_cases h2 : keys.ctrl ∧ ascii = 50
  · rw [if_pos h2, if_pos (by simp [h2])]
    split
    · exact .command (.showFile _)
    · exact .command .noFile
  rw [if_neg h2]
  by_cases h3 : keys.ctrl ∧ ascii = 51
  · rw [if_pos h3, if_pos (by simp [h3])]
    split
    · exact .command (.showFile _)
    · exact .command .noFile
  rw [if_neg h3]
  by_cases h4 : keys.ctrl ∧ ascii = 52
  · rw [if_pos h4, if_pos (by simp [h4])]
    exact .command .toggleFreq
  rw [if_neg h4]
  by_cases h5 : keys.ctrl ∧ ascii = 53
  · rw [if_pos h5, if_pos (by simp [h5])]
    exact .command .setRate
  rw [if_neg h5, if_neg (by grind)]
  exact .typed _

/-- **Inversion of the handler.** -/
theorem keyboardHandler_step (status keycode : UInt8) (frame : Frame) (env : ExecEnv) (keys : Keys) :
    KeyStep lay fs k frame env (k.keyAction status keycode keys)
      (k.keyboardHandler lay fs status keycode frame env keys).2 := by
  unfold keyboardHandler keyAction
  by_cases hlock : keys.lock
  · rw [if_pos hlock, if_pos (Or.inl hlock)]
    exact .nothing
  by_cases hstatus : status &&& 1 = 0
  · rw [if_neg hlock, if_pos hstatus, if_pos (Or.inr hstatus)]
    exact .nothing
  rw [if_neg hlock, if_neg hstatus, if_neg (not_or.2 ⟨hlock, hstatus⟩)]
  by_cases herase : keycode = backspace ∧ k.screenX + k.screenY ≠ 0
  · rw [if_pos herase, if_pos herase]
    exact .erase
  rw [if_neg herase, if_neg herase]
  by_cases hup : keycode > maxPressCode
  · rw [if_pos hup, if_pos hup]
    exact .nothing
  rw [if_neg hup, if_neg hup]
  by_cases hmod : keycode = shiftDownL ∨ keycode = shiftDownR ∨ keycode = capsDown
      ∨ keycode = ctrlDown ∨ keycode = altDown
  · rw [if_pos hmod]
    split_ifs <;> first | exact .nothing | tauto
  rw [if_neg hmod]
  simp only [not_or] at hmod
  obtain ⟨hshiftL, hshiftR, hcaps, hctrl, halt⟩ := hmod
  rw [if_neg (not_or.2 ⟨hshiftL, hshiftR⟩), if_neg hcaps, if_neg hctrl, if_neg halt]
  by_cases hchord : keys.alt ∧ f1 ≤ keycode ∧ keycode ≤ f3
  · rw [if_pos hchord, if_pos hchord]
    exact .chord _
  rw [if_neg hchord, if_neg hchord]
  exact k.handleAscii_step lay fs keycode frame env keys

end Kernel

/-! ## The input lines -/

/-- The part of a terminal struct that belongs to its input line. -/
@[ext]
structure TerminalLine where
  inputBuf : Nat → UInt8
  keyboardIndex : UInt8
  termEnter : UInt32

def Terminal.line (t : Terminal) : TerminalLine := ⟨t.inputBuf, t.keyboardIndex, t.termEnter⟩

/-- What the kernel knows of the input lines: the line buffer and its index, which belong to the
    viewed terminal, what is saved of the others, and which terminal executes. -/
@[ext]
structure Lines where
  buf : Int → UInt8
  idx : UInt8
  terminal : Nat → TerminalLine
  executing : Nat
  viewed : Nat

/-- The lines of a kernel state. -/
def Kernel.lines (k : Kernel) : Lines where
  buf := k.keyboardBuf
  idx := k.keyboardIdx
  terminal := fun t => (k.terminals t).line
  executing := k.currTerm
  viewed := k.currTerminalNumber

/-- The buffer that `memset(keyboard_buf, ' ', MAX_BUF_SIZE)` leaves. -/
def blankBuf (buf : Int → UInt8) : Int → UInt8 :=
  fun i => if 0 ≤ i ∧ i < maxBufSize then 32 else buf i

/-- The indices that `memset` and the copies of the buffer reach. -/
theorem inBuf {i : Nat} (hi : i < 128) : (0 : Int) ≤ i ∧ (i : Int) < maxBufSize := by
  simp only [maxBufSize]
  omega

namespace Kernel

variable (lay : Layout) (fs : FileSys) (k : Kernel)

/-- A write to a terminal struct that keeps its line. -/
theorem lines_setTerminal (t : Nat) (f : Terminal → Terminal) (hf : ∀ x, (f x).line = x.line) :
    (k.setTerminal t f).lines = k.lines := by
  ext1 <;> try rfl
  funext i
  by_cases h : i = t
  · subst h
    simp [lines, setTerminal, hf]
  · simp [lines, setTerminal, Function.update_of_ne h]

theorem quietField_lines : QuietField lines where
  video _ _ _ _ _ := rfl
  saved k t _ _ _ := k.lines_setTerminal t _ (fun _ => rfl)

theorem lines_putc (c : UInt8) : (k.putc c).lines = k.lines := quietField_lines.screen.putc k c

theorem lines_terminalWrite (buf : List UInt8) (n : Nat) :
    (k.terminalWrite buf n).2.lines = k.lines := quietField_lines.terminalWrite k buf n

theorem lines_clear : k.clear.lines = k.lines := quietField_lines.clear k

/-- The commands print, and set the rate of the clock. -/
theorem field_command {β : Type} {field : Kernel → β} (hf : QuietField field)
    (hclock : ∀ (k : Kernel) a, field { k with rtcRegisterA := a } = field k) {k' : Kernel}
    (h : CommandStep fs k k') : field k' = field k := by
  cases h with
  | listFiles dirReadIdx =>
      unfold listFiles
      rw [← hf.clear k]
      generalize k.clear = k
      generalize List.range fs.numDentries = l
      induction l generalizing dirReadIdx k with
      | nil => rfl
      | cons a l ih => rw [List.foldl_cons, ih, hf.screen.putc, hf.terminalWrite]
  | showFile d =>
      unfold showFile
      dsimp only
      rw [hf.terminalWrite, hf.terminalWrite, hf.screen.putc,
        field_foldl field (fun k i => hf.screen.putc k _), hf.clear]
  | noFile => exact hf.clear k
  | toggleFreq => exact (hclock _ _).trans (hf.clear k)
  | setRate => exact (hclock _ _).trans (hf.clear k)

theorem lines_command {k' : Kernel} (h : CommandStep fs k k') : k'.lines = k.lines :=
  k.field_command fs quietField_lines (fun _ _ => rfl) h

/-! ## The line editor -/

/-- A character goes to the end of the line, unless the line is full. -/
theorem lines_typeChar (c : UInt8) :
    (k.typeChar c).lines =
      if k.keyboardIdx = 128 then k.lines
      else { k.lines with
        buf := Function.update k.keyboardBuf k.keyboardIdx.toNat c
        idx := k.keyboardIdx + 1 } := by
  rw [quietField_lines.screen.typeChar]
  split_ifs <;> rfl

/-- Enter puts a newline behind the line and sets the flag of the viewed terminal. -/
theorem lines_enterLine :
    k.enterLine.lines =
      { k.lines with
        buf := Function.update k.keyboardBuf k.keyboardIdx.toNat 10
        terminal := Function.update k.lines.terminal k.currTerminalNumber
          { k.lines.terminal k.currTerminalNumber with termEnter := 1 } } := by
  rw [quietField_lines.screen.enterLine]
  ext1 <;> try rfl
  funext t
  by_cases h : t = k.currTerminalNumber
  · subst h
    simp [lines, setTerminal, setLine, Terminal.line]
  · simp [lines, setTerminal, setLine, Function.update_of_ne h]

/-- Ctrl-L empties the line. -/
theorem lines_clearLine :
    k.clearLine.lines = { k.lines with buf := blankBuf k.keyboardBuf, idx := 0 } := by
  have hclear := k.lines_clear
  rw [show k.keyboardBuf = k.lines.buf from rfl, ← hclear]
  rfl

/-- Backspace takes the last character off the line; at the start of a screen row behind an empty one
    it takes none. -/
theorem lines_handleBackspace :
    k.handleBackspace.lines = k.lines ∨
    k.keyboardIdx ≠ 0 ∧ k.handleBackspace.lines =
      { k.lines with
        buf := Function.update k.keyboardBuf (k.keyboardIdx.toNat - 1) 0
        idx := k.keyboardIdx - 1 } := by
  rw [quietField_lines.screen.handleBackspace]
  split_ifs with hnone
  · exact Or.inl rfl
  · exact Or.inr ⟨fun h0 => hnone (Or.inl h0), rfl⟩

end Kernel

end UnixTerminal
