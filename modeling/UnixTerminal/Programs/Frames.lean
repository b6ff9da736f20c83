import UnixTerminal.Programs.Blink
import UnixTerminal.Programs.Grep

set_option autoImplicit false

/-! # The frames of `fish`

`add_frames` of `fish.c`: it reads two files side by side, a character at a time, and adds a blink for every
place at which one of them has a character to show. The system calls are those of `grep`, over a state `σ`
of the system. -/

namespace UnixTerminal

/-- Column 40, where the frames start. -/
def frameOffset : Nat := 40

/-- `' '` where the line is over. -/
def shownChar (c : UInt8) : UInt8 := if c = 10 then 32 else c

/-- One of the files: its descriptor, the character read last, and whether its end was met. -/
structure FrameReader where
  fd : Nat
  c : UInt8
  eof : Bool

/-- `add_frames` returns, or halts where a file is missing. -/
inductive FramesEnd (σ : Type)
  | halted (status : UInt8) (sys : σ)
  | added (fish : Fish) (sys : σ)

section AddFrames

variable {σ : Type} (calls : GrepCalls σ)

/-- The read of a character, where the line is not over. A read that fails leaves the character. -/
def FrameReader.readChar (r : FrameReader) (sys : σ) : FrameReader × σ :=
  if r.c ≠ 10 then
    match calls.ece391Read r.fd 1 sys with
    | (none, sys) => (r, sys)
    | (some [], sys) => ({ r with c := 10, eof := true }, sys)
    | (some (c :: _), sys) => ({ r with c := c }, sys)
  else (r, sys)

/-- What is done with a file behind a row. One that is at its end is closed, every time. -/
def FrameReader.nextRow (r : FrameReader) (sys : σ) : FrameReader × σ :=
  if r.eof then ({ r with c := 10 }, (calls.ece391Close r.fd sys).2) else ({ r with c := 48 }, sys)

/-- The variables of the loops: both files, the row and the column, the blinks. -/
structure FrameVars (σ : Type) where
  r0 : FrameReader
  r1 : FrameReader
  fish : Fish
  sys : σ

/-- The blink for the two characters. `user` is what `blink_struct` holds otherwise. -/
def frameBlink (user : BlinkStruct) (row col : Nat) (c0 c1 : UInt8) : BlinkStruct :=
  { user with
    location := UInt16.ofNat (row * 80 + col + frameOffset)
    onChar := shownChar c0
    offChar := shownChar c1 }

/-- `blink_struct` with the lengths of all frames. -/
def frameUser (user : BlinkStruct) : BlinkStruct := { user with onLength := 15, offLength := 15 }

/-- One pass of the loop over the columns. -/
def columnPass (user : BlinkStruct) (row : Nat) :
    FrameVars σ × Nat → Option (FrameVars σ ⊕ FrameVars σ × Nat)
  | (v, col) =>
      let (r0, sys) := v.r0.readChar calls v.sys
      let (r1, sys) := v.r1.readChar calls sys
      if r0.c = 10 ∧ r1.c = 10 then some (.inl ⟨r0, r1, v.fish, sys⟩)
      else if (r0.c ≠ 32 ∧ r0.c ≠ 10) ∨ (r1.c ≠ 32 ∧ r1.c ≠ 10) then
        some (.inr (⟨r0, r1, (v.fish.mp1IoctlAdd (frameBlink user row col r0.c r1.c)).2, sys⟩, col + 1))
      else some (.inr (⟨r0, r1, v.fish, sys⟩, col + 1))

/-- One pass of the loop over the rows. -/
def rowPass (fuel : Nat) (user : BlinkStruct) :
    FrameVars σ × Nat → Option (FrameVars σ ⊕ FrameVars σ × Nat)
  | (v, row) =>
      if v.r0.eof = false ∨ v.r1.eof = false then
        (foreverRun (columnPass calls user row) fuel (v, 0)).map fun v =>
          let (r0, sys) := v.r0.nextRow calls v.sys
          let (r1, sys) := v.r1.nextRow calls sys
          .inr (⟨r0, r1, v.fish, sys⟩, row + 1)
      else some (.inl v)

/-- `add_frames (f0, f1)`; `user` is what `blink_struct` holds before the two lengths are set. -/
def addFrames (f0 f1 : Nat → UInt8) (user : BlinkStruct) (fish : Fish) (sys : σ) (fuel : Nat) :
    Option (FramesEnd σ) :=
  match calls.ece391Open f0 sys with
  | (none, sys) => some (.halted 255 sys)
  | (some fd0, sys) =>
      match calls.ece391Open f1 sys with
      | (none, sys) => some (.halted 255 sys)
      | (some fd1, sys) =>
          (foreverRun (rowPass calls fuel (frameUser user)) fuel
            (⟨⟨fd0, 48, false⟩, ⟨fd1, 48, false⟩, fish, sys⟩, 0)).map fun v => .added v.fish v.sys

end AddFrames

end UnixTerminal
