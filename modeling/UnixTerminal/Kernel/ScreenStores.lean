import UnixTerminal.Kernel.Console
import UnixTerminal.Library.TracedArray

set_option autoImplicit false

/-! # `putc` with its stores

`Kernel.putc` says what video memory and the cursor become. Here are the same function and its scrolling
loops on memory that remembers every byte stored to, in the order of the code. Where the memory ends does
not matter to a store. -/

namespace UnixTerminal

/-- One cell of the scrolling loops. -/
def storeScrollCell (a : TracedArray UInt8) (i j : Nat) : TracedArray UInt8 :=
  let c := if j < numRows - 1 then a.mem ((numCols * (j + 1) + i) * 2) else 0
  (a.store ((numCols * j + i) * 2) c).store ((numCols * j + i) * 2 + 1) attrib

/-- The two nested loops. -/
def storeScrollScreen (a : TracedArray UInt8) : TracedArray UInt8 :=
  (List.range numCols).foldl
    (fun a i => (List.range numRows).foldl (fun a j => storeScrollCell a i j) a) a

/-- The character and the attribute of the cell in column `x`, row `y`. -/
def storePutCell (a : TracedArray UInt8) (x y : Int) (c : UInt8) : TracedArray UInt8 :=
  let cell := ((numCols * y + x) * 2).toNat
  (a.store cell c).store (cell + 1) attrib

/-- The memory and the cursor of `putc`. -/
structure TracedScreen where
  video : TracedArray UInt8
  x : Int
  y : Int

namespace TracedScreen

variable (d : TracedScreen)

/-- `vert_scroll`. -/
def vertScroll : TracedScreen := ⟨storeScrollScreen d.video, 0, numRows - 1⟩

/-- `putc`. -/
def putc (c : UInt8) : TracedScreen :=
  if c = 10 ∨ c = 13 then
    if d.y = numRows - 1 then d.vertScroll else { d with y := d.y + 1, x := 0 }
  else
    let d : TracedScreen := { d with video := storePutCell d.video d.x d.y c }
    if d.x = numCols - 1 ∧ d.y = numRows - 1 then d.vertScroll
    else
      let x := (d.x + 1) % numCols
      { d with x := x, y := if x = 0 then d.y + 1 else d.y }

end TracedScreen

/-- Video memory before the first store. -/
def Kernel.tracedScreen (k : Kernel) : TracedScreen := ⟨.fresh k.videoMem, k.screenX, k.screenY⟩

end UnixTerminal
