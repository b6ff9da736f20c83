import UnixTerminal.Library.Run
import UnixTerminal.Library.TextScreen
import UnixTerminal.Proofs.Boot
import UnixTerminal.Proofs.Devices
import Mathlib.Data.List.GetD

set_option autoImplicit false

/-! # Each terminal has a screen of its own

The characters a terminal shows are in video memory while it is viewed and in its struct otherwise.
`Kernel.logicalScreen` is what the user of a terminal sees of this; the abstract side is a text screen
for each terminal, to which `putc` is applied. Whatever the order of writes, ticks and view switches,
the two agree: a write goes to the screen of the executing terminal, and nothing else changes any. -/

namespace UnixTerminal

/-- What a terminal shows: the characters by row and column, and the cursor. -/
@[ext]
structure LogicalScreen where
  char : Fin 25 → Fin 80 → UInt8
  x : Int
  y : Int

/-- The characters of a memory of character and attribute bytes. -/
def readScreen (mem : Nat → UInt8) (x y : Int) : LogicalScreen where
  char j i := mem ((80 * j.1 + i.1) * 2)
  x := x
  y := y

/-- The logical screen of terminal `t`. -/
def Kernel.logicalScreen (k : Kernel) (t : Nat) : LogicalScreen :=
  if t = k.currTerminalNumber then readScreen k.videoMem k.screenX k.screenY
  else readScreen (k.terminals t).screen (k.terminals t).x (k.terminals t).y

/-! ## The private screen -/

/-- A private screen of 25 rows and 80 columns. -/
abbrev PrivateScreen := Screen UInt8 25 80

namespace PrivateScreen

/-- The blank screen with the cursor at (0,0). -/
def blank : PrivateScreen := ⟨fun _ _ => 0, 0, 0⟩

/-- `putc` on a private screen. -/
def putc (s : PrivateScreen) (c : UInt8) : PrivateScreen :=
  if c = 10 ∨ c = 13 then s.newline 0 else (s.put c).advance 0

/-- What a private screen shows. -/
def logical (s : PrivateScreen) : LogicalScreen := ⟨s.char, s.x, s.y⟩

end PrivateScreen

/-! ## Cells -/

theorem even_offset_inj {i j i' j' : Nat} (hi : i < 80) (hi' : i' < 80) :
    (80 * j + i) * 2 = (80 * j' + i') * 2 ↔ i = i' ∧ j = j' := by
  omega

/-- One cell of the scrolling loops. -/
theorem char_scrollCell (mem : Nat → UInt8) {i j i' : Nat} (hi : i < 80) (hi' : i' < 80) (j' : Nat) :
    scrollCell mem i j ((80 * j' + i') * 2)
      = if i' = i ∧ j' = j then (if j < 24 then mem ((80 * (j + 1) + i) * 2) else 0)
        else mem ((80 * j' + i') * 2) := by
  have hodd : (80 * j' + i') * 2 ≠ (numCols * j + i) * 2 + 1 := by
    simp only [numCols]
    omega
  unfold scrollCell
  rw [Function.update_of_ne hodd, Function.update_apply]
  by_cases hcell : i' = i ∧ j' = j
  · have hoff : (80 * j' + i') * 2 = (numCols * j + i) * 2 := (even_offset_inj hi' hi).2 hcell
    rw [if_pos hoff, if_pos hcell]
    rfl
  · have hoff : ¬ (80 * j' + i') * 2 = (numCols * j + i) * 2 := fun h =>
      hcell ((even_offset_inj hi' hi).1 h)
    rw [if_neg hoff, if_neg hcell]

/-- One column, from the top down to row `n`: each row takes what the next one still holds. -/
theorem char_scrollColumn (mem : Nat → UInt8) {i : Nat} (hi : i < 80) (n : Nat) :
    ∀ {i' : Nat}, i' < 80 → ∀ j',
      (List.range n).foldl (fun mem j => scrollCell mem i j) mem ((80 * j' + i') * 2)
        = if i' = i ∧ j' < n then (if j' < 24 then mem ((80 * (j' + 1) + i) * 2) else 0)
          else mem ((80 * j' + i') * 2) := by
  induction n with
  | zero => intro i' _ j'; simp
  | succ n ih =>
      intro i' hi' j'
      rw [List.range_succ, List.foldl_append, List.foldl_cons, List.foldl_nil,
        char_scrollCell _ hi hi', ih hi' j', ih hi (n + 1)]
      by_cases hcol : i' = i
      · subst hcol
        by_cases hrow : j' = n
        · have hnot : ¬ n + 1 < n := by omega
          simp [hrow, hnot]
        · have hlt : j' < n + 1 ↔ j' < n := by omega
          simp [hrow, hlt]
      · simp [hcol]

/-- All columns up to `m`. -/
theorem char_scrollColumns (mem : Nat → UInt8) {m : Nat} (hm : m ≤ 80) :
    ∀ {i' : Nat}, i' < 80 → ∀ j',
      (List.range m).foldl (fun mem i =>
        (List.range numRows).foldl (fun mem j => scrollCell mem i j) mem) mem ((80 * j' + i') * 2)
        = if i' < m ∧ j' < 25 then (if j' < 24 then mem ((80 * (j' + 1) + i') * 2) else 0)
          else mem ((80 * j' + i') * 2) := by
  induction m with
  | zero => intro i' _ j'; simp
  | succ m ih =>
      intro i' hi' j'
      have hm' : m < 80 := by omega
      rw [List.range_succ, List.foldl_append, List.foldl_cons, List.foldl_nil,
        char_scrollColumn _ hm' numRows hi', ih (by omega) hi' j', ih (by omega) hm' (j' + 1)]
      by_cases hcol : i' = m
      · subst hcol
        simp [numRows]
      · have hlt : i' < m + 1 ↔ i' < m := by omega
        simp [hcol, hlt]

/-- The scrolling loops move every row up. -/
theorem char_scrollScreen (mem : Nat → UInt8) {i j : Nat} (hi : i < 80) (hj : j < 25) :
    scrollScreen mem ((80 * j + i) * 2) = if j < 24 then mem ((80 * (j + 1) + i) * 2) else 0 := by
  have h := char_scrollColumns mem (m := 80) (Nat.le_refl 80) hi j
  rw [if_pos ⟨hi, hj⟩] at h
  exact h

theorem char_putCell (mem : Nat → UInt8) (c : UInt8) {x y i j : Nat} (hx : x < 80) (hi : i < 80) :
    putCell mem x y c ((80 * j + i) * 2)
      = if j = y ∧ i = x then c else mem ((80 * j + i) * 2) := by
  have hcell : (((numCols : Int) * y + x) * 2).toNat = (80 * y + x) * 2 := by
    simp only [numCols]
    omega
  have hodd : (80 * j + i) * 2 ≠ (80 * y + x) * 2 + 1 := by omega
  simp only [putCell, hcell, Function.update_apply, hodd, if_false, even_offset_inj hi hx,
    and_comm]

/-! ## `putc` -/

/-- The bytes and the cursor that `putc` and `putc_nodisplay` work on. -/
structure Cells where
  mem : Nat → UInt8
  x : Int
  y : Int

namespace Cells

/-- The common body of `putc` and `putc_nodisplay`. -/
def putc (d : Cells) (c : UInt8) : Cells :=
  if c = 10 ∨ c = 13 then
    if d.y = numRows - 1 then ⟨scrollScreen d.mem, 0, numRows - 1⟩ else { d with x := 0, y := d.y + 1 }
  else
    let d : Cells := { d with mem := putCell d.mem d.x d.y c }
    if d.x = numCols - 1 ∧ d.y = numRows - 1 then ⟨scrollScreen d.mem, 0, numRows - 1⟩
    else
      let x := (d.x + 1) % numCols
      { d with x := x, y := if x = 0 then d.y + 1 else d.y }

/-- The logical screen in the cells. -/
def logical (d : Cells) : LogicalScreen := readScreen d.mem d.x d.y

variable {d : Cells} {s : PrivateScreen}

theorem logical_eq_iff :
    d.logical = s.logical ↔ d.x = s.x ∧ d.y = s.y ∧
      ∀ (j : Fin 25) (i : Fin 80), d.mem ((80 * j.1 + i.1) * 2) = s.char j i := by
  constructor
  · intro h
    exact ⟨congrArg LogicalScreen.x h, congrArg LogicalScreen.y h,
      fun j i => congrFun (congrFun (congrArg LogicalScreen.char h) j) i⟩
  · rintro ⟨hx, hy, hchar⟩
    ext1
    · funext j i
      exact hchar j i
    · exact hx
    · exact hy

/-- Scrolling in the last row. -/
theorem logical_scroll (h : d.logical = s.logical) (hlast : s.y.1 + 1 = 25) :
    Cells.logical ⟨scrollScreen d.mem, 0, numRows - 1⟩
      = PrivateScreen.logical (s.scroll 0) := by
  obtain ⟨-, -, hchar⟩ := logical_eq_iff.1 h
  refine logical_eq_iff.2 ⟨rfl, ?_, fun j i => ?_⟩
  · simp only [numRows, Screen.scroll]
    omega
  · rw [show (Cells.mem ⟨scrollScreen d.mem, 0, numRows - 1⟩) = scrollScreen d.mem from rfl,
      char_scrollScreen d.mem i.2 j.2]
    by_cases hj : j.1 + 1 < 25
    · rw [if_pos (by omega), hchar ⟨j.1 + 1, hj⟩ i, Screen.scroll_char, dif_pos hj]
    · rw [if_neg (by omega), Screen.scroll_char, dif_neg hj]

/-- The start of the next row. -/
theorem logical_newline (h : d.logical = s.logical) :
    Cells.logical (if d.y = numRows - 1 then ⟨scrollScreen d.mem, 0, numRows - 1⟩
        else { d with x := 0, y := d.y + 1 })
      = PrivateScreen.logical (s.newline 0) := by
  obtain ⟨-, hy, hchar⟩ := logical_eq_iff.1 h
  have hlt := s.y.isLt
  by_cases hlast : s.y.1 + 1 = 25
  · have hy24 : d.y = numRows - 1 := by
      simp only [numRows]
      omega
    rw [if_pos hy24, Screen.newline_of_last hlast]
    exact logical_scroll h hlast
  · have hy24 : ¬ d.y = numRows - 1 := by
      simp only [numRows]
      omega
    rw [if_neg hy24, Screen.newline_of_lt (by omega)]
    refine logical_eq_iff.2 ⟨rfl, ?_, hchar⟩
    push_cast
    omega

/-- The step to the next cell. -/
theorem logical_advance (h : d.logical = s.logical) :
    Cells.logical (if d.x = numCols - 1 ∧ d.y = numRows - 1 then ⟨scrollScreen d.mem, 0, numRows - 1⟩
        else { d with
          x := (d.x + 1) % numCols
          y := if (d.x + 1) % numCols = 0 then d.y + 1 else d.y })
      = PrivateScreen.logical (s.advance 0) := by
  obtain ⟨hx, hy, hchar⟩ := logical_eq_iff.1 h
  have hxlt := s.x.isLt
  have hcols : (numCols : Int) = 80 := rfl
  by_cases hlast : s.x.1 + 1 = 80
  · -- the end of a row is a new line
    have hmod : (d.x + 1) % (numCols : Int) = 0 := by
      rw [hcols]
      omega
    have hx79 : d.x = (numCols : Int) - 1 := by omega
    rw [Screen.advance_of_last hlast, ← logical_newline h, hmod, if_pos rfl]
    simp only [hx79, true_and]
  · have hx79 : ¬ (d.x = (numCols : Int) - 1 ∧ d.y = (numRows : Int) - 1) := by omega
    have hmod : (d.x + 1) % (numCols : Int) = d.x + 1 := by
      rw [hcols]
      omega
    have hne : ¬ d.x + 1 = 0 := by omega
    rw [if_neg hx79, hmod, if_neg hne, Screen.advance_of_lt (by omega)]
    refine logical_eq_iff.2 ⟨?_, hy, hchar⟩
    push_cast
    omega

theorem logical_put (h : d.logical = s.logical) (c : UInt8) :
    Cells.logical { d with mem := putCell d.mem d.x d.y c } = PrivateScreen.logical (s.put c) := by
  obtain ⟨hx, hy, hchar⟩ := logical_eq_iff.1 h
  refine logical_eq_iff.2 ⟨hx, hy, fun j i => ?_⟩
  have hcell := char_putCell d.mem c (y := s.y.1) (j := j.1) s.x.2 i.2
  rw [← hx, ← hy] at hcell
  refine hcell.trans ?_
  rw [Screen.put_char, hchar j i]
  simp only [Fin.ext_iff]

/-- **`putc` on the cells is `putc` on the screen they show.** -/
theorem logical_putc (h : d.logical = s.logical) (c : UInt8) :
    (d.putc c).logical = PrivateScreen.logical (s.putc c) := by
  unfold putc PrivateScreen.putc
  by_cases hnl : c = 10 ∨ c = 13
  · rw [if_pos hnl, if_pos hnl]
    exact logical_newline h
  · rw [if_neg hnl, if_neg hnl]
    exact logical_advance (logical_put h c)

end Cells

/-! ## The kernel -/

/-- What `putc` works on. -/
def Kernel.videoCells (k : Kernel) : Cells := ⟨k.videoMem, k.screenX, k.screenY⟩

/-- What `putc_nodisplay` works on. -/
def Terminal.cells (t : Terminal) : Cells := ⟨t.screen, t.x, t.y⟩

/-- Where the logical screen of terminal `t` is. -/
def Kernel.cells (k : Kernel) (t : Nat) : Cells :=
  if t = k.currTerminalNumber then k.videoCells else (k.terminals t).cells

theorem Kernel.logicalScreen_eq (k : Kernel) (t : Nat) : k.logicalScreen t = (k.cells t).logical := by
  unfold Kernel.logicalScreen Kernel.cells
  split_ifs <;> rfl

namespace Kernel

variable (k : Kernel)

/-- A character of `terminal_write`: to the screen, or to the saved copy of the executing terminal. -/
def emit (c : UInt8) : Kernel :=
  if k.currTerm = k.currTerminalNumber then k.putc c else k.putcNodisplay c

theorem videoCells_putc (c : UInt8) : (k.putc c).videoCells = k.videoCells.putc c := by
  unfold putc Cells.putc
  dsimp only
  rw [apply_ite videoCells, apply_ite videoCells, apply_ite videoCells]
  rfl

theorem terminals_putc (c : UInt8) : (k.putc c).terminals = k.terminals := by
  unfold putc
  dsimp only
  split_ifs <;> rfl

theorem cells_putcNodisplay (c : UInt8) :
    ((k.putcNodisplay c).terminals k.currTerm).cells = (k.terminals k.currTerm).cells.putc c := by
  unfold putcNodisplay Cells.putc vertScrollNodisplay
  dsimp only [Terminal.cells]
  split_ifs <;> simp_all [setTerminal]

theorem terminals_putcNodisplay_of_ne (c : UInt8) {t : Nat} (ht : t ≠ k.currTerm) :
    (k.putcNodisplay c).terminals t = k.terminals t := by
  unfold putcNodisplay vertScrollNodisplay
  dsimp only
  split_ifs <;> simp [setTerminal, Function.update_of_ne ht]

theorem videoCells_putcNodisplay (c : UInt8) : (k.putcNodisplay c).videoCells = k.videoCells := by
  unfold putcNodisplay vertScrollNodisplay
  dsimp only
  split_ifs <;> rfl

theorem core_emit (c : UInt8) : (k.emit c).core = k.core := by
  unfold emit
  split_ifs
  · exact k.core_putc c
  · exact k.core_putcNodisplay c

/-- **A character goes to the screen of the executing terminal**, wherever that is, and to no other. -/
theorem cells_emit (c : UInt8) (t : Nat) :
    (k.emit c).cells t = if t = k.currTerm then (k.cells t).putc c else k.cells t := by
  have hview : (k.emit c).currTerminalNumber = k.currTerminalNumber :=
    congrArg Core.currTerminalNumber (k.core_emit c)
  unfold cells
  rw [hview]
  unfold emit
  by_cases hcur : k.currTerm = k.currTerminalNumber
  · rw [if_pos hcur, videoCells_putc, terminals_putc, hcur]
    split_ifs <;> rfl
  · rw [if_neg hcur, videoCells_putcNodisplay]
    by_cases ht : t = k.currTerm
    · subst ht
      rw [if_neg hcur, if_neg hcur, if_pos rfl, cells_putcNodisplay]
    · rw [if_neg ht, terminals_putcNodisplay_of_ne k c ht]

end Kernel

/-! ## Events -/

/-- The calls that concern the screens. `none` for the buffer of `terminal_write` is a null pointer. -/
inductive ScreenEvent
  | terminalWrite (buf : Option (List UInt8)) (nbytes : Int)
  | switchTask (frame : Frame)
  | switchTerminal (newt : Nat) (frame : Frame) (env : ExecEnv)

namespace Kernel

variable (lay : Layout) (fs : FileSys) (k : Kernel)

/-- `terminal_write` with its check of the arguments. -/
def terminalWriteChecked : Option (List UInt8) → Int → Int × Kernel
  | none, _ => (-1, k)
  | some buf, nbytes => if nbytes < 0 then (-1, k) else k.terminalWrite buf nbytes.toNat

/-- One such call. -/
def screenStep : ScreenEvent → Option Kernel
  | .terminalWrite buf nbytes => some (k.terminalWriteChecked buf nbytes).2
  | .switchTask frame => (k.switchTask lay frame).map (·.2)
  | .switchTerminal newt frame env => some (k.switchTerminal lay fs newt frame env)

/-- A terminal that is opened gets its shell. -/
def ScreenOk : ScreenEvent → Prop
  | .switchTerminal newt frame env =>
      k.Opens newt → ∃ entry, (k.openTerminal fs newt frame env).1 = .started entry
  | _ => True

end Kernel

/-- The history: the screen each terminal started with, and the bytes written to it since then. -/
structure Sessions where
  base : Nat → PrivateScreen
  written : Nat → List UInt8

/-- The private screen of terminal `t`. -/
def Sessions.screen (g : Sessions) (t : Nat) : PrivateScreen :=
  (g.written t).foldl PrivateScreen.putc (g.base t)

/-- The bytes that a call of `terminal_write` writes: up to the NUL, and at most `nbytes`. -/
def writtenBytes : Option (List UInt8) → Int → List UInt8
  | none, _ => []
  | some buf, nbytes => (cstr buf).take nbytes.toNat

/-- The history after one more call. -/
def sessionsAfter (k : Kernel) (e : ScreenEvent) (_ : Kernel) (g : Sessions) : Sessions :=
  match e with
  | .terminalWrite buf nbytes =>
      { g with
        written := Function.update g.written k.currTerm
          (g.written k.currTerm ++ writtenBytes buf nbytes) }
  | .switchTask _ => g
  | .switchTerminal newt _ _ =>
      if k.Opens newt then
        ⟨Function.update g.base newt PrivateScreen.blank, Function.update g.written newt []⟩
      else g

/-! ## `terminal_write` -/

theorem foldl_logical_putc (l : List UInt8) : ∀ {d : Cells} {s : PrivateScreen},
    d.logical = s.logical → (l.foldl Cells.putc d).logical = (l.foldl PrivateScreen.putc s).logical := by
  induction l with
  | nil => intro d s h; exact h
  | cons c l ih => intro d s h; exact ih (Cells.logical_putc h c)

namespace Kernel

variable {lay : Layout} {fs : FileSys} {k : Kernel}

theorem cells_foldl_emit (l : List UInt8) : ∀ (k : Kernel) (t : Nat),
    (l.foldl emit k).cells t
      = if t = k.currTerm then l.foldl Cells.putc (k.cells t) else k.cells t := by
  induction l with
  | nil => intro k t; simp
  | cons c l ih =>
      intro k t
      have hterm : (k.emit c).currTerm = k.currTerm := congrArg Core.currTerm (k.core_emit c)
      rw [List.foldl_cons, ih, hterm, cells_emit]
      split_ifs <;> rfl

/-- The loop over the indices writes these bytes. -/
theorem terminalWrite_eq_foldl (buf : List UInt8) (n : Nat) :
    (k.terminalWrite buf n).2 = ((cstr buf).take n).foldl emit k := by
  have hbytes : (List.range (if strlen buf < n then strlen buf else n)).map (fun i => buf.getD i 0)
      = (cstr buf).take n := by
    have hpre : cstr buf <+: buf := List.takeWhile_prefix _
    refine List.ext_getElem ?_ (fun i hi hi' => ?_)
    · rw [List.length_map, List.length_range, List.length_take, strlen_eq_length_cstr]
      split_ifs <;> omega
    · rw [List.length_take] at hi'
      have hlt : i < (cstr buf).length := by omega
      rw [List.getElem_map, List.getElem_range, List.getElem_take,
        List.getD_eq_getElem _ _ (hlt.trans_le hpre.length_le), hpre.getElem hlt]
  rw [← hbytes, List.foldl_map]
  rfl

theorem terminalWriteChecked_eq (buf : Option (List UInt8)) (nbytes : Int) :
    (k.terminalWriteChecked buf nbytes).2 = (writtenBytes buf nbytes).foldl emit k := by
  unfold terminalWriteChecked writtenBytes
  split
  · rfl
  · split_ifs with hneg
    · rw [Int.toNat_of_nonpos (by omega), List.take_zero]
      rfl
    · exact terminalWrite_eq_foldl _ _

/-! ## Ticks and view switches -/

theorem readScreen_congr {mem mem' : Nat → UInt8} {x y : Int}
    (h : ∀ n, n < 4000 → n % 2 = 0 → mem' n = mem n) : readScreen mem' x y = readScreen mem x y := by
  ext1
  · funext j i
    have hj := j.isLt
    have hi := i.isLt
    exact h _ (by omega) (by omega)
  · rfl
  · rfl

/-- The clearing loop leaves a blank screen. -/
theorem readScreen_blankScreen (mem : Nat → UInt8) :
    readScreen (blankScreen mem) 0 0 = PrivateScreen.blank.logical := by
  have hblank : readScreen (blankScreen mem) 0 0 = readScreen (fun _ => 0) 0 0 := by
    refine readScreen_congr (fun n hn heven => (if_pos ?_).trans (if_pos heven))
    simp only [numRows, numCols]
    omega
  exact hblank

/-- A logical screen is in the devices. -/
theorem logicalScreen_congr {k' : Kernel} (hd : k'.devices = k.devices)
    (hview : k'.currTerminalNumber = k.currTerminalNumber) (t : Nat) :
    k'.logicalScreen t = k.logicalScreen t := by
  have hterm : (k'.terminals t).devices = (k.terminals t).devices :=
    congrFun (congrArg Devices.terminal hd) t
  have hsaved : readScreen (k'.terminals t).screen (k'.terminals t).x (k'.terminals t).y
      = readScreen (k.terminals t).screen (k.terminals t).x (k.terminals t).y :=
    congrArg (fun d : TerminalDevices => readScreen d.screen d.x d.y) hterm
  have hvideo : readScreen k'.videoMem k'.screenX k'.screenY
      = readScreen k.videoMem k.screenX k.screenY :=
    congrArg (fun d : Devices => readScreen d.videoMem d.screenX d.screenY) hd
  unfold logicalScreen
  rw [hview, hsaved, hvideo]

/-- `switch_task` touches attribute bytes only. -/
theorem logicalScreen_switchTo (t' : Nat) (frame : Frame) (t : Nat) :
    (k.switchTo lay t' frame).2.logicalScreen t = k.logicalScreen t := by
  have hview : (k.switchTo lay t' frame).2.currTerminalNumber = k.currTerminalNumber :=
    congrArg Core.currTerminalNumber (k.core_switchTo lay t' frame).1
  refine (logicalScreen_congr (k.devices_switchTo lay t' frame) hview t).trans ?_
  unfold logicalScreen setTerminal
  dsimp only
  split_ifs with ht
  · rfl
  · by_cases heq : t = t'
    · subst heq
      rw [Function.update_self]
      refine readScreen_congr (fun n _ heven => if_neg ?_)
      omega
    · rw [Function.update_of_ne heq]

/-- Where the logical screens are after `save_terminal_state`: all of them in the structs. -/
theorem logicalScreen_save (t : Nat) :
    readScreen (k.saveTerminalState.terminals t).screen (k.saveTerminalState.terminals t).x
        (k.saveTerminalState.terminals t).y
      = k.logicalScreen t := by
  unfold logicalScreen saveTerminalState setTerminal
  dsimp only
  split_ifs with ht
  · rw [ht, Function.update_self]
    refine readScreen_congr (fun n hn _ => if_pos ?_)
    simp only [numRows, numCols]
    omega
  · rw [Function.update_of_ne ht]

/-- **A view switch changes no logical screen.** -/
theorem logicalScreen_viewTerminal (newt t : Nat) :
    (k.viewTerminal lay newt).logicalScreen t = k.logicalScreen t := by
  have hdev : (k.viewTerminal lay newt).devices
      = (k.saveTerminalState.restoreTerminalState newt).devices := by
    unfold viewTerminal backgroundVideo
    dsimp only
    split_ifs <;> rfl
  have hview : (k.viewTerminal lay newt).currTerminalNumber = newt :=
    congrArg Core.currTerminalNumber (k.core_viewTerminal lay newt)
  have hsame := @logicalScreen_congr { k.saveTerminalState.restoreTerminalState newt with
    currTerminalNumber := newt } (k.viewTerminal lay newt) hdev hview t
  rw [hsame, ← logicalScreen_save (k := k) t]
  unfold logicalScreen
  dsimp only
  split_ifs with ht
  · subst ht
    refine readScreen_congr (fun n hn _ => if_pos ?_)
    simp only [numRows, numCols]
    omega
  · rfl

/-- A terminal that is opened starts blank, and the others keep their screens. -/
theorem logicalScreen_openTerminal {newt : Nat} {frame : Frame} {env : ExecEnv} {entry : UInt32}
    (h : (k.openTerminal fs newt frame env).1 = .started entry) (t : Nat) :
    (k.openTerminal fs newt frame env).2.logicalScreen t
      = if t = newt then PrivateScreen.blank.logical else k.logicalScreen t := by
  have hview : (k.openTerminal fs newt frame env).2.currTerminalNumber = newt := by
    have hexec := k.core_openTerminal fs newt frame env
    rw [h] at hexec
    obtain ⟨p, -, -, hc⟩ := hexec.started_spec
    exact congrArg Core.currTerminalNumber hc
  unfold openTerminal at h hview ⊢
  dsimp only at h hview ⊢
  generalize hm : Kernel.clear _ = m at h hview ⊢
  have hdev := m.devices_of_started fs h
  have hmview : m.currTerminalNumber = newt := by
    rw [← hm]
    exact congrArg Core.currTerminalNumber (core_clear _)
  rw [logicalScreen_congr hdev (hview.trans hmview.symm) t, ← logicalScreen_save (k := k) t, ← hm]
  unfold clear logicalScreen setPcb
  rw [if_neg (not_not.2 rfl)]
  dsimp only
  split_ifs with ht
  · exact readScreen_blankScreen _
  · rfl

end Kernel

/-! ## Runs -/

section Runs

variable {lay : Layout} {fs : FileSys} {k k' : Kernel} {g : Sessions}

/-- The kernel shows the private screens. -/
def ShowsSessions (k : Kernel) (g : Sessions) : Prop :=
  ∀ t, t < 3 → k.logicalScreen t = (g.screen t).logical

theorem ShowsSessions.of_eq (h : ShowsSessions k g)
    (hsame : ∀ t, k'.logicalScreen t = k.logicalScreen t) : ShowsSessions k' g :=
  fun t ht => (hsame t).trans (h t ht)

/-- A write applies `putc` to the private screen of the executing terminal. -/
theorem ShowsSessions.terminalWrite (h : ShowsSessions k g) (buf : Option (List UInt8)) (nbytes : Int) :
    ShowsSessions (k.terminalWriteChecked buf nbytes).2
      (sessionsAfter k (.terminalWrite buf nbytes) k' g) := by
  intro t ht
  have hold := h t ht
  rw [Kernel.logicalScreen_eq] at hold
  rw [Kernel.terminalWriteChecked_eq, Kernel.logicalScreen_eq, Kernel.cells_foldl_emit]
  unfold Sessions.screen sessionsAfter
  dsimp only
  split_ifs with hcur
  · subst hcur
    rw [Function.update_self, List.foldl_append]
    exact foldl_logical_putc _ hold
  · rw [Function.update_of_ne hcur]
    exact hold

/-- Opening a terminal starts a session on a blank screen. -/
theorem ShowsSessions.openTerminal (h : ShowsSessions k g) {newt : Nat} {frame : Frame} {env : ExecEnv}
    {entry : UInt32} (hopen : k.Opens newt)
    (hstart : (k.openTerminal fs newt frame env).1 = .started entry) :
    ShowsSessions (k.openTerminal fs newt frame env).2
      (sessionsAfter k (.switchTerminal newt frame env) k' g) := by
  intro t ht
  rw [Kernel.logicalScreen_openTerminal hstart]
  rw [Sessions.screen, sessionsAfter, if_pos hopen]
  dsimp only
  split_ifs with hnew
  · subst hnew
    rw [Function.update_self, Function.update_self]
    rfl
  · rw [Function.update_of_ne hnew, Function.update_of_ne hnew]
    exact h t ht

/-- The calls of `switch_terminal` that open no terminal. -/
theorem Kernel.logicalScreen_switchTerminal {newt : Nat} (hnot : ¬ k.Opens newt) (frame : Frame)
    (env : ExecEnv) (t : Nat) :
    (k.switchTerminal lay fs newt frame env).logicalScreen t = k.logicalScreen t := by
  unfold Kernel.switchTerminal
  split_ifs with h1 h2 h3
  · rfl
  · rfl
  · exact absurd ⟨h1, by omega, h3⟩ hnot
  · exact Kernel.logicalScreen_viewTerminal newt t

/-- One call. -/
theorem ShowsSessions.step (h : ShowsSessions k g) {e : ScreenEvent} (hok : k.ScreenOk fs e)
    (hstep : k.screenStep lay fs e = some k') : ShowsSessions k' (sessionsAfter k e k' g) := by
  cases e with
  | terminalWrite buf nbytes =>
      cases hstep
      exact h.terminalWrite buf nbytes
  | switchTask frame =>
      obtain ⟨r, hr, rfl⟩ := Option.map_eq_some_iff.1 hstep
      obtain ⟨t, -, rfl⟩ := Option.map_eq_some_iff.1 hr
      exact h.of_eq (Kernel.logicalScreen_switchTo t frame)
  | switchTerminal newt frame env =>
      cases hstep
      by_cases hopen : k.Opens newt
      · obtain ⟨entry, hstart⟩ := hok hopen
        have hk : k.switchTerminal lay fs newt frame env = (k.openTerminal fs newt frame env).2 := by
          unfold Kernel.switchTerminal
          rw [if_neg hopen.1, if_neg (by have := hopen.2.1; omega), if_pos hopen.2.2]
        rw [hk]
        exact h.openTerminal hopen hstart
      · rw [sessionsAfter, if_neg hopen]
        exact h.of_eq (Kernel.logicalScreen_switchTerminal hopen frame env)

end Runs

/-- **Each terminal behaves as a private screen.** From any state that shows a screen for each terminal,
    in every interleaving of writes, ticks and terminal switches (an opened terminal gets its shell and
    starts blank), the logical screen of every terminal is the one that `putc` makes of the bytes
    written while it was executing. A switch of the view changes no logical screen. -/
theorem private_screens (lay : Layout) (fs : FileSys) (k₀ : Kernel) (start : Nat → PrivateScreen)
    (hstart : ∀ t, t < 3 → k₀.logicalScreen t = (start t).logical) (s : Kernel × Sessions)
    (hrun : Reaches (withGhost (Kernel.screenStep lay fs) sessionsAfter) (fun s e => s.1.ScreenOk fs e)
      (k₀, ⟨start, fun _ => []⟩) s) :
    (∀ t, t < 3 → s.1.logicalScreen t
      = PrivateScreen.logical ((s.2.written t).foldl PrivateScreen.putc (s.2.base t)))
    ∧ ∀ newt frame env, ¬ s.1.Opens newt → ∀ t,
      (s.1.switchTerminal lay fs newt frame env).logicalScreen t = s.1.logicalScreen t := by
  refine ⟨?_, fun newt frame env hnot t => Kernel.logicalScreen_switchTerminal hnot frame env t⟩
  refine hrun.invariant (I := fun s => ShowsSessions s.1 s.2)
    (show ShowsSessions k₀ ⟨start, fun _ => []⟩ from hstart) ?_
  intro s e s' hs hok hstep
  obtain ⟨hk, hg⟩ := withGhost_eq_some hstep
  rw [hg]
  exact hs.step hok hk

/-- With the first shell every terminal shows a blank screen. -/
theorem logicalScreen_boot {lay : Layout} {fs : FileSys} {mem : BootMemory} {env : ExecEnv}
    {entry : UInt32} (hboot : ((Kernel.boot lay mem).execute fs shellName env).1 = .started entry)
    {t : Nat} (ht : t < 3) :
    ((Kernel.boot lay mem).execute fs shellName env).2.logicalScreen t = PrivateScreen.blank.logical := by
  have hview : ((Kernel.boot lay mem).execute fs shellName env).2.currTerminalNumber
      = (Kernel.boot lay mem).currTerminalNumber := by
    obtain ⟨p, -, -, hc⟩ := (Kernel.boot lay mem).core_started fs hboot
    exact congrArg Core.currTerminalNumber hc
  rw [Kernel.logicalScreen_congr ((Kernel.boot lay mem).devices_of_started fs hboot) hview t]
  have hzero : (Kernel.boot lay mem).currTerminalNumber = 0 := rfl
  unfold Kernel.logicalScreen
  rw [hzero]
  split_ifs with h0
  · exact Kernel.readScreen_blankScreen mem.videoMem
  · -- `terminal_init` writes zeros over zeros
    have hterm : ((Kernel.boot lay mem).terminals t).cells
        = ⟨Function.update (Function.update (fun _ => 0) (t * 2) 0) (t * 2 + 1) attrib, 0, 0⟩ := by
      simp [Kernel.boot, Kernel.entry, Kernel.clearProcess, Kernel.terminalInit, Kernel.pagingInit,
        Kernel.keyboardInit, Kernel.clear, Kernel.loaded, Terminal.cells, ht]
    refine (congrArg Cells.logical hterm).trans ?_
    refine @Kernel.readScreen_congr (fun _ => 0) _ 0 0 (fun n _ heven => ?_)
    dsimp only
    rw [Function.update_of_ne (by omega), Function.update_apply, ite_self]

/-- The first shell writes a line. -/
theorem private_screens_hello :
    ((sampleShell.terminalWriteChecked (some [104, 105, 10]) 3).2).logicalScreen 0
      = PrivateScreen.logical ([104, 105, 10].foldl PrivateScreen.putc PrivateScreen.blank) :=
  (private_screens sampleLayout sampleFs sampleShell (fun _ => PrivateScreen.blank)
    (fun _ ht => logicalScreen_boot sampleShell_started ht) (_, _)
    (Reaches.refl.tail (e := .terminalWrite (some [104, 105, 10]) 3) trivial rfl)).1 0 (by decide)

end UnixTerminal
