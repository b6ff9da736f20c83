import UnixTerminal.Proofs.InputLines
import UnixTerminal.Proofs.PrivateScreens

set_option autoImplicit false

/-! # The cursor stays on the screen

`OnScreen` says of the cells of a screen that the cursor is in one of the 2000 cells and that the
memory behind them is as it was at the start: no character was stored outside. Everything that prints,
clears, scrolls or switches keeps this, from whatever contents. Backspace at the start of a row puts
the cursor behind the last character of the row above, and this is no cell when that row is full. -/

namespace UnixTerminal

/-- The cursor is in a cell, and behind the cells is `past`. -/
structure Cells.OnScreen (past : Nat → UInt8) (d : Cells) : Prop where
  x_nonneg : 0 ≤ d.x
  x_lt : d.x < 80
  y_nonneg : 0 ≤ d.y
  y_lt : d.y < 25
  behind : ∀ i, 4000 ≤ i → d.mem i = past i

namespace Cells

variable {past : Nat → UInt8} {d : Cells}

/-- The cell under the cursor. -/
theorem OnScreen.cell_lt (h : d.OnScreen past) :
    0 ≤ 80 * d.y + d.x ∧ 80 * d.y + d.x < 2000 := by
  have hx := h.x_lt
  have hy := h.y_lt
  have hx0 := h.x_nonneg
  have hy0 := h.y_nonneg
  omega

/-- The cursor in the first cell. -/
theorem OnScreen.home {mem : Nat → UInt8} (h : ∀ i, 4000 ≤ i → mem i = past i) :
    (⟨mem, 0, 0⟩ : Cells).OnScreen past := by
  constructor <;> first | exact h | simp

/-- Other cells and another cursor, with the same memory behind the cells. -/
theorem OnScreen.to (h : d.OnScreen past) {mem : Nat → UInt8} (hmem : ∀ i, 4000 ≤ i → mem i = d.mem i)
    {x y : Int} (hx0 : 0 ≤ x) (hx : x < 80) (hy0 : 0 ≤ y) (hy : y < 25) :
    (⟨mem, x, y⟩ : Cells).OnScreen past :=
  ⟨hx0, hx, hy0, hy, fun i hi => (hmem i hi).trans (h.behind i hi)⟩

theorem OnScreen.moveTo (h : d.OnScreen past) {x y : Int} (hx0 : 0 ≤ x) (hx : x < 80) (hy0 : 0 ≤ y)
    (hy : y < 25) : ({ d with x := x, y := y } : Cells).OnScreen past :=
  h.to (fun _ _ => rfl) hx0 hx hy0 hy

/-! ## Memory behind the cells -/

theorem putCell_behind (mem : Nat → UInt8) {x y : Int} (hx0 : 0 ≤ x) (hx : x < 80) (hy0 : 0 ≤ y)
    (hy : y < 25) (c : UInt8) {i : Nat} (hi : 4000 ≤ i) : putCell mem x y c i = mem i := by
  have hcell : ((numCols * y + x) * 2).toNat + 1 < i := by
    simp only [numCols]
    omega
  simp only [putCell]
  rw [Function.update_of_ne (by omega), Function.update_of_ne (by omega)]

/-- A byte that no pass of a loop writes. -/
theorem foldl_behind {f : (Nat → UInt8) → Nat → Nat → UInt8} {n : Nat} (l : List Nat)
    (hf : ∀ (m : Nat → UInt8), ∀ i ∈ l, f m i n = m n) (m : Nat → UInt8) : l.foldl f m n = m n := by
  induction l generalizing m with
  | nil => rfl
  | cons i l ih =>
      rw [List.foldl_cons, ih (fun m i hi => hf m i (List.mem_cons_of_mem _ hi)),
        hf m i List.mem_cons_self]

theorem scrollScreen_behind (mem : Nat → UInt8) {n : Nat} (hn : 4000 ≤ n) :
    scrollScreen mem n = mem n := by
  refine foldl_behind (List.range numCols) (fun m i hi => ?_) mem
  refine foldl_behind (List.range numRows) (fun m j hj => ?_) m
  have hi := List.mem_range.1 hi
  have hj := List.mem_range.1 hj
  simp only [numCols, numRows] at hi hj
  simp only [scrollCell, numCols]
  rw [Function.update_of_ne (by omega), Function.update_of_ne (by omega)]

theorem blankScreen_behind (mem : Nat → UInt8) {i : Nat} (hi : 4000 ≤ i) : blankScreen mem i = mem i :=
  if_neg (Nat.not_lt.2 hi)

theorem attribScreen_behind (mem : Nat → UInt8) {i : Nat} (hi : 4000 ≤ i) : attribScreen mem i = mem i :=
  if_neg (fun h => Nat.not_lt.2 hi h.1)

/-! ## Printing -/

theorem OnScreen.scroll (h : d.OnScreen past) :
    (⟨scrollScreen d.mem, 0, numRows - 1⟩ : Cells).OnScreen past :=
  h.to (fun _ => scrollScreen_behind d.mem) (by decide) (by decide) (by decide) (by decide)

theorem OnScreen.put (h : d.OnScreen past) (c : UInt8) :
    ({ d with mem := putCell d.mem d.x d.y c } : Cells).OnScreen past :=
  { h with behind := fun i hi =>
      (putCell_behind d.mem h.x_nonneg h.x_lt h.y_nonneg h.y_lt c hi).trans (h.behind i hi) }

theorem OnScreen.putc (h : d.OnScreen past) (c : UInt8) : (d.putc c).OnScreen past := by
  have hput := h.put c
  have hx := h.x_lt
  have hy := h.y_lt
  have hx0 := h.x_nonneg
  have hy0 := h.y_nonneg
  unfold Cells.putc
  dsimp only
  by_cases hnl : c = 10 ∨ c = 13
  · rw [if_pos hnl]
    by_cases hlast : d.y = numRows - 1
    · rw [if_pos hlast]
      exact h.scroll
    · rw [if_neg hlast]
      simp only [numRows] at hlast
      exact h.moveTo (by omega) (by omega) (by omega) (by omega)
  · rw [if_neg hnl]
    by_cases hcorner : d.x = numCols - 1 ∧ d.y = numRows - 1
    · rw [if_pos hcorner]
      exact hput.scroll
    · rw [if_neg hcorner]
      simp only [numCols, numRows] at hcorner ⊢
      refine hput.moveTo (by omega) (by omega) ?_ ?_
      -- the row changes behind column 79 only, and then it is not the last one
      · split_ifs <;> omega
      · split_ifs <;> omega

theorem OnScreen.clear (h : d.OnScreen past) : (⟨blankScreen d.mem, 0, 0⟩ : Cells).OnScreen past :=
  h.to (fun _ => blankScreen_behind d.mem) (by decide) (by decide) (by decide) (by decide)

end Cells

/-! ## The kernel -/

/-- The viewed screen and the saved screens of the three terminals. -/
structure Kernel.OnScreen (past : Nat → UInt8) (pasts : Nat → Nat → UInt8) (k : Kernel) : Prop where
  viewed : k.videoCells.OnScreen past
  saved : ∀ t, t < 3 → (k.terminals t).cells.OnScreen (pasts t)

namespace Kernel

variable {past : Nat → UInt8} {pasts : Nat → Nat → UInt8} {k : Kernel}

namespace OnScreen

/-- A step that leaves the screens alone. -/
theorem congr (h : k.OnScreen past pasts) {k' : Kernel} (hvideo : k'.videoCells = k.videoCells)
    (hsaved : ∀ t, t < 3 → (k'.terminals t).cells = (k.terminals t).cells) : k'.OnScreen past pasts where
  viewed := hvideo ▸ h.viewed
  saved t ht := hsaved t ht ▸ h.saved t ht

theorem of_devices (h : k.OnScreen past pasts) {k' : Kernel} (hd : k'.devices = k.devices) :
    k'.OnScreen past pasts :=
  h.congr (congrArg (fun d => (⟨d.videoMem, d.screenX, d.screenY⟩ : Cells)) hd)
    (fun t _ => congrArg (fun d => (⟨(d.terminal t).screen, (d.terminal t).x, (d.terminal t).y⟩ : Cells)) hd)

/-- A write to one terminal struct. -/
theorem setTerminal (h : k.OnScreen past pasts) (t : Nat) (f : Terminal → Terminal)
    (hf : t < 3 → (f (k.terminals t)).cells.OnScreen (pasts t)) :
    (k.setTerminal t f).OnScreen past pasts where
  viewed := h.viewed
  saved t' ht' := by
    by_cases heq : t' = t
    · subst heq
      simpa [Kernel.setTerminal] using hf ht'
    · simpa [Kernel.setTerminal, Function.update_of_ne heq] using h.saved t' ht'

/-! ### Output -/

theorem putc (h : k.OnScreen past pasts) (c : UInt8) : (k.putc c).OnScreen past pasts where
  viewed := by
    rw [videoCells_putc]
    exact h.viewed.putc c
  saved t ht := by
    rw [terminals_putc]
    exact h.saved t ht

theorem putcNodisplay (h : k.OnScreen past pasts) (c : UInt8) :
    (k.putcNodisplay c).OnScreen past pasts where
  viewed := by
    rw [videoCells_putcNodisplay]
    exact h.viewed
  saved t ht := by
    by_cases hcur : t = k.currTerm
    · subst hcur
      rw [cells_putcNodisplay]
      exact (h.saved _ ht).putc c
    · rw [terminals_putcNodisplay_of_ne k c hcur]
      exact h.saved t ht

/-- A loop whose passes keep the cursors on the screens. -/
theorem foldl {α : Type} {f : Kernel → α → Kernel} (l : List α)
    (hf : ∀ k a, k.OnScreen past pasts → (f k a).OnScreen past pasts) (h : k.OnScreen past pasts) :
    (l.foldl f k).OnScreen past pasts := by
  induction l generalizing k with
  | nil => exact h
  | cons a l ih => exact ih (hf k a h)

theorem puts (h : k.OnScreen past pasts) (s : List UInt8) : (k.puts s).OnScreen past pasts :=
  h.foldl s (fun _ c h => h.putc c)

theorem terminalWrite (h : k.OnScreen past pasts) (buf : List UInt8) (n : Nat) :
    (k.terminalWrite buf n).2.OnScreen past pasts := by
  refine h.foldl _ (fun k i h => ?_)
  split_ifs
  · exact h.putc _
  · exact h.putcNodisplay _

theorem keyboardWrite (h : k.OnScreen past pasts) (buf : List UInt8) :
    (k.keyboardWrite buf).2.OnScreen past pasts := by
  unfold Kernel.keyboardWrite
  split_ifs
  · exact h.foldl _ (fun _ _ h => h.putc _)
  · exact h

theorem vertScroll (h : k.OnScreen past pasts) : k.vertScroll.OnScreen past pasts :=
  ⟨h.viewed.scroll, h.saved⟩

theorem clear (h : k.OnScreen past pasts) : k.clear.OnScreen past pasts := by
  unfold Kernel.clear clearNodisplay
  split_ifs
  · exact h.setTerminal _ _ (fun ht => (h.saved _ ht).clear)
  · exact ⟨h.viewed.clear, h.saved⟩

/-! ### Keys -/

theorem command (h : k.OnScreen past pasts) {fs : FileSys} {k' : Kernel} (hcmd : CommandStep fs k k') :
    k'.OnScreen past pasts := by
  cases hcmd with
  | listFiles dirReadIdx =>
      unfold Kernel.listFiles
      have hclear := h.clear
      generalize k.clear = m at hclear ⊢
      generalize List.range fs.numDentries = l
      induction l generalizing dirReadIdx m with
      | nil => exact hclear
      | cons a l ih => exact ih _ _ ((hclear.terminalWrite _ _).putc 10)
  | showFile d =>
      exact (((h.clear.foldl _ (fun _ _ h => h.putc _)).putc 10).terminalWrite _ _).terminalWrite _ _
  | noFile => exact h.clear
  | toggleFreq => exact h.clear.congr rfl (fun _ _ => rfl)
  | setRate => exact h.clear.congr rfl (fun _ _ => rfl)

theorem typeChar (h : k.OnScreen past pasts) (c : UInt8) : (k.typeChar c).OnScreen past pasts := by
  unfold Kernel.typeChar
  split_ifs with hfull hcorner
  · exact h
  · have hset : ({ k.vertScroll.setLine k.vertScroll.keyboardIdx.toNat c with
        keyboardIdx := k.vertScroll.keyboardIdx + 1 } : Kernel).OnScreen past pasts :=
      h.vertScroll.congr rfl (fun _ _ => rfl)
    exact (hset.keyboardWrite _).congr rfl (fun _ _ => rfl)
  · have hset : ({ k.setLine k.keyboardIdx.toNat c with
        keyboardIdx := k.keyboardIdx + 1 } : Kernel).OnScreen past pasts :=
      h.congr rfl (fun _ _ => rfl)
    exact (hset.keyboardWrite _).congr rfl (fun _ _ => rfl)

theorem enterLine (h : k.OnScreen past pasts) : k.enterLine.OnScreen past pasts := by
  have hy := h.viewed.y_lt
  have hy0 := h.viewed.y_nonneg
  unfold Kernel.enterLine
  dsimp only
  have hrow : ({ (if k.screenY ≠ numRows - 1 then { k with screenY := k.screenY + 1 } else k.vertScroll)
      with screenX := 0 } : Kernel).OnScreen past pasts := by
    split_ifs with hlast
    · have hnext : k.screenY + 1 < 25 := by
        simp only [numRows] at hlast
        simp only [Kernel.videoCells] at hy
        omega
      have hcells : (⟨k.videoMem, 0, k.screenY + 1⟩ : Cells).OnScreen past :=
        h.viewed.moveTo (Int.le_refl 0) (by decide) (Int.le_add_one hy0) hnext
      exact ⟨hcells, h.saved⟩
    · exact h.vertScroll.congr rfl (fun _ _ => rfl)
  generalize (if k.screenY ≠ numRows - 1 then { k with screenY := k.screenY + 1 }
    else k.vertScroll) = m at hrow ⊢
  refine setTerminal (k := (({ m with screenX := 0 } : Kernel).updateCursor m.screenY 0).setLine
    m.keyboardIdx.toNat 10) (hrow.congr rfl fun _ _ => rfl) _ _ (fun ht => hrow.saved _ ht)

theorem clearLine (h : k.OnScreen past pasts) : k.clearLine.OnScreen past pasts :=
  h.clear.congr rfl (fun _ _ => rfl)

end OnScreen

/-! ### Backspace -/

/-- No cell of a row is NUL. -/
def RowFull (k : Kernel) (row : Int) : Prop :=
  ∀ i : Nat, i < numCols → k.videoMem ((numCols * row + i) * 2).toNat ≠ 0

/-- `find_last_char`: a column, unless the row is empty or full. -/
theorem findLastChar_bounds (k : Kernel) (row : Int) :
    -1 ≤ k.findLastChar row ∧ k.findLastChar row ≤ 79 ∧ (k.findLastChar row = 79 ↔ k.RowFull row) := by
  unfold findLastChar
  cases hfind : (List.range numCols).find? (fun (i : Nat) =>
      k.videoMem ((numCols * row + i) * 2).toNat = 0) with
  | none =>
      rw [List.find?_eq_none] at hfind
      refine ⟨by decide, by decide, fun _ i hi hnul => ?_, fun _ => rfl⟩
      exact hfind i (List.mem_range.2 hi) (by simpa using hnul)
  | some i =>
      have hi := List.mem_range.1 (List.mem_of_find?_eq_some hfind)
      have hnul := List.find?_some hfind
      simp only [numCols] at hi
      dsimp only
      refine ⟨by omega, by omega, fun h => by omega, fun hfull => ?_⟩
      exact absurd (by simpa using hnul) (hfull i hi)

/-- Backspace at the start of a row below a full one, with characters in the line. -/
def ErasesFullRow (k : Kernel) : Prop :=
  k.keyboardIdx ≠ 0 ∧ k.screenX = 0 ∧ k.screenY ≠ 0 ∧ k.RowFull (k.screenY - 1)

/-- Elsewhere, Backspace leaves the cursor in a cell. -/
theorem OnScreen.handleBackspace (h : k.OnScreen past pasts) (hgo : k.screenX + k.screenY ≠ 0)
    (hrow : ¬ k.ErasesFullRow) : k.handleBackspace.OnScreen past pasts := by
  have hx : k.screenX < 80 := h.viewed.x_lt
  have hy : k.screenY < 25 := h.viewed.y_lt
  have hx0 : 0 ≤ k.screenX := h.viewed.x_nonneg
  have hy0 : 0 ≤ k.screenY := h.viewed.y_nonneg
  obtain ⟨hlow, hhigh, hfull⟩ := k.findLastChar_bounds (k.screenY - 1)
  unfold Kernel.handleBackspace
  by_cases hidx : k.keyboardIdx ≠ 0
  · rw [if_pos hidx]
    dsimp only
    by_cases hempty : (k.screenX = 0 ∧ k.screenY ≠ 0) ∧ k.findLastChar (k.screenY - 1) = -1
    · rw [if_pos hempty]
      have hup : (⟨k.videoMem, k.screenX, k.screenY - 1⟩ : Cells).OnScreen past :=
        h.viewed.moveTo hx0 hx (by omega) (by omega)
      exact ⟨hup, h.saved⟩
    · rw [if_neg hempty]
      have hnot79 : k.screenX = 0 → k.screenY ≠ 0 → k.findLastChar (k.screenY - 1) ≠ 79 :=
        fun h0 hne h79 => hrow ⟨hidx, h0, hne, hfull.1 h79⟩
      -- the new cursor
      have hxnew : 0 ≤ (if k.screenX = 0 ∧ k.screenY ≠ 0 then k.findLastChar (k.screenY - 1) + 2
            else k.screenX) - 1 ∧
          (if k.screenX = 0 ∧ k.screenY ≠ 0 then k.findLastChar (k.screenY - 1) + 2
            else k.screenX) - 1 < 80 := by
        split_ifs with hwrap
        · have hne := hnot79 hwrap.1 hwrap.2
          omega
        · omega
      have hynew : 0 ≤ (if k.screenX = 0 ∧ k.screenY ≠ 0 then k.screenY - 1 else k.screenY) ∧
          (if k.screenX = 0 ∧ k.screenY ≠ 0 then k.screenY - 1 else k.screenY) < 25 := by
        split_ifs <;> omega
      generalize (if k.screenX = 0 ∧ k.screenY ≠ 0 then k.findLastChar (k.screenY - 1) + 2
        else k.screenX) - 1 = x at hxnew ⊢
      generalize (if k.screenX = 0 ∧ k.screenY ≠ 0 then k.screenY - 1 else k.screenY) = y at hynew ⊢
      have hmoved : (⟨k.videoMem, x, y⟩ : Cells).OnScreen past :=
        h.viewed.moveTo hxnew.1 hxnew.2 hynew.1 hynew.2
      generalize hn : ({ k with screenX := x, screenY := y } : Kernel).setLine
        (k.keyboardIdx.toNat - 1) 0 = n
      generalize hm : ({ n with lastIdx := n.lastIdx - 1 } : Kernel) = m
      have hmOn : m.OnScreen past pasts := by
        rw [← hm, ← hn]
        exact ⟨hmoved, h.saved⟩
      have hwritten := hmOn.keyboardWrite m.lineBytes
      have hback : (⟨(m.keyboardWrite m.lineBytes).2.videoMem, x, y⟩ : Cells).OnScreen past :=
        hwritten.viewed.moveTo hxnew.1 hxnew.2 hynew.1 hynew.2
      exact ⟨hback, hwritten.saved⟩
  · rw [if_neg hidx]
    exact ⟨h.viewed, h.saved⟩

/-- The handler does not come here with the cursor in the first cell. -/
theorem cursor_of_erase {status keycode : UInt8} {keys : Keys}
    (h : k.keyAction status keycode keys = .erase) : k.screenX + k.screenY ≠ 0 := by
  unfold keyAction at h
  split_ifs at h with _ herase
  · exact herase.2
  · unfold asciiAction at h
    dsimp only at h
    split_ifs at h

/-- There, it leaves the cursor behind the last column. -/
theorem screenX_of_erasesFullRow (h : k.ErasesFullRow) : k.handleBackspace.screenX = 80 := by
  obtain ⟨hidx, hx, hy, hfull⟩ := h
  have h79 := (k.findLastChar_bounds (k.screenY - 1)).2.2.2 hfull
  have hne : ¬ ((k.screenX = 0 ∧ k.screenY ≠ 0) ∧ k.findLastChar (k.screenY - 1) = -1) := by
    rw [h79]
    exact fun h => absurd h.2 (by decide)
  have hwrap : k.screenX = 0 ∧ k.screenY ≠ 0 := ⟨hx, hy⟩
  unfold Kernel.handleBackspace
  rw [if_pos hidx]
  dsimp only
  rw [if_neg hne]
  change (if k.screenX = 0 ∧ k.screenY ≠ 0 then k.findLastChar (k.screenY - 1) + 2
    else k.screenX) - 1 = 80
  rw [if_pos hwrap, h79]
  rfl

/-! ### Processes and terminals -/

namespace OnScreen

variable {lay : Layout} {fs : FileSys}

theorem execute (h : k.OnScreen past pasts) (command : List UInt8) (env : ExecEnv) :
    (k.execute fs command env).2.OnScreen past pasts := by
  rcases k.devices_execute fs command env with ⟨-, hd⟩ | ⟨-, hfull⟩
  · exact h.of_devices hd
  · rw [hfull]
    exact h.puts _

theorem haltWith (h : k.OnScreen past pasts) (eax : UInt32) (env : ExecEnv) :
    (k.haltWith fs eax env).2.OnScreen past pasts := by
  rcases k.devices_haltWith fs eax env with hd | ⟨m, hm, hd⟩
  · exact h.of_devices hd
  · exact ((h.of_devices hm).puts tooManyProcesses).of_devices hd

theorem switchTo (h : k.OnScreen past pasts) (t : Nat) (frame : Frame) :
    (k.switchTo lay t frame).2.OnScreen past pasts := by
  refine OnScreen.of_devices ?_ (k.devices_switchTo lay t frame)
  refine h.setTerminal t _ (fun ht => ?_)
  have ht := h.saved t ht
  exact ht.to (fun _ => Cells.attribScreen_behind _) ht.x_nonneg ht.x_lt ht.y_nonneg ht.y_lt

theorem saveTerminalState (h : k.OnScreen past pasts) : k.saveTerminalState.OnScreen past pasts := by
  refine h.setTerminal _ _ (fun ht => ?_)
  have hv := h.viewed
  exact (h.saved _ ht).to (fun _ hi => if_neg (Nat.not_lt.2 hi)) hv.x_nonneg hv.x_lt hv.y_nonneg hv.y_lt

theorem restoreTerminalState (h : k.OnScreen past pasts) {newt : Nat} (hnew : newt < 3) :
    (k.restoreTerminalState newt).OnScreen past pasts := by
  have ht := h.saved newt hnew
  exact ⟨h.viewed.to (fun _ hi => if_neg (Nat.not_lt.2 hi)) ht.x_nonneg ht.x_lt ht.y_nonneg ht.y_lt,
    h.saved⟩

theorem switchTerminal (h : k.OnScreen past pasts) (newt : Nat) (frame : Frame) (env : ExecEnv) :
    (k.switchTerminal lay fs newt frame env).OnScreen past pasts := by
  unfold Kernel.switchTerminal
  split_ifs with hsame hout hactive
  · exact h
  · exact h
  · have hopen : ({ ({ k.saveTerminalState with currTerminalNumber := newt } : Kernel).setPcb
          (getPcbPointer (k.saveTerminalState.terminals k.currTerminalNumber).currentProcess)
          (fun p => { p with espSwitch := frame.esp, ebpSwitch := frame.ebp }) with
        currTerm := newt } : Kernel).OnScreen past pasts :=
      h.saveTerminalState.congr rfl (fun _ _ => rfl)
    exact hopen.clear.execute shellName env
  · have hview := h.saveTerminalState.restoreTerminalState (by omega : newt < 3)
    unfold viewTerminal backgroundVideo
    dsimp only
    split_ifs
    · exact hview.congr rfl (fun _ _ => rfl)
    · exact hview.congr rfl (fun _ _ => rfl)

/-! ### System calls on descriptors -/

theorem read (h : k.OnScreen past pasts) {fd : Int} {buf : UInt32} {nbytes : Int} {r : Transfer × Kernel}
    (hr : k.read fs fd buf nbytes = some r) : r.2.OnScreen past pasts := by
  unfold Kernel.read at hr
  split at hr
  · obtain rfl := Option.some.inj hr
    exact h
  · split at hr
    · obtain rfl := Option.some.inj hr
      exact h
    · -- `keyboard_read` clears the Enter flag of one terminal
      unfold keyboardRead at hr
      split at hr
      · exact absurd hr (by simp)
      · obtain rfl := Option.some.inj hr
        exact (h.setTerminal k.currTerm (fun t => { t with termEnter := 0 })
          (fun ht => h.saved _ ht)).congr rfl (fun _ _ => rfl)
    · obtain rfl := Option.some.inj hr
      exact h
    · unfold rtcRead at hr
      split at hr
      · obtain rfl := Option.some.inj hr
        exact h.congr rfl (fun _ _ => rfl)
      · exact absurd hr (by simp)
    · obtain rfl := Option.some.inj hr
      exact h.congr rfl (fun _ _ => rfl)
    · obtain rfl := Option.some.inj hr
      unfold dirReadnew
      split <;> exact h.congr rfl (fun _ _ => rfl)
    · exact absurd hr (by simp)

theorem write (h : k.OnScreen past pasts) {fd : Int} {buf : UInt32} {bytes : List UInt8} {nbytes : Int}
    {r : Int × Kernel} (hr : k.write fd buf bytes nbytes = some r) : r.2.OnScreen past pasts := by
  unfold Kernel.write at hr
  split at hr
  · obtain rfl := Option.some.inj hr
    exact h
  · split at hr
    · obtain rfl := Option.some.inj hr
      exact h
    · obtain rfl := Option.some.inj hr
      exact h.keyboardWrite bytes
    · obtain rfl := Option.some.inj hr
      exact h.terminalWrite bytes _
    · obtain rfl := Option.some.inj hr
      unfold rtcWrite setRate
      split
      · exact h
      · split <;> exact h.congr rfl (fun _ _ => rfl)
    · obtain rfl := Option.some.inj hr
      exact h
    · obtain rfl := Option.some.inj hr
      exact h
    · exact absurd hr (by simp)

end OnScreen

/-! ## Runs -/

/-- Everything that moves a cursor: the entries of the kernel, and its own output. `print` is `putc`,
    `puts` or `printf`, by the characters that come out. -/
inductive ConsoleEvent
  | input (e : InputEvent)
  | print (s : List UInt8)
  | terminalWrite (buf : List UInt8) (nbytes : Nat)
  | clear

end Kernel

open Kernel

/-- One such event. -/
def consoleStep (lay : Layout) (fs : FileSys) (s : Keys × Kernel) : ConsoleEvent → Option (Keys × Kernel)
  | .input e => inputStep lay fs s e
  | .print cs => some (s.1, s.2.puts cs)
  | .terminalWrite buf nbytes => some (s.1, (s.2.terminalWrite buf nbytes).2)
  | .clear => some (s.1, s.2.clear)

/-- A Backspace that is handled at the start of a row below a full one. -/
def ErasesFullRow (s : Keys × Kernel) : ConsoleEvent → Prop
  | .input (.key status keycode _ _) =>
      s.2.keyAction status keycode s.1 = .erase ∧ s.2.ErasesFullRow
  | _ => False

section Step

variable {lay : Layout} {fs : FileSys} {past : Nat → UInt8} {pasts : Nat → Nat → UInt8}

theorem Kernel.OnScreen.key {k : Kernel} (h : k.OnScreen past pasts) {status keycode : UInt8} {keys : Keys}
    (hrow : ¬ (k.keyAction status keycode keys = .erase ∧ k.ErasesFullRow)) (frame : Frame) (env : ExecEnv) :
    (k.keyboardHandler lay fs status keycode frame env keys).2.OnScreen past pasts := by
  have hstep := k.keyboardHandler_step lay fs status keycode frame env keys
  have hgo : k.keyAction status keycode keys = .erase → k.screenX + k.screenY ≠ 0 := k.cursor_of_erase
  generalize (k.keyboardHandler lay fs status keycode frame env keys).2 = k' at hstep ⊢
  generalize k.keyAction status keycode keys = a at hstep hrow hgo
  cases hstep with
  | nothing => exact h
  | typed c => exact h.typeChar c
  | enter => exact h.enterLine
  | erase => exact h.handleBackspace (hgo rfl) (fun hfull => hrow ⟨rfl, hfull⟩)
  | clear => exact h.clearLine
  | command hcmd => exact h.command hcmd
  | chord newt => exact h.switchTerminal newt frame env

theorem Kernel.OnScreen.call {k k' : Kernel} (h : k.OnScreen past pasts) {e : Event}
    (hs : k.step lay fs e = some k') : k'.OnScreen past pasts := by
  cases e with
  | execute command env =>
      obtain rfl := Option.some.inj hs
      exact h.execute command env
  | halt status env =>
      obtain rfl := Option.some.inj hs
      exact h.haltWith _ env
  | haltFromExc env =>
      obtain rfl := Option.some.inj hs
      exact h.haltWith _ env
  | openFile filename =>
      obtain rfl := Option.some.inj hs
      exact h.of_devices (k.devices_openFile fs filename)
  | close fd =>
      obtain rfl := Option.some.inj hs
      exact h.of_devices (k.devices_close fd)
  | read fd buf nbytes =>
      obtain ⟨r, hr, rfl⟩ := Option.map_eq_some_iff.1 hs
      exact h.read hr
  | write fd buf bytes nbytes =>
      obtain ⟨r, hr, rfl⟩ := Option.map_eq_some_iff.1 hs
      exact h.write hr
  | vidmap screenStart =>
      obtain rfl := Option.some.inj hs
      unfold vidmap
      split_ifs <;> exact h.congr rfl (fun _ _ => rfl)
  | switchTask frame =>
      obtain ⟨r, hr, rfl⟩ := Option.map_eq_some_iff.1 hs
      obtain ⟨t, -, rfl⟩ := Option.map_eq_some_iff.1 hr
      exact h.switchTo t frame
  | switchTerminal newt frame env =>
      obtain rfl := Option.some.inj hs
      exact h.switchTerminal newt frame env
  | neighbours past =>
      obtain rfl := Option.some.inj hs
      exact h.congr rfl (fun t ht => by simp only [ht, if_true])

/-- **One event** keeps the cursors on the screens, unless it is a Backspace below a full row. -/
theorem onScreen_consoleStep {s s' : Keys × Kernel} (h : s.2.OnScreen past pasts) {e : ConsoleEvent}
    (hrow : ¬ ErasesFullRow s e) (hs : consoleStep lay fs s e = some s') : s'.2.OnScreen past pasts := by
  cases e with
  | input e =>
      cases e with
      | call e =>
          obtain ⟨k', hk, rfl⟩ := Option.map_eq_some_iff.1 hs
          exact h.call hk
      | key status keycode frame env =>
          obtain rfl := Option.some.inj hs
          exact h.key hrow frame env
  | print cs =>
      obtain rfl := Option.some.inj hs
      exact h.puts cs
  | terminalWrite buf nbytes =>
      obtain rfl := Option.some.inj hs
      exact h.terminalWrite buf nbytes
  | clear =>
      obtain rfl := Option.some.inj hs
      exact h.clear

/-- Such a Backspace moves the cursor out. -/
theorem screenX_consoleStep {s s' : Keys × Kernel} {e : ConsoleEvent} (hrow : ErasesFullRow s e)
    (hs : consoleStep lay fs s e = some s') : s'.2.screenX = 80 := by
  obtain ⟨keys, k⟩ := s
  match e with
  | .input (.key status keycode frame env) =>
      obtain rfl := Option.some.inj hs
      have hstep := k.keyboardHandler_step lay fs status keycode frame env keys
      rw [hrow.1] at hstep
      dsimp only
      generalize (k.keyboardHandler lay fs status keycode frame env keys).2 = k' at hstep ⊢
      cases hstep with
      | erase => exact screenX_of_erasesFullRow hrow.2

theorem onScreen_boot (lay : Layout) (mem : BootMemory) :
    (Kernel.boot lay mem).OnScreen mem.videoMem (fun _ _ => 0) where
  viewed := .home (fun _ => Cells.blankScreen_behind mem.videoMem)
  saved t ht := by
    have hcells : ((Kernel.boot lay mem).terminals t).cells
        = ⟨Function.update (Function.update (fun _ => 0) (t * 2) 0) (t * 2 + 1) attrib, 0, 0⟩ := by
      simp [Kernel.boot, Kernel.entry, Kernel.clearProcess, Kernel.terminalInit, Kernel.pagingInit,
        Kernel.keyboardInit, Kernel.clear, Kernel.loaded, Terminal.cells, ht]
    rw [hcells]
    refine .home (fun i hi => ?_)
    rw [Function.update_of_ne (by omega), Function.update_of_ne (by omega)]

end Step

/-- The columns and rows of all cursors, and the cells they point to. -/
def Kernel.CursorsInside (k : Kernel) : Prop :=
  (0 ≤ k.screenX ∧ k.screenX < 80 ∧ 0 ≤ k.screenY ∧ k.screenY < 25 ∧
    0 ≤ 80 * k.screenY + k.screenX ∧ 80 * k.screenY + k.screenX < 2000) ∧
  ∀ t, t < 3 → 0 ≤ (k.terminals t).x ∧ (k.terminals t).x < 80 ∧ 0 ≤ (k.terminals t).y ∧
    (k.terminals t).y < 25 ∧ 0 ≤ 80 * (k.terminals t).y + (k.terminals t).x ∧
    80 * (k.terminals t).y + (k.terminals t).x < 2000

theorem Kernel.OnScreen.cursorsInside {past : Nat → UInt8} {pasts : Nat → Nat → UInt8} {k : Kernel}
    (h : k.OnScreen past pasts) : k.CursorsInside := by
  have hv := h.viewed
  refine ⟨⟨hv.x_nonneg, hv.x_lt, hv.y_nonneg, hv.y_lt, hv.cell_lt⟩, fun t ht => ?_⟩
  have hs := h.saved t ht
  exact ⟨hs.x_nonneg, hs.x_lt, hs.y_nonneg, hs.y_lt, hs.cell_lt⟩

/-- **The cursor stays on the screen** in every run in which no Backspace is handled at the start of a
    row below a full one: all cursors are inside, and nothing was stored behind the cells of any screen.
    A Backspace of this kind moves the cursor to column 80. -/
theorem cursor_stays_on_screen (lay : Layout) (fs : FileSys) (mem : BootMemory) :
    (∀ s, Reaches (consoleStep lay fs) (fun s e => ¬ ErasesFullRow s e)
        (Keys.loaded, Kernel.boot lay mem) s →
      s.2.CursorsInside ∧
      ∀ i, 4000 ≤ i → s.2.videoMem i = mem.videoMem i ∧
        ∀ t, t < 3 → (s.2.terminals t).screen i = 0) ∧
    ∀ s e s', ErasesFullRow s e → consoleStep lay fs s e = some s' → ¬ s'.2.CursorsInside := by
  refine ⟨fun s hreach => ?_, fun s e s' hrow hs hinside => ?_⟩
  · have h : s.2.OnScreen mem.videoMem (fun _ _ => 0) :=
      hreach.invariant (I := fun s => s.2.OnScreen mem.videoMem (fun _ _ => 0)) (onScreen_boot lay mem)
        (fun s e s' hi hok hs => onScreen_consoleStep hi hok hs)
    exact ⟨h.cursorsInside, fun i hi => ⟨h.viewed.behind i hi, fun t ht => (h.saved t ht).behind i hi⟩⟩
  · have hx := hinside.1.2.1
    rw [screenX_consoleStep hrow hs] at hx
    exact absurd hx (by decide)

/-! ### A full row -/

/-- The shell prints 79 characters in the first row, and the letter `a` is typed in its last cell. -/
def sampleFullRow : Keys × Kernel :=
  (sampleShell.puts (List.replicate 79 120)).keyboardHandler sampleLayout sampleFs 1 0x1E ⟨0, 0⟩
    (sampleEnv 0 0) Keys.loaded

section Run

variable {lay : Layout} {fs : FileSys} {ok : Keys × Kernel → ConsoleEvent → Prop} {s₀ : Keys × Kernel}
  {keys : Keys} {k : Kernel}

theorem reaches_print (h : Reaches (consoleStep lay fs) ok s₀ (keys, k)) (cs : List UInt8)
    (hok : ok (keys, k) (.print cs)) : Reaches (consoleStep lay fs) ok s₀ (keys, k.puts cs) :=
  h.tail hok rfl

theorem reaches_key (h : Reaches (consoleStep lay fs) ok s₀ (keys, k)) {status keycode : UInt8}
    {frame : Frame} {env : ExecEnv} (hok : ok (keys, k) (.input (.key status keycode frame env))) :
    Reaches (consoleStep lay fs) ok s₀ (k.keyboardHandler lay fs status keycode frame env keys) :=
  h.tail hok rfl

theorem not_erasesFullRow {status keycode : UInt8} (frame : Frame) (env : ExecEnv)
    (h : k.keyAction status keycode keys ≠ .erase) :
    ¬ ErasesFullRow (keys, k) (.input (.key status keycode frame env)) :=
  fun hrow => h hrow.1

end Run

/-- None of these steps is a Backspace. -/
theorem reaches_sampleFullRow {ok : Keys × Kernel → ConsoleEvent → Prop}
    (hok : ∀ s e, ¬ ErasesFullRow s e → ok s e) :
    Reaches (consoleStep sampleLayout sampleFs) ok
      (Keys.loaded, Kernel.boot sampleLayout sampleMemory) sampleFullRow := by
  have hshell : Reaches (consoleStep sampleLayout sampleFs) ok
      (Keys.loaded, Kernel.boot sampleLayout sampleMemory) (Keys.loaded, sampleShell) :=
    Reaches.refl.tail (e := .input (.call (.execute shellName (sampleEnv 100 101)))) (hok _ _ id) rfl
  have hkey : (sampleShell.puts (List.replicate 79 120)).keyAction 1 0x1E Keys.loaded ≠ .erase := by
    decide +kernel
  exact reaches_key (reaches_print hshell _ (hok _ _ id))
    (hok _ _ (not_erasesFullRow ⟨0, 0⟩ (sampleEnv 0 0) hkey))

theorem cursor_in_full_row : sampleFullRow.2.CursorsInside :=
  ((cursor_stays_on_screen sampleLayout sampleFs sampleMemory).1 sampleFullRow
    (reaches_sampleFullRow fun _ _ h => h)).1

/-- With Backspace as the next key, the cursor is in column 80. -/
theorem backspace_leaves_screen :
    ¬ ∀ (lay : Layout) (fs : FileSys) (mem : BootMemory) (s : Keys × Kernel),
      Reaches (consoleStep lay fs) (fun _ _ => True) (Keys.loaded, Kernel.boot lay mem) s →
      s.2.CursorsInside := by
  intro h
  have hreach : Reaches (consoleStep sampleLayout sampleFs) (fun _ _ => True)
      (Keys.loaded, Kernel.boot sampleLayout sampleMemory) sampleFullRow :=
    reaches_sampleFullRow (fun _ _ _ => trivial)
  have hx : (sampleFullRow.2.keyboardHandler sampleLayout sampleFs 1 0x0E ⟨0, 0⟩ (sampleEnv 0 0)
      sampleFullRow.1).2.screenX = 80 := by decide +kernel
  generalize sampleFullRow = s at hreach hx
  have hlt : (s.2.keyboardHandler sampleLayout sampleFs 1 0x0E ⟨0, 0⟩ (sampleEnv 0 0) s.1).2.screenX < 80 :=
    (h sampleLayout sampleFs sampleMemory _ (reaches_key hreach trivial)).1.2.1
  rw [hx] at hlt
  exact absurd hlt (by decide)

end UnixTerminal
