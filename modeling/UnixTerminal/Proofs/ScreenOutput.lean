import UnixTerminal.Kernel.ScreenStores
import UnixTerminal.Proofs.PrivateScreens

set_option autoImplicit false

/-! # What is printed

`putc` over any string makes of the grid and the cursor what the scrolling text screen makes of them, and
every byte it stores is in one of the 2000 cells. The two copies of the code, for the viewed terminal and
for one in the background, do the same to what they work on. -/

namespace UnixTerminal

/-! ## The stores of `putc` -/

/-- The cells under the stores. -/
def TracedScreen.cells (d : TracedScreen) : Cells := ⟨d.video.mem, d.x, d.y⟩

theorem mem_storeScrollScreen (a : TracedArray UInt8) :
    (storeScrollScreen a).mem = scrollScreen a.mem := by
  unfold storeScrollScreen scrollScreen
  refine (List.foldl_hom TracedArray.mem (fun a i => ?_)).symm
  exact List.foldl_hom TracedArray.mem (fun a j => rfl)

theorem TracedScreen.cells_vertScroll (d : TracedScreen) :
    d.vertScroll.cells = ⟨scrollScreen d.cells.mem, 0, numRows - 1⟩ :=
  congrArg (fun mem => (⟨mem, 0, numRows - 1⟩ : Cells)) (mem_storeScrollScreen d.video)

/-- The code with its stores is the code that the kernel runs. -/
theorem TracedScreen.cells_putc (d : TracedScreen) (c : UInt8) :
    (d.putc c).cells = d.cells.putc c := by
  unfold TracedScreen.putc Cells.putc
  by_cases hnl : c = 10 ∨ c = 13
  · rw [if_pos hnl, if_pos hnl, apply_ite TracedScreen.cells, d.cells_vertScroll]
    rfl
  · rw [if_neg hnl, if_neg hnl]
    dsimp only
    rw [apply_ite TracedScreen.cells, TracedScreen.cells_vertScroll]
    rfl

theorem cells_foldl_putc (cs : List UInt8) (d : TracedScreen) :
    (cs.foldl TracedScreen.putc d).cells = cs.foldl Cells.putc d.cells :=
  (List.foldl_hom TracedScreen.cells (fun d c => (d.cells_putc c).symm)).symm

/-- Every store so far is to a byte of one of the 2000 cells. -/
def StoresInCells (a : TracedArray UInt8) : Prop := ∀ i ∈ a.stores, i / 2 < 2000

theorem storesInCells_iff {a : TracedArray UInt8} : StoresInCells a ↔ a.Within 4000 :=
  forall₂_congr fun i _ => by omega

theorem within_storeScrollCell {a : TracedArray UInt8} (h : a.Within 4000) {i j : Nat} (hi : i < numCols)
    (hj : j < numRows) : (storeScrollCell a i j).Within 4000 := by
  simp only [numCols, numRows] at hi hj
  refine (h.store ?_ _).store ?_ _
  · simp only [numCols]
    omega
  · simp only [numCols]
    omega

theorem within_storeScrollScreen {a : TracedArray UInt8} (h : a.Within 4000) :
    (storeScrollScreen a).Within 4000 := by
  unfold storeScrollScreen
  refine List.foldlRecOn (motive := fun a : TracedArray UInt8 => a.Within 4000) _ _ h (fun a ha i hi => ?_)
  refine List.foldlRecOn (motive := fun a : TracedArray UInt8 => a.Within 4000) _ _ ha (fun a ha j hj => ?_)
  exact within_storeScrollCell ha (List.mem_range.1 hi) (List.mem_range.1 hj)

theorem within_storePutCell {a : TracedArray UInt8} (h : a.Within 4000) (x : Fin 80) (y : Fin 25)
    (c : UInt8) : (storePutCell a x y c).Within 4000 := by
  have hx := x.isLt
  have hy := y.isLt
  refine (h.store ?_ _).store ?_ _
  · simp only [numCols]
    omega
  · simp only [numCols]
    omega

/-- One character: the cursor is inside, so the stores are. -/
theorem TracedScreen.within_putc {d : TracedScreen} {s : PrivateScreen} (h : d.cells.logical = s.logical)
    (hd : d.video.Within 4000) (c : UInt8) : (d.putc c).video.Within 4000 := by
  obtain ⟨hx, hy, -⟩ := Cells.logical_eq_iff.1 h
  have hput := within_storePutCell hd s.x s.y c
  rw [← show d.x = s.x from hx, ← show d.y = s.y from hy] at hput
  unfold TracedScreen.putc
  dsimp only
  split_ifs
  · exact within_storeScrollScreen hd
  · exact hd
  · exact within_storeScrollScreen hput
  · exact hput
  · exact hput

/-- Any string. -/
theorem TracedScreen.within_foldl_putc (cs : List UInt8) : ∀ {d : TracedScreen} {s : PrivateScreen},
    d.cells.logical = s.logical → d.video.Within 4000 →
      (cs.foldl TracedScreen.putc d).video.Within 4000 := by
  induction cs with
  | nil =>
      intro d s _ hd
      exact hd
  | cons c cs ih =>
      intro d s h hd
      refine ih (s := s.putc c) ?_ (within_putc h hd c)
      rw [d.cells_putc c]
      exact Cells.logical_putc h c

/-! ## `terminal_write` -/

theorem videoCells_foldl_putc (k : Kernel) (cs : List UInt8) :
    (cs.foldl Kernel.putc k).videoCells = cs.foldl Cells.putc k.videoCells :=
  (List.foldl_hom Kernel.videoCells (fun k c => (k.videoCells_putc c).symm)).symm

/-- The position of the first NUL, which may be the one behind the list. -/
def firstNul (buf : List UInt8) : Nat := buf.findIdx (· == 0)

theorem cstr_eq_take_firstNul (buf : List UInt8) : cstr buf = buf.take (firstNul buf) := by
  unfold cstr firstNul
  rw [List.takeWhile_eq_take_findIdx_not]
  congr 2
  funext c
  by_cases hc : c = 0 <;> simp [hc]

theorem strlen_eq_firstNul (buf : List UInt8) : strlen buf = firstNul buf := by
  rw [strlen_eq_length_cstr, cstr_eq_take_firstNul, List.length_take,
    Nat.min_eq_left (show firstNul buf ≤ buf.length from List.findIdx_le_length)]

namespace Kernel

variable (k : Kernel)

/-- While a terminal writes, it is on the screen all the time or not at all. -/
theorem foldl_emit (cs : List UInt8) :
    cs.foldl emit k
      = if k.currTerm = k.currTerminalNumber then cs.foldl putc k else cs.foldl putcNodisplay k := by
  induction cs generalizing k with
  | nil => simp
  | cons c cs ih =>
      have hterm : (k.emit c).currTerm = k.currTerm := congrArg Core.currTerm (k.core_emit c)
      have hview : (k.emit c).currTerminalNumber = k.currTerminalNumber :=
        congrArg Core.currTerminalNumber (k.core_emit c)
      rw [List.foldl_cons, ih, hterm, hview]
      by_cases hcur : k.currTerm = k.currTerminalNumber
      · rw [if_pos hcur, if_pos hcur, emit, if_pos hcur]
        rfl
      · rw [if_neg hcur, if_neg hcur, emit, if_neg hcur]
        rfl

/-- `terminal_write` stops in front of the first NUL. -/
theorem terminalWriteChecked_some (buf : List UInt8) (n : Nat) :
    k.terminalWriteChecked (some buf) n
      = (((min n (firstNul buf) : Nat) : Int), (buf.take (min n (firstNul buf))).foldl emit k) := by
  have hpos : ¬ ((n : Nat) : Int) < 0 := by omega
  have hret : (k.terminalWrite buf n).1 = ((min n (firstNul buf) : Nat) : Int) := by
    unfold terminalWrite
    dsimp only
    rw [strlen_eq_firstNul]
    split_ifs <;> omega
  have hstate := terminalWrite_eq_foldl (k := k) buf n
  rw [cstr_eq_take_firstNul, List.take_take] at hstate
  simp only [terminalWriteChecked, if_neg hpos, Int.toNat_natCast]
  exact Prod.ext hret hstate

end Kernel

/-- **The screen is a scrolling text screen.** For every grid with its cursor inside and every string, `putc`
    over the string makes of them what the text screen makes of them, and stores to none but the 2000
    cells. `terminal_write` prints the bytes in front of the first NUL, at most `n` of them, and returns
    how many there are; they go through `putc` when the executing terminal is the viewed one. -/
theorem screen_output (s : PrivateScreen) (k : Kernel) (h : k.videoCells.logical = s.logical)
    (cs : List UInt8) :
    (cs.foldl Kernel.putc k).videoCells.logical = (cs.foldl PrivateScreen.putc s).logical
    ∧ (cs.foldl TracedScreen.putc k.tracedScreen).cells = (cs.foldl Kernel.putc k).videoCells
    ∧ StoresInCells (cs.foldl TracedScreen.putc k.tracedScreen).video
    ∧ ∀ (buf : List UInt8) (n : Nat),
        k.terminalWriteChecked (some buf) n
          = (((min n (firstNul buf) : Nat) : Int),
              if k.currTerm = k.currTerminalNumber then
                (buf.take (min n (firstNul buf))).foldl Kernel.putc k
              else (buf.take (min n (firstNul buf))).foldl Kernel.putcNodisplay k) := by
  refine ⟨?_, ?_, ?_, fun buf n => ?_⟩
  · rw [videoCells_foldl_putc]
    exact foldl_logical_putc cs h
  · rw [cells_foldl_putc, videoCells_foldl_putc]
    rfl
  · refine storesInCells_iff.2 ?_
    exact TracedScreen.within_foldl_putc cs (show k.tracedScreen.cells.logical = s.logical from h)
      (TracedArray.within_fresh _ _)
  · rw [k.terminalWriteChecked_some, k.foldl_emit]

theorem viewed_sampleShell : sampleShell.currTerminalNumber = 0 := by decide +kernel

/-- All screens of the first shell are blank. -/
theorem logical_cells_sampleShell {t : Nat} (ht : t < 3) :
    (sampleShell.cells t).logical = PrivateScreen.blank.logical := by
  rw [← Kernel.logicalScreen_eq]
  exact logicalScreen_boot sampleShell_started ht

theorem logical_videoCells_sampleShell :
    sampleShell.videoCells.logical = PrivateScreen.blank.logical := by
  rw [← logical_cells_sampleShell (t := 0) (by decide), Kernel.cells, if_pos viewed_sampleShell.symm]

/-- `hi` and 25 newlines, which scroll it off the screen, and `x`. -/
def scrolledText : List UInt8 := [104, 105] ++ List.replicate 25 10 ++ [120]

/-- It is printed by the first shell. -/
theorem screen_output_hello :
    (scrolledText.foldl Kernel.putc sampleShell).videoCells.logical
        = PrivateScreen.logical (scrolledText.foldl PrivateScreen.putc PrivateScreen.blank) ∧
      (scrolledText.foldl PrivateScreen.putc PrivateScreen.blank).char 0 0 = 0 ∧
      (scrolledText.foldl PrivateScreen.putc PrivateScreen.blank).char 24 0 = 120 ∧
      StoresInCells (scrolledText.foldl TracedScreen.putc sampleShell.tracedScreen).video ∧
      sampleShell.terminalWriteChecked (some (scrolledText ++ [0])) 100
        = (28, scrolledText.foldl Kernel.putc sampleShell) := by
  obtain ⟨hscreen, -, hstores, hwrite⟩ :=
    screen_output PrivateScreen.blank sampleShell logical_videoCells_sampleShell scrolledText
  have hcount : min 100 (firstNul (scrolledText ++ [0])) = 28 := by decide +kernel
  have hterm : sampleShell.currTerm = sampleShell.currTerminalNumber := by decide +kernel
  have hwritten := hwrite (scrolledText ++ [0]) 100
  rw [hcount, if_pos hterm] at hwritten
  exact ⟨hscreen, by decide +kernel, by decide +kernel, hstores, hwritten⟩

/-! ## Output in the background -/

/-- What is done to a screen. -/
inductive ScreenCall
  | putc (c : UInt8)
  | clear

/-- `clear` and `clear_nodisplay` on what they work on. -/
def Cells.clear (d : Cells) : Cells := ⟨blankScreen d.mem, 0, 0⟩

def Cells.call (d : Cells) : ScreenCall → Cells
  | .putc c => d.putc c
  | .clear => d.clear

def PrivateScreen.call (s : PrivateScreen) : ScreenCall → PrivateScreen
  | .putc c => s.putc c
  | .clear => PrivateScreen.blank

theorem Cells.logical_call {d : Cells} {s : PrivateScreen} (h : d.logical = s.logical) (o : ScreenCall) :
    (d.call o).logical = PrivateScreen.logical (s.call o) := by
  cases o with
  | putc c => exact logical_putc h c
  | clear => exact Kernel.readScreen_blankScreen d.mem

theorem Cells.logical_calls (os : List ScreenCall) : ∀ {d : Cells} {s : PrivateScreen},
    d.logical = s.logical →
      (os.foldl Cells.call d).logical = (os.foldl PrivateScreen.call s).logical := by
  induction os with
  | nil => intro d s h; exact h
  | cons o os ih => intro d s h; exact ih (logical_call h o)

namespace Kernel

variable (k : Kernel)

/-- The functions for the viewed terminal. -/
def foreground (k : Kernel) : ScreenCall → Kernel
  | .putc c => k.putc c
  | .clear => k.clear

/-- The functions for a terminal that is not viewed. -/
def background (k : Kernel) : ScreenCall → Kernel
  | .putc c => k.putcNodisplay c
  | .clear => k.clearNodisplay

/-- The saved screen of the executing terminal becomes `d`. -/
def withSaved (d : Cells) : Kernel :=
  k.setTerminal k.currTerm (fun t => { t with screen := d.mem, x := d.x, y := d.y })

theorem putcNodisplay_eq (c : UInt8) :
    k.putcNodisplay c = k.withSaved ((k.terminals k.currTerm).cells.putc c) := by
  unfold putcNodisplay vertScrollNodisplay Cells.putc withSaved
  dsimp only [Terminal.cells]
  split_ifs <;> simp_all [setTerminal]

theorem background_eq (o : ScreenCall) :
    k.background o = k.withSaved ((k.terminals k.currTerm).cells.call o) := by
  cases o with
  | putc c => exact k.putcNodisplay_eq c
  | clear => rfl

theorem cells_withSaved (d : Cells) : ((k.withSaved d).terminals k.currTerm).cells = d := by
  unfold withSaved setTerminal
  dsimp only
  rw [Function.update_self]
  rfl

theorem withSaved_withSaved (d d' : Cells) : (k.withSaved d).withSaved d' = k.withSaved d' := by
  simp [withSaved, setTerminal]

/-- A whole run in the background. -/
theorem foldl_background (os : List ScreenCall) :
    os.foldl background k = k.withSaved (os.foldl Cells.call (k.terminals k.currTerm).cells) := by
  induction os generalizing k with
  | nil => simp [withSaved, setTerminal, Terminal.cells]
  | cons o os ih =>
      have hcur : (k.background o).currTerm = k.currTerm := by rw [k.background_eq]; rfl
      rw [List.foldl_cons, ih, hcur, k.background_eq, k.cells_withSaved, k.withSaved_withSaved]
      rfl

/-- The executing terminal is still the viewed one. -/
theorem foreground_spec (h : k.currTerm = k.currTerminalNumber) (o : ScreenCall) :
    (k.foreground o).videoCells = k.videoCells.call o
    ∧ (k.foreground o).currTerm = (k.foreground o).currTerminalNumber := by
  cases o with
  | putc c =>
      refine ⟨k.videoCells_putc c, ?_⟩
      exact (congrArg Core.currTerm (k.core_putc c)).trans
        (h.trans (congrArg Core.currTerminalNumber (k.core_putc c)).symm)
  | clear =>
      have hclear : k.clear = { k with videoMem := blankScreen k.videoMem, screenX := 0, screenY := 0 } :=
        if_neg (not_not.2 h)
      unfold foreground
      dsimp only
      rw [hclear]
      exact ⟨rfl, h⟩

/-- A whole run in the foreground. -/
theorem videoCells_foldl_foreground (os : List ScreenCall) : ∀ {k : Kernel},
    k.currTerm = k.currTerminalNumber →
      (os.foldl foreground k).videoCells = os.foldl Cells.call k.videoCells := by
  induction os with
  | nil => intro k _; rfl
  | cons o os ih =>
      intro k h
      obtain ⟨hcells, hcur⟩ := k.foreground_spec h o
      rw [List.foldl_cons, ih hcur, hcells]
      rfl

end Kernel

/-- **Background output is foreground output.** A kernel `k` whose executing terminal is in the background
    and a kernel `m` whose executing terminal is viewed show the same grid and cursor there; after the same
    characters and clears they still do, and it is what the text screen shows. In the background this
    changes the screen and the cursor in the struct of the executing terminal and nothing else. -/
theorem background_output (s : PrivateScreen) (k m : Kernel)
    (hk : (k.terminals k.currTerm).cells.logical = s.logical)
    (hm : m.videoCells.logical = s.logical) (hview : m.currTerm = m.currTerminalNumber)
    (os : List ScreenCall) :
    ((os.foldl Kernel.background k).terminals k.currTerm).cells.logical
      = (os.foldl Kernel.foreground m).videoCells.logical
    ∧ (os.foldl Kernel.foreground m).videoCells.logical = (os.foldl PrivateScreen.call s).logical
    ∧ (∀ t, t ≠ k.currTerm → (os.foldl Kernel.background k).terminals t = k.terminals t)
    ∧ (os.foldl Kernel.background k).videoMem = k.videoMem
    ∧ (os.foldl Kernel.background k).screenX = k.screenX
    ∧ (os.foldl Kernel.background k).screenY = k.screenY
    ∧ ∃ d : Cells, os.foldl Kernel.background k = k.withSaved d := by
  have hback := Cells.logical_calls os hk
  have hfore := Cells.logical_calls os hm
  rw [k.foldl_background, k.cells_withSaved, Kernel.videoCells_foldl_foreground os hview]
  refine ⟨hback.trans hfore.symm, hfore, fun t ht => ?_, rfl, rfl, rfl, _, rfl⟩
  exact Function.update_of_ne ht _ _

/-- Terminal 1 in the background, against the first shell. -/
theorem background_output_hello :
    (([.clear, .putc 104, .putc 10].foldl Kernel.background { sampleShell with currTerm := 1 }).terminals
        1).cells.logical
      = ([.clear, .putc 104, .putc 10].foldl Kernel.foreground sampleShell).videoCells.logical :=
  have hsaved : (sampleShell.terminals 1).cells.logical = PrivateScreen.blank.logical := by
    have hne : ¬ 1 = sampleShell.currTerminalNumber := by rw [viewed_sampleShell]; decide
    rw [← logical_cells_sampleShell (t := 1) (by decide), Kernel.cells, if_neg hne]
  (background_output PrivateScreen.blank { sampleShell with currTerm := 1 } sampleShell hsaved
    logical_videoCells_sampleShell (by decide +kernel) [.clear, .putc 104, .putc 10]).1

end UnixTerminal
