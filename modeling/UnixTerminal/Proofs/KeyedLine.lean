import UnixTerminal.Programs.Typing
import UnixTerminal.Proofs.KeyFrame
import UnixTerminal.Proofs.LineIndices
import UnixTerminal.Proofs.PendingLine
import UnixTerminal.Proofs.ProgramRuns
import UnixTerminal.Proofs.StdinSlot

set_option autoImplicit false

/-! # A line is typed

Keys with characters, one after the other, and Enter, while no modifier is held: the characters are in the
line buffer, with the newline behind them, and on the screen of the viewed terminal. The process manager and
the other screens are as before. -/

namespace UnixTerminal

/-! ## Plain keys -/

/-- No modifier is held, and the handler is not running. -/
structure Keys.Plain (keys : Keys) : Prop where
  lock : keys.lock = false
  shift : keys.shift = false
  caps : keys.caps = false
  ctrl : keys.ctrl = false
  alt : keys.alt = false

/-- The code of a key with a character: not Backspace, not Enter. -/
def Typeable (code : UInt8) : Prop := code ≠ backspace ∧ keyChar code false ≠ 0 ∧ keyChar code false ≠ 10

instance (code : UInt8) : Decidable (Typeable code) := inferInstanceAs (Decidable (_ ∧ _ ∧ _))

/-- The characters of a line of keys. -/
def typedChars (codes : List UInt8) : List UInt8 := codes.map (keyChar · false)

/-- Keys with a character are press codes, and no modifiers. -/
theorem press_of_keyChar {code : UInt8} (h : keyChar code false ≠ 0) :
    ¬ code > maxPressCode ∧ ¬ (code = shiftDownL ∨ code = shiftDownR) ∧ code ≠ capsDown ∧ code ≠ ctrlDown ∧
      code ≠ altDown := by
  have hall : ∀ n : Fin 256, keyChar (UInt8.ofNat n.1) false ≠ 0 →
      ¬ UInt8.ofNat n.1 > maxPressCode ∧ ¬ (UInt8.ofNat n.1 = shiftDownL ∨ UInt8.ofNat n.1 = shiftDownR) ∧
      UInt8.ofNat n.1 ≠ capsDown ∧ UInt8.ofNat n.1 ≠ ctrlDown ∧ UInt8.ofNat n.1 ≠ altDown := by
    decide +kernel
  have hcode := hall ⟨code.toNat, code.toNat_lt⟩
  rw [UInt8.ofNat_toNat] at hcode
  exact hcode h

section Handler

variable (lay : Layout) (fs : FileSys) (k : Kernel) (frame : Frame) (env : ExecEnv) {keys : Keys}

theorem keyboardHandler_typed (hplain : keys.Plain) {code : UInt8} (h : Typeable code) :
    k.keyboardHandler lay fs 1 code frame env keys = (keys, k.typeChar (keyChar code false)) := by
  obtain ⟨hback, hzero, hten⟩ := h
  obtain ⟨hup, hshift, hcaps, hctrl, halt⟩ := press_of_keyChar hzero
  have hstatus : ¬ ((1 : UInt8) &&& 1 = 0) := by decide
  simp only [Kernel.keyboardHandler, Kernel.handleAscii, Kernel.typedChar, hplain.lock, hplain.shift, hplain.caps,
    hplain.ctrl, hplain.alt, hstatus, hback, hup, hshift, hcaps, hctrl, halt, hzero, hten, Bool.false_eq_true,
    false_and, if_false]

theorem keyboardHandler_enter (hplain : keys.Plain) :
    k.keyboardHandler lay fs 1 enterCode frame env keys = (keys, k.enterLine) := by
  have hchar : keyChar enterCode false = 10 := by decide
  have hzero : keyChar enterCode false ≠ 0 := by
    rw [hchar]
    decide
  obtain ⟨hup, hshift, hcaps, hctrl, halt⟩ := press_of_keyChar hzero
  have hstatus : ¬ ((1 : UInt8) &&& 1 = 0) := by decide
  have hback : ¬ enterCode = backspace := by decide
  simp only [Kernel.keyboardHandler, Kernel.handleAscii, hplain.lock, hplain.shift, hplain.ctrl, hplain.alt, hstatus,
    hback, hup, hshift, hcaps, hctrl, halt, hchar, Bool.false_eq_true, false_and, if_false, if_true]
  simp

end Handler

/-! ## The screen -/

/-- The echo of a key: in the last cell of the screen it scrolls first. -/
def PrivateScreen.typeChar (s : PrivateScreen) (c : UInt8) : PrivateScreen :=
  PrivateScreen.putc (if s.x.1 + 1 = 80 ∧ s.y.1 + 1 = 25 then Screen.scroll 0 s else s) c

/-- A line of keys and Enter. -/
def PrivateScreen.typeLine (s : PrivateScreen) (chars : List UInt8) : PrivateScreen :=
  Screen.newline 0 (chars.foldl PrivateScreen.typeChar s)

section Echo

variable {k : Kernel} {s : PrivateScreen}

theorem logical_typeChar (hlevel : k.indices.Level) (hlt : k.keyboardIdx < 128)
    (h : k.videoCells.logical = s.logical) (c : UInt8) :
    (k.typeChar c).videoCells.logical = (s.typeChar c).logical := by
  rw [Kernel.typeChar_eq_putc hlevel hlt]
  obtain ⟨hx, hy, -⟩ := Cells.logical_eq_iff.1 h
  have hx' : k.screenX = s.x := hx
  have hy' : k.screenY = s.y := hy
  have hlast : (k.screenX = numCols - 1 ∧ k.screenY = numRows - 1) ↔ s.x.1 + 1 = 80 ∧ s.y.1 + 1 = 25 := by
    simp only [numCols, numRows]
    omega
  have hscroll : (if k.screenX = numCols - 1 ∧ k.screenY = numRows - 1 then k.vertScroll else k).videoCells.logical
      = PrivateScreen.logical (if s.x.1 + 1 = 80 ∧ s.y.1 + 1 = 25 then Screen.scroll 0 s else s) := by
    by_cases hcell : s.x.1 + 1 = 80 ∧ s.y.1 + 1 = 25
    · have hscrolled : k.vertScroll.videoCells = ⟨scrollScreen k.videoCells.mem, 0, numRows - 1⟩ := rfl
      rw [if_pos (hlast.2 hcell), if_pos hcell, hscrolled]
      exact Cells.logical_scroll h hcell.2
    · rw [if_neg (fun he => hcell (hlast.1 he)), if_neg hcell]
      exact h
  generalize (if k.screenX = numCols - 1 ∧ k.screenY = numRows - 1 then k.vertScroll else k) = m at hscroll ⊢
  change (m.putc c).videoCells.logical = _
  rw [Kernel.videoCells_putc]
  exact Cells.logical_putc hscroll c

theorem logical_enterLine (h : k.videoCells.logical = s.logical) :
    k.enterLine.videoCells.logical = PrivateScreen.logical (Screen.newline 0 s) := by
  rw [← Cells.logical_newline h]
  unfold Kernel.enterLine
  dsimp only
  by_cases hy : k.screenY = numRows - 1
  · rw [if_neg (not_not_intro hy), if_pos (show k.videoCells.y = numRows - 1 from hy)]
    rfl
  · rw [if_pos hy, if_neg (show ¬ k.videoCells.y = numRows - 1 from hy)]
    rfl

end Echo

/-! ## The line -/

/-- `chars` were typed since `k`. -/
structure TypedSince (k : Kernel) (chars : List UInt8) (k' : Kernel) : Prop where
  core : k'.core = k.core
  listing : k'.dirReadIdxNew = k.dirReadIdxNew
  terminals : k'.terminals = k.terminals
  level : k'.indices.Level
  idx : k'.keyboardIdx.toNat = chars.length
  holds : Holds (fun i : Nat => k'.keyboardBuf i) 0 chars
  front : k'.keyboardBuf (-1) = k.keyboardBuf (-1)
  screen : ∀ s : PrivateScreen, k.videoCells.logical = s.logical →
    k'.videoCells.logical = (chars.foldl PrivateScreen.typeChar s).logical

namespace TypedSince

variable {k k' : Kernel} {chars : List UInt8} {keys : Keys}

/-- One more character. -/
theorem typeChar (h : TypedSince k chars k') (hlen : chars.length < 128) (c : UInt8) :
    TypedSince k (chars ++ [c]) (k'.typeChar c) := by
  have hlt : k'.keyboardIdx < 128 := by
    rw [UInt8.lt_iff_toNat_lt, h.idx]
    exact hlen
  have hnot : ¬ k'.keyboardIdx = 128 := UInt8.ne_of_lt hlt
  have hlines := k'.lines_typeChar c
  rw [if_neg hnot] at hlines
  have hbuf : (k'.typeChar c).keyboardBuf = Function.update k'.keyboardBuf k'.keyboardIdx.toNat c :=
    congrArg Lines.buf hlines
  refine ⟨?_, ?_, ?_, Kernel.level_typeChar h.level c, ?_, ?_, ?_, fun s hs => ?_⟩
  · rw [Kernel.quietField_core.screen.typeChar, if_neg hnot, ← h.core]
    rfl
  · rw [(show ScreenField Kernel.dirReadIdxNew from ⟨fun _ _ _ _ _ => rfl⟩).typeChar, if_neg hnot]
    exact h.listing
  · rw [(show ScreenField Kernel.terminals from ⟨fun _ _ _ _ _ => rfl⟩).typeChar, if_neg hnot]
    exact h.terminals
  · have hidx : (k'.typeChar c).keyboardIdx = k'.keyboardIdx + 1 := congrArg Lines.idx hlines
    rw [hidx, UInt8.toNat_add, UInt8.toNat_one, h.idx, List.length_append, List.length_singleton]
    omega
  · have hpush := h.holds.push c
    rw [Nat.zero_add, ← h.idx] at hpush
    rw [hbuf]
    intro i hi
    rw [← hpush i hi]
    simp only [Function.update_apply, Int.natCast_inj]
  · rw [hbuf, Function.update_of_ne (by omega)]
    exact h.front
  · rw [List.foldl_append]
    exact logical_typeChar h.level hlt (h.screen s hs) c

/-- Keys with characters. -/
theorem presses (lay : Layout) (fs : FileSys) (frame : Frame) (env : ExecEnv) (hplain : keys.Plain)
    (lines : List (List UInt8)) (codes : List UInt8) :
    ∀ {chars : List UInt8} {k' : Kernel}, TypedSince k chars k' → (∀ code ∈ codes, Typeable code) →
      chars.length + codes.length ≤ 128 →
      ∃ k'', codes.foldl (Typing.press lay fs frame env) ⟨keys, k', lines⟩ = ⟨keys, k'', lines⟩ ∧
        TypedSince k (chars ++ typedChars codes) k'' := by
  induction codes with
  | nil =>
      intro chars k' h _ _
      refine ⟨k', rfl, ?_⟩
      rw [typedChars, List.map_nil, List.append_nil]
      exact h
  | cons code codes ih =>
      intro chars k' h hcodes hlen
      rw [List.length_cons] at hlen
      have hpress : Typing.press lay fs frame env ⟨keys, k', lines⟩ code
          = ⟨keys, k'.typeChar (keyChar code false), lines⟩ := by
        rw [Typing.press, keyboardHandler_typed lay fs k' frame env hplain (hcodes code List.mem_cons_self)]
      obtain ⟨k'', hrest, hsince⟩ := ih (h.typeChar (by omega) (keyChar code false))
        (fun c hc => hcodes c (List.mem_cons_of_mem _ hc))
        (by rw [List.length_append, List.length_singleton]; omega)
      refine ⟨k'', by rw [List.foldl_cons, hpress, hrest], ?_⟩
      rw [List.append_assoc] at hsince
      exact hsince

end TypedSince

/-- The line buffer is empty, and the byte in front of it is no newline. -/
structure Kernel.LineReady (k : Kernel) : Prop where
  level : k.indices.Level
  idx : k.keyboardIdx = 0
  front : k.keyboardBuf (-1) ≠ 10

theorem Kernel.LineReady.typedSince {k : Kernel} (h : k.LineReady) : TypedSince k [] k := by
  refine ⟨rfl, rfl, rfl, h.level, ?_, .nil, rfl, fun _ hs => hs⟩
  rw [h.idx]
  rfl

/-- What a line of keys and Enter leaves: the line waits, it is on the screen, and nothing else has changed. -/
structure LineTyped (k : Kernel) (chars : List UInt8) (k' : Kernel) : Prop where
  core : k'.core = k.core
  listing : k'.dirReadIdxNew = k.dirReadIdxNew
  pending : PendingLine k' chars
  enter : (k'.terminals k.currTerminalNumber).termEnter ≠ 0
  level : k'.indices.Level
  screen : ∀ s : PrivateScreen, (k.cells k.currTerminalNumber).logical = s.logical →
    (k'.cells k.currTerminalNumber).logical = (s.typeLine chars).logical
  others : ∀ t, t ≠ k.currTerminalNumber → k'.cells t = k.cells t

/-- **A line is typed.** -/
theorem lineTyped_of_presses (lay : Layout) (fs : FileSys) (frame : Frame) (env : ExecEnv) {k : Kernel}
    {keys : Keys} (hplain : keys.Plain) (h : k.LineReady) (lines : List (List UInt8)) {codes : List UInt8}
    (hcodes : ∀ code ∈ codes, Typeable code) (hlen : codes.length ≤ 128) :
    ∃ k', (codes ++ [enterCode]).foldl (Typing.press lay fs frame env) ⟨keys, k, lines⟩ = ⟨keys, k', lines⟩ ∧
      LineTyped k (typedChars codes) k' := by
  obtain ⟨k₁, hpresses, htyped⟩ := h.typedSince.presses lay fs frame env hplain lines codes hcodes
    (by rw [List.length_nil]; omega)
  rw [List.nil_append] at htyped
  have hview : k₁.currTerminalNumber = k.currTerminalNumber := congrArg Core.currTerminalNumber htyped.core
  have hlines := k₁.lines_enterLine
  refine ⟨k₁.enterLine, ?_, ?_, ?_, ?_, ?_, ?_, fun s hs => ?_, ?_⟩
  · rw [List.foldl_append, hpresses]
    change Typing.press lay fs frame env ⟨keys, k₁, lines⟩ enterCode = _
    rw [Typing.press, keyboardHandler_enter lay fs k₁ frame env hplain]
  · rw [← htyped.core]
    exact Kernel.core_of_keyStep k₁ (show Kernel.KeyStep lay fs k₁ frame env .enter k₁.enterLine from .enter)
      (by simp)
  · rw [(show ScreenField Kernel.dirReadIdxNew from ⟨fun _ _ _ _ _ => rfl⟩).enterLine]
    exact htyped.listing
  · have hbuf : k₁.enterLine.keyboardBuf = Function.update k₁.keyboardBuf k₁.keyboardIdx.toNat 10 :=
      congrArg Lines.buf hlines
    have hidx : k₁.enterLine.keyboardIdx = k₁.keyboardIdx := congrArg Lines.idx hlines
    have hpush := htyped.holds.push 10
    rw [Nat.zero_add, ← htyped.idx] at hpush
    refine ⟨by rw [hidx, htyped.idx], ?_, ?_, ?_, ?_⟩
    · rw [typedChars, List.length_map]
      omega
    · intro c hc
      obtain ⟨code, hcode, rfl⟩ := List.mem_map.1 hc
      exact (hcodes code hcode).2
    · rw [hbuf]
      intro i hi
      rw [← hpush i hi]
      simp only [Function.update_apply, Int.natCast_inj]
    · rw [hbuf, Function.update_of_ne (by omega), htyped.front]
      exact h.front
  · have hflag := congrArg (fun l : Lines => (l.terminal k₁.currTerminalNumber).termEnter) hlines
    simp only [Function.update_self] at hflag
    rw [← hview]
    change (k₁.enterLine.lines.terminal k₁.currTerminalNumber).termEnter ≠ 0
    rw [hflag]
    decide
  · rw [Kernel.indices_enterLine]
    exact htyped.level
  · have hview' : k₁.enterLine.currTerminalNumber = k.currTerminalNumber :=
      (congrArg Lines.viewed hlines).trans hview
    rw [Kernel.cells, if_pos hview'.symm, PrivateScreen.typeLine]
    refine logical_enterLine (htyped.screen s ?_)
    rwa [Kernel.cells, if_pos rfl] at hs
  · intro t ht
    have hview' : k₁.enterLine.currTerminalNumber = k.currTerminalNumber :=
      (congrArg Lines.viewed hlines).trans hview
    rw [Kernel.cells, Kernel.cells, hview', if_neg ht, if_neg ht,
      k₁.terminals_enterLine (by rw [hview]; exact ht), htyped.terminals]

end UnixTerminal
