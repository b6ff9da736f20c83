import UnixTerminal.Kernel.LineAccesses
import UnixTerminal.Library.Footprint
import UnixTerminal.Proofs.Buffers

set_option autoImplicit false

/-! # The lists of accesses are those of the code

`keyboardHandlerAccesses` and `readAccesses` stand beside the handler and the statements of a read. Here they
are tied to them: what the handler does, and each statement of a read, does not depend on a byte of
`keyboard_buf` outside its list and leaves it alone. -/

namespace UnixTerminal

open ArrayPart

/-- `keyboard_buf`, with the bytes before and behind it. -/
def lineArray : ArrayPart Kernel Int UInt8 where
  get := Kernel.keyboardBuf
  put k b := { k with keyboardBuf := b }
  get_put _ _ := rfl
  put_get _ := rfl

namespace Kernel

/-! ## Output, files and processes -/

theorem blind_vertScroll : lineArray.Blind vertScroll := fun _ _ => rfl

theorem blind_putc (c : UInt8) : lineArray.Blind (fun k => k.putc c) :=
  .ite (fun _ _ => Iff.rfl) (.ite (fun _ _ => Iff.rfl) blind_vertScroll (fun _ _ => rfl))
    (.ite (fun _ _ => Iff.rfl) (fun _ _ => rfl) (fun _ _ => rfl))

theorem blind_putcNodisplay (c : UInt8) : lineArray.Blind (fun k => k.putcNodisplay c) :=
  .ite (fun _ _ => Iff.rfl) (.ite (fun _ _ => Iff.rfl) (fun _ _ => rfl) (fun _ _ => rfl))
    (.ite (fun _ _ => Iff.rfl) (fun _ _ => rfl) (fun _ _ => rfl))

theorem blind_puts (s : List UInt8) : lineArray.Blind (fun k => k.puts s) :=
  Blind.foldl blind_putc s

theorem blind_terminalWrite (buf : List UInt8) (n : Nat) :
    lineArray.Blind (fun k => (k.terminalWrite buf n).2) :=
  Blind.foldl (fun _ => .ite (c := fun k : Kernel => k.currTerm = k.currTerminalNumber)
    (fun _ _ => Iff.rfl) (blind_putc _) (blind_putcNodisplay _)) _

theorem blind_keyboardWrite (buf : List UInt8) : lineArray.Blind (fun k => (k.keyboardWrite buf).2) := by
  intro k b
  by_cases h : k.lastIdx ≠ k.keyboardIdx
  · have hput : (lineArray.put k b).lastIdx ≠ (lineArray.put k b).keyboardIdx := h
    simp only [keyboardWrite, if_pos h, if_pos hput]
    exact Blind.foldl (fun i => blind_putc (buf.getD i 0)) _ k b
  · have hput : ¬ (lineArray.put k b).lastIdx ≠ (lineArray.put k b).keyboardIdx := h
    simp only [keyboardWrite, if_neg h, if_neg hput]

theorem blind_clear : lineArray.Blind clear :=
  .ite (fun _ _ => Iff.rfl) (fun _ _ => rfl) (fun _ _ => rfl)

theorem blind_setRate (freq : Nat) : lineArray.Blind (fun k => (k.setRate freq).2) := by
  intro k b
  unfold setRate
  cases freqConst freq <;> rfl

theorem blind_showFile (fs : FileSys) (d : Dentry) : lineArray.Blind (fun k => k.showFile fs d) :=
  (blind_terminalWrite _ _).comp ((blind_terminalWrite _ _).comp ((blind_putc 10).comp
    (Blind.foldl (fun _ => blind_putc _) _)))

/-- The loop carries the entry it is at. -/
theorem listFiles_put (fs : FileSys) (dirReadIdx : Nat) (k : Kernel) (b : Int → UInt8) :
    (lineArray.put k b).listFiles fs dirReadIdx =
      ((k.listFiles fs dirReadIdx).1, lineArray.put (k.listFiles fs dirReadIdx).2 b) := by
  refine @List.foldl_hom _ _ _ (fun s : Nat × Kernel => (s.1, lineArray.put s.2 b)) _ _ _ (dirReadIdx, k)
    (fun s _ => ?_)
  exact congrArg (Prod.mk _) ((blind_putc 10).comp (blind_terminalWrite _ _) s.2 b)

theorem blind_execute (fs : FileSys) (command : List UInt8) (env : ExecEnv) :
    lineArray.Blind (fun k => (k.execute fs command env).2) := by
  intro k b
  have hproc : (lineArray.put k b).getProcess = (k.getProcess.1, lineArray.put k.getProcess.2 b) := by
    unfold getProcess
    simp only [lineArray]
    split <;> rfl
  unfold execute
  simp only [hproc]
  split_ifs
  · exact blind_puts _ _ b
  · cases checkFile fs command env.buffer <;> rfl

/-! ## The line editor -/

variable {k : Kernel}

theorem mem_wholeLine {i : Int} : i ∈ wholeLine ↔ 0 ≤ i ∧ i < maxBufSize := by
  constructor
  · intro h
    obtain ⟨j, hj, rfl⟩ := List.mem_map.1 h
    have hj := List.mem_range.1 hj
    exact ⟨Int.natCast_nonneg j, Int.ofNat_lt.2 hj⟩
  · rintro ⟨h0, h⟩
    exact List.mem_map.2 ⟨i.toNat, List.mem_range.2 (by omega), Int.toNat_of_nonneg h0⟩

/-- One store, at an index that does not depend on the line. -/
theorem touches_setLine (pos : Kernel → Int) (hpos : ∀ k b, pos (lineArray.put k b) = pos k) (c : UInt8) :
    lineArray.Touches [pos k] (fun k => k.setLine (pos k) c) k := by
  intro b _
  dsimp only
  rw [hpos]
  refine congrArg (fun b' => ({ k with keyboardBuf := b' } : Kernel)) (funext fun j => ?_)
  by_cases hj : j ∈ [pos k]
  · rw [patch, if_pos hj, List.mem_singleton.1 hj]
    exact (Function.update_self (pos k) c b).trans (Function.update_self (pos k) c k.keyboardBuf).symm
  · rw [patch, if_neg hj]
    exact Function.update_of_ne (fun he => hj (List.mem_singleton.2 he)) _ _

/-- A `memset`, or a `memcpy` from somewhere else. -/
theorem touches_fillLine (fill : Kernel → Int → UInt8) (hfill : ∀ k b, fill (lineArray.put k b) = fill k) :
    lineArray.Touches wholeLine (fun k =>
      { k with keyboardBuf := fun i => if 0 ≤ i ∧ i < maxBufSize then fill k i else k.keyboardBuf i }) k := by
  intro b _
  refine congrArg (fun b' => ({ k with keyboardBuf := b' } : Kernel)) (funext fun i => ?_)
  rw [hfill, patch]
  simp only [mem_wholeLine]
  by_cases hi : 0 ≤ i ∧ i < maxBufSize
  · rw [if_pos hi, if_pos hi]
    exact (if_pos hi).symm
  · rw [if_neg hi, if_neg hi]
    rfl

/-- The echo loads the characters that are not on the screen yet. -/
theorem touches_echo : lineArray.Touches k.echoAccesses (fun k => (k.keyboardWrite k.lineBytes).2) k := by
  refine touches_of_put (fun b hb => ?_)
  have hbytes : ∀ i ∈ k.keyboardWriteLoads,
      (lineArray.put k b).lineBytes.getD i 0 = k.lineBytes.getD i 0 := by
    intro i hi
    have hi : b i = k.keyboardBuf i := hb i (List.mem_map_of_mem hi)
    by_cases h256 : i < 256
    · simpa [lineBytes, h256, lineArray] using hi
    · simp [lineBytes, h256]
  rw [← k.keyboardWrite_congr hbytes]
  exact blind_keyboardWrite _ k b

theorem touches_typeChar (c : UInt8) : lineArray.Touches k.typeCharAccesses (fun k => k.typeChar c) k := by
  refine .ite (c := fun k : Kernel => k.keyboardIdx = 128) (fun _ => Iff.rfl)
    (fun _ => touches_id) (fun _ => ?_)
  -- a scroll, the store, and the echo behind the new index
  have hscroll : lineArray.Blind (fun k : Kernel =>
      if k.screenX = numCols - 1 ∧ k.screenY = numRows - 1 then k.vertScroll else k) :=
    .ite (fun _ _ => Iff.rfl) blind_vertScroll (fun _ _ => rfl)
  have hstore := (touches_setLine (fun k => k.keyboardIdx.toNat) (fun _ _ => rfl) c).comp_blind
    (s := k) hscroll
  have hnext : lineArray.Blind (fun k : Kernel => { k with keyboardIdx := k.keyboardIdx + 1 }) :=
    fun _ _ => rfl
  have hlast : lineArray.Blind (fun k : Kernel => { k with lastIdx := k.lastIdx + 1 }) := fun _ _ => rfl
  have h := hlast.comp_touches (hstore.comp (touches_echo.comp_blind hnext))
  refine h.mono (fun i hi => ?_)
  split_ifs at hi <;> exact hi

theorem touches_enterLine : lineArray.Touches k.enterLineAccesses enterLine k := by
  have hrow : lineArray.Blind (fun k : Kernel =>
      if k.screenY ≠ numRows - 1 then { k with screenY := k.screenY + 1 } else k.vertScroll) :=
    .ite (fun _ _ => Iff.rfl) (fun _ _ => rfl) blind_vertScroll
  have hcursor : lineArray.Blind (fun k : Kernel => { k with screenX := 0 }.updateCursor k.screenY 0) :=
    fun _ _ => rfl
  have hstore := (touches_setLine (fun k => k.keyboardIdx.toNat) (fun _ _ => rfl) 10).comp_blind
    (s := k) (hcursor.comp hrow)
  have hflag : lineArray.Blind (fun k : Kernel =>
      k.setTerminal k.currTerminalNumber (fun t => { t with termEnter := 1 })) := fun _ _ => rfl
  have h := hflag.comp_touches hstore
  refine h.mono (fun i hi => ?_)
  split_ifs at hi <;> exact hi

theorem touches_clearLine : lineArray.Touches wholeLine clearLine k := by
  have hfill := (touches_fillLine (k := k.clear) (fun _ _ => 32) (fun _ _ => rfl)).comp_blind
    blind_clear
  have hidx : lineArray.Blind (fun k : Kernel => { k with keyboardIdx := 0, lastIdx := 0 }) :=
    fun _ _ => rfl
  exact hidx.comp_touches hfill

/-- The cell that Backspace goes to is found on the screen. -/
theorem touches_handleBackspace : lineArray.Touches k.handleBackspaceAccesses handleBackspace k := by
  refine .ite (c := fun k : Kernel => k.keyboardIdx ≠ 0) (fun _ => Iff.rfl) (fun _ => ?_)
    (fun _ => Blind.touches (fun _ _ => rfl) [] k)
  refine .ite (c := fun k : Kernel => (k.screenX = 0 ∧ k.screenY ≠ 0) ∧ k.findLastChar (k.screenY - 1) = -1)
    (fun _ => Iff.rfl) (fun _ => Blind.touches (fun _ _ => rfl) [] k) (fun _ => ?_)
  generalize hx : (if k.screenX = 0 ∧ k.screenY ≠ 0 then k.findLastChar (k.screenY - 1) + 2
    else k.screenX) - 1 = x
  generalize hy : (if k.screenX = 0 ∧ k.screenY ≠ 0 then k.screenY - 1 else k.screenY) = y
  have hcursor : lineArray.Blind (fun k : Kernel => { k with screenX := x, screenY := y }) := fun _ _ => rfl
  have hstore := (touches_setLine (fun k => k.keyboardIdx.toNat - 1) (fun _ _ => rfl) 0).comp_blind
    (s := k) hcursor
  have hlast : lineArray.Blind (fun k : Kernel => { k with lastIdx := k.lastIdx - 1 }) := fun _ _ => rfl
  have hback : lineArray.Blind (fun k : Kernel =>
      { k with screenX := x, screenY := y, keyboardIdx := k.keyboardIdx - 1 }.updateCursor y x) :=
    fun _ _ => rfl
  refine (hback.comp_touches (hstore.comp (touches_echo.comp_blind hlast))).congr (fun b => ?_)
  rw [← hx, ← hy]
  rfl

/-! ## The terminal switch -/

theorem touches_saveTerminalState : lineArray.Touches wholeLine saveTerminalState k := by
  refine touches_of_put (fun b hb => ?_)
  have hline : (fun i => if i < maxBufSize then b i else (k.terminals k.currTerminalNumber).inputBuf i) =
      fun i => if i < maxBufSize then k.keyboardBuf i
        else (k.terminals k.currTerminalNumber).inputBuf i := by
    funext i
    split
    · next hi => exact hb i (mem_wholeLine.2 ⟨Int.natCast_nonneg i, Int.ofNat_lt.2 hi⟩)
    · rfl
  unfold saveTerminalState
  simp only [lineArray, setTerminal]
  rw [hline]

theorem touches_restoreTerminalState (newt : Nat) :
    lineArray.Touches wholeLine (fun k => k.restoreTerminalState newt) k := by
  have hfill := touches_fillLine (k := k) (fun k i => (k.terminals newt).inputBuf i.toNat)
    (fun _ _ => rfl)
  have hrest : lineArray.Blind (fun k' : Kernel => { k' with
      videoMem := fun i => if i < 2 * numRows * numCols then (k.terminals newt).screen i else k.videoMem i
      screenX := (k.terminals newt).x
      screenY := (k.terminals newt).y
      lastIdx := (k.terminals newt).keyboardLastIndex.toInt8.toUInt8
      keyboardIdx := (k.terminals newt).keyboardIndex.toInt8.toUInt8 }.updateCursor
        (k.terminals newt).y (k.terminals newt).x) := fun _ _ => rfl
  exact (hrest.comp_touches hfill).congr (fun b => rfl)

theorem touches_viewTerminal (lay : Layout) (newt : Nat) :
    lineArray.Touches wholeLine (fun k => k.viewTerminal lay newt) k := by
  have hview : lineArray.Blind (fun k : Kernel =>
      { k with currTerminalNumber := newt }.mapWPt lay userVidMem video) := fun _ _ => rfl
  have hback : lineArray.Blind (fun k : Kernel =>
      k.backgroundVideo lay (screenAddr lay k.currTerminalNumber)) :=
    .ite (c := fun k : Kernel => k.currTerm ≠ k.currTerminalNumber) (fun _ _ => Iff.rfl) (fun _ _ => rfl)
      (fun _ _ => rfl)
  have h := (hback.comp hview).comp_touches
    (touches_saveTerminalState.comp (touches_restoreTerminalState (k := k.saveTerminalState) newt))
  exact h.mono (fun i hi => (List.mem_append.1 hi).elim id id)

theorem touches_openTerminal (fs : FileSys) (newt : Nat) (frame : Frame) (env : ExecEnv) :
    lineArray.Touches wholeLine (fun k => (k.openTerminal fs newt frame env).2) k := by
  have hfrom : lineArray.Blind (fun k : Kernel =>
      { { k with currTerminalNumber := newt }.setPcb
        (getPcbPointer (k.terminals k.currTerminalNumber).currentProcess)
        (fun p => { p with espSwitch := frame.esp, ebpSwitch := frame.ebp }) with currTerm := newt }) :=
    fun _ _ => rfl
  exact ((blind_execute fs shellName env).comp (blind_clear.comp hfrom)).comp_touches
    touches_saveTerminalState

theorem touches_switchTerminal (lay : Layout) (fs : FileSys) (newt : Nat) (frame : Frame) (env : ExecEnv) :
    lineArray.Touches (k.switchAccesses newt) (fun k => k.switchTerminal lay fs newt frame env) k := by
  refine .ite (c := fun k : Kernel => newt = k.currTerminalNumber) (fun _ => Iff.rfl) (fun _ => touches_id)
    (fun _ => .ite (c := fun _ => newt > 2) (fun _ => Iff.rfl) (fun _ => touches_id) (fun _ => ?_))
  by_cases hactive : (k.terminals newt).active = 0
  · exact (touches_openTerminal fs newt frame env).congr (fun b => if_pos hactive)
  · exact (touches_viewTerminal lay newt).congr (fun b => if_neg hactive)

/-! ## The handler -/

variable (lay : Layout) (fs : FileSys) (keycode : UInt8) (keys : Keys)

theorem touches_handleAscii :
    lineArray.TouchesWith (k.handleAsciiAccesses keycode keys) (fun k => k.handleAscii fs keycode keys) k := by
  unfold handleAsciiAccesses handleAscii
  dsimp only
  generalize keyChar keycode keys.shift = ascii
  have hclear : ∀ {l} (keys' : Keys), lineArray.TouchesWith l (fun k => (keys', k.clear)) k :=
    fun keys' => (blind_clear.touches _ k).withResult keys'
  have hshow : ∀ {l} (keys' : Keys) (d : Dentry),
      lineArray.TouchesWith l (fun k => (keys', k.clear.showFile fs d)) k :=
    fun keys' d => (((blind_showFile fs d).comp blind_clear).touches _ k).withResult keys'
  refine .ite (c := fun _ => ascii = 0) (fun _ => Iff.rfl) (fun _ => touchesWith_done keys) (fun _ => ?_)
  refine .ite (c := fun _ => keys.ctrl ∧ ascii = 108) (fun _ => Iff.rfl)
    (fun _ => touches_clearLine.withResult keys) (fun _ => ?_)
  refine .ite (c := fun _ => ascii = 10) (fun _ => Iff.rfl) (fun _ => touches_enterLine.withResult keys)
    (fun _ => ?_)
  -- the five commands
  refine .branch (c := fun _ => keys.ctrl ∧ ascii = 49) (fun _ => Iff.rfl)
    (fun _ => touchesWith_of_put (fun b _ => ?_)) (fun h1 => ?_)
  · rw [blind_clear, listFiles_put]
  refine .branch (c := fun _ => keys.ctrl ∧ ascii = 50) (fun _ => Iff.rfl) (fun _ => ?_) (fun h2 => ?_)
  · cases fs.readDentryByName frame0Name with
    | some d => exact hshow _ d
    | none => exact hclear keys
  refine .branch (c := fun _ => keys.ctrl ∧ ascii = 51) (fun _ => Iff.rfl) (fun _ => ?_) (fun h3 => ?_)
  · generalize (if keys.count ≥ fs.numDentries then 0 else keys.count) = count
    cases fs.readDentryByIndex count keys.currDentry with
    | some d => exact hshow _ d
    | none => exact hclear _
  refine .branch (c := fun _ => keys.ctrl ∧ ascii = 52) (fun _ => Iff.rfl) (fun _ => ?_) (fun h4 => ?_)
  · have htoggle : lineArray.Blind toggleFreq := fun _ _ => rfl
    exact ((htoggle.comp blind_clear).touches _ k).withResult keys
  refine .branch (c := fun _ => keys.ctrl ∧ ascii = 53) (fun _ => Iff.rfl) (fun _ => ?_) (fun h5 => ?_)
  · exact (((blind_setRate 0).comp blind_clear).touches _ k).withResult keys
  have hchar : ¬ (keys.ctrl ∧ 49 ≤ ascii ∧ ascii ≤ 53) := by
    grind
  rw [if_neg hchar]
  exact (touches_typeChar _).withResult keys

/-- **What the handler does is determined by the bytes of its list**, and it stores to no other. -/
theorem touches_keyboardHandler (status : UInt8) (frame : Frame) (env : ExecEnv) :
    lineArray.TouchesWith (k.keyboardHandlerAccesses status keycode keys)
      (fun k => k.keyboardHandler lay fs status keycode frame env keys) k := by
  refine .ite (c := fun _ => keys.lock) (fun _ => Iff.rfl) (fun _ => touchesWith_done keys) (fun _ => ?_)
  refine .ite (c := fun _ => status &&& 1 = 0) (fun _ => Iff.rfl) (fun _ => touchesWith_done keys) (fun _ => ?_)
  refine .ite (c := fun k : Kernel => keycode = backspace ∧ k.screenX + k.screenY ≠ 0) (fun _ => Iff.rfl)
    (fun _ => touches_handleBackspace.withResult keys) (fun _ => ?_)
  refine .ite (c := fun _ => keycode > maxPressCode) (fun _ => Iff.rfl)
    (fun _ => touchesWith_done (keys.release keycode)) (fun _ => ?_)
  -- the four modifier keys
  refine .branch (c := fun _ => keycode = shiftDownL ∨ keycode = shiftDownR) (fun _ => Iff.rfl)
    (fun _ => touchesWith_done _) (fun hshift => ?_)
  refine .branch (c := fun _ => keycode = capsDown) (fun _ => Iff.rfl) (fun _ => touchesWith_done _)
    (fun hcaps => ?_)
  refine .branch (c := fun _ => keycode = ctrlDown) (fun _ => Iff.rfl) (fun _ => touchesWith_done _)
    (fun hctrl => ?_)
  refine .branch (c := fun _ => keycode = altDown) (fun _ => Iff.rfl) (fun _ => touchesWith_done _)
    (fun halt => ?_)
  rw [if_neg (by tauto)]
  refine .ite (c := fun _ => keys.alt ∧ f1 ≤ keycode ∧ keycode ≤ f3) (fun _ => Iff.rfl)
    (fun _ => (touches_switchTerminal lay fs _ frame env).withResult keys) (fun _ => ?_)
  exact touches_handleAscii fs keycode keys

end Kernel

/-! ## The statements of a read -/

/-- **Likewise each statement of `keyboard_read`**: the next one and the kernel it leaves. -/
theorem touches_readStmt (p : ReadPoint) (k : Kernel) :
    lineArray.TouchesWith (readAccesses p k) (readStmt p) k := by
  obtain ⟨stmt, l⟩ := p
  cases stmt with
  | currTerm => exact touchesWith_of_put (fun _ _ => rfl)
  | test =>
      exact .branch (c := fun k : Kernel => (k.terminals l.currTerm).termEnter = 0) (fun _ => Iff.rfl)
        (fun _ => touchesWith_done _) (fun _ => touchesWith_done _)
  | getIdx => exact touchesWith_of_put (fun _ _ => rfl)
  | scan =>
      obtain ⟨nbytes, currTerm, i, j, count, stored⟩ := l
      cases i with
      | zero => exact touchesWith_of_put (fun _ _ => rfl)
      | succ i =>
          refine touchesWith_of_put (fun b hb => ?_)
          have hi : b i = k.keyboardBuf i := hb i (List.mem_singleton_self _)
          simp only [readStmt, lineArray, hi]
          split_ifs <;> rfl
  | copyTest =>
      refine touchesWith_of_put (fun b hb => ?_)
      have hlist : readAccesses (.copyTest, l) k =
          if k.keyboardBuf l.i ≠ 0 then [(l.i : Int), l.i - 1] else [(l.i : Int)] := rfl
      rw [hlist] at hb
      by_cases h0 : k.keyboardBuf l.i = 0
      · rw [if_neg (not_not.2 h0)] at hb
        have hi : b l.i = k.keyboardBuf l.i := hb l.i (List.mem_singleton_self _)
        simp only [readStmt, lineArray, hi, h0, ne_eq, not_true_eq_false, false_and, if_false]
      · rw [if_pos h0] at hb
        have hi : b l.i = k.keyboardBuf l.i := hb l.i (List.mem_cons_self ..)
        have hprev : b (l.i - 1) = k.keyboardBuf (l.i - 1) := hb (l.i - 1) (by simp)
        simp only [readStmt, lineArray, hi, hprev]
        split_ifs <;> rfl
  | copyStore =>
      refine touchesWith_of_put (fun b hb => ?_)
      have hi : b l.i = k.keyboardBuf l.i := hb l.i (List.mem_singleton_self _)
      simp only [readStmt, lineArray, hi]
  | nul => exact touchesWith_of_put (fun _ _ => rfl)
  | clearEnter => exact touchesWith_of_put (fun _ _ => rfl)
  | clearBuf => exact (Kernel.touches_fillLine (fun _ _ => 32) (fun _ _ => rfl)).withResult _
  | resetIdx => exact touchesWith_of_put (fun _ _ => rfl)
  | resetLast => exact touchesWith_of_put (fun _ _ => rfl)
  | ret => exact touchesWith_of_put (fun _ _ => rfl)

end UnixTerminal
