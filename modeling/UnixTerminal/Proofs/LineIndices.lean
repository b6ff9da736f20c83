import UnixTerminal.Proofs.Cursor
import UnixTerminal.Proofs.PcbFields

set_option autoImplicit false

/-! # The two indices of the line buffer

`keyboard_idx` is the end of the line and `last_idx` the end of what was echoed. Typing, Backspace,
Ctrl-L, reading and the change of the terminal move them one after the other, and between two entries
of the kernel they are equal. So `keyboard_write` has nothing to print when a program calls it, and
exactly one character when a key does. -/

namespace UnixTerminal

/-- `last_idx` and `keyboard_idx`, and the pairs that are saved in the terminal structs. -/
@[ext]
structure Indices where
  last : UInt8
  idx : UInt8
  saved : Nat → UInt8 × UInt8

def Kernel.indices (k : Kernel) : Indices where
  last := k.lastIdx
  idx := k.keyboardIdx
  saved t := ((k.terminals t).keyboardLastIndex, (k.terminals t).keyboardIndex)

/-- The indices of each pair are equal, and inside the buffer. -/
structure Indices.Level (i : Indices) : Prop where
  line : i.last = i.idx ∧ i.idx ≤ 128
  saved : ∀ t, t < 3 → (i.saved t).1 = (i.saved t).2 ∧ (i.saved t).2 ≤ 128

namespace Indices.Level

variable {i : Indices}

/-- Both indices of the line are set to `x`. -/
theorem set (h : i.Level) {x : UInt8} (hx : x ≤ 128) : ({ i with last := x, idx := x } : Indices).Level :=
  ⟨⟨rfl, hx⟩, h.saved⟩

/-- A saved pair is taken for the line. -/
theorem take (h : i.Level) {t : Nat} (ht : t < 3) :
    ({ i with last := (i.saved t).1, idx := (i.saved t).2 } : Indices).Level :=
  ⟨h.saved t ht, h.saved⟩

/-- The pair of the line is saved. -/
theorem save (h : i.Level) (viewed : Nat) :
    ({ i with saved := Function.update i.saved viewed (i.last, i.idx) } : Indices).Level := by
  refine ⟨h.line, fun t' ht' => ?_⟩
  dsimp only
  rw [Function.update_apply]
  split_ifs
  · exact h.line
  · exact h.saved t' ht'

end Indices.Level

namespace Kernel

variable (lay : Layout) (fs : FileSys) (k : Kernel)

/-! ## What moves the indices -/

/-- A write to a terminal struct that keeps its two indices. -/
theorem indices_setTerminal (t : Nat) (f : Terminal → Terminal)
    (hf : ∀ x, (f x).keyboardLastIndex = x.keyboardLastIndex ∧ (f x).keyboardIndex = x.keyboardIndex) :
    (k.setTerminal t f).indices = k.indices := by
  ext1 <;> try rfl
  funext i
  by_cases h : i = t
  · subst h
    simp [indices, setTerminal, hf]
  · simp [indices, setTerminal, Function.update_of_ne h]

theorem quietField_indices : QuietField indices where
  video _ _ _ _ _ := rfl
  saved k t _ _ _ := k.indices_setTerminal t _ (fun _ => ⟨rfl, rfl⟩)

theorem indices_typeChar (c : UInt8) :
    (k.typeChar c).indices =
      if k.keyboardIdx = 128 then k.indices
      else { k.indices with last := k.lastIdx + 1, idx := k.keyboardIdx + 1 } := by
  rw [quietField_indices.screen.typeChar]
  split_ifs <;> rfl

theorem indices_enterLine : k.enterLine.indices = k.indices := by
  rw [quietField_indices.screen.enterLine]
  exact indices_setTerminal _ _ (fun t => { t with termEnter := 1 }) (fun _ => ⟨rfl, rfl⟩)

theorem indices_clearLine : k.clearLine.indices = { k.indices with last := 0, idx := 0 } := by
  have hclear := quietField_indices.clear k
  rw [← hclear]
  rfl

/-- Backspace moves both indices or, where it finds no character in the row above, none. -/
theorem indices_handleBackspace :
    k.handleBackspace.indices = k.indices ∨
    k.keyboardIdx ≠ 0 ∧ k.handleBackspace.indices =
      { k.indices with last := k.lastIdx - 1, idx := k.keyboardIdx - 1 } := by
  rw [quietField_indices.screen.handleBackspace]
  split_ifs with hnone
  · exact Or.inl rfl
  · exact Or.inr ⟨fun h0 => hnone (Or.inl h0), rfl⟩

theorem indices_keyboardRead {n : Nat} {r : Transfer × Kernel} (h : k.keyboardRead n = some r) :
    r.2.indices = { k.indices with last := 0, idx := 0 } := by
  unfold keyboardRead at h
  split at h
  · exact absurd h (by simp)
  · obtain rfl := Option.some.inj h
    have hflag := k.indices_setTerminal k.currTerm (fun t => { t with termEnter := 0 }) (fun _ => ⟨rfl, rfl⟩)
    rw [← hflag]
    rfl

/-- The getters and setters are signed, and lose nothing. -/
theorem indices_saveTerminalState :
    k.saveTerminalState.indices =
      { k.indices with
        saved := Function.update k.indices.saved k.currTerminalNumber (k.lastIdx, k.keyboardIdx) } := by
  ext1 <;> try rfl
  funext t
  by_cases ht : t = k.currTerminalNumber
  · subst ht
    simp [indices, saveTerminalState, setTerminal]
  · simp [indices, saveTerminalState, setTerminal, Function.update_of_ne ht]

theorem indices_restoreTerminalState (newt : Nat) :
    (k.restoreTerminalState newt).indices =
      { k.indices with last := (k.indices.saved newt).1, idx := (k.indices.saved newt).2 } := by
  simp [restoreTerminalState, indices, updateCursor]

/-- The indices are read off the devices. -/
theorem indices_of_devices {k m : Kernel} (h : m.devices = k.devices) : m.indices = k.indices := by
  have hread := congrArg (fun d : Devices => (⟨d.lastIdx, d.keyboardIdx, fun t =>
    ((d.terminal t).keyboardLastIndex, (d.terminal t).keyboardIndex)⟩ : Indices)) h
  exact hread

theorem indices_execute (command : List UInt8) (env : ExecEnv) :
    (k.execute fs command env).2.indices = k.indices := by
  rcases k.devices_execute fs command env with ⟨-, hd⟩ | ⟨-, hfull⟩
  · exact indices_of_devices hd
  · rw [hfull]
    exact quietField_indices.screen.puts k tooManyProcesses

theorem indices_haltWith (eax : UInt32) (env : ExecEnv) :
    (k.haltWith fs eax env).2.indices = k.indices := by
  rcases k.devices_haltWith fs eax env with hd | ⟨m, hm, hd⟩
  · exact indices_of_devices hd
  · rw [indices_of_devices hd, quietField_indices.screen.puts, indices_of_devices hm]

/-! ## Each event -/

variable {k}

theorem level_typeChar (h : k.indices.Level) (c : UInt8) : (k.typeChar c).indices.Level := by
  rw [indices_typeChar]
  split_ifs with hfull
  · exact h
  · have hlast : k.lastIdx = k.keyboardIdx := h.line.1
    have hlt : k.keyboardIdx < 128 := UInt8.lt_of_le_of_ne h.line.2 hfull
    rw [hlast]
    refine h.set ?_
    rw [UInt8.lt_iff_toNat_lt] at hlt
    rw [UInt8.le_iff_toNat_le, UInt8.toNat_add]
    exact Nat.le_trans (Nat.mod_le _ _) hlt

theorem level_handleBackspace (h : k.indices.Level) : k.handleBackspace.indices.Level := by
  rcases k.indices_handleBackspace with hsame | ⟨h0, herase⟩
  · rw [hsame]
    exact h
  · have hlast : k.lastIdx = k.keyboardIdx := h.line.1
    rw [herase, hlast]
    refine h.set (UInt8.le_trans ?_ h.line.2)
    have hone : (1 : UInt8) ≤ k.keyboardIdx := by
      rw [UInt8.le_iff_toNat_le]
      exact Nat.one_le_iff_ne_zero.2 (fun he => h0 (UInt8.toNat_inj.1 he))
    rw [UInt8.le_iff_toNat_le, UInt8.toNat_sub_of_le _ _ hone]
    exact Nat.sub_le _ _

theorem level_switchTerminal (h : k.indices.Level) (newt : Nat) (frame : Frame) (env : ExecEnv) :
    (k.switchTerminal lay fs newt frame env).indices.Level := by
  have hsave : k.saveTerminalState.indices.Level := by
    rw [indices_saveTerminalState]
    exact h.save _
  unfold switchTerminal
  split_ifs with hsame hout hactive
  · exact h
  · exact h
  · unfold openTerminal
    dsimp only
    rw [indices_execute, quietField_indices.clear]
    exact hsave
  · have hview : (k.viewTerminal lay newt).indices = (k.saveTerminalState.restoreTerminalState newt).indices := by
      unfold viewTerminal backgroundVideo
      dsimp only
      split_ifs <;> rfl
    rw [hview, indices_restoreTerminalState]
    exact hsave.take (by omega)

theorem level_keyboardRead (h : k.indices.Level) {n : Nat} {r : Transfer × Kernel}
    (hr : k.keyboardRead n = some r) : r.2.indices.Level := by
  rw [k.indices_keyboardRead hr]
  exact h.set (by decide)

theorem level_read (h : k.indices.Level) {fd : Int} {buf : UInt32} {nbytes : Int} {r : Transfer × Kernel}
    (hr : k.read fs fd buf nbytes = some r) : r.2.indices.Level := by
  unfold read at hr
  split at hr
  · obtain rfl := Option.some.inj hr
    exact h
  · split at hr
    · obtain rfl := Option.some.inj hr
      exact h
    · exact level_keyboardRead h hr
    · obtain rfl := Option.some.inj hr
      exact h
    · unfold rtcRead at hr
      split at hr
      · obtain rfl := Option.some.inj hr
        exact h
      · exact absurd hr (by simp)
    · obtain rfl := Option.some.inj hr
      exact h
    · obtain rfl := Option.some.inj hr
      unfold dirReadnew
      split <;> exact h
    · exact absurd hr (by simp)

theorem level_call (h : k.indices.Level) {e : Event} {k' : Kernel} (hs : k.step lay fs e = some k') :
    k'.indices.Level := by
  have hkeep : ∀ {m : Kernel}, m.indices = k.indices → m.indices.Level := fun he => he ▸ h
  cases e with
  | execute command env =>
      obtain rfl := Option.some.inj hs
      exact hkeep (k.indices_execute fs command env)
  | halt status env =>
      obtain rfl := Option.some.inj hs
      exact hkeep (k.indices_haltWith fs _ env)
  | haltFromExc env =>
      obtain rfl := Option.some.inj hs
      exact hkeep (k.indices_haltWith fs _ env)
  | openFile filename =>
      obtain rfl := Option.some.inj hs
      exact hkeep (indices_of_devices (k.devices_openFile fs filename))
  | close fd =>
      obtain rfl := Option.some.inj hs
      exact hkeep (indices_of_devices (k.devices_close fd))
  | read fd buf nbytes =>
      obtain ⟨r, hr, rfl⟩ := Option.map_eq_some_iff.1 hs
      exact level_read fs h hr
  | write fd buf bytes nbytes =>
      obtain ⟨r, hr, rfl⟩ := Option.map_eq_some_iff.1 hs
      exact hkeep (quietField_indices.write (fun _ _ => rfl) hr)
  | vidmap screenStart =>
      obtain rfl := Option.some.inj hs
      unfold vidmap
      split_ifs <;> exact h
  | switchTask frame =>
      obtain ⟨r, hr, rfl⟩ := Option.map_eq_some_iff.1 hs
      obtain ⟨t, -, rfl⟩ := Option.map_eq_some_iff.1 hr
      refine hkeep ((indices_of_devices (k.devices_switchTo lay t frame)).trans ?_)
      exact k.indices_setTerminal t _ (fun _ => ⟨rfl, rfl⟩)
  | switchTerminal newt frame env =>
      obtain rfl := Option.some.inj hs
      exact level_switchTerminal lay fs h newt frame env
  | neighbours past =>
      obtain rfl := Option.some.inj hs
      refine ⟨h.line, fun t ht => ?_⟩
      have hsaved := h.saved t ht
      simp only [indices, ht, if_true] at hsaved ⊢
      exact hsaved

theorem level_key (h : k.indices.Level) (status keycode : UInt8) (frame : Frame) (env : ExecEnv)
    (keys : Keys) : (k.keyboardHandler lay fs status keycode frame env keys).2.indices.Level := by
  have hstep := k.keyboardHandler_step lay fs status keycode frame env keys
  generalize (k.keyboardHandler lay fs status keycode frame env keys).2 = k' at hstep ⊢
  generalize k.keyAction status keycode keys = a at hstep
  cases hstep with
  | nothing => exact h
  | typed c => exact level_typeChar h c
  | enter => exact k.indices_enterLine ▸ h
  | erase => exact level_handleBackspace h
  | clear =>
      rw [indices_clearLine]
      exact h.set (by decide)
  | command hcmd => exact k.field_command fs quietField_indices (fun _ _ => rfl) hcmd ▸ h
  | chord newt => exact level_switchTerminal lay fs h newt frame env

/-! ## The echo -/

/-- Output does not look at the line. -/
theorem putc_withLine (k : Kernel) (buf : Int → UInt8) (idx last c : UInt8) :
    ({ k with keyboardBuf := buf, keyboardIdx := idx, lastIdx := last } : Kernel).putc c =
      { k.putc c with keyboardBuf := buf, keyboardIdx := idx, lastIdx := last } := by
  unfold putc vertScroll updateCursor
  dsimp only
  split_ifs <;> rfl

/-- With level indices there is nothing to print. -/
theorem keyboardWrite_level (h : k.indices.Level) (buf : List UInt8) : k.keyboardWrite buf = (-1, k) :=
  if_neg (not_not.2 h.line.1)

/-- With the line one character ahead, this one is printed. -/
theorem keyboardWrite_ahead (hlt : k.lastIdx < 128) (hnext : k.keyboardIdx = k.lastIdx + 1)
    (buf : List UInt8) : (k.keyboardWrite buf).2 = k.putc (buf.getD k.lastIdx.toNat 0) := by
  rw [UInt8.lt_iff_toNat_lt] at hlt
  have hidx : k.keyboardIdx.toNat = k.lastIdx.toNat + 1 := by
    rw [hnext, UInt8.toNat_add, UInt8.toNat_one]
    exact Nat.mod_eq_of_lt (Nat.lt_trans (Nat.succ_lt_succ hlt) (by decide))
  have hne : k.lastIdx ≠ k.keyboardIdx := fun he => by
    rw [← he] at hidx
    exact absurd hidx (Nat.ne_of_lt (Nat.lt_succ_self _))
  have hrange : (List.range k.keyboardIdx.toNat).drop k.lastIdx.toNat = [k.lastIdx.toNat] := by
    rw [hidx, List.range_succ, List.drop_left' List.length_range]
  rw [keyboardWrite, if_pos hne, hrange]
  rfl

/-- A key that is appended is stored, counted by both indices and printed once. -/
theorem typeChar_eq_putc (h : k.indices.Level) (hlt : k.keyboardIdx < 128) (c : UInt8) :
    k.typeChar c =
      { (if k.screenX = numCols - 1 ∧ k.screenY = numRows - 1 then k.vertScroll else k).putc c with
        keyboardBuf := Function.update k.keyboardBuf k.keyboardIdx.toNat c
        keyboardIdx := k.keyboardIdx + 1
        lastIdx := k.lastIdx + 1 } := by
  have hlast : k.lastIdx = k.keyboardIdx := h.line.1
  have hnot : ¬ k.keyboardIdx = 128 := fun he => by
    rw [he] at hlt
    exact absurd hlt (by decide)
  unfold typeChar
  rw [if_neg hnot]
  dsimp only
  -- the scroll in front keeps the line
  have hscroll : (if k.screenX = numCols - 1 ∧ k.screenY = numRows - 1 then k.vertScroll else k).indices
      = k.indices ∧ (if k.screenX = numCols - 1 ∧ k.screenY = numRows - 1 then k.vertScroll
        else k).keyboardBuf = k.keyboardBuf := by
    split_ifs <;> exact ⟨rfl, rfl⟩
  generalize (if k.screenX = numCols - 1 ∧ k.screenY = numRows - 1 then k.vertScroll else k) = m
    at hscroll ⊢
  obtain ⟨hind, hbuf⟩ := hscroll
  have hidx : m.keyboardIdx = k.keyboardIdx := congrArg Indices.idx hind
  have hmlast : m.lastIdx = k.lastIdx := congrArg Indices.last hind
  have hbyte : k.keyboardIdx.toNat < 256 := k.keyboardIdx.toNat_lt
  generalize hn : ({ m.setLine m.keyboardIdx.toNat c with
    keyboardIdx := (m.setLine m.keyboardIdx.toNat c).keyboardIdx + 1 } : Kernel) = n
  have hnlast : n.lastIdx = k.keyboardIdx := by
    rw [← hn, ← hlast]
    exact hmlast
  have hchar : n.lineBytes.getD n.lastIdx.toNat 0 = c := by
    rw [hnlast, lineBytes, List.getD_eq_getElem?_getD, List.getElem?_map, List.getElem?_range hbyte, ← hn, hidx]
    exact Function.update_self _ _ _
  have hahead : n.keyboardIdx = n.lastIdx + 1 := by
    rw [hnlast, ← hn]
    exact congrArg (· + 1) hidx
  rw [keyboardWrite_ahead (hnlast ▸ hlt) hahead, hchar, ← hn]
  have hput := putc_withLine m (Function.update m.keyboardBuf m.keyboardIdx.toNat c) (m.keyboardIdx + 1)
    m.lastIdx c
  rw [← hbuf, ← hidx, ← hmlast]
  exact congrArg (fun x : Kernel => { x with lastIdx := x.lastIdx + 1 }) hput

end Kernel

/-- The events of the console, and `keyboard_read` called by itself. -/
inductive LineEvent
  | console (e : Kernel.ConsoleEvent)
  | keyboardRead (nbytes : Nat)

/-- One such event. -/
def lineStep (lay : Layout) (fs : FileSys) (s : Keys × Kernel) : LineEvent → Option (Keys × Kernel)
  | .console e => consoleStep lay fs s e
  | .keyboardRead nbytes => (s.2.keyboardRead nbytes).map (fun r => (s.1, r.2))

/-- **One event** leaves the indices level. -/
theorem level_lineStep {lay : Layout} {fs : FileSys} {s s' : Keys × Kernel} {e : LineEvent}
    (h : s.2.indices.Level) (hs : lineStep lay fs s e = some s') : s'.2.indices.Level := by
  match e with
  | .keyboardRead nbytes =>
      obtain ⟨r, hr, rfl⟩ := Option.map_eq_some_iff.1 hs
      exact Kernel.level_keyboardRead h hr
  | .console (.print cs) =>
      obtain rfl := Option.some.inj hs
      exact Kernel.quietField_indices.screen.puts s.2 cs ▸ h
  | .console (.terminalWrite buf nbytes) =>
      obtain rfl := Option.some.inj hs
      exact Kernel.quietField_indices.terminalWrite s.2 buf nbytes ▸ h
  | .console .clear =>
      obtain rfl := Option.some.inj hs
      exact Kernel.quietField_indices.clear s.2 ▸ h
  | .console (.input (.call e)) =>
      obtain ⟨k', hk, rfl⟩ := Option.map_eq_some_iff.1 hs
      exact Kernel.level_call lay fs h hk
  | .console (.input (.key status keycode frame env)) =>
      obtain rfl := Option.some.inj hs
      exact Kernel.level_key lay fs h status keycode frame env s.1

theorem level_boot (lay : Layout) (mem : BootMemory) : (Kernel.boot lay mem).indices.Level := by
  have hfirst : (0 : UInt8) ≤ 128 := by decide
  refine ⟨⟨rfl, hfirst⟩, fun t ht => ?_⟩
  have hzero : (Kernel.boot lay mem).indices.saved t = (0, 0) := by
    simp [Kernel.boot, Kernel.entry, Kernel.clearProcess, Kernel.terminalInit, Kernel.pagingInit,
      Kernel.keyboardInit, Kernel.clear, Kernel.loaded, Kernel.indices, ht]
  rw [hzero]
  exact ⟨rfl, hfirst⟩

end UnixTerminal
