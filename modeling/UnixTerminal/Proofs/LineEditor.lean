import UnixTerminal.Proofs.Cursor
import UnixTerminal.Proofs.KeyFrame

set_option autoImplicit false

/-! # The keyboard handler as a line editor

The reference editor knows a line of at most 128 characters and nothing of screens: `EditKey.edit`. A
key means the same to it wherever the cursor is (`editKey`). The handler keeps the same line, except
for Backspace in two places: with the cursor in the first cell it is taken for a blank, and at the
start of a row it looks for the last character of the row above and gives up when it finds none. -/

namespace UnixTerminal

/-! ## The reference editor -/

/-- What a key is to an editor. -/
inductive EditKey
  | print (c : UInt8)
  | erase
  | empty
  | other
deriving DecidableEq, Repr

/-- The line after a key. -/
def EditKey.edit : EditKey → List UInt8 → List UInt8
  | .print c, line => if line.length < 128 then line ++ [c] else line
  | .erase, line => line.dropLast
  | .empty, _ => []
  | .other, line => line

/-- Letters change their case. -/
def swapCase (c : UInt8) : UInt8 :=
  if 97 ≤ c ∧ c ≤ 122 then c - 32 else if 65 ≤ c ∧ c ≤ 90 then c + 32 else c

/-- The meaning of a scan code, under the handler's modifiers. -/
def editKey (keys : Keys) (status keycode : UInt8) : EditKey :=
  if keys.lock ∨ status &&& 1 = 0 then .other
  else if keycode = backspace then .erase
  else if keys.Chord keycode then .other
  else
    let c := keyChar keycode keys.shift
    if c = 0 ∨ c = 10 then .other
    else if keys.ctrl ∧ c = 108 then .empty
    else if keys.ctrl ∧ 49 ≤ c ∧ c ≤ 53 then .other
    else .print (if keys.caps then swapCase c else c)

/-! ## What the keys store -/

/-- The two characters of a row with a letter are its two cases. -/
theorem swapCase_row {row : UInt8 × UInt8} (hrow : row ∈ keyboardMap) :
    (((97 ≤ row.1 ∧ row.1 ≤ 122) ∨ (65 ≤ row.1 ∧ row.1 ≤ 90)) → row.2 = swapCase row.1) ∧
    (((97 ≤ row.2 ∧ row.2 ≤ 122) ∨ (65 ≤ row.2 ∧ row.2 ≤ 90)) → row.1 = swapCase row.2) := by
  have hall : keyboardMap.all (fun row => decide (
      (((97 ≤ row.1 ∧ row.1 ≤ 122) ∨ (65 ≤ row.1 ∧ row.1 ≤ 90)) → row.2 = swapCase row.1) ∧
      (((97 ≤ row.2 ∧ row.2 ≤ 122) ∨ (65 ≤ row.2 ∧ row.2 ≤ 90)) → row.1 = swapCase row.2))) = true := by
    decide +kernel
  exact of_decide_eq_true (List.all_eq_true.1 hall row hrow)

/-- The other shift of a letter key is the other case. -/
theorem keyChar_not {keycode : UInt8} {shift : Bool}
    (h : (97 ≤ keyChar keycode shift ∧ keyChar keycode shift ≤ 122) ∨
      (65 ≤ keyChar keycode shift ∧ keyChar keycode shift ≤ 90)) :
    keyChar keycode (!shift) = swapCase (keyChar keycode shift) := by
  unfold keyChar at h ⊢
  by_cases hrow : keycode.toNat < keyboardMap.length
  · rw [List.getD_eq_getElem _ _ hrow] at h ⊢
    have hboth := swapCase_row (List.getElem_mem hrow)
    cases shift with
    | false => exact hboth.1 h
    | true => exact hboth.2 h
  · rw [List.getD_eq_default _ _ (by omega)] at h
    cases shift <;> exact absurd h (by decide)

/-- Caps lock swaps the case of letters. -/
theorem typedChar_eq (keys : Keys) (keycode : UInt8) :
    Kernel.typedChar keys keycode (keyChar keycode keys.shift)
      = if keys.caps then swapCase (keyChar keycode keys.shift) else keyChar keycode keys.shift := by
  unfold Kernel.typedChar
  cases hcaps : keys.caps with
  | false => simp
  | true =>
      simp only [true_and, if_true]
      split_ifs with hletter
      · exact keyChar_not hletter
      · simp only [not_or] at hletter
        rw [swapCase, if_neg hletter.1, if_neg hletter.2]

/-! ## The line in the buffer -/

namespace Lines

variable {l : Lines}

/-- `keyboard_buf[0..keyboard_idx-1]`. -/
def held (l : Lines) : List UInt8 := (List.range l.idx.toNat).map (fun (i : Nat) => l.buf i)

theorem length_held (l : Lines) : l.held.length = l.idx.toNat := by simp [held]

/-- What agrees on the buffer and its index holds the same line. -/
theorem held_congr {l' : Lines} (hbuf : l'.buf = l.buf) (hidx : l'.idx = l.idx) : l'.held = l.held := by
  rw [held, held, hbuf, hidx]

theorem held_typed (hle : l.idx ≤ 128) (c : UInt8) :
    (l.after (.typed c)).held = (EditKey.print c).edit l.held := by
  have hle' : l.idx.toNat ≤ 128 := UInt8.le_iff_toNat_le.1 hle
  rw [after, EditKey.edit, length_held]
  by_cases hfull : l.idx = 128
  · rw [if_pos hfull, if_neg (by rw [hfull]; decide)]
  · have hlt : l.idx.toNat < 128 := by
      refine Nat.lt_of_le_of_ne hle' (fun h => hfull ?_)
      exact UInt8.toNat_inj.1 h
    have hnext : (l.idx + 1).toNat = l.idx.toNat + 1 := by
      rw [UInt8.toNat_add, UInt8.toNat_one]
      omega
    rw [if_neg hfull, if_pos hlt, held, held, hnext, List.range_succ, List.map_append]
    congr 1
    · refine List.map_congr_left (fun i hi => ?_)
      have hi := List.mem_range.1 hi
      exact Function.update_of_ne (by omega) _ _
    · simp

theorem held_erase (l : Lines) : (l.after .erase).held = l.held.dropLast := by
  rw [after]
  by_cases h0 : l.idx = 0
  · rw [if_pos h0, held, h0]
    rfl
  · have hpos : l.idx.toNat ≠ 0 := fun h => h0 (UInt8.toNat_inj.1 h)
    have hone : (1 : UInt8) ≤ l.idx := UInt8.le_iff_toNat_le.2 (Nat.one_le_iff_ne_zero.2 hpos)
    have hprev : l.idx.toNat = (l.idx - 1).toNat + 1 := by
      rw [UInt8.toNat_sub_of_le _ _ hone, UInt8.toNat_one]
      omega
    rw [if_neg h0, held, held]
    simp only [hprev, List.range_succ, List.map_append, List.map_cons, List.map_nil,
      List.dropLast_concat]
    refine List.map_congr_left (fun i hi => ?_)
    have hi := List.mem_range.1 hi
    exact Function.update_of_ne (by omega) _ _

theorem held_eq_dropLast (l : Lines) : l.held = l.held.dropLast ↔ l.idx = 0 := by
  constructor
  · intro h
    have hlen := congrArg List.length h
    rw [List.length_dropLast, length_held] at hlen
    exact UInt8.toNat_inj.1 (show l.idx.toNat = 0 by omega)
  · intro h
    rw [held, h]
    rfl

theorem held_clear (l : Lines) : (l.after .clear).held = [] := rfl

end Lines

/-! ## What a key is to the editor -/

/-- The editor's reading of an action. -/
def KeyAction.editKey : KeyAction → EditKey
  | .typed c => .print c
  | .erase => .erase
  | .clear => .empty
  | _ => .other

theorem asciiAction_editKey (keycode : UInt8) (keys : Keys) :
    (asciiAction keycode keys).editKey =
      if keyChar keycode keys.shift = 0 ∨ keyChar keycode keys.shift = 10 then .other
      else if keys.ctrl ∧ keyChar keycode keys.shift = 108 then .empty
      else if keys.ctrl ∧ 49 ≤ keyChar keycode keys.shift ∧ keyChar keycode keys.shift ≤ 53 then .other
      else .print (Kernel.typedChar keys keycode (keyChar keycode keys.shift)) := by
  unfold asciiAction
  generalize hc : keyChar keycode keys.shift = c
  dsimp only
  by_cases h0 : c = 0
  · rw [if_pos h0, if_pos (Or.inl h0)]
    rfl
  by_cases h10 : c = 10
  · have h108 : ¬ (keys.ctrl = true ∧ c = 108) := fun h => absurd (h10.symm.trans h.2) (by decide)
    rw [if_neg h0, if_neg h108, if_pos h10, if_pos (Or.inr h10)]
    rfl
  simp only [h0, h10, or_self, if_false]
  split_ifs <;> rfl

namespace Kernel

variable (k : Kernel)

/-- Backspace is looked at together with the cursor: in the first cell it has the character of its row
    of the key map, a blank. -/
theorem keyAction_backspace {status : UInt8} {keys : Keys} (hread : keys.Reads status) :
    k.keyAction status backspace keys =
      if k.screenX + k.screenY ≠ 0 then .erase else .typed 32 := by
  have hchar : keyChar backspace keys.shift = 32 := by cases keys.shift <;> decide
  have hchord : ¬ (keys.alt ∧ f1 ≤ backspace ∧ backspace ≤ f3) := fun h => absurd h.2.1 (by decide)
  have hlock : ¬ (keys.lock ∨ status &&& 1 = 0) := by simp [hread.1, hread.2]
  rw [keyAction, if_neg hlock]
  by_cases hcell : k.screenX + k.screenY ≠ 0
  · rw [if_pos ⟨rfl, hcell⟩, if_pos hcell]
  · rw [if_neg (fun h => hcell h.2), if_neg hcell, if_neg (by decide), if_neg (by decide),
      if_neg hchord, asciiAction, hchar, typedChar]
    simp

/-- Every other key means the same to the editor and to the handler, wherever the cursor is. -/
theorem editKey_keyAction {status keycode : UInt8} {keys : Keys}
    (h : ¬ (keys.Reads status ∧ keycode = backspace)) :
    editKey keys status keycode = (k.keyAction status keycode keys).editKey := by
  unfold editKey keyAction
  by_cases hread : keys.lock ∨ status &&& 1 = 0
  · rw [if_pos hread, if_pos hread]
    rfl
  have hback : keycode ≠ backspace := by
    rintro rfl
    exact h ⟨by simpa [Keys.Reads] using hread, rfl⟩
  have hcell : ¬ (keycode = backspace ∧ k.screenX + k.screenY ≠ 0) := fun h => hback h.1
  rw [if_neg hread, if_neg hread, if_neg hback, if_neg hcell]
  by_cases hchord : keys.Chord keycode
  · -- a chord is no release and no modifier
    have hup : ¬ keycode > maxPressCode := by
      have hf3 := hchord.2.2
      simp only [f3, maxPressCode, gt_iff_lt, UInt8.le_iff_toNat_le, UInt8.lt_iff_toNat_lt] at hf3 ⊢
      exact Nat.not_lt.2 (Nat.le_trans hf3 (by decide))
    have hmod : ¬ (keycode = shiftDownL ∨ keycode = shiftDownR ∨ keycode = capsDown
        ∨ keycode = ctrlDown ∨ keycode = altDown) := by
      have hf1 := hchord.2.1
      rintro (rfl | rfl | rfl | rfl | rfl) <;> exact absurd hf1 (by decide)
    have hfkey : keys.alt ∧ f1 ≤ keycode ∧ keycode ≤ f3 := hchord
    rw [if_pos hchord, if_neg hup, if_neg hmod, if_pos hfkey]
    rfl
  rw [if_neg hchord]
  have hascii := asciiAction_editKey keycode keys
  rw [typedChar_eq] at hascii
  dsimp only
  rw [← hascii]
  by_cases hup : keycode > maxPressCode
  · rw [if_pos hup, asciiAction, keyChar_of_release _ hup]
    rfl
  rw [if_neg hup]
  by_cases hmod : keycode = shiftDownL ∨ keycode = shiftDownR ∨ keycode = capsDown
      ∨ keycode = ctrlDown ∨ keycode = altDown
  · rw [if_pos hmod, asciiAction, keyChar_of_modifier _ hmod]
    rfl
  have hfkey : ¬ (keys.alt ∧ f1 ≤ keycode ∧ keycode ≤ f3) := hchord
  rw [if_neg hmod, if_neg hfkey]

/-! ## Where Backspace misses -/

/-- `find_last_char` finds none when the row begins with a NUL. -/
theorem findLastChar_eq_neg_one_iff (row : Int) :
    k.findLastChar row = -1 ↔ k.videoMem ((numCols * row) * 2).toNat = 0 := by
  have hrange : List.range numCols = 0 :: (List.range 79).map Nat.succ := by
    rw [← List.range_succ_eq_map]
    rfl
  unfold findLastChar
  rw [hrange, List.find?_cons]
  have hfirst : ((numCols * row + ((0 : Nat) : Int)) * 2).toNat = ((numCols * row) * 2).toNat := by
    rw [Int.natCast_zero, Int.add_zero]
  rw [hfirst]
  by_cases hnul : k.videoMem ((numCols * row) * 2).toNat = 0
  · simp [hnul]
  · rw [decide_eq_false hnul]
    refine iff_of_false ?_ hnul
    dsimp only
    generalize hfind : List.find? _ ((List.range 79).map Nat.succ) = r
    cases r with
    | none => exact fun h => absurd h (by decide)
    | some i =>
        obtain ⟨j, -, rfl⟩ := List.mem_map.1 (List.mem_of_find?_eq_some hfind)
        dsimp only
        omega

/-- Backspace does not do what the editor does: the cursor is in the first cell, or at the start of a
    row below one that begins with a NUL while the line has characters. -/
def BackspaceMisses : Prop :=
  k.screenX + k.screenY = 0 ∨
    k.keyboardIdx ≠ 0 ∧ k.screenX = 0 ∧ k.screenY ≠ 0 ∧
      k.videoMem ((numCols * (k.screenY - 1)) * 2).toNat = 0

/-- `handle_backspace` takes a character off, unless there is none or it finds none in the row above. -/
theorem keyboardIdx_handleBackspace :
    k.handleBackspace.keyboardIdx = k.keyboardIdx ↔
      k.keyboardIdx = 0 ∨ k.screenX = 0 ∧ k.screenY ≠ 0 ∧
        k.videoMem ((numCols * (k.screenY - 1)) * 2).toNat = 0 := by
  have hidx : ScreenField keyboardIdx := ⟨fun _ _ _ _ _ => rfl⟩
  rw [← k.findLastChar_eq_neg_one_iff, ← and_assoc, hidx.handleBackspace]
  split_ifs with hnone
  · exact iff_of_true rfl hnone
  · refine iff_of_false ?_ hnone
    grind

/-- Only Backspace erases. -/
theorem backspace_of_erase {status keycode : UInt8} {keys : Keys}
    (h : k.keyAction status keycode keys = .erase) : keys.Reads status ∧ keycode = backspace := by
  unfold keyAction at h
  split_ifs at h with hread herase
  · exact ⟨by simpa [Keys.Reads] using hread, herase.1⟩
  · unfold asciiAction at h
    dsimp only at h
    split_ifs at h

end Kernel

/-! ## Runs -/

/-- What happens at a key and between two keys: an entry of the kernel or output of its own, and the
    stores of a program that has mapped video memory. -/
inductive EditorEvent
  | console (e : Kernel.ConsoleEvent)
  | paint (mem : Nat → UInt8)

/-- One such event. -/
def editorStep (lay : Layout) (fs : FileSys) (s : Keys × Kernel) : EditorEvent → Option (Keys × Kernel)
  | .console e => consoleStep lay fs s e
  | .paint mem => some (s.1, { s.2 with videoMem := mem })

/-- The line stays with the editor: no Enter, no reader that takes it and no other terminal. -/
def LineAction.Edits : LineAction → Prop
  | .enter | .deliver | .view _ | .openTerminal _ => False
  | .nothing | .typed _ | .erase | .clear => True

def EditorOk (s : Keys × Kernel) : EditorEvent → Prop
  | .console (.input e) => (s.2.lineAction s.1 e).Edits
  | _ => True

/-- The reference editor's line: it sees the keys and nothing else. -/
def editedLine (s : Keys × Kernel) (e : EditorEvent) (_ : Keys × Kernel) (line : List UInt8) :
    List UInt8 :=
  match e with
  | .console (.input (.key status keycode _ _)) => (editKey s.1 status keycode).edit line
  | _ => line

/-- A Backspace that does not do what the editor does. -/
def Misses (s : Keys × Kernel) : EditorEvent → Prop
  | .console (.input (.key status keycode _ _)) =>
      s.1.Reads status ∧ keycode = backspace ∧ s.2.BackspaceMisses
  | _ => False

theorem length_edit {key : EditKey} {line : List UInt8} (h : line.length ≤ 128) :
    (key.edit line).length ≤ 128 := by
  cases key with
  | print c =>
      rw [EditKey.edit]
      split_ifs with hlt
      · rw [List.length_append, List.length_singleton]
        omega
      · exact h
  | erase =>
      rw [EditKey.edit, List.length_dropLast]
      omega
  | empty => exact Nat.zero_le _
  | other => exact h

theorem Lines.Agree.held {l l' : Lines} (h : l.Agree l') : l'.held = l.held := held_congr h.buf h.idx

namespace Kernel

variable {k : Kernel} {keys : Keys}

/-- A call that leaves the line with the editor leaves it alone. -/
theorem lineAction_call {e : Event} (h : (k.lineAction keys (.call e)).Edits) :
    k.lineAction keys (.call e) = .nothing := by
  cases e with
  | read fd buf nbytes =>
      rw [lineAction] at h ⊢
      split_ifs at h ⊢
      · exact h.elim
      · rfl
  | switchTerminal newt frame env =>
      rw [lineAction, switchAction] at h ⊢
      split_ifs at h ⊢
      · rfl
      · exact h.elim
      · exact h.elim
  | _ => rfl

/-- An action of the handler other than Backspace does to the line what the editor does. -/
theorem held_lineAction {status keycode : UInt8} (frame : Frame) (env : ExecEnv) (hle : k.keyboardIdx ≤ 128)
    (hok : (k.lineAction keys (.key status keycode frame env)).Edits)
    (hne : k.keyAction status keycode keys ≠ .erase) :
    (k.lines.after (k.lineAction keys (.key status keycode frame env))).held =
      (k.keyAction status keycode keys).editKey.edit k.lines.held := by
  rw [lineAction_key] at hok ⊢
  generalize k.keyAction status keycode keys = a at hok hne ⊢
  cases a with
  | nothing => rfl
  | typed c => exact Lines.held_typed hle c
  | enter => exact hok.elim
  | erase => exact absurd rfl hne
  | clear => exact k.lines.held_clear
  | command => rfl
  | chord newt =>
      have hnothing : k.lineAction keys (.call (.switchTerminal newt frame env)) = .nothing :=
        lineAction_call hok
      exact congrArg (fun a => (k.lines.after a).held) hnothing

/-- Backspace does what the editor does exactly when it does not miss. -/
theorem held_backspace {status : UInt8} (frame : Frame) (env : ExecEnv) (hle : k.keyboardIdx ≤ 128)
    (hread : keys.Reads status) :
    (k.lines.after (k.lineAction keys (.key status backspace frame env))).held = k.lines.held.dropLast ↔
      ¬ k.BackspaceMisses := by
  have hempty : k.lines.held = k.lines.held.dropLast ↔ k.keyboardIdx = 0 := k.lines.held_eq_dropLast
  rw [lineAction_key, k.keyAction_backspace hread]
  by_cases hcell : k.screenX + k.screenY ≠ 0
  · rw [if_pos hcell]
    dsimp only
    by_cases hsame : k.handleBackspace.keyboardIdx = k.keyboardIdx
    · -- the line is kept: there is nothing to take off, or nothing was found in the row above
      rw [if_pos hsame]
      refine hempty.trans ⟨fun h0 => not_or.2 ⟨hcell, fun h => h.1 h0⟩, fun hno => ?_⟩
      rcases k.keyboardIdx_handleBackspace.1 hsame with h0 | hrow
      · exact h0
      · by_contra h0
        exact hno (Or.inr ⟨h0, hrow⟩)
    · rw [if_neg hsame]
      have hno := not_or.1 ((not_congr k.keyboardIdx_handleBackspace).1 hsame)
      exact iff_of_true k.lines.held_erase (not_or.2 ⟨hcell, fun h => hno.2 h.2⟩)
  · -- a blank is typed
    rw [if_neg hcell]
    refine iff_of_false (fun h => ?_) (not_not.2 (Or.inl (not_not.1 hcell)))
    have hblank : (k.lines.after (.typed 32)).held = (EditKey.print 32).edit k.lines.held :=
      Lines.held_typed hle 32
    have hlen := congrArg List.length (hblank.symm.trans h)
    rw [EditKey.edit, List.length_dropLast] at hlen
    split_ifs at hlen with hfull
    · rw [List.length_append, List.length_singleton] at hlen
      omega
    · omega

end Kernel

section Step

variable {lay : Layout} {fs : FileSys} {s s' : Keys × Kernel} {e : EditorEvent}

/-- **One event.** The handler's line is the editor's after every event but a Backspace that misses. -/
theorem held_editorStep (hle : s.2.keyboardIdx ≤ 128) (hok : EditorOk s e)
    (hs : editorStep lay fs s e = some s') :
    s'.2.lines.held = editedLine s e s' s.2.lines.held ↔ ¬ Misses s e := by
  obtain ⟨keys, k⟩ := s
  -- what is not a key keeps the line
  have hkeep : ∀ {k' : Kernel}, k'.lines = k.lines → (k'.lines.held = k.lines.held ↔ ¬ False) :=
    fun h => iff_of_true (congrArg Lines.held h) not_false
  match e with
  | .paint mem =>
      obtain rfl := Option.some.inj hs
      exact hkeep rfl
  | .console (.print cs) =>
      obtain rfl := Option.some.inj hs
      exact hkeep (Kernel.field_foldl Kernel.lines (fun k c => k.lines_putc c) cs k)
  | .console (.terminalWrite buf nbytes) =>
      obtain rfl := Option.some.inj hs
      exact hkeep (k.lines_terminalWrite buf nbytes)
  | .console .clear =>
      obtain rfl := Option.some.inj hs
      exact hkeep k.lines_clear
  | .console (.input (.call e)) =>
      have hcall : inputStep lay fs (keys, k) (.call e) = some s' := hs
      have hagree := lines_inputStep hcall
      rw [Kernel.lineAction_call hok] at hagree
      exact iff_of_true hagree.held not_false
  | .console (.input (.key status keycode frame env)) =>
      have hkey : inputStep lay fs (keys, k) (.key status keycode frame env) = some s' := hs
      have hagree := lines_inputStep hkey
      rw [hagree.held]
      by_cases hback : keys.Reads status ∧ keycode = backspace
      · obtain ⟨hread, rfl⟩ := hback
        have herase : editKey keys status backspace = .erase := by
          simp [editKey, hread.1, hread.2]
        have hline := Kernel.held_backspace frame env hle hread
        rw [editedLine, herase, EditKey.edit]
        exact hline.trans (not_congr (by simp [Misses, hread]))
      · have hne : k.keyAction status keycode keys ≠ .erase := fun h => hback (k.backspace_of_erase h)
        refine iff_of_true ?_ (fun h => hback ⟨h.1, h.2.1⟩)
        rw [editedLine, k.editKey_keyAction hback]
        exact Kernel.held_lineAction frame env hle hok hne

end Step

/-- **The handler is a line editor exactly as long as no Backspace misses.** A run without one, from
    any state with at most 128 characters in the line, keeps the line of the reference editor, and a
    single event does so exactly when it is no such Backspace. -/
theorem line_editor_until_backspace_misses (lay : Layout) (fs : FileSys) :
    (∀ (s₀ s : Keys × Kernel) (line : List UInt8), s₀.2.keyboardIdx ≤ 128 →
      Reaches (withGhost (editorStep lay fs) editedLine) (fun s e => EditorOk s.1 e ∧ ¬ Misses s.1 e)
        (s₀, s₀.2.lines.held) (s, line) →
      s.2.lines.held = line) ∧
    ∀ (s s' : Keys × Kernel) (e : EditorEvent), s.2.keyboardIdx ≤ 128 → EditorOk s e →
      editorStep lay fs s e = some s' →
      (s'.2.lines.held = editedLine s e s' s.2.lines.held ↔ ¬ Misses s e) := by
  refine ⟨fun s₀ s line h0 hreach => ?_, fun s s' e hle hok hs => held_editorStep hle hok hs⟩
  have hinv := hreach.invariant (I := fun g => g.1.2.keyboardIdx ≤ 128 ∧ g.1.2.lines.held = g.2)
    ⟨h0, rfl⟩ ?_
  · exact hinv.2
  · rintro ⟨s, line⟩ e ⟨s', line'⟩ ⟨hle, hline⟩ ⟨hok, hmiss⟩ hs
    obtain ⟨hstep, hghost⟩ := withGhost_eq_some hs
    have hheld := (held_editorStep hle hok hstep).2 hmiss
    dsimp only at hline hghost hheld ⊢
    subst hghost
    rw [hline] at hheld
    refine ⟨?_, hheld⟩
    have hshort : line.length ≤ 128 := by
      rw [← hline, Lines.length_held]
      exact UInt8.le_iff_toNat_le.1 hle
    have hlen : (editedLine s e s' line).length ≤ 128 := by
      unfold editedLine
      split
      · exact length_edit hshort
      · exact hshort
    rw [← hheld, Lines.length_held] at hlen
    exact UInt8.le_iff_toNat_le.2 hlen

/-- The key of the letter a. -/
def sampleLetter : EditorEvent := .console (.input (.key 1 0x1E ⟨0, 0⟩ (sampleEnv 0 0)))

/-- Backspace. -/
def sampleBackspace : EditorEvent := .console (.input (.key 1 0x0E ⟨0, 0⟩ (sampleEnv 0 0)))

/-- The letter a is typed in front of the shell. -/
def sampleLetterTyped : Keys × Kernel :=
  sampleShell.keyboardHandler sampleLayout sampleFs 1 0x1E ⟨0, 0⟩ (sampleEnv 0 0) Keys.loaded

theorem editorOk_of_typed {k : Kernel} {keys : Keys} {e : InputEvent} {c : UInt8}
    (h : k.lineAction keys e = .typed c) : EditorOk (keys, k) (.console (.input e)) := by
  rw [EditorOk, h]
  trivial

theorem editorOk_sampleBackspace : EditorOk (Keys.loaded, sampleShell) sampleBackspace := by
  have ha : sampleShell.lineAction Keys.loaded (.key 1 0x0E ⟨0, 0⟩ (sampleEnv 0 0)) = .typed 32 := by
    decide +kernel
  exact editorOk_of_typed ha

/-- In the first cell, the letter is typed and Backspace misses. -/
theorem line_editor_letter :
    sampleLetterTyped.2.lines.held = [97] ∧
    ¬ (sampleShell.keyboardHandler sampleLayout sampleFs 1 0x0E ⟨0, 0⟩ (sampleEnv 0 0)
      Keys.loaded).2.lines.held = [] := by
  have hle : sampleShell.keyboardIdx ≤ 128 := by decide +kernel
  have hheld : sampleShell.lines.held = [] := by decide +kernel
  have hok : EditorOk (Keys.loaded, sampleShell) sampleLetter := by
    have ha : sampleShell.lineAction Keys.loaded (.key 1 0x1E ⟨0, 0⟩ (sampleEnv 0 0)) = .typed 97 := by
      decide +kernel
    exact editorOk_of_typed ha
  have hmiss : Misses (Keys.loaded, sampleShell) sampleBackspace :=
    ⟨⟨rfl, by decide⟩, rfl, Or.inl (by decide +kernel)⟩
  have hletter : ¬ Misses (Keys.loaded, sampleShell) sampleLetter := fun h => absurd h.2.1 (by decide)
  have h := line_editor_until_backspace_misses sampleLayout sampleFs
  refine ⟨h.1 (Keys.loaded, sampleShell) sampleLetterTyped [97] hle ?_, fun hback => ?_⟩
  · refine Reaches.refl.tail (e := sampleLetter) ⟨hok, hletter⟩ ?_
    rw [hheld]
    rfl
  · refine (h.2 (Keys.loaded, sampleShell) _ sampleBackspace hle editorOk_sampleBackspace rfl).1 ?_ hmiss
    rw [hheld]
    exact hback

/-- Backspace on an empty screen types a blank. -/
theorem backspace_types_blank :
    ¬ ∀ (lay : Layout) (fs : FileSys) (s₀ s : Keys × Kernel) (line : List UInt8),
      s₀.2.keyboardIdx ≤ 128 →
      Reaches (withGhost (editorStep lay fs) editedLine) (fun s e => EditorOk s.1 e)
        (s₀, s₀.2.lines.held) (s, line) →
      s.2.lines.held = line := by
  intro h
  have hrun : Reaches (withGhost (editorStep sampleLayout sampleFs) editedLine)
      (fun s e => EditorOk s.1 e) ((Keys.loaded, sampleShell), sampleShell.lines.held)
      (sampleShell.keyboardHandler sampleLayout sampleFs 1 0x0E ⟨0, 0⟩ (sampleEnv 0 0) Keys.loaded, []) :=
    Reaches.refl.tail (e := sampleBackspace) editorOk_sampleBackspace (by
      rw [show sampleShell.lines.held = [] by decide +kernel]
      rfl)
  have hheld := h sampleLayout sampleFs _ _ _ (by decide +kernel) hrun
  exact absurd hheld (by decide +kernel)

end UnixTerminal
