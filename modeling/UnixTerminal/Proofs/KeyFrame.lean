import UnixTerminal.Proofs.KeyActions
import UnixTerminal.Proofs.Boot

set_option autoImplicit false

/-! # A key acts on the viewed terminal

Typed characters, Backspace and Enter go to the line buffer and to video memory, which belong to the
viewed terminal. The commands behind Ctrl call `clear` and `terminal_write`, which act on the
executing terminal: when that is another one, its saved screen is erased by a key that was pressed
in front of the viewed one. -/

namespace UnixTerminal

/-- The handler reads the scan code. -/
def Keys.Reads (keys : Keys) (status : UInt8) : Prop := keys.lock = false ∧ status &&& 1 ≠ 0

/-- Alt-F1, Alt-F2 or Alt-F3. -/
def Keys.Chord (keys : Keys) (keycode : UInt8) : Prop := keys.alt ∧ f1 ≤ keycode ∧ keycode ≤ f3

/-- Ctrl-L. -/
def Keys.CtrlL (keys : Keys) (keycode : UInt8) : Prop := keys.ctrl ∧ keyChar keycode keys.shift = 108

/-- Ctrl-1 to Ctrl-5. -/
def Keys.CtrlDigit (keys : Keys) (keycode : UInt8) : Prop :=
  keys.ctrl ∧ 49 ≤ keyChar keycode keys.shift ∧ keyChar keycode keys.shift ≤ 53

instance (keys : Keys) (keycode : UInt8) : Decidable (keys.Chord keycode) :=
  inferInstanceAs (Decidable (_ ∧ _))

/-! ## Which keys are commands -/

/-- Neither the modifiers nor the function keys have a character. -/
theorem keyChar_of_modifier {keycode : UInt8} (shift : Bool)
    (h : keycode = shiftDownL ∨ keycode = shiftDownR ∨ keycode = capsDown ∨ keycode = ctrlDown
      ∨ keycode = altDown) : keyChar keycode shift = 0 := by
  rcases h with rfl | rfl | rfl | rfl | rfl <;> cases shift <;> decide

theorem keyChar_of_release {keycode : UInt8} (shift : Bool) (h : keycode > maxPressCode) :
    keyChar keycode shift = 0 := by
  have hlen : keyboardMap.length ≤ keycode.toNat := by
    have hk : maxPressCode.toNat < keycode.toNat := UInt8.lt_iff_toNat_lt.1 h
    have hm : keyboardMap.length = 80 := rfl
    have hp : maxPressCode.toNat = 127 := rfl
    omega
  simp [keyChar, List.getD_eq_getElem?_getD, List.getElem?_eq_none hlen]

theorem asciiAction_eq_clear {keycode : UInt8} {keys : Keys} :
    asciiAction keycode keys = .clear ↔ keys.CtrlL keycode := by
  unfold asciiAction Keys.CtrlL
  generalize keyChar keycode keys.shift = ascii
  by_cases hl : keys.ctrl ∧ ascii = 108
  · obtain ⟨hctrl, rfl⟩ := hl
    simp [hctrl]
  · simp only [hl, if_false, iff_false]
    split_ifs <;> simp

theorem asciiAction_eq_command {keycode : UInt8} {keys : Keys} :
    asciiAction keycode keys = .command ↔ keys.CtrlDigit keycode := by
  unfold asciiAction Keys.CtrlDigit
  generalize keyChar keycode keys.shift = ascii
  by_cases hd : keys.ctrl ∧ 49 ≤ ascii ∧ ascii ≤ 53
  · have h0 : ascii ≠ 0 := by rintro rfl; exact absurd hd.2.1 (by decide)
    have h108 : ascii ≠ 108 := by rintro rfl; exact absurd hd.2.2 (by decide)
    have h10 : ascii ≠ 10 := by rintro rfl; exact absurd hd.2.1 (by decide)
    simp [hd, h0, h108, h10]
  · simp only [hd, if_false, iff_false]
    split_ifs <;> simp

namespace Kernel

variable (k : Kernel)

/-- The action of a key that is read and has a character. -/
theorem keyAction_of_char {status keycode : UInt8} {keys : Keys} (hread : keys.Reads status)
    (hchord : ¬ keys.Chord keycode) (hchar : keyChar keycode keys.shift ≠ 0)
    (hblank : keyChar keycode keys.shift ≠ 32) :
    k.keyAction status keycode keys = asciiAction keycode keys := by
  have hback : ¬ (keycode = backspace ∧ k.screenX + k.screenY ≠ 0) := by
    rintro ⟨rfl, -⟩
    exact hblank (by cases keys.shift <;> decide)
  rw [keyAction, if_neg (by simp [hread.1, hread.2]), if_neg hback,
    if_neg (fun h => hchar (keyChar_of_release _ h)),
    if_neg (fun h => hchar (keyChar_of_modifier _ h))]
  exact if_neg hchord

/-- Ctrl-L and the commands come from the last part of the handler. -/
theorem keyAction_eq_ascii {status keycode : UInt8} {keys : Keys} {a : KeyAction}
    (h : k.keyAction status keycode keys = a) (ha : a = .clear ∨ a = .command) :
    keys.Reads status ∧ asciiAction keycode keys = a := by
  unfold keyAction at h
  split_ifs at h with hread
  case neg => exact ⟨by simpa [Keys.Reads] using hread, h⟩
  all_goals
    subst h
    simp at ha

theorem keyAction_clear_iff {status keycode : UInt8} {keys : Keys} (hchord : ¬ keys.Chord keycode) :
    k.keyAction status keycode keys = .clear ↔ keys.Reads status ∧ keys.CtrlL keycode := by
  constructor
  · intro h
    obtain ⟨hread, h⟩ := k.keyAction_eq_ascii h (Or.inl rfl)
    exact ⟨hread, asciiAction_eq_clear.1 h⟩
  · rintro ⟨hread, hl⟩
    rw [k.keyAction_of_char hread hchord (by rw [hl.2]; decide) (by rw [hl.2]; decide)]
    exact asciiAction_eq_clear.2 hl

theorem keyAction_command_iff {status keycode : UInt8} {keys : Keys} (hchord : ¬ keys.Chord keycode) :
    k.keyAction status keycode keys = .command ↔ keys.Reads status ∧ keys.CtrlDigit keycode := by
  constructor
  · intro h
    obtain ⟨hread, h⟩ := k.keyAction_eq_ascii h (Or.inr rfl)
    exact ⟨hread, asciiAction_eq_command.1 h⟩
  · rintro ⟨hread, hd⟩
    have hchar := hd.2.1
    rw [k.keyAction_of_char hread hchord (by rintro h; rw [h] at hchar; exact absurd hchar (by decide))
      (by rintro h; rw [h] at hchar; exact absurd hchar (by decide))]
    exact asciiAction_eq_command.2 hd

theorem keyAction_ne_chord {status keycode : UInt8} {keys : Keys} (hchord : ¬ keys.Chord keycode)
    (newt : Nat) : k.keyAction status keycode keys ≠ .chord newt := by
  have hascii : asciiAction keycode keys ≠ .chord newt := by
    unfold asciiAction
    dsimp only
    split_ifs <;> simp
  unfold keyAction
  split_ifs with hread hback hup hmod hf
  · simp
  · simp
  · simp
  · simp
  · exact absurd hf hchord
  · exact hascii

/-! ## Keys that leave the saved screens alone -/

/-- The terminal structs, and which terminals are executing and viewed. -/
def held : (Nat → Terminal) × Nat × Nat := (k.terminals, k.currTerm, k.currTerminalNumber)

theorem screenField_held : ScreenField held := ⟨fun _ _ _ _ _ => rfl⟩

theorem held_typeChar (c : UInt8) : (k.typeChar c).held = k.held := by
  rw [screenField_held.typeChar]
  split_ifs <;> rfl

theorem held_handleBackspace : k.handleBackspace.held = k.held := by
  rw [screenField_held.handleBackspace]
  split_ifs <;> rfl

/-- Enter writes to the struct of the viewed terminal only. -/
theorem terminals_enterLine {t : Nat} (ht : t ≠ k.currTerminalNumber) :
    k.enterLine.terminals t = k.terminals t := by
  have hstruct : ScreenField (fun k : Kernel => k.terminals t) := ⟨fun _ _ _ _ _ => rfl⟩
  exact (hstruct.enterLine k).trans (Function.update_of_ne ht _ _)

theorem viewed_of_held {m : Kernel} (h : m.held = k.held) (hview : k.currTerm = k.currTerminalNumber) :
    m.currTerm = m.currTerminalNumber := by
  simp only [held, Prod.mk.injEq] at h
  rw [h.2.1, h.2.2, hview]

section Viewed

variable {k} (hview : k.currTerm = k.currTerminalNumber)

include hview

theorem held_clear_viewed : k.clear.held = k.held := by
  rw [clear, if_neg (not_not.2 hview)]
  rfl

theorem held_terminalWrite_viewed (buf : List UInt8) (n : Nat) :
    (k.terminalWrite buf n).2.held = k.held := by
  unfold terminalWrite
  refine List.foldlRecOn (motive := fun m : Kernel => m.held = k.held) _ _ rfl (fun m hm i _ => ?_)
  rw [if_pos (k.viewed_of_held hm hview), screenField_held.putc, hm]

/-- The commands print to the viewed screen. -/
theorem held_command_viewed (fs : FileSys) {k' : Kernel} (h : CommandStep fs k k') :
    k'.held = k.held := by
  have hclear := held_clear_viewed hview
  have hview' := k.viewed_of_held hclear hview
  cases h with
  | listFiles dirReadIdx =>
      rw [← hclear]
      unfold listFiles
      refine List.foldlRecOn (motive := fun s : Nat × Kernel => s.2.held = k.clear.held) _ _ rfl
        (fun s hs i _ => ?_)
      rw [screenField_held.putc, held_terminalWrite_viewed (k.clear.viewed_of_held hs hview'), hs]
  | showFile d =>
      have hbytes : ∀ (l : List Nat) (f : Nat → UInt8),
          ((l.foldl (fun k i => k.putc (f i)) k.clear).putc 10).held = k.clear.held := by
        intro l f
        rw [screenField_held.putc, field_foldl held (fun k i => screenField_held.putc k _)]
      unfold showFile
      dsimp only
      rw [held_terminalWrite_viewed (k.clear.viewed_of_held ?_ hview'),
        held_terminalWrite_viewed (k.clear.viewed_of_held (hbytes _ _) hview'), hbytes, hclear]
      rw [held_terminalWrite_viewed (k.clear.viewed_of_held (hbytes _ _) hview'), hbytes]
  | noFile => exact hclear
  | toggleFreq => exact hclear
  | setRate => exact hclear

end Viewed

/-- What a key leaves of the structs of the terminals that are not viewed. -/
theorem terminals_of_keyStep {lay : Layout} {fs : FileSys} {frame : Frame} {env : ExecEnv}
    {a : KeyAction} {k' : Kernel} (h : KeyStep lay fs k frame env a k')
    (hchord : ∀ newt, a ≠ .chord newt)
    (hexec : k.currTerm = k.currTerminalNumber ∨ (a ≠ .clear ∧ a ≠ .command))
    {t : Nat} (ht : t ≠ k.currTerminalNumber) : k'.terminals t = k.terminals t := by
  -- but for Enter no struct is written at all
  have hheld : ∀ {m : Kernel}, m.held = k.held → m.terminals t = k.terminals t :=
    fun hm => congrFun (congrArg Prod.fst hm) t
  cases h with
  | nothing => rfl
  | typed c => exact hheld (k.held_typeChar c)
  | enter => exact k.terminals_enterLine ht
  | erase => exact hheld k.held_handleBackspace
  | clear =>
      rcases hexec with hview | hne
      · exact hheld (held_clear_viewed hview)
      · exact absurd rfl hne.1
  | command hcmd =>
      rcases hexec with hview | hne
      · exact hheld (held_command_viewed hview fs hcmd)
      · exact absurd rfl hne.2
  | chord newt => exact absurd rfl (hchord newt)

/-! ## Keys that erase a saved screen -/

/-- The first attribute byte of the saved screen of the executing terminal is the plain one, and the
    terminal is not viewed. -/
def Marked : Prop :=
  k.currTerm ≠ k.currTerminalNumber ∧ (k.terminals k.currTerm).screen 1 = attrib

theorem attrib_putCell {mem : Nat → UInt8} (h : mem 1 = attrib) (x y : Int) (c : UInt8) :
    putCell mem x y c 1 = attrib := by
  simp only [putCell, Function.update_apply]
  have hodd : ¬ 1 = ((numCols * y + x) * 2).toNat := by omega
  rw [if_neg hodd, h, ite_self]

theorem attrib_scrollScreen {mem : Nat → UInt8} (h : mem 1 = attrib) : scrollScreen mem 1 = attrib := by
  unfold scrollScreen
  refine List.foldlRecOn (motive := fun m : Nat → UInt8 => m 1 = attrib) _ _ h (fun m hm i _ => ?_)
  refine List.foldlRecOn (motive := fun m : Nat → UInt8 => m 1 = attrib) _ _ hm (fun m hm j _ => ?_)
  simp only [scrollCell, Function.update_apply]
  have hodd : ¬ 1 = (numCols * j + i) * 2 := by omega
  rw [if_neg hodd, hm, ite_self]

section Marked

variable {k}

/-- A write to the struct of the executing terminal that keeps the byte. -/
theorem Marked.setTerminal (hm : k.Marked) {f : Terminal → Terminal}
    (hf : ∀ x, x.screen 1 = attrib → (f x).screen 1 = attrib) :
    (k.setTerminal k.currTerm f).Marked := by
  refine ⟨hm.1, ?_⟩
  simp only [Kernel.setTerminal, Function.update_self]
  exact hf _ hm.2

theorem Marked.of_held {m : Kernel} (hm : k.Marked) (h : m.held = k.held) : m.Marked := by
  simp only [held, Prod.mk.injEq] at h
  obtain ⟨hterm, hexec, hview⟩ := h
  unfold Marked
  rw [hterm, hexec, hview]
  exact hm

theorem Marked.putc (hm : k.Marked) (c : UInt8) : (k.putc c).Marked := hm.of_held (screenField_held.putc k c)

theorem Marked.putcNodisplay (hm : k.Marked) (c : UInt8) : (k.putcNodisplay c).Marked := by
  have hscroll : ∀ t : Terminal, t.screen 1 = attrib →
      ({ t with screen := scrollScreen t.screen, x := 0, y := numRows - 1 } : Terminal).screen 1
        = attrib := by
    intro t h
    simp only [attrib_scrollScreen h]
  have hput := @Marked.setTerminal k hm (fun t => { t with screen := putCell t.screen t.x t.y c })
    (fun t h => attrib_putCell h _ _ _)
  unfold Kernel.putcNodisplay vertScrollNodisplay
  dsimp only
  split_ifs
  · exact hm.setTerminal hscroll
  · exact hm.setTerminal (fun t h => h)
  · exact hput.setTerminal hscroll
  · exact hput.setTerminal (fun t h => h)

theorem Marked.terminalWrite (hm : k.Marked) (buf : List UInt8) (n : Nat) :
    (k.terminalWrite buf n).2.Marked := by
  unfold Kernel.terminalWrite
  refine List.foldlRecOn (motive := Marked) _ _ hm (fun m hm i _ => ?_)
  rw [if_neg hm.1]
  exact hm.putcNodisplay _

theorem marked_clear (h : k.currTerm ≠ k.currTerminalNumber) : k.clear.Marked := by
  rw [clear, if_pos h]
  refine ⟨h, ?_⟩
  simp only [clearNodisplay, Kernel.setTerminal, Function.update_self]
  rfl

theorem marked_command {fs : FileSys} {k' : Kernel} (h : k.currTerm ≠ k.currTerminalNumber)
    (hcmd : CommandStep fs k k') : k'.Marked := by
  have hm := marked_clear h
  cases hcmd with
  | listFiles dirReadIdx =>
      unfold listFiles
      refine List.foldlRecOn (motive := fun s : Nat × Kernel => s.2.Marked) _ _ hm (fun s hs i _ => ?_)
      exact (hs.terminalWrite _ _).putc 10
  | showFile d =>
      have hbytes : ∀ (l : List Nat) (f : Nat → UInt8),
          (l.foldl (fun k i => k.putc (f i)) k.clear).Marked := by
        intro l f
        exact hm.of_held (field_foldl held (fun k i => screenField_held.putc k _) _ _)
      exact (((hbytes _ _).putc 10).terminalWrite _ _).terminalWrite _ _
  | noFile => exact hm
  | toggleFreq => exact hm
  | setRate => exact hm

end Marked

end Kernel

/-! ## The handler -/

/-- The viewed screen is blank with the cursor at (0,0), and the line is empty. -/
structure Kernel.Cleared (k : Kernel) : Prop where
  screen : ∀ i < 2 * numRows * numCols, k.videoMem i = if i % 2 = 0 then 0 else attrib
  cursor : k.screenX = 0 ∧ k.screenY = 0
  line : k.keyboardIdx = 0 ∧ ∀ i : Nat, i < maxBufSize → k.keyboardBuf i = 32

/-- What a key may do, from `k` to `k'`: a terminal that is not viewed keeps its screen, its cursor
    and its Enter flag, and Ctrl-L clears the viewed one. -/
structure KeyFrame (keys : Keys) (status keycode : UInt8) (k k' : Kernel) : Prop where
  others : ∀ t, t ≠ k.currTerminalNumber →
    (k'.terminals t).screen = (k.terminals t).screen ∧ (k'.terminals t).x = (k.terminals t).x ∧
    (k'.terminals t).y = (k.terminals t).y ∧ (k'.terminals t).termEnter = (k.terminals t).termEnter
  cleared : keys.Reads status → keys.CtrlL keycode → k'.Cleared

theorem cleared_clearLine {k : Kernel} (hview : k.currTerm = k.currTerminalNumber) :
    k.clearLine.Cleared := by
  unfold Kernel.clearLine Kernel.clear
  rw [if_neg (not_not.2 hview)]
  refine ⟨fun i hi => if_pos hi, ⟨rfl, rfl⟩, rfl, fun i hi => ?_⟩
  have hrange : (0 : Int) ≤ i ∧ (i : Int) < maxBufSize := by omega
  simp only [hrange, and_self, if_true]

section

variable (lay : Layout) (fs : FileSys) (status keycode : UInt8) (frame : Frame) (env : ExecEnv)
  {keys : Keys} (hchord : ¬ keys.Chord keycode)

include hchord

/-- A key that is no command, or that is pressed while the viewed terminal executes. -/
theorem keyFrame_of {k : Kernel}
    (h : k.currTerm = k.currTerminalNumber ∨
      ¬ (keys.Reads status ∧ (keys.CtrlL keycode ∨ keys.CtrlDigit keycode))) :
    KeyFrame keys status keycode k (k.keyboardHandler lay fs status keycode frame env keys).2 := by
  have hstep := k.keyboardHandler_step lay fs status keycode frame env keys
  have hne := fun newt => @Kernel.keyAction_ne_chord k status keycode keys hchord newt
  have hexec : k.currTerm = k.currTerminalNumber ∨
      (k.keyAction status keycode keys ≠ .clear ∧ k.keyAction status keycode keys ≠ .command) := by
    rw [ne_eq, ne_eq, k.keyAction_clear_iff hchord, k.keyAction_command_iff hchord]
    tauto
  constructor
  · intro t ht
    rw [k.terminals_of_keyStep hstep hne hexec ht]
    exact ⟨rfl, rfl, rfl, rfl⟩
  · intro hread hl
    have hview : k.currTerm = k.currTerminalNumber := by tauto
    rw [(k.keyAction_clear_iff hchord).2 ⟨hread, hl⟩] at hstep
    generalize (k.keyboardHandler lay fs status keycode frame env keys).2 = k' at hstep ⊢
    cases hstep
    exact cleared_clearLine hview

/-- **A key acts on the viewed terminal alone exactly when it is no Ctrl command or the viewed
    terminal is the executing one.** -/
theorem key_frame_iff (executing viewed : Nat) :
    (∀ k : Kernel, k.currTerm = executing → k.currTerminalNumber = viewed →
      KeyFrame keys status keycode k (k.keyboardHandler lay fs status keycode frame env keys).2) ↔
    executing = viewed ∨ ¬ (keys.Reads status ∧ (keys.CtrlL keycode ∨ keys.CtrlDigit keycode)) := by
  constructor
  · intro h
    by_contra hno
    obtain ⟨hne, hcmd⟩ := not_or.1 hno
    obtain ⟨hread, hcmd⟩ := not_not.1 hcmd
    -- a state in which the attribute bytes of the executing terminal are zero
    generalize hk : ({ Kernel.loaded sampleMemory with
      currTerm := executing
      currTerminalNumber := viewed
      terminals := sampleMemory.past } : Kernel) = k
    have hexec : k.currTerm = executing := by rw [← hk]
    have hview : k.currTerminalNumber = viewed := by rw [← hk]
    have hzero : (k.terminals k.currTerm).screen 1 = 0 := by rw [← hk]; rfl
    have hbg : k.currTerm ≠ k.currTerminalNumber := by rw [hexec, hview]; exact hne
    have hstep := k.keyboardHandler_step lay fs status keycode frame env keys
    have hframe := h k hexec hview
    generalize (k.keyboardHandler lay fs status keycode frame env keys).2 = k' at hstep hframe
    have hmarked : k'.Marked ∧ k'.currTerm = k.currTerm := by
      rcases hcmd with hl | hd
      · rw [(k.keyAction_clear_iff hchord).2 ⟨hread, hl⟩] at hstep
        cases hstep
        exact ⟨(Kernel.marked_clear hbg).of_held rfl, congrArg Lines.executing k.lines_clearLine⟩
      · rw [(k.keyAction_command_iff hchord).2 ⟨hread, hd⟩] at hstep
        cases hstep with
        | command hcmd =>
            exact ⟨Kernel.marked_command hbg hcmd, congrArg Lines.executing (k.lines_command fs hcmd)⟩
    have hsame := congrFun (hframe.others k.currTerm hbg).1 1
    rw [hzero, ← hmarked.2, hmarked.1.2] at hsame
    exact absurd hsame (by decide)
  · rintro h k rfl rfl
    exact keyFrame_of lay fs status keycode frame env hchord h

end

/-- Ctrl is held. -/
def ctrlHeld : Keys := { Keys.loaded with ctrl := true }

/-- Ctrl-L while the shell of the only terminal runs. -/
theorem key_frame_one_terminal :
    KeyFrame ctrlHeld 1 38 sampleShell
      (sampleShell.keyboardHandler sampleLayout sampleFs 1 38 ⟨0, 0⟩ (sampleEnv 0 0) ctrlHeld).2 :=
  (@key_frame_iff sampleLayout sampleFs 1 38 ⟨0, 0⟩ (sampleEnv 0 0) ctrlHeld (by decide) 0 0).2
    (Or.inl rfl) sampleShell (by decide +kernel) (by decide +kernel)

/-- The shell of terminal 0 shows the letter a; terminal 1 is opened and viewed, and a tick comes back
    to terminal 0. -/
def sampleBehind : Kernel :=
  (((sampleShell.typeChar 97).switchTerminal sampleLayout sampleFs 1 ⟨200, 201⟩
    (sampleEnv 102 103)).switchTo sampleLayout 0 ⟨300, 301⟩).2

/-- Ctrl-L, pressed in front of terminal 1, erases the saved screen of terminal 0. -/
theorem ctrl_l_erases_other_screen :
    ¬ KeyFrame ctrlHeld 1 38 sampleBehind
      (sampleBehind.keyboardHandler sampleLayout sampleFs 1 38 ⟨0, 0⟩ (sampleEnv 0 0) ctrlHeld).2 := by
  intro h
  have hscreen := congrFun (h.others 0 (by decide +kernel)).1 0
  exact absurd hscreen (by decide +kernel)

end UnixTerminal
