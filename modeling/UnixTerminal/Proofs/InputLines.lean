import UnixTerminal.Library.Run
import UnixTerminal.Proofs.KeyActions

set_option autoImplicit false

/-! # The input lines of a running system

The kernel has one line buffer, and a copy of it in each terminal struct that `switch_terminal` saves
and restores. `Lines.after` is what an event does to them, by its `LineAction`: this is all that the
results about typed input need to know of the kernel, and `lines_inputStep` says that it is true of
every event. -/

namespace UnixTerminal

/-- What an event does to the input lines. -/
inductive LineAction
  | nothing
  | typed (c : UInt8)
  | enter
  | erase
  | clear
  | deliver
  | view (newt : Nat)
  | openTerminal (newt : Nat)
deriving DecidableEq, Repr

namespace Lines

variable (l : Lines)

/-- `save_terminal_state`, of the line. -/
def saved : Lines :=
  { l with
    terminal := Function.update l.terminal l.viewed
      { l.terminal l.viewed with
        inputBuf := fun i => if i < maxBufSize then l.buf i else (l.terminal l.viewed).inputBuf i
        keyboardIndex := l.idx } }

/-- The lines after an event. -/
def after : LineAction → Lines
  | .nothing => l
  | .typed c =>
      if l.idx = 128 then l
      else { l with buf := Function.update l.buf l.idx.toNat c, idx := l.idx + 1 }
  | .enter =>
      { l with
        buf := Function.update l.buf l.idx.toNat 10
        terminal := Function.update l.terminal l.viewed
          { l.terminal l.viewed with termEnter := 1 } }
  | .erase =>
      if l.idx = 0 then l
      else { l with buf := Function.update l.buf (l.idx.toNat - 1) 0, idx := l.idx - 1 }
  | .clear => { l with buf := blankBuf l.buf, idx := 0 }
  | .deliver =>
      { l with
        buf := blankBuf l.buf
        idx := 0
        terminal := Function.update l.terminal l.executing
          { l.terminal l.executing with termEnter := 0 } }
  | .view newt =>
      { l.saved with
        buf := fun i =>
          if 0 ≤ i ∧ i < maxBufSize then (l.terminal newt).inputBuf i.toNat else l.buf i
        idx := (l.terminal newt).keyboardIndex
        viewed := newt }
  | .openTerminal newt => { l.saved with executing := newt, viewed := newt }

/-- Two states of the lines, up to the executing terminal and what lies behind the array
    `terminals`. -/
structure Agree (l l' : Lines) : Prop where
  buf : l'.buf = l.buf
  idx : l'.idx = l.idx
  viewed : l'.viewed = l.viewed
  terminal : ∀ t, t < 3 → l'.terminal t = l.terminal t

theorem Agree.refl : l.Agree l := ⟨rfl, rfl, rfl, fun _ _ => rfl⟩

theorem Agree.of_eq {l l' : Lines} (h : l' = l) : l.Agree l' := h ▸ .refl l

end Lines

/-- A store to the buffer at a natural index. -/
theorem update_natCast {β : Type} (f : Int → β) (n : Nat) (b : β) :
    (fun i : Nat => Function.update f n b i) = Function.update (fun i : Nat => f i) n b := by
  funext i
  by_cases h : i = n
  · subst h
    rw [Function.update_self, Function.update_self]
  · rw [Function.update_of_ne h, Function.update_of_ne (by omega)]

/-! ## The events -/

/-- Every way the kernel is entered: its calls and the PIT interrupt, and the keyboard interrupt with
    what it finds in the two ports. -/
inductive InputEvent
  | call (e : Event)
  | key (status keycode : UInt8) (frame : Frame) (env : ExecEnv)

/-- One event. -/
def inputStep (lay : Layout) (fs : FileSys) (s : Keys × Kernel) : InputEvent → Option (Keys × Kernel)
  | .call e => (s.2.step lay fs e).map (fun k => (s.1, k))
  | .key status keycode frame env => some (s.2.keyboardHandler lay fs status keycode frame env s.1)

namespace Kernel

variable (k : Kernel)

/-- A call of `read` that ends in `keyboard_read`. -/
def ReadsLine (fd : Int) (buf : UInt32) (nbytes : Int) : Prop :=
  ¬ (nbytes < 0 ∨ buf = 0 ∨ fd > maxFile - 1 ∨ fd < 0) ∧
    ((k.pcb k.currentPcb).fdsArray fd.toNat).flags = stdinFlag

instance (fd : Int) (buf : UInt32) (nbytes : Int) : Decidable (k.ReadsLine fd buf nbytes) :=
  inferInstanceAs (Decidable (_ ∧ _))

/-- `switch_terminal`, of the lines. -/
def switchAction (newt : Nat) : LineAction :=
  if newt = k.currTerminalNumber ∨ 2 < newt then .nothing
  else if (k.terminals newt).active = 0 then .openTerminal newt
  else .view newt

/-- What an event does to the lines. Backspace is counted only when it takes a character off. -/
def lineAction (keys : Keys) : InputEvent → LineAction
  | .call (.read fd buf nbytes) => if k.ReadsLine fd buf nbytes then .deliver else .nothing
  | .call (.switchTerminal newt _ _) => k.switchAction newt
  | .call _ => .nothing
  | .key status keycode _ _ =>
      match k.keyAction status keycode keys with
      | .typed c => .typed c
      | .enter => .enter
      | .erase => if k.handleBackspace.keyboardIdx = k.keyboardIdx then .nothing else .erase
      | .clear => .clear
      | .chord newt => k.switchAction newt
      | _ => .nothing

/-! ## The process manager leaves the lines alone -/

variable (lay : Layout) (fs : FileSys)

/-- The lines are read off the devices and the two terminal numbers. -/
theorem agree_of_devices {k m : Kernel} (h : m.devices = k.devices)
    (hview : m.currTerminalNumber = k.currTerminalNumber) : k.lines.Agree m.lines where
  buf := congrArg Devices.keyboardBuf h
  idx := congrArg Devices.keyboardIdx h
  viewed := hview
  terminal t _ := congrArg
    (fun d : TerminalDevices => (⟨d.inputBuf, d.keyboardIndex, d.termEnter⟩ : TerminalLine))
    (congrFun (congrArg Devices.terminal h) t)

/-- The same where a message was printed. -/
theorem agree_of_puts {k k' m : Kernel} {s : List UInt8} (hm : m.devices = k.devices)
    (h : k'.devices = (m.puts s).devices) (hview : k'.currTerminalNumber = k.currTerminalNumber) :
    k.lines.Agree k'.lines := by
  have hputs : (m.puts s).lines = m.lines := field_foldl lines (fun k c => k.lines_putc c) s m
  have hmsg := agree_of_devices (k := m.puts s) (m := { k' with
    currTerminalNumber := (m.puts s).currTerminalNumber }) h rfl
  rw [hputs] at hmsg
  have hbefore := agree_of_devices (k := k) (m := { m with
    currTerminalNumber := k.currTerminalNumber }) hm rfl
  exact ⟨hmsg.buf.trans hbefore.buf, hmsg.idx.trans hbefore.idx, hview,
    fun t ht => (hmsg.terminal t ht).trans (hbefore.terminal t ht)⟩

theorem agree_execute (command : List UInt8) (env : ExecEnv) :
    k.lines.Agree (k.execute fs command env).2.lines := by
  have hview := (k.core_execute fs command env).video.2.1
  rcases k.devices_execute fs command env with ⟨-, hd⟩ | ⟨-, hfull⟩
  · exact agree_of_devices hd hview
  · exact agree_of_puts rfl (congrArg (fun r => r.2.devices) hfull) hview

theorem agree_haltWith (eax : UInt32) (env : ExecEnv) :
    k.lines.Agree (k.haltWith fs eax env).2.lines := by
  have hview : (k.haltWith fs eax env).2.core.currTerminalNumber = k.core.currTerminalNumber := by
    have h := k.core_haltWith fs eax env
    generalize (k.haltWith fs eax env).2.core = c at h ⊢
    generalize (k.haltWith fs eax env).1 = o at h
    cases h with
    | toParent => rfl
    | restarted _ hexec => exact hexec.video.2.1
    | stuck _ hexec => exact hexec.video.2.1
  rcases k.devices_haltWith fs eax env with hd | ⟨m, hm, hd⟩
  · exact agree_of_devices hd hview
  · exact agree_of_puts hm hd hview

/-! ## Each event -/

/-- The lines of a terminal whose struct is written elsewhere. -/
theorem agree_switchTo (t : Nat) (frame : Frame) : k.lines.Agree (k.switchTo lay t frame).2.lines := by
  have hd := k.devices_switchTo lay t frame
  have hs : k.lines.Agree (k.setTerminal t (fun x => { x with screen := attribScreen x.screen })).lines :=
    .of_eq (k.lines_setTerminal t _ (fun _ => rfl))
  have h := agree_of_devices (m := { (k.switchTo lay t frame).2 with
    currTerminalNumber := k.currTerminalNumber }) hd rfl
  exact ⟨h.buf.trans hs.buf, h.idx.trans hs.idx,
    congrArg Core.currTerminalNumber (k.core_switchTo lay t frame).1,
    fun i hi => (h.terminal i hi).trans (hs.terminal i hi)⟩

theorem lines_keyboardRead {n : Nat} {r : Transfer × Kernel} (h : k.keyboardRead n = some r) :
    r.2.lines = k.lines.after .deliver := by
  unfold keyboardRead at h
  split at h
  · exact absurd h (by simp)
  · obtain rfl := Option.some.inj h
    ext1 <;> try rfl
    funext t
    by_cases ht : t = k.currTerm
    · subst ht
      simp [lines, setTerminal, Lines.after, Terminal.line]
    · simp [lines, setTerminal, Lines.after, Function.update_of_ne ht]

theorem agree_read {fd : Int} {buf : UInt32} {nbytes : Int} {r : Transfer × Kernel}
    (h : k.read fs fd buf nbytes = some r) :
    (k.lines.after (if k.ReadsLine fd buf nbytes then .deliver else .nothing)).Agree r.2.lines := by
  unfold read at h
  split at h
  · next hargs =>
      rw [if_neg (fun hr => hr.1 hargs)]
      obtain rfl := Option.some.inj h
      exact .refl _
  · next hargs =>
      by_cases hkind : ((k.pcb k.currentPcb).fdsArray fd.toNat).flags = stdinFlag
      · rw [if_pos ⟨hargs, hkind⟩]
        rw [hkind] at h
        exact .of_eq (k.lines_keyboardRead h)
      · rw [if_neg (fun hr => hkind hr.2)]
        split at h
        · obtain rfl := Option.some.inj h
          exact .refl _
        · next h1 => exact absurd (UInt32.toNat_inj.1 h1) hkind
        · obtain rfl := Option.some.inj h
          exact .refl _
        · unfold rtcRead at h
          split at h
          · obtain rfl := Option.some.inj h
            exact .refl _
          · exact absurd h (by simp)
        · obtain rfl := Option.some.inj h
          exact .refl _
        · obtain rfl := Option.some.inj h
          unfold dirReadnew
          split <;> exact .refl _
        · exact absurd h (by simp)

theorem lines_write {fd : Int} {buf : UInt32} {bytes : List UInt8} {nbytes : Int} {r : Int × Kernel}
    (h : k.write fd buf bytes nbytes = some r) : r.2.lines = k.lines :=
  quietField_lines.write (fun _ _ => rfl) h

theorem lines_saveTerminalState : k.saveTerminalState.lines = k.lines.saved := by
  ext1 <;> try rfl
  funext t
  by_cases ht : t = k.currTerminalNumber
  · subst ht
    simp [lines, saveTerminalState, setTerminal, Lines.saved, Terminal.line]
  · simp [lines, saveTerminalState, setTerminal, Lines.saved, Function.update_of_ne ht]

theorem lines_restoreTerminalState (newt : Nat) :
    (k.restoreTerminalState newt).lines =
      { k.lines with
        buf := fun i =>
          if 0 ≤ i ∧ i < maxBufSize then (k.lines.terminal newt).inputBuf i.toNat else k.lines.buf i
        idx := (k.lines.terminal newt).keyboardIndex } := by
  simp [restoreTerminalState, lines, updateCursor, Terminal.line]

/-- `switch_terminal` saves the line of the viewed terminal. It restores that of the new one when this
    is active; the shell of a terminal that is opened finds the old line in the buffer. -/
theorem agree_switchTerminal (newt : Nat) (frame : Frame) (env : ExecEnv) :
    (k.lines.after (k.switchAction newt)).Agree (k.switchTerminal lay fs newt frame env).lines := by
  unfold switchTerminal switchAction
  by_cases hsame : newt = k.currTerminalNumber
  · rw [if_pos hsame, if_pos (Or.inl hsame)]
    exact .refl _
  by_cases hout : newt > 2
  · rw [if_neg hsame, if_pos hout, if_pos (Or.inr hout)]
    exact .refl _
  rw [if_neg hsame, if_neg hout, if_neg (not_or.2 ⟨hsame, hout⟩)]
  by_cases hactive : (k.terminals newt).active = 0
  · rw [if_pos hactive, if_pos hactive]
    unfold openTerminal
    dsimp only
    generalize hm : ({ ({ k.saveTerminalState with currTerminalNumber := newt } : Kernel).setPcb _ _ with
      currTerm := newt } : Kernel) = m
    have hlines : m.clear.lines = k.lines.after (.openTerminal newt) := by
      rw [lines_clear, ← hm]
      change { k.saveTerminalState.lines with executing := newt, viewed := newt } = _
      rw [lines_saveTerminalState]
      rfl
    rw [← hlines]
    exact m.clear.agree_execute fs shellName env
  · rw [if_neg hactive, if_neg hactive]
    refine .of_eq ?_
    have hview : (k.viewTerminal lay newt).lines
        = { (k.saveTerminalState.restoreTerminalState newt).lines with viewed := newt } := by
      unfold viewTerminal backgroundVideo
      dsimp only
      split_ifs <;> rfl
    have hnew : k.lines.saved.terminal newt = k.lines.terminal newt := Function.update_of_ne hsame _ _
    rw [hview, lines_restoreTerminalState, lines_saveTerminalState, hnew]
    rfl

theorem lines_erase :
    k.handleBackspace.lines =
      k.lines.after (if k.handleBackspace.keyboardIdx = k.keyboardIdx then .nothing else .erase) := by
  rcases k.lines_handleBackspace with hsame | ⟨h0, herase⟩
  · have hidx : k.handleBackspace.keyboardIdx = k.keyboardIdx := congrArg Lines.idx hsame
    rw [if_pos hidx]
    exact hsame
  · have hidx : k.handleBackspace.keyboardIdx = k.keyboardIdx - 1 := congrArg Lines.idx herase
    rw [if_neg (by rw [hidx]; grind)]
    have h0' : ¬ k.lines.idx = 0 := h0
    rw [Lines.after, if_neg h0']
    exact herase

section Handler

variable {k} {status keycode : UInt8} {keys : Keys} (frame : Frame) (env : ExecEnv)

theorem lineAction_key :
    k.lineAction keys (.key status keycode frame env) =
      match k.keyAction status keycode keys with
      | .typed c => .typed c
      | .enter => .enter
      | .erase => if k.handleBackspace.keyboardIdx = k.keyboardIdx then .nothing else .erase
      | .clear => .clear
      | .chord newt => k.switchAction newt
      | _ => .nothing := rfl

/-- A key that is no terminal chord keeps the executing terminal as well. -/
theorem lines_keyboardHandler (hchord : ∀ newt, k.keyAction status keycode keys ≠ .chord newt) :
    (k.keyboardHandler lay fs status keycode frame env keys).2.lines =
      k.lines.after (k.lineAction keys (.key status keycode frame env)) := by
  have hstep := k.keyboardHandler_step lay fs status keycode frame env keys
  rw [lineAction_key]
  generalize (k.keyboardHandler lay fs status keycode frame env keys).2 = k' at hstep ⊢
  generalize k.keyAction status keycode keys = a at hstep hchord ⊢
  cases hstep with
  | nothing => rfl
  | typed c => exact k.lines_typeChar c
  | enter => exact k.lines_enterLine
  | erase => exact k.lines_erase
  | clear => exact k.lines_clearLine
  | command hcmd => exact k.lines_command fs hcmd
  | chord newt => exact absurd rfl (hchord newt)

theorem keyboardHandler_chord {newt : Nat} (hchord : k.keyAction status keycode keys = .chord newt) :
    (k.keyboardHandler lay fs status keycode frame env keys).2 =
      k.switchTerminal lay fs newt frame env := by
  have hstep := k.keyboardHandler_step lay fs status keycode frame env keys
  rw [hchord] at hstep
  generalize (k.keyboardHandler lay fs status keycode frame env keys).2 = k' at hstep ⊢
  cases hstep with
  | chord newt => rfl

theorem lineAction_chord {newt : Nat} (hchord : k.keyAction status keycode keys = .chord newt) :
    k.lineAction keys (.key status keycode frame env) = k.switchAction newt := by
  rw [lineAction_key, hchord]

theorem agree_keyboardHandler :
    (k.lines.after (k.lineAction keys (.key status keycode frame env))).Agree
      (k.keyboardHandler lay fs status keycode frame env keys).2.lines := by
  by_cases hchord : ∃ newt, k.keyAction status keycode keys = .chord newt
  · obtain ⟨newt, hnewt⟩ := hchord
    rw [keyboardHandler_chord lay fs frame env hnewt, lineAction_chord frame env hnewt]
    exact k.agree_switchTerminal lay fs newt frame env
  · exact .of_eq (lines_keyboardHandler lay fs frame env (not_exists.1 hchord))

end Handler

end Kernel

/-- **What an event does to the input lines is its action.** -/
theorem lines_inputStep {lay : Layout} {fs : FileSys} {s s' : Keys × Kernel} {e : InputEvent}
    (h : inputStep lay fs s e = some s') :
    (s.2.lines.after (s.2.lineAction s.1 e)).Agree s'.2.lines := by
  obtain ⟨keys, k⟩ := s
  cases e with
  | key status keycode frame env =>
      obtain rfl := Option.some.inj h
      exact Kernel.agree_keyboardHandler lay fs frame env
  | call e =>
      obtain ⟨k', hk, rfl⟩ := Option.map_eq_some_iff.1 h
      dsimp only at hk ⊢
      cases e with
      | execute command env =>
          cases hk
          exact k.agree_execute fs command env
      | halt status env =>
          cases hk
          exact k.agree_haltWith fs _ env
      | haltFromExc env =>
          cases hk
          exact k.agree_haltWith fs _ env
      | openFile filename =>
          cases hk
          exact Kernel.agree_of_devices (k.devices_openFile fs filename)
            ((k.core_step lay fs (e := .openFile filename) rfl).toLocal trivial).viewed
      | close fd =>
          cases hk
          exact Kernel.agree_of_devices (k.devices_close fd)
            ((k.core_step lay fs (e := .close fd) rfl).toLocal trivial).viewed
      | read fd buf nbytes =>
          obtain ⟨r, hr, rfl⟩ := Option.map_eq_some_iff.1 hk
          exact k.agree_read fs hr
      | write fd buf bytes nbytes =>
          obtain ⟨r, hr, rfl⟩ := Option.map_eq_some_iff.1 hk
          exact .of_eq (k.lines_write hr)
      | vidmap screenStart =>
          cases hk
          unfold Kernel.vidmap
          split_ifs <;> exact .refl _
      | switchTask frame =>
          obtain ⟨r, hr, rfl⟩ := Option.map_eq_some_iff.1 hk
          obtain ⟨t, -, rfl⟩ := Option.map_eq_some_iff.1 hr
          exact k.agree_switchTo lay t frame
      | switchTerminal newt frame env =>
          cases hk
          exact k.agree_switchTerminal lay fs newt frame env
      | neighbours past =>
          cases hk
          refine ⟨rfl, rfl, rfl, fun t ht => ?_⟩
          simp [Kernel.lines, Kernel.lineAction, Lines.after, ht]

end UnixTerminal
