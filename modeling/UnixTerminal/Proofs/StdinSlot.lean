import UnixTerminal.Proofs.LineIndices
import UnixTerminal.Proofs.PcbFields

set_option autoImplicit false

/-! # Descriptor 0

A program starts with stdin in slot 0, and no call puts anything else there: `open` hands out the
slots 2 to 7 and the reserved names go to slots 1 and 2, `close` refuses 0 and 1. A write to
descriptor 0 so is a call of `keyboard_write`, and between two keys this finds its indices equal. -/

namespace UnixTerminal

/-- The driver of descriptor 0. -/
def Pcb.slot0 (p : Pcb) : UInt32 := (p.fdsArray 0).flags

/-! ## The slot under the transitions -/

/-- A PCB is replaced by one with the same slot. -/
theorem slot0_update (pcb : UInt32 → Pcb) {b : UInt32} {q : Pcb} (hq : q.slot0 = (pcb b).slot0) (a : UInt32) :
    (Function.update pcb b q a).slot0 = (pcb a).slot0 := by
  rw [Function.update_apply]
  split_ifs with ha
  · rw [hq, ha]
  · rfl

namespace Core

variable {lay : Layout} {fs : FileSys} {c c' : Core}

theorem slot0_start (c : Core) (p : UInt32) (frame : Frame) (a : UInt32) :
    ((c.start p frame).pcb a).slot0 = if a = getPcbPointer p then stdinFlag else (c.pcb a).slot0 := by
  rw [start_pcb, setPcb_pcb, Function.update_apply]
  split_ifs with ha
  · rfl
  · rfl

theorem Exec.slot0 {command : List UInt8} {env : ExecEnv} {o : ExecOutcome} (h : c.Exec fs command env o c')
    (a : UInt32) : (c'.pcb a).slot0 =
      if o.isStarted = true ∧ a = c'.currentPcb then stdinFlag else (c.pcb a).slot0 := by
  cases h with
  | full => simp [ExecOutcome.isStarted]
  | @notFound p _ _ _ =>
      rw [if_neg (fun hs => Bool.noConfusion hs.1)]
      exact slot0_update c.pcb (by rfl) a
  | @notExe p _ _ _ =>
      rw [if_neg (fun hs => Bool.noConfusion hs.1)]
      exact slot0_update c.pcb (by rfl) a
  | @started p _ _ _ _ _ =>
      have hclaim : ((c.claim p command).pcb a).slot0 = (c.pcb a).slot0 :=
        slot0_update c.pcb (by rfl) a
      rw [slot0_start, hclaim]
      simp [ExecOutcome.isStarted]

theorem Halt.slot0 {eax : UInt32} {env : ExecEnv} {o : HaltOutcome} (h : c.Halt fs eax env o c') (a : UInt32) :
    (c'.pcb a).slot0 =
      if o.isRestarted = true ∧ a = c'.currentPcb then stdinFlag else (c.pcb a).slot0 := by
  cases h with
  | toParent =>
      -- the table of the parent loses its slots from 2 on
      rw [if_neg (fun hs => Bool.noConfusion hs.1)]
      exact slot0_update c.pcb (by rfl) a
  | restarted _ hexec => exact hexec.slot0 a
  | @stuck _ c'' _ hexec =>
      have hshell := hexec.slot0 a
      rw [if_neg (fun hs => Bool.noConfusion hs.1)] at hshell ⊢
      exact (slot0_update c''.pcb (by rfl) a).trans hshell

end Core

/-- `open` fills in slots from 2 on, and the reserved names change slots 1 and 2. -/
theorem slot0_openFile (fs : FileSys) (k : Kernel) (filename : List UInt8) (a : UInt32) :
    ((k.openFile fs filename).2.pcb a).slot0 = (k.pcb a).slot0 := by
  have h := k.openFile_cases fs filename
  generalize k.openFile fs filename = r at h ⊢
  obtain ⟨v, k'⟩ := r
  dsimp only at h ⊢
  cases h with
  | stdin => exact slot0_update k.pcb (by rfl) a
  | stdout => exact slot0_update k.pcb (by rfl) a
  | failed => rfl
  | otherType => rfl
  | @opened i d q hd hi hq =>
      have hne : (0 : Nat) ≠ i := by
        have h2 := (Kernel.freeSlot_mem hi).1
        omega
      have hslot : q.slot0 = k.callerPcb.slot0 :=
        congrArg Fds.flags ((Kernel.fdsArray_openSlot hq).1 0 hne)
      exact slot0_update k.pcb hslot a

theorem slot0_close (k : Kernel) (fd : Int) (a : UInt32) :
    ((k.close fd).2.pcb a).slot0 = (k.pcb a).slot0 := by
  have h := k.close_cases fd
  generalize k.close fd = r at h ⊢
  obtain ⟨v, k'⟩ := r
  dsimp only at h ⊢
  cases h with
  | failed => rfl
  | closed hlo _ _ =>
      have hne : ¬ (0 : Nat) = fd.toNat := by omega
      refine slot0_update k.pcb ?_ a
      simp [Pcb.slot0, hne]

theorem slot0_read {fs : FileSys} {k : Kernel} {fd : Int} {buf : UInt32} {nbytes : Int}
    {r : Transfer × Kernel} (h : k.read fs fd buf nbytes = some r) (a : UInt32) :
    (r.2.pcb a).slot0 = (k.pcb a).slot0 := by
  rcases k.read_cases fs h with hsame | ⟨-, -, -, rfl⟩
  · exact congrArg (fun c : Core => (c.pcb a).slot0) hsame
  · refine slot0_update k.pcb ?_ a
    simp only [Pcb.slot0, Pcb.fdsArray_setFds]
    split_ifs with h0
    · rw [← h0]
    · rfl

/-- **One event.** Slot 0 of a PCB changes when a program is started in it, and is stdin then. -/
theorem slot0_step {lay : Layout} {fs : FileSys} {k k' : Kernel} {e : Event}
    (hstep : k.step lay fs e = some k') (a : UInt32) :
    (k'.pcb a).slot0 =
      if k.launches fs e = true ∧ a = k'.currentPcb then stdinFlag else (k.pcb a).slot0 := by
  have hquiet : k.launches fs e = false → (k'.pcb a).slot0 = (k.pcb a).slot0 →
      (k'.pcb a).slot0 =
        if k.launches fs e = true ∧ a = k'.currentPcb then stdinFlag else (k.pcb a).slot0 := by
    intro hl hsame
    rw [hl, if_neg (fun hs => Bool.noConfusion hs.1), hsame]
  cases e with
  | execute command env =>
      cases hstep
      exact (k.core_execute fs command env).slot0 a
  | halt status env =>
      cases hstep
      exact (k.core_haltWith fs status.toUInt32 env).slot0 a
  | haltFromExc env =>
      cases hstep
      exact (k.core_haltWith fs 256 env).slot0 a
  | openFile filename =>
      cases hstep
      exact hquiet rfl (slot0_openFile fs k filename a)
  | close fd =>
      cases hstep
      exact hquiet rfl (slot0_close k fd a)
  | read fd buf nbytes =>
      obtain ⟨r, hr, rfl⟩ := Option.map_eq_some_iff.1 hstep
      exact hquiet rfl (slot0_read hr a)
  | write fd buf bytes nbytes =>
      obtain ⟨r, hr, rfl⟩ := Option.map_eq_some_iff.1 hstep
      exact hquiet rfl (congrArg (fun c : Core => (c.pcb a).slot0) (k.core_write hr))
  | vidmap screenStart =>
      cases hstep
      refine hquiet rfl ?_
      unfold Kernel.vidmap
      split_ifs <;> rfl
  | switchTask frame =>
      obtain ⟨r, hr, rfl⟩ := Option.map_eq_some_iff.1 hstep
      obtain ⟨t, -, rfl⟩ := Option.map_eq_some_iff.1 hr
      refine hquiet rfl ((congrArg (fun c : Core => (c.pcb a).slot0) (k.core_switchTo lay t frame).1).trans ?_)
      exact slot0_update k.pcb (by rfl) a
  | switchTerminal newt frame env =>
      cases hstep
      rcases k.switchTerminal_cases lay fs newt frame env with ⟨hopens, hk⟩ | ⟨hnot, hk⟩
      · have hexec := (k.core_openTerminal fs newt frame env).slot0 a
        have hsaved : ((k.core.toTerminal newt frame).pcb a).slot0 = (k.pcb a).slot0 :=
          slot0_update k.pcb (by rfl) a
        rw [hsaved] at hexec
        simp only [Kernel.launches, hopens, decide_true, Bool.true_and, hk]
        exact hexec
      · refine hquiet (by simp [Kernel.launches, hnot]) ?_
        rcases hk with hk | ⟨-, -, hk⟩
        · exact congrArg (fun c : Core => (c.pcb a).slot0) hk
        · exact congrArg (fun c : Core => (c.pcb a).slot0) hk
  | neighbours past =>
      cases hstep
      exact hquiet rfl rfl

/-! ## The events of the console -/

namespace Kernel

variable (k : Kernel)

theorem quietField_core : QuietField core where
  video _ _ _ _ _ := rfl
  saved k t _ _ _ := k.core_setTerminal t _ (fun _ => rfl) (fun _ => rfl)

/-- A key that is no terminal chord leaves the process manager alone. -/
theorem core_of_keyStep {lay : Layout} {fs : FileSys} {frame : Frame} {env : ExecEnv} {a : KeyAction}
    {k' : Kernel} (h : KeyStep lay fs k frame env a k') (hchord : ∀ newt, a ≠ .chord newt) :
    k'.core = k.core := by
  cases h with
  | nothing => rfl
  | typed c =>
      rw [quietField_core.screen.typeChar]
      split_ifs <;> rfl
  | enter =>
      rw [quietField_core.screen.enterLine]
      exact core_setTerminal _ _ (fun t => { t with termEnter := 1 }) (fun _ => rfl) (fun _ => rfl)
  | erase =>
      rw [quietField_core.screen.handleBackspace]
      split_ifs <;> rfl
  | clear => exact quietField_core.clear k
  | command hcmd => exact k.field_command fs quietField_core (fun _ _ => rfl) hcmd
  | chord newt => exact absurd rfl (hchord newt)

end Kernel

/-- The call of the process manager that an event is. -/
def LineEvent.call (s : Keys × Kernel) : LineEvent → Option Event
  | .console (.input (.call e)) => some e
  | .console (.input (.key status keycode frame env)) =>
      match s.2.keyAction status keycode s.1 with
      | .chord newt => some (.switchTerminal newt frame env)
      | _ => none
  | _ => none

/-- Other events leave the process manager alone. -/
theorem core_lineStep {lay : Layout} {fs : FileSys} {s s' : Keys × Kernel} {e : LineEvent}
    (hs : lineStep lay fs s e = some s') :
    (∃ call, e.call s = some call ∧ s.2.step lay fs call = some s'.2) ∨
    e.call s = none ∧ s'.2.core = s.2.core := by
  obtain ⟨keys, k⟩ := s
  match e with
  | .keyboardRead nbytes =>
      obtain ⟨r, hr, rfl⟩ := Option.map_eq_some_iff.1 hs
      exact Or.inr ⟨rfl, k.core_keyboardRead hr⟩
  | .console (.print cs) =>
      obtain rfl := Option.some.inj hs
      exact Or.inr ⟨rfl, k.core_puts cs⟩
  | .console (.terminalWrite buf nbytes) =>
      obtain rfl := Option.some.inj hs
      exact Or.inr ⟨rfl, k.core_terminalWrite buf nbytes⟩
  | .console .clear =>
      obtain rfl := Option.some.inj hs
      exact Or.inr ⟨rfl, k.core_clear⟩
  | .console (.input (.call e)) =>
      obtain ⟨k', hk, rfl⟩ := Option.map_eq_some_iff.1 hs
      exact Or.inl ⟨e, rfl, hk⟩
  | .console (.input (.key status keycode frame env)) =>
      obtain rfl := Option.some.inj hs
      have hstep := k.keyboardHandler_step lay fs status keycode frame env keys
      dsimp only [LineEvent.call]
      generalize (k.keyboardHandler lay fs status keycode frame env keys).2 = k' at hstep ⊢
      generalize k.keyAction status keycode keys = a at hstep ⊢
      by_cases hchord : ∃ newt, a = .chord newt
      · obtain ⟨newt, rfl⟩ := hchord
        cases hstep
        exact Or.inl ⟨_, rfl, rfl⟩
      · have hne := not_exists.1 hchord
        refine Or.inr ⟨?_, k.core_of_keyStep hstep hne⟩
        cases a <;> first | rfl | exact absurd rfl (hne _)

/-- The PCBs in which programs were started, by their addresses. -/
def startedAfter (fs : FileSys) (s : Keys × Kernel) (e : LineEvent) (s' : Keys × Kernel)
    (started : UInt32 → Bool) : UInt32 → Bool :=
  match e.call s with
  | some call => if s.2.launches fs call then Function.update started s'.2.currentPcb true else started
  | none => started

/-- **One event** of the console, and slot 0. -/
theorem slot0_lineStep {lay : Layout} {fs : FileSys} {s s' : Keys × Kernel} {e : LineEvent}
    (hs : lineStep lay fs s e = some s') {pcb : UInt32 → Pcb} {started : UInt32 → Bool}
    (h : ∀ a, (s.2.pcb a).slot0 = if started a then stdinFlag else (pcb a).slot0) (a : UInt32) :
    (s'.2.pcb a).slot0 = if startedAfter fs s e s' started a then stdinFlag else (pcb a).slot0 := by
  rcases core_lineStep hs with ⟨call, hcall, hstep⟩ | ⟨hnone, hcore⟩
  · rw [slot0_step hstep a, h a]
    by_cases hl : s.2.launches fs call = true
    · have hafter : startedAfter fs s e s' started = Function.update started s'.2.currentPcb true := by
        rw [startedAfter, hcall]
        exact if_pos hl
      rw [hafter, Function.update_apply]
      by_cases ha : a = s'.2.currentPcb
      · simp [hl, ha]
      · simp [ha]
    · have hafter : startedAfter fs s e s' started = started := by
        rw [startedAfter, hcall]
        exact if_neg hl
      rw [hafter, if_neg (fun hs => hl hs.1)]
  · have hafter : startedAfter fs s e s' started = started := by
      rw [startedAfter, hnone]
    rw [hafter]
    exact (congrArg (fun c : Core => (c.pcb a).slot0) hcore).trans (h a)

/-! ## Runs -/

/-- With level indices, a write to stdin fails without an effect. -/
theorem Kernel.write_stdin {k : Kernel} (h : k.indices.Level) {fd : Int}
    (hfd : ((k.pcb k.currentPcb).fdsArray fd.toNat).flags = stdinFlag ∨
      ((k.pcb k.currentPcb).fdsArray fd.toNat).flags = notSet)
    (buf : UInt32) (bytes : List UInt8) (nbytes : Int) : k.write fd buf bytes nbytes = some (-1, k) := by
  unfold Kernel.write
  split
  · rfl
  · rcases hfd with hfd | hfd
    · rw [hfd]
      exact congrArg some (keyboardWrite_level h bytes)
    · rw [hfd]
      rfl

/-- **The two indices are equal between any two entries of the kernel**, and at most 128, for the line
    and for every saved line. So every write to a descriptor of stdin fails and prints nothing; and
    descriptor 0 is one in each program (and where memory was zero). A key that is appended to
    the line prints its character once, and one that finds the line full changes nothing. -/
theorem line_indices_level (lay : Layout) (fs : FileSys) (mem : BootMemory) (s : Keys × Kernel)
    (started : UInt32 → Bool)
    (hreach : Reaches (withGhost (lineStep lay fs) (startedAfter fs)) (fun _ _ => True)
      ((Keys.loaded, Kernel.boot lay mem), fun _ => false) (s, started)) :
    s.2.indices.Level ∧
    (∀ fd buf bytes nbytes, ((s.2.pcb s.2.currentPcb).fdsArray fd.toNat).flags = stdinFlag →
      s.2.write fd buf bytes nbytes = some (-1, s.2)) ∧
    (started s.2.currentPcb = true ∨ (mem.pcb s.2.currentPcb).slot0 = notSet →
      ∀ buf bytes nbytes, s.2.write 0 buf bytes nbytes = some (-1, s.2)) ∧
    ∀ status keycode frame env c, s.2.keyAction status keycode s.1 = .typed c →
      (s.2.keyboardHandler lay fs status keycode frame env s.1).2 =
        if s.2.keyboardIdx = 128 then s.2
        else
          { (if s.2.screenX = numCols - 1 ∧ s.2.screenY = numRows - 1 then s.2.vertScroll else s.2).putc c with
            keyboardBuf := Function.update s.2.keyboardBuf s.2.keyboardIdx.toNat c
            keyboardIdx := s.2.keyboardIdx + 1
            lastIdx := s.2.lastIdx + 1 } := by
  obtain ⟨hlevel, hslot⟩ := hreach.invariant
    (I := fun g => g.1.2.indices.Level ∧
      ∀ a, (g.1.2.pcb a).slot0 = if g.2 a then stdinFlag else (mem.pcb a).slot0)
    ⟨level_boot lay mem, fun _ => rfl⟩
    (by
      rintro ⟨s, started⟩ e ⟨s', started'⟩ ⟨hlevel, hslot⟩ - hs
      obtain ⟨hstep, hghost⟩ := withGhost_eq_some hs
      dsimp only at hghost ⊢
      subst hghost
      exact ⟨level_lineStep hlevel hstep, slot0_lineStep hstep hslot⟩)
  dsimp only at hlevel hslot
  refine ⟨hlevel, fun fd buf bytes nbytes hfd => Kernel.write_stdin hlevel (Or.inl hfd) buf bytes nbytes,
    fun hfirst buf bytes nbytes => ?_, fun status keycode frame env c hkey => ?_⟩
  · have h0 := hslot s.2.currentPcb
    refine Kernel.write_stdin hlevel ?_ buf bytes nbytes
    split_ifs at h0 with hstarted
    · exact Or.inl h0
    · exact Or.inr (h0.trans (hfirst.resolve_left hstarted))
  · have hstep := s.2.keyboardHandler_step lay fs status keycode frame env s.1
    rw [hkey] at hstep
    generalize (s.2.keyboardHandler lay fs status keycode frame env s.1).2 = k' at hstep ⊢
    cases hstep
    by_cases hfull : s.2.keyboardIdx = 128
    · rw [if_pos hfull]
      exact if_pos hfull
    · rw [if_neg hfull]
      exact Kernel.typeChar_eq_putc hlevel (UInt8.lt_of_le_of_ne hlevel.line.2 hfull) c

/-- The first shell types the letter a, and its writes to descriptor 0 fail. -/
theorem line_indices_level_shell :
    ∃ s : Keys × Kernel, s = sampleShell.keyboardHandler sampleLayout sampleFs 1 0x1E ⟨0, 0⟩ (sampleEnv 0 0)
        Keys.loaded ∧ s.2.keyboardIdx = 1 ∧ s.2.indices.Level ∧
      s.2.write 0 0x8048000 [120] 1 = some (-1, s.2) := by
  have hrun : Reaches (withGhost (lineStep sampleLayout sampleFs) (startedAfter sampleFs)) (fun _ _ => True)
      ((Keys.loaded, Kernel.boot sampleLayout sampleMemory), fun _ => false) _ :=
    (Reaches.refl.tail (e := .console (.input (.call (.execute shellName (sampleEnv 100 101))))) trivial rfl).tail
      (e := .console (.input (.key 1 0x1E ⟨0, 0⟩ (sampleEnv 0 0)))) trivial rfl
  have h := line_indices_level sampleLayout sampleFs sampleMemory _ _ hrun
  exact ⟨_, rfl, by decide +kernel, h.1, h.2.2.1 (Or.inl (by decide +kernel)) 0x8048000 [120] 1⟩

end UnixTerminal
