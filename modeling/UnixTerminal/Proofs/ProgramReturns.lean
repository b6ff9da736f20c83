import UnixTerminal.Proofs.Callers
import UnixTerminal.Proofs.CommandSplit
import UnixTerminal.Proofs.ExecuteStarts
import UnixTerminal.Proofs.Conversations
import UnixTerminal.Proofs.Listing

set_option autoImplicit false

/-! # A command, from `execute` to `halt`

A process executes a command, the program has its conversation and ends, and the call comes back. Behind it
the process finds the machine as it was, but for the screen, for the PCB in the slot that the program had,
and for `current_pcb`, which still points there. -/

namespace UnixTerminal

/-- The caller: the machine agrees about which process runs, the viewed terminal is active, and the process
    is in the table and has nothing open. -/
structure Kernel.Parent (k : Kernel) : Prop where
  coherent : Coherent k.core
  viewed : k.core.active k.currTerminalNumber ≠ 0
  live : k.processArray k.currProcess.toNat ≠ 0
  files : NoFiles k.callerPcb

/-- The core behind a command whose program had slot `p`. -/
def Core.afterCommand (c : Core) (p : UInt32) (q : Pcb) : Core :=
  { c with pcb := Function.update c.pcb (getPcbPointer p) q, currentPcb := getPcbPointer p }

/-- What a command with this conversation left of the machine. -/
structure Kernel.Returned (k : Kernel) (script : List Talk) (k' : Kernel) : Prop where
  core : ∃ (p : UInt32) (q : Pcb), p < 6 ∧ k.core.freeSlot = some p.toNat ∧
    (q.fdsArray 0).flags = stdinFlag ∧ (q.fdsArray 1).flags = stdoutFlag ∧ k'.core = k.core.afterCommand p q
  screen : ∀ s : PrivateScreen, (k.cells k.currTerm).logical = s.logical →
    (k'.cells k.currTerm).logical = (script.foldl PrivateScreen.talk s).logical
  others : ∀ t, t ≠ k.currTerm → k'.cells t = k.cells t
  ready : k'.LineReady
  listing : k'.dirReadIdxNew = 0

/-! ## The three steps -/

section Steps

variable {fs : FileSys} {k : Kernel} {command : List UInt8} {env : ExecEnv} {entry : UInt32}

/-- What the devices tell of a terminal's cells and of the lines. -/
theorem cells_congr {k k' : Kernel} (h : k'.devices = k.devices)
    (hview : k'.currTerminalNumber = k.currTerminalNumber) (t : Nat) : k'.cells t = k.cells t := by
  have hterm : (k'.terminals t).devices = (k.terminals t).devices :=
    congrArg (fun d : Devices => d.terminal t) h
  have hsaved : (k'.terminals t).cells = (k.terminals t).cells :=
    congrArg (fun d : TerminalDevices => (⟨d.screen, d.x, d.y⟩ : Cells)) hterm
  have hvideo : k'.videoCells = k.videoCells :=
    congrArg (fun d : Devices => (⟨d.videoMem, d.screenX, d.screenY⟩ : Cells)) h
  unfold Kernel.cells
  rw [hview, hsaved, hvideo]

theorem lines_congr {k k' : Kernel} (h : k'.devices = k.devices) (hcore : k'.currTerm = k.currTerm)
    (hview : k'.currTerminalNumber = k.currTerminalNumber) : k'.lines = k.lines := by
  have hterm : (fun t => (k'.terminals t).line) = fun t => (k.terminals t).line :=
    congrArg (fun d : Devices => fun t => (⟨(d.terminal t).inputBuf, (d.terminal t).keyboardIndex,
      (d.terminal t).termEnter⟩ : TerminalLine)) h
  exact Lines.ext (congrArg Devices.keyboardBuf h) (congrArg Devices.keyboardIdx h) hterm hcore hview

/-- A program that was just started is a fresh one. -/
theorem Kernel.fresh_of_started {name rest : List UInt8} {blanks : Nat}
    (hsplit : CommandSplit command name rest blanks) (hlen : strlen command ≤ 127)
    (hstart : (k.execute fs command env).1 = .started entry) (hidx : k.dirReadIdxNew = 0) :
    (k.execute fs command env).2.Fresh rest := by
  obtain ⟨hfds, hpcb⟩ := callerPcb_of_started hstart
  refine ⟨⟨hpcb, ?_, ?_⟩, fun i h2 h8 => ?_, Kernel.hasArgs_of_started hsplit hlen hstart, ?_⟩
  · rw [hfds 0 (by decide)]
    rfl
  · rw [hfds 1 (by decide)]
    rfl
  · rw [hfds i h8, Kernel.initFds, if_neg (by omega), if_neg (by omega)]
  · rw [dirReadIdxNew_execute, hidx]

end Steps

theorem closeAll_of_noFiles {p : Pcb} (h : NoFiles p) : Core.closeAll p = p := by
  have hfds : (Core.closeAll p).fdsArray = p.fdsArray := by
    funext i
    refine if_neg (fun hi => hi.2 (h i ?_ ?_))
    all_goals
      have hmem := hi.1
      simp only [List.mem_cons, List.not_mem_nil, or_false] at hmem
      omega
  exact congrArg (fun fds : Nat → Fds => { p with fdsArray := fds }) hfds

/-- The core behind the three steps. -/
theorem afterCommand_of_steps {c : Core} (hc : Coherent c) (hview : c.active c.currTerminalNumber ≠ 0)
    {p : UInt32} (hp : p < 6) (hslot : c.freeSlot = some p.toNat) (hfiles : NoFiles (c.pcbOf c.currProcess))
    (hne : c.currProcess ≠ p) (command : List UInt8) (frame : Frame) (q : Pcb) :
    ((((c.claim p command).start p frame).setPcb p (fun _ => q)).release p).resume c.currProcess
      = c.afterCommand p q := by
  ext1 <;> try rfl
  · -- the slot was free, and is so again
    simp only [Core.resume, Core.release, Core.setPcb, Core.start, Core.claim, Core.afterCommand,
      Function.update_idem]
    exact Function.update_eq_self_iff.2 (Core.freeSlot_free hslot).symm
  · simp only [Core.resume, Core.release, Core.setPcb, Core.start, Core.claim, Core.afterCommand, hview, if_false]
    exact Function.update_eq_self _ _
  · simp only [Core.resume, Core.release, Core.setPcb, Core.start, Core.claim, Core.afterCommand,
      Function.update_idem]
    exact Function.update_eq_self_iff.2 hc.current
  · have hptr := getPcbPointer_ne hc.current_lt hp hne
    simp only [Core.resume, Core.release, Core.setPcb, Core.start, Core.claim, Core.afterCommand, Core.pcbOf,
      Function.update_idem, Function.update_of_ne hptr]
    refine Function.update_eq_self_iff.2 ?_
    rw [Function.update_of_ne hptr]
    exact closeAll_of_noFiles hfiles
  · exact hc.stack.symm
  · simp only [Core.resume, Core.release, Core.setPcb, Core.start, Core.claim, Core.afterCommand,
      Core.userPageDirectory, Function.update_idem]
    exact Function.update_eq_self_iff.2 hc.page.symm

/-! ## The end of a program -/

namespace ProgramEnd

/-- The message on the screen. -/
def message : ProgramEnd → List UInt8
  | .returns _ => []
  | .faults message => message

/-- What `halt` or `halt_from_exc` puts into `%eax`. -/
def eax : ProgramEnd → UInt32
  | .returns value => (UInt8.ofInt value).toUInt32
  | .faults _ => 256

/-- What the caller of `execute` gets: the low byte of the value of `main`, or 256. -/
def rval : ProgramEnd → Int
  | .returns value => (UInt8.ofInt value).toNat
  | .faults _ => 256

theorem toInt_eax (stop : ProgramEnd) : stop.eax.toInt32.toInt = stop.rval := by
  cases stop with
  | returns value =>
      have hall : ∀ n : Fin 256, (UInt8.ofNat n.1).toUInt32.toInt32.toInt = (n.1 : Int) := by decide +kernel
      have h := hall ⟨(UInt8.ofInt value).toNat, (UInt8.ofInt value).toNat_lt⟩
      rwa [UInt8.ofNat_toNat] at h
  | faults message =>
      have h : (256 : UInt32).toInt32.toInt = 256 := by decide
      exact h

/-- The end of a program on the viewed terminal. -/
theorem halt_eq (fs : FileSys) {k : Kernel} (h : k.currTerm = k.currTerminalNumber) (env : ExecEnv)
    (stop : ProgramEnd) : stop.halt fs k env = (stop.message.foldl Kernel.emit k).haltWith fs stop.eax env := by
  cases stop with
  | returns value => rfl
  | faults message =>
      rw [ProgramEnd.halt, Kernel.puts_eq_foldl_emit message h]
      rfl

end ProgramEnd

/-- `halt` of a process with a parent leaves the devices alone. -/
theorem devices_haltWith_of_parent (fs : FileSys) (halting : ExecEnv) (k : Kernel) (eax : UInt32)
    (hpar : k.core.ppid ≠ minusOne) : (k.haltWith fs eax halting).2.devices = k.devices := by
  have hppid : ((k.endProcess k.currProcess).pcb
      (getPcbPointer (k.endProcess k.currProcess).currProcess)).ppid ≠ minusOne := hpar
  unfold Kernel.haltWith
  dsimp only
  rw [if_neg hppid]
  exact Kernel.devices_resumeParent _ _ _

/-! ## The command -/

/-- `k₁` runs the program that `execute` just started in slot `p` of `k`. -/
structure Kernel.Started (k : Kernel) (p : UInt32) (command rest : List UInt8) (frame : Frame) (k₁ : Kernel) :
    Prop where
  slot_lt : p < 6
  slot : k.core.freeSlot = some p.toNat
  core : k₁.core = (k.core.claim p command).start p frame
  devices : k₁.devices = k.devices
  fresh : k₁.Fresh rest

section Command

variable {fs : FileSys} {k k₁ k₃ : Kernel} {command name rest : List UInt8} {blanks : Nat} {caller : ExecEnv}
  {p : UInt32} {frame : Frame} {script : List Talk}

theorem exists_started (hidx : k.dirReadIdxNew = 0) (hfree : k.core.freeSlot ≠ none)
    (hexe : IsExe fs command caller) (hsplit : CommandSplit command name rest blanks)
    (hlen : strlen command ≤ 127) :
    ∃ p entry k₁, k.execute fs command caller = (.started entry, k₁) ∧
      k.Started p command rest caller.frame k₁ := by
  obtain ⟨entry, hstart⟩ := (execute_outcome fs k command caller hfree).1 hexe
  obtain ⟨p, hp, hslot, hcore⟩ := k.core_started fs hstart
  exact ⟨p, entry, _, Prod.ext hstart rfl, hp, hslot, hcore, Kernel.devices_of_started fs k hstart,
    Kernel.fresh_of_started hsplit hlen hstart hidx⟩

namespace Kernel.Started

variable (h : k.Started p command rest frame k₁)

include h

theorem currTerm : k₁.currTerm = k.currTerm := congrArg Core.currTerm h.core

theorem currTerminalNumber : k₁.currTerminalNumber = k.currTerminalNumber :=
  congrArg Core.currTerminalNumber h.core

theorem currProcess : k₁.currProcess = p := congrArg Core.currProcess h.core

theorem cells (t : Nat) : k₁.cells t = k.cells t := cells_congr h.devices h.currTerminalNumber t

theorem attended (hatt : k.Attended) : k₁.Attended :=
  ⟨hatt.toLineReady.congr (lines_congr h.devices h.currTerm h.currTerminalNumber)
      (Kernel.indices_of_devices h.devices),
    h.currTerm.trans (hatt.term.trans h.currTerminalNumber.symm)⟩

theorem caller_ne (hk : k.Parent) : k.currProcess ≠ p := by
  rintro rfl
  exact hk.live (Core.freeSlot_free h.slot)

/-- What the child's PCB says. -/
theorem callerPcb (hk : k.Parent) :
    k₁.callerPcb = Core.freshPcb p k.currProcess frame ((k.core.claim p command).pcbOf p) := by
  have hpar : (k.core.claim p command).parentFor = k.currProcess := if_neg hk.viewed
  rw [← hpar]
  exact (congrArg (fun c : Core => c.pcbOf c.currProcess) h.core).trans (Core.pcbOf_start_self _ _ p)

/-- **The child halts**, behind any conversation: the call that started it is resumed, and the machine is the
    caller's again. -/
theorem halts (fs : FileSys) (hk : k.Parent) (hall : Talked k₁ script k₃) (eax : UInt32) (halting : ExecEnv) :
    ∃ k₄, k₃.haltWith fs eax halting = (.resumed eax frame, k₄) ∧ k₄.devices = k₃.devices ∧
      k₄.core = k.core.afterCommand p k₃.callerPcb := by
  have hown := hall.ownEdit
  rw [h.callerPcb hk] at hown
  have hcore₃ : k₃.core = ((k.core.claim p command).start p frame).setPcb p (fun _ => k₃.callerPcb) := by
    rw [hall.core, h.core, h.currProcess]
  have hppid : k₃.core.ppid = k.currProcess := hown.ppid
  have hframe : k₃.core.callFrame k₃.core.currProcess = frame := by
    have hesp : k₃.callerPcb.esp0 = frame.esp := hown.esp0
    have hebp : k₃.callerPcb.ebp0 = frame.ebp := hown.ebp0
    change (⟨k₃.callerPcb.esp0, k₃.callerPcb.ebp0⟩ : Frame) = frame
    rw [hesp, hebp]
  have hroot : k₃.core.ppid ≠ minusOne := by
    rw [hppid]
    intro hminus
    have hlt := hk.coherent.current_lt
    rw [show k.core.currProcess = k.currProcess from rfl, hminus] at hlt
    exact absurd hlt (by decide)
  obtain ⟨hout, hcore₄⟩ := (k₃.core_haltWith fs eax halting).parent_spec hroot
  rw [hframe] at hout
  refine ⟨_, Prod.ext hout rfl, devices_haltWith_of_parent fs halting k₃ eax hroot, ?_⟩
  rw [hcore₄, hppid, hcore₃]
  exact afterCommand_of_steps hk.coherent hk.viewed h.slot_lt h.slot hk.files (h.caller_ne hk) command frame
    k₃.callerPcb

/-- What is left when it has halted. -/
theorem returned (hk : k.Parent) (hatt : k.Attended) (hall : Talked k₁ script k₃)
    (hidx : k₃.dirReadIdxNew = 0) {k₄ : Kernel} (hdev : k₄.devices = k₃.devices)
    (hcore : k₄.core = k.core.afterCommand p k₃.callerPcb) : k.Returned script k₄ := by
  have hown := hall.ownEdit
  rw [h.callerPcb hk] at hown
  have hterm : k₄.currTerm = k₃.currTerm :=
    (congrArg Core.currTerm hcore).trans (hall.currTerm.trans h.currTerm).symm
  have hview : k₄.currTerminalNumber = k₃.currTerminalNumber :=
    (congrArg Core.currTerminalNumber hcore).trans (hall.currTerminalNumber.trans h.currTerminalNumber).symm
  refine ⟨⟨p, k₃.callerPcb, h.slot_lt, h.slot, ?_, ?_, hcore⟩, fun s hs => ?_, fun t ht => ?_, ?_, ?_⟩
  · rw [hown.stdin]
    rfl
  · rw [hown.stdout]
    rfl
  · rw [cells_congr hdev hview, ← h.currTerm]
    refine hall.screen s ?_
    rw [h.currTerm, h.cells]
    exact hs
  · rw [cells_congr hdev hview, hall.others t (h.currTerm ▸ ht), h.cells]
  · exact (hall.attended (h.attended hatt)).toLineReady.congr (lines_congr hdev hterm hview)
      (Kernel.indices_of_devices hdev)
  · exact (congrArg Devices.dirReadIdxNew hdev).trans hidx

end Kernel.Started

/-- **A command returns.** Where a slot is free and the named file is a program, `execute` starts it, and once
    it has had its conversation and ended, the call returns what its end says. -/
theorem returned_of_talks (halting : ExecEnv) (hk : k.Parent) (hatt : k.Attended) (hidx : k.dirReadIdxNew = 0)
    (hfree : k.core.freeSlot ≠ none) (hexe : IsExe fs command caller)
    (hsplit : CommandSplit command name rest blanks) (hlen : strlen command ≤ 127)
    {main : Typing → Nat → Option (ProgramEnd × Typing)} {stop : ProgramEnd}
    (hmain : Talks main rest script stop) {mains : Nat → List UInt8 → Typing → Option (ProgramEnd × Typing)}
    (hmains : ∀ fuel s, mains fuel name s = main s fuel) {keys : Keys} (hplain : keys.Plain)
    (lines : List (List UInt8)) :
    ∃ k', Yields (fun fuel => Typing.executeAndWait fs (mains fuel) caller halting command
        ⟨keys, k, typedLines script ++ lines⟩) (stop.rval, ⟨keys, k', lines⟩) ∧
      k.Returned (script ++ [.print stop.message]) k' := by
  obtain ⟨p, entry, k₁, hexec, hstarted⟩ := exists_started hidx hfree hexe hsplit hlen
  have hatt₁ := hstarted.attended hatt
  -- the program, and its message at the end
  obtain ⟨k₂, hrun, htalked, hidx₂⟩ := hmain keys k₁ lines hplain hstarted.fresh hatt₁
  have hall := htalked.trans (Kernel.Ran.print k₂ stop.message).talked
  obtain ⟨k₄, hend, hdev, hcore⟩ := hstarted.halts fs hk hall stop.eax halting
  have hhalt := (stop.halt_eq fs (htalked.attended hatt₁).term halting).trans hend
  have hidx₃ := (Kernel.dirReadIdxNew_foldl_emit stop.message k₂).trans hidx₂
  refine ⟨k₄, ?_, hstarted.returned hk hatt hall hidx₃ hdev hcore⟩
  obtain ⟨n, hn⟩ := hrun
  refine ⟨n, fun fuel hfuel => ?_⟩
  have hvalue := hn fuel hfuel
  simp only [Typing.executeAndWait, hexec]
  rw [hsplit.commandName_eq, hmains, hvalue, Option.bind_some]
  simp only [hhalt, if_pos, stop.toInt_eax]

end Command

end UnixTerminal
