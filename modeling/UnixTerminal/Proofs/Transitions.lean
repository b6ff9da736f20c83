import UnixTerminal.Proofs.Descriptors

set_option autoImplicit false

/-! # The transitions of the process manager

`Core.Exec`, `Core.Halt` and `Core.Step` list, on the core alone, every way `execute`, the two halts
and any event of the system can end. `Kernel.core_step` is the refinement: each event of the kernel
is one of these transitions. Invariants about processes are proved by cases over the transitions and
never unfold the kernel's functions. -/

namespace UnixTerminal

/-! ## The transition relations -/

namespace Core

variable (lay : Layout) (fs : FileSys) (c : Core)

/-- The ways `execute` can end: the table is full; the slot is claimed and the name is not in the
    directory, which frees every slot; the slot is claimed and the file is no executable; or the
    program is started. -/
inductive Exec (command : List UInt8) (env : ExecEnv) : ExecOutcome → Core → Prop
  | full (hslot : c.freeSlot = none) : Exec command env (.returned 0) c
  | notFound {p : UInt32} (hp : p < 6) (hslot : c.freeSlot = some p.toNat)
      (hfile : checkFile fs command env.buffer = .notFound) :
      Exec command env (.returned (-1)) (c.claim p command).clear
  | notExe {p : UInt32} (hp : p < 6) (hslot : c.freeSlot = some p.toNat)
      (hfile : checkFile fs command env.buffer = .notExe) :
      Exec command env (.returned (-1)) (c.claim p command)
  | started {p : UInt32} {inode : Nat} {entry : UInt32} (hp : p < 6)
      (hslot : c.freeSlot = some p.toNat)
      (hfile : checkFile fs command env.buffer = .exe inode entry) :
      Exec command env (.started entry) ((c.claim p command).start p env.frame)

/-- A program that is started gets a free slot, and its state is `Core.start`. -/
theorem Exec.started_spec {fs : FileSys} {c c' : Core} {command : List UInt8} {env : ExecEnv}
    {entry : UInt32} (h : c.Exec fs command env (.started entry) c') :
    ∃ p : UInt32, p < 6 ∧ c.freeSlot = some p.toNat
      ∧ c' = (c.claim p command).start p env.frame := by
  cases h with
  | started hp hslot _ => exact ⟨_, hp, hslot, rfl⟩

/-- `execute` keeps the terminals' numbers and what the video page is translated with. -/
theorem Exec.video {fs : FileSys} {c c' : Core} {command : List UInt8} {env : ExecEnv}
    {o : ExecOutcome} (h : c.Exec fs command env o c') :
    c'.currTerm = c.currTerm ∧ c'.currTerminalNumber = c.currTerminalNumber
      ∧ c'.pageDirectory 36 = c.pageDirectory 36 ∧ c'.pageTable = c.pageTable
      ∧ c'.userVideoPageTable = c.userVideoPageTable := by
  cases h with
  | started =>
      refine ⟨rfl, rfl, ?_, rfl, rfl⟩
      rw [start_pageDirectory]
      exact Function.update_of_ne (by decide) _ _
  | _ => exact ⟨rfl, rfl, rfl, rfl, rfl⟩

/-- The state in which `halt` of a root process executes the new shell. -/
def endRoot : Core :=
  { c.release c.currProcess with active := Function.update c.active c.currTerminalNumber 0 }

/-- The slot of the process that ends is free. -/
theorem freeSlot_endRoot {c : Core} (h : c.currProcess < 6) : c.endRoot.freeSlot ≠ none := by
  intro hnone
  have hzero : c.endRoot.processArray c.currProcess.toNat = 0 := Function.update_self _ _ _
  have hmem : c.currProcess.toNat ∈ List.range numProcesses :=
    List.mem_range.2 (UInt32.lt_iff_toNat_lt.1 h)
  exact List.find?_eq_none.1 hnone _ hmem (beq_iff_eq.2 hzero)

/-- The parent number of the current process. -/
def ppid : UInt32 := (c.pcbOf c.currProcess).ppid

/-- The ways `halt` and `halt_from_exc` can end: back in the parent; in a new shell; or, where no new
    shell can be started, in "process -1". -/
inductive Halt (eax : UInt32) (env : ExecEnv) : HaltOutcome → Core → Prop
  | toParent (hpar : c.ppid ≠ minusOne) :
      Halt eax env (.resumed eax (c.callFrame c.currProcess))
        ((c.release c.currProcess).resume c.ppid)
  | restarted {entry : UInt32} {c' : Core} (hroot : c.ppid = minusOne)
      (hexec : c.endRoot.Exec fs shellName env (.started entry) c') :
      Halt eax env (.restarted entry) c'
  | stuck {v : Int} {c' : Core} (hroot : c.ppid = minusOne)
      (hexec : c.endRoot.Exec fs shellName env (.returned v) c') :
      Halt eax env (.resumed eax (c'.callFrame c'.currProcess)) (c'.resume c'.ppid)

/-- A process with a parent gives control back to it. -/
theorem Halt.parent_spec {fs : FileSys} {c c' : Core} {eax : UInt32} {env : ExecEnv} {o : HaltOutcome}
    (h : c.Halt fs eax env o c') (hpar : c.ppid ≠ minusOne) :
    o = .resumed eax (c.callFrame c.currProcess)
      ∧ c' = (c.release c.currProcess).resume c.ppid := by
  cases h with
  | toParent => exact ⟨rfl, rfl⟩
  | restarted hroot => exact absurd hroot hpar
  | stuck hroot => exact absurd hroot hpar

/-- What `switch_task` to terminal `t` shows at `USER_VID_MEM`: the screen, or the buffer of a terminal
    in the background. -/
def videoFor (t : Nat) : UInt32 :=
  if t ≠ c.currTerminalNumber then Kernel.screenAddr lay t else video

/-- `switch_terminal` to an active terminal. -/
def viewTo (t : Nat) : Core :=
  { c with currTerminalNumber := t }.mapVideo lay
    (if c.currTerm ≠ t then Kernel.screenAddr lay t else video)

/-- The transitions of the system. -/
inductive Step : Event → Core → Prop
  | execute {command : List UInt8} {env : ExecEnv} {o : ExecOutcome} {c' : Core}
      (h : c.Exec fs command env o c') : Step (.execute command env) c'
  | halt {status : UInt8} {env : ExecEnv} {o : HaltOutcome} {c' : Core}
      (h : c.Halt fs status.toUInt32 env o c') : Step (.halt status env) c'
  | haltFromExc {env : ExecEnv} {o : HaltOutcome} {c' : Core}
      (h : c.Halt fs 256 env o c') : Step (.haltFromExc env) c'
  | openFile {filename : List UInt8} {q : Pcb} (h : FdEdit (c.pcbOf c.currProcess) q) :
      Step (.openFile filename) (c.setPcb c.currProcess (fun _ => q))
  | close {fd : Int} {q : Pcb} (h : FdEdit (c.pcbOf c.currProcess) q) :
      Step (.close fd) (c.setPcb c.currProcess (fun _ => q))
  | read {fd : Int} {buf : UInt32} {nbytes : Int} {q : Pcb} (h : FdEdit (c.pcbOf c.currProcess) q) :
      Step (.read fd buf nbytes) (c.setPcb c.currProcess (fun _ => q))
  | write {fd : Int} {buf : UInt32} {bytes : List UInt8} {nbytes : Int} :
      Step (.write fd buf bytes nbytes) c
  | vidmapFail {screenStart : UInt32} : Step (.vidmap screenStart) c
  | vidmap {screenStart : UInt32} : Step (.vidmap screenStart) (c.mapVideo lay video)
  | switchTask {frame : Frame} {t : Nat} (hactive : c.active t ≠ 0)
      (ht : t < 3 ∨ t = (c.currTerm + 1) % 256) :
      Step (.switchTask frame) ((c.switchTo t frame).mapVideo lay (c.videoFor lay t))
  | stay {newt : Nat} {frame : Frame} {env : ExecEnv} (h : newt = c.currTerminalNumber ∨ 2 < newt) :
      Step (.switchTerminal newt frame env) c
  | openTerminal {newt : Nat} {frame : Frame} {env : ExecEnv} {o : ExecOutcome} {c' : Core}
      (hnew : newt ≠ c.currTerminalNumber) (hlt : newt < 3) (hactive : c.active newt = 0)
      (h : (c.toTerminal newt frame).Exec fs shellName env o c') :
      Step (.switchTerminal newt frame env) c'
  | viewTerminal {newt : Nat} {frame : Frame} {env : ExecEnv}
      (hnew : newt ≠ c.currTerminalNumber) (hlt : newt < 3) (hactive : c.active newt ≠ 0) :
      Step (.switchTerminal newt frame env) (c.viewTo lay newt)
  | neighbours {past : Nat → Terminal} :
      Step (.neighbours past) { c with
        active := fun i => if i < 3 then c.active i else (past i).active
        currentProcess := fun i => if i < 3 then c.currentProcess i else (past i).currentProcess }

/-- What the calls on descriptors and `vidmap` can do: edit the caller's table, or map the video
    page. -/
inductive Local : Core → Prop
  | edit {q : Pcb} (h : FdEdit (c.pcbOf c.currProcess) q) :
      Local (c.setPcb c.currProcess (fun _ => q))
  | video (phys : UInt32) : Local (c.mapVideo lay phys)

theorem Local.viewed {lay : Layout} {c c' : Core} (h : c.Local lay c') :
    c'.currTerminalNumber = c.currTerminalNumber := by
  cases h <;> rfl

end Core

/-- The calls on descriptors and `vidmap`. -/
def Event.Local : Event → Prop
  | .openFile _ => True
  | .close _ => True
  | .read _ _ _ => True
  | .write _ _ _ _ => True
  | .vidmap _ => True
  | _ => False

theorem Core.Step.toLocal {lay : Layout} {fs : FileSys} {c c' : Core} {e : Event}
    (h : c.Step lay fs e c') (hlocal : e.Local) : c.Local lay c' := by
  have hsame : c.Local lay c := by
    have h : c.Local lay _ := .edit (.refl (c.pcbOf c.currProcess))
    rwa [Core.setPcb_self] at h
  cases h with
  | openFile hq => exact .edit hq
  | close hq => exact .edit hq
  | read hq => exact .edit hq
  | write => exact hsame
  | vidmapFail => exact hsame
  | vidmap => exact .video video
  | _ => exact hlocal.elim

/-- `switch_terminal` opens a terminal: the number is another than the viewed one, and inactive. -/
def Kernel.Opens (k : Kernel) (newt : Nat) : Prop :=
  newt ≠ k.currTerminalNumber ∧ newt < 3 ∧ (k.terminals newt).active = 0

instance (k : Kernel) (newt : Nat) : Decidable (k.Opens newt) :=
  inferInstanceAs (Decidable (_ ∧ _ ∧ _))

/-! ## The kernel refines them -/

namespace Kernel

variable (lay : Layout) (fs : FileSys) (k : Kernel)

theorem core_claim {i : Nat} (hi : i < 6) (command : List UInt8) :
    (({ k with
        processArray := Function.update k.processArray i 1
        currentPcb := getPcbPointer (UInt32.ofNat i) } : Kernel).setPcb
          (getPcbPointer (UInt32.ofNat i))
          (fun p => { p with args := storeArgs p.args command })).core
      = k.core.claim (UInt32.ofNat i) command := by
  rw [core_setPcb, Core.claim, toNat_ofNat_slot hi]
  rfl

/-- `execute` is a transition. -/
theorem core_execute (command : List UInt8) (env : ExecEnv) :
    k.core.Exec fs command env (k.execute fs command env).1 (k.execute fs command env).2.core := by
  cases hslot : k.core.freeSlot with
  | none =>
      have h : k.execute fs command env = (.returned 0, k.puts tooManyProcesses) := by
        simp [execute, k.core_getProcess_none hslot]
      rw [h, core_puts]
      exact .full hslot
  | some i =>
      have hi := Core.freeSlot_lt hslot
      have hne : UInt32.ofNat i ≠ minusOne := ofNat_ne_minusOne hi
      have hp : UInt32.ofNat i < 6 := by
        rw [UInt32.lt_iff_toNat_lt, toNat_ofNat_slot hi]
        exact hi
      have hslot' : k.core.freeSlot = some (UInt32.ofNat i).toNat := by
        rw [toNat_ofNat_slot hi, hslot]
      cases hfile : checkFile fs command env.buffer with
      | notFound =>
          simp only [execute, k.core_getProcess_some hslot, hne, hfile, if_false]
          have h := Core.Exec.notFound hp hslot' hfile
          rwa [← k.core_claim hi command] at h
      | notExe =>
          simp only [execute, k.core_getProcess_some hslot, hne, hfile, if_false]
          rw [k.core_claim hi command]
          exact .notExe hp hslot' hfile
      | exe inode entry =>
          simp only [execute, k.core_getProcess_some hslot, hne, hfile, if_false]
          rw [core_startProcess, k.core_claim hi command]
          exact .started hp hslot' hfile

/-- The state in which a program that was started begins. -/
theorem core_started {command : List UInt8} {env : ExecEnv} {entry : UInt32}
    (h : (k.execute fs command env).1 = .started entry) :
    ∃ p : UInt32, p < 6 ∧ k.core.freeSlot = some p.toNat
      ∧ (k.execute fs command env).2.core = (k.core.claim p command).start p env.frame := by
  have hexec := k.core_execute fs command env
  rw [h] at hexec
  exact hexec.started_spec

theorem core_endRoot :
    ((k.endProcess k.currProcess).setTerminal k.currTerminalNumber
      (fun t => { t with active := 0 })).core = k.core.endRoot := by
  ext1 <;> try rfl
  all_goals
    funext t
    by_cases h : t = k.currTerminalNumber
    · subst h; simp [core, endProcess, setTerminal, Core.endRoot, Core.release]
    · simp [core, endProcess, setTerminal, Core.endRoot, Core.release, Function.update_of_ne h]

/-- A call of `execute` that returns leaves the current process alone. -/
theorem currProcess_of_returned {command : List UInt8} {env : ExecEnv} {c c' : Core} {v : Int}
    (h : c.Exec fs command env (.returned v) c') : c'.currProcess = c.currProcess := by
  cases h <;> rfl

/-- `halt` and `halt_from_exc` are transitions. -/
theorem core_haltWith (eax : UInt32) (env : ExecEnv) :
    k.core.Halt fs eax env (k.haltWith fs eax env).1 (k.haltWith fs eax env).2.core := by
  unfold haltWith
  dsimp only
  by_cases hroot : k.core.ppid = minusOne
  · have htest : ((k.endProcess k.currProcess).pcb
        (getPcbPointer (k.endProcess k.currProcess).currProcess)).ppid = minusOne := hroot
    rw [if_pos htest]
    generalize hm : (k.endProcess k.currProcess).setTerminal
      (k.endProcess k.currProcess).currTerminalNumber (fun t => { t with active := 0 }) = m
    have hcore : m.core = k.core.endRoot := hm ▸ k.core_endRoot
    have hcur : m.currProcess = k.currProcess := hm ▸ rfl
    have hexec := m.core_execute fs shellName env
    rw [hcore] at hexec
    rcases he : m.execute fs shellName env with ⟨v | entry, m'⟩
    · -- the shell did not start
      rw [he] at hexec
      have hcur' : m'.currProcess = k.currProcess :=
        (currProcess_of_returned fs hexec).trans rfl
      obtain ⟨h1, h2⟩ := m'.resumeParent_eq eax (getPcbPointer (k.endProcess k.currProcess).currProcess)
      dsimp only
      rw [h1, h2]
      have h : k.core.Halt fs eax env _ _ := .stuck hroot hexec
      rw [Core.callFrame, show m'.core.currProcess = k.currProcess from hcur'] at h
      exact h
    · rw [he] at hexec
      exact .restarted hroot hexec
  · have htest : ((k.endProcess k.currProcess).pcb
        (getPcbPointer (k.endProcess k.currProcess).currProcess)).ppid ≠ minusOne := hroot
    rw [if_neg htest]
    obtain ⟨h1, h2⟩ := (k.endProcess k.currProcess).resumeParent_eq eax
      (getPcbPointer (k.endProcess k.currProcess).currProcess)
    rw [h1, h2]
    exact .toParent hroot

/-! ### The scheduler and the terminals -/

theorem findActive_spec (fuel : Nat) : ∀ {start t : Nat}, k.findActive fuel start = some t →
    (k.terminals t).active ≠ 0 ∧ (t < 3 ∨ t = start) := by
  induction fuel with
  | zero => intro start t h; cases h
  | succ fuel ih =>
      intro start t h
      rw [findActive] at h
      split at h
      · obtain ⟨h1, h2⟩ := ih h
        refine ⟨h1, ?_⟩
        -- the index is wrapped before the next test
        split_ifs at h2 <;> omega
      · next hact =>
          cases h
          exact ⟨hact, Or.inr rfl⟩

/-- The terminal `switch_task` selects is active; it is one of the three, or the memory behind
    them. -/
theorem nextTerm_spec {t : Nat} (h : k.nextTerm = some t) :
    k.core.active t ≠ 0 ∧ (t < 3 ∨ t = (k.core.currTerm + 1) % 256) :=
  k.findActive_spec 5 h

/-- Where the byte behind `terminals` reads as an inactive terminal, it is one of the three. -/
theorem nextTerm_lt {t : Nat} (h : k.nextTerm = some t) (hterm : k.core.currTerm < 3)
    (hpast : k.core.currTerm = 2 → k.core.active 3 = 0) : t < 3 := by
  obtain ⟨hactive, hlt | heq⟩ := k.nextTerm_spec h
  · exact hlt
  · by_contra hge
    have h2 : k.core.currTerm = 2 := by omega
    have h3 : t = 3 := by omega
    exact hactive (h3 ▸ hpast h2)

theorem findActive_eq_none {fuel start : Nat} (h : k.findActive (fuel + 1) start = none) :
    (k.terminals start).active = 0 ∧ k.findActive fuel
      (if (start + 1) % 256 > 2 then 0 else (start + 1) % 256) = none := by
  rw [findActive] at h
  split at h
  · next hact => exact ⟨hact, h⟩
  · cases h

/-- With an active terminal among the three, `switch_task` selects one. -/
theorem nextTerm_isSome {t : Nat} (ht : t < 3) (hact : k.core.active t ≠ 0) :
    ∃ t', k.nextTerm = some t' := by
  refine Option.ne_none_iff_exists'.1 (fun hnone => hact ?_)
  -- whatever the first test reads, four more go round the three terminals
  obtain ⟨_, h1⟩ := k.findActive_eq_none hnone
  generalize hs : (if ((k.currTerm + 1) % 256 + 1) % 256 > 2 then 0
    else ((k.currTerm + 1) % 256 + 1) % 256) = s at h1
  have hs3 : s < 3 := by split_ifs at hs <;> omega
  obtain ⟨ha, h2⟩ := k.findActive_eq_none h1
  obtain ⟨hb, h3⟩ := k.findActive_eq_none h2
  obtain ⟨hc, -⟩ := k.findActive_eq_none h3
  have hcover : t = s ∨ t = (if (s + 1) % 256 > 2 then 0 else (s + 1) % 256)
      ∨ t = (if ((if (s + 1) % 256 > 2 then 0 else (s + 1) % 256) + 1) % 256 > 2 then 0
        else ((if (s + 1) % 256 > 2 then 0 else (s + 1) % 256) + 1) % 256) := by
    split_ifs <;> omega
  rcases hcover with rfl | rfl | rfl
  · exact ha
  · exact hb
  · exact hc

theorem core_mapWPt (p : UInt32) : (k.mapWPt lay userVidMem p).core = k.core.mapVideo lay p := rfl

theorem mapVideo_mapVideo (c : Core) (p q : UInt32) :
    (c.mapVideo lay p).mapVideo lay q = c.mapVideo lay q := by
  simp only [Core.mapVideo, Function.update_idem]

/-- The video page behind `map_w_pt` and the remapping that may follow it. -/
theorem core_backgroundVideo {c : Core} {p : UInt32} (h : k.core = c.mapVideo lay p) (q : UInt32) :
    (k.backgroundVideo lay q).core
      = c.mapVideo lay (if c.currTerm ≠ c.currTerminalNumber then q else p) := by
  have hterm : k.currTerm = c.currTerm := congrArg Core.currTerm h
  have hnum : k.currTerminalNumber = c.currTerminalNumber := congrArg Core.currTerminalNumber h
  unfold backgroundVideo
  rw [hterm, hnum]
  split_ifs
  · rw [mapVideoWPt, core_mapWPt, h, mapVideo_mapVideo]
  · exact h

/-- `switch_task` is a transition, and it loads the frame saved for the process it selects. -/
theorem core_switchTo (t : Nat) (frame : Frame) :
    (k.switchTo lay t frame).2.core
        = (k.core.switchTo t frame).mapVideo lay (k.core.videoFor lay t)
      ∧ (k.switchTo lay t frame).1 = (k.core.switchTo t frame).saved (k.core.currentProcess t) := by
  unfold switchTo
  dsimp only
  generalize hb : (({ k with currTerm := t } : Kernel).mapWPt lay userVidMem video).setTerminal t
    (fun x => { x with screen := attribScreen x.screen }) = b
  have hcore : b.core = ({ k.core with currTerm := t } : Core).mapVideo lay video := by
    rw [← hb]
    exact core_setTerminal _ t (fun x => { x with screen := attribScreen x.screen }) (fun _ => rfl)
      (fun _ => rfl)
  have hpid : (b.terminals t).currentProcess = k.core.currentProcess t :=
    congrArg (fun c : Core => c.currentProcess t) hcore
  have hold : (b.terminals k.currTerm).currentProcess = k.core.currentProcess k.core.currTerm :=
    congrArg (fun c : Core => c.currentProcess k.currTerm) hcore
  rw [hpid, hold]
  generalize hd : (({ b with
      currentPcb := getPcbPointer (k.core.currentProcess t)
      currProcess := (k.core.currentProcess t).toUInt8.toUInt32 } : Kernel).map virtualFilePage
        (processPage (k.core.currentProcess t).toUInt8.toUInt32)).backgroundVideo lay
          (screenAddr lay t) = d
  have hdcore : d.core = ({ k.core with
      currTerm := t
      currentPcb := getPcbPointer (k.core.currentProcess t)
      currProcess := (k.core.currentProcess t).toUInt8.toUInt32
      pageDirectory := k.core.userPageDirectory (k.core.currentProcess t).toUInt8.toUInt32 } :
        Core).mapVideo lay (k.core.videoFor lay t) := by
    rw [← hd]
    refine core_backgroundVideo lay _ (c := { k.core with
      currTerm := t
      currentPcb := getPcbPointer (k.core.currentProcess t)
      currProcess := (k.core.currentProcess t).toUInt8.toUInt32
      pageDirectory := k.core.userPageDirectory (k.core.currentProcess t).toUInt8.toUInt32 })
        (p := video) ?_ (screenAddr lay t)
    rw [core_map]
    have hset := congrArg (fun c : Core => ({ c with
      currentPcb := getPcbPointer (k.core.currentProcess t)
      currProcess := (k.core.currentProcess t).toUInt8.toUInt32
      pageDirectory := c.userPageDirectory (k.core.currentProcess t).toUInt8.toUInt32 } : Core)) hcore
    refine Eq.trans hset ?_
    simp only [Core.mapVideo, Core.userPageDirectory]
    rw [Function.update_comm (by decide)]
  have hpid' : (d.terminals t).currentProcess = k.core.currentProcess t :=
    congrArg (fun c : Core => c.currentProcess t) hdcore
  rw [hpid']
  have hend : (({ d with tssEsp0 := kernelStack (k.core.currentProcess t) } : Kernel).setPcb
      (getPcbPointer (k.core.currentProcess k.core.currTerm))
      (fun p => { p with espSwitch := frame.esp, ebpSwitch := frame.ebp })).core
      = (k.core.switchTo t frame).mapVideo lay (k.core.videoFor lay t) := by
    rw [core_setPcb]
    exact congrArg (fun c : Core => ({ c with tssEsp0 := kernelStack (k.core.currentProcess t) } :
      Core).setPcb (k.core.currentProcess k.core.currTerm) (Core.saveFrame frame)) hdcore
  exact ⟨hend, congrArg (fun c : Core => c.saved (k.core.currentProcess t)) hend⟩

/-- A tick, from the terminal it selects. -/
theorem switchTask_eq {t : Nat} (h : k.nextTerm = some t) (frame : Frame) :
    k.switchTask lay frame = some (k.switchTo lay t frame) := by
  rw [switchTask, h, Option.map_some]

theorem step_switchTask {t : Nat} (h : k.nextTerm = some t) (frame : Frame) :
    k.step lay fs (.switchTask frame) = some (k.switchTo lay t frame).2 := by
  rw [step, k.switchTask_eq lay h frame, Option.map_some]

/-- `switch_terminal` to an inactive terminal is `execute` in the state `Core.toTerminal`. -/
theorem core_openTerminal (newt : Nat) (frame : Frame) (env : ExecEnv) :
    (k.core.toTerminal newt frame).Exec fs shellName env (k.openTerminal fs newt frame env).1
      (k.openTerminal fs newt frame env).2.core := by
  unfold openTerminal
  dsimp only
  generalize hs : k.saveTerminalState = s
  have hcore : s.core = k.core := hs ▸ k.core_saveTerminalState
  generalize hm : Kernel.clear _ = m
  have hm' : m.core = k.core.toTerminal newt frame := by
    rw [← hm, core_clear]
    exact congrArg (fun c : Core => c.toTerminal newt frame) hcore
  rw [← hm']
  exact m.core_execute fs shellName env

theorem core_viewTerminal (newt : Nat) :
    (k.viewTerminal lay newt).core = k.core.viewTo lay newt := by
  unfold viewTerminal
  dsimp only
  have hcore : (({ k.saveTerminalState.restoreTerminalState newt with
      currTerminalNumber := newt } : Kernel).mapWPt lay userVidMem video).core
        = ({ k.core with currTerminalNumber := newt } : Core).mapVideo lay video :=
    congrArg (fun c : Core => ({ c with currTerminalNumber := newt } : Core).mapVideo lay video)
      k.core_saveTerminalState
  rw [core_backgroundVideo lay _ hcore]
  rfl

/-- `switch_terminal` opens a terminal, or it stays or changes the view. -/
theorem switchTerminal_cases (newt : Nat) (frame : Frame) (env : ExecEnv) :
    (k.Opens newt ∧ k.switchTerminal lay fs newt frame env = (k.openTerminal fs newt frame env).2)
    ∨ (¬ k.Opens newt ∧ ((k.switchTerminal lay fs newt frame env).core = k.core
      ∨ (newt < 3 ∧ k.core.active newt ≠ 0
        ∧ (k.switchTerminal lay fs newt frame env).core = k.core.viewTo lay newt))) := by
  unfold switchTerminal
  split_ifs with h1 h2 h3
  · exact Or.inr ⟨fun h => h.1 h1, Or.inl rfl⟩
  · exact Or.inr ⟨fun h => absurd h.2.1 (by omega), Or.inl rfl⟩
  · exact Or.inl ⟨⟨h1, by omega, h3⟩, rfl⟩
  · exact Or.inr ⟨fun h => h3 h.2.2, Or.inr ⟨by omega, h3, k.core_viewTerminal lay newt⟩⟩

/-! ### The refinement -/

/-- **Every event of the kernel is a transition of the process manager.** -/
theorem core_step {e : Event} {k' : Kernel} (h : k.step lay fs e = some k') :
    k.core.Step lay fs e k'.core := by
  cases e with
  | execute command env =>
      cases h
      exact .execute (k.core_execute fs command env)
  | halt status env =>
      cases h
      exact .halt (k.core_haltWith fs status.toUInt32 env)
  | haltFromExc env =>
      cases h
      exact .haltFromExc (k.core_haltWith fs 256 env)
  | openFile filename =>
      cases h
      obtain ⟨q, hq, hc⟩ := k.core_openFile fs filename
      rw [hc]
      exact .openFile hq
  | close fd =>
      cases h
      obtain ⟨q, hq, hc⟩ := k.core_close fd
      rw [hc]
      exact .close hq
  | read fd buf nbytes =>
      obtain ⟨r, hr, rfl⟩ := Option.map_eq_some_iff.1 h
      obtain ⟨q, hq, hc⟩ := k.core_read fs hr
      rw [hc]
      exact .read hq
  | write fd buf bytes nbytes =>
      obtain ⟨r, hr, rfl⟩ := Option.map_eq_some_iff.1 h
      rw [k.core_write hr]
      exact .write
  | vidmap screenStart =>
      cases h
      unfold vidmap
      split_ifs
      · exact .vidmapFail
      · exact .vidmap
  | switchTask frame =>
      obtain ⟨r, hr, rfl⟩ := Option.map_eq_some_iff.1 h
      obtain ⟨t, ht, rfl⟩ := Option.map_eq_some_iff.1 hr
      rw [(k.core_switchTo lay t frame).1]
      obtain ⟨hactive, hrange⟩ := k.nextTerm_spec ht
      exact .switchTask hactive hrange
  | switchTerminal newt frame env =>
      cases h
      unfold switchTerminal
      split_ifs with h1 h2 h3
      · exact .stay (Or.inl h1)
      · exact .stay (Or.inr h2)
      · exact .openTerminal h1 (by omega) h3 (k.core_openTerminal fs newt frame env)
      · rw [core_viewTerminal]
        exact .viewTerminal h1 (by omega) h3
  | neighbours past =>
      cases h
      have h : k.core.Step lay fs (.neighbours past) _ := .neighbours
      have hcore : ({ k with terminals := fun i => if i < 3 then k.terminals i else past i } :
          Kernel).core = { k.core with
            active := fun i => if i < 3 then k.core.active i else (past i).active
            currentProcess := fun i =>
              if i < 3 then k.core.currentProcess i else (past i).currentProcess } := by
        ext1 <;> try rfl
        all_goals
          funext i
          by_cases hi : i < 3 <;> simp [core, hi]
      rwa [← hcore] at h

end Kernel

end UnixTerminal
