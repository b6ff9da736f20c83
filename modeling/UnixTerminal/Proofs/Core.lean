import UnixTerminal.Kernel.Scheduler
import Mathlib.Tactic.Simps.Basic

set_option autoImplicit false

/-! # The process manager, without the devices

`Core` is the part of the kernel state that deciding *which process runs where* rests on: the process
table, the PCBs, the executing and the viewed terminal with their `active` and `current_process`
fields, the page tables and `tss.esp0`. `Kernel.core` forgets the rest (screens, keyboard, clock).

The console drivers leave the core alone. Each process operation is described once, as an operation
on the core (`Core.claim`, `Core.start`, `Core.resume`, `Core.switchTo`, …). `Transitions.lean` puts
these together to the transition system that every invariant about processes is derived from. -/

namespace UnixTerminal

@[ext]
structure Core where
  processArray : Nat → UInt32
  currTerm : Nat
  currTerminalNumber : Nat
  active : Nat → UInt8
  currentProcess : Nat → UInt32
  pcb : UInt32 → Pcb
  currProcess : UInt32
  currentPcb : UInt32
  tssEsp0 : UInt32
  pageDirectory : Nat → UInt32
  pageTable : Nat → UInt32
  userVideoPageTable : Nat → UInt32

/-- The core of a kernel state. -/
def Kernel.core (k : Kernel) : Core where
  processArray := k.processArray
  currTerm := k.currTerm
  currTerminalNumber := k.currTerminalNumber
  active := fun t => (k.terminals t).active
  currentProcess := fun t => (k.terminals t).currentProcess
  pcb := k.pcb
  currProcess := k.currProcess
  currentPcb := k.currentPcb
  tssEsp0 := k.tssEsp0
  pageDirectory := k.pageDirectory
  pageTable := k.pageTable
  userVideoPageTable := k.userVideoPageTable

/-! ## Console drivers leave the core alone -/

namespace Kernel

variable (k : Kernel)

/-- A write to a terminal struct that keeps `active` and `current_process` is invisible. -/
theorem core_setTerminal (t : Nat) (f : Terminal → Terminal)
    (ha : ∀ x, (f x).active = x.active) (hp : ∀ x, (f x).currentProcess = x.currentProcess) :
    (k.setTerminal t f).core = k.core := by
  ext1 <;> try rfl
  all_goals
    funext i
    by_cases h : i = t
    · subst h; simp [core, setTerminal, ha, hp]
    · simp [core, setTerminal, Function.update_of_ne h]

@[simp] theorem core_putc (c : UInt8) : (k.putc c).core = k.core := by
  unfold putc
  dsimp only
  split_ifs <;> rfl

@[simp] theorem core_putcNodisplay (c : UInt8) : (k.putcNodisplay c).core = k.core := by
  unfold putcNodisplay vertScrollNodisplay
  dsimp only
  split_ifs <;> simp only [core_setTerminal, implies_true]

/-- What every pass of a loop keeps, the loop keeps. -/
theorem field_foldl {α β : Type} (field : Kernel → β) {f : Kernel → α → Kernel}
    (hf : ∀ k a, field (f k a) = field k) (l : List α) :
    ∀ k : Kernel, field (l.foldl f k) = field k := by
  induction l with
  | nil => intro k; rfl
  | cons a l ih => intro k; rw [List.foldl_cons, ih, hf]

@[simp] theorem core_puts (s : List UInt8) : (k.puts s).core = k.core :=
  field_foldl core (fun k c => k.core_putc c) s k

@[simp] theorem core_clear : k.clear.core = k.core := by
  unfold clear clearNodisplay
  split_ifs
  · exact core_setTerminal _ _ _ (fun _ => rfl) (fun _ => rfl)
  · rfl

@[simp] theorem core_saveTerminalState : k.saveTerminalState.core = k.core :=
  core_setTerminal _ _ _ (fun _ => rfl) (fun _ => rfl)

theorem core_terminalWrite (buf : List UInt8) (n : Nat) : (k.terminalWrite buf n).2.core = k.core := by
  refine field_foldl core (fun k i => ?_) _ k
  split_ifs <;> simp

theorem core_keyboardWrite (buf : List UInt8) : (k.keyboardWrite buf).2.core = k.core := by
  unfold keyboardWrite
  split_ifs
  · exact field_foldl core (fun k i => k.core_putc _) _ k
  · rfl

theorem core_rtcWrite (buf : List UInt8) (n : Nat) : (k.rtcWrite buf n).2.core = k.core := by
  unfold rtcWrite setRate
  split_ifs
  · rfl
  · split <;> rfl

theorem core_keyboardRead {n : Nat} {r : Transfer × Kernel} (h : k.keyboardRead n = some r) :
    r.2.core = k.core := by
  unfold keyboardRead at h
  split_ifs at h
  simp only [Option.some.injEq] at h
  subst h
  exact core_setTerminal k k.currTerm (fun t => { t with termEnter := 0 }) (fun _ => rfl)
    (fun _ => rfl)

theorem core_rtcRead {r : Transfer × Kernel} (h : k.rtcRead = some r) : r.2.core = k.core := by
  unfold rtcRead at h
  split_ifs at h
  simp only [Option.some.injEq] at h
  subst h
  rfl

end Kernel

/-! ## Operations on the core -/

/-- What `execute` records in a PCB for the `halt` of the process: its parent, and the frame of the
    parent's call. -/
def Pcb.callRecord (q : Pcb) : UInt32 × Frame := (q.ppid, ⟨q.esp0, q.ebp0⟩)

/-- What a suspension records in a PCB. -/
def Pcb.switchFrame (q : Pcb) : Frame := ⟨q.espSwitch, q.ebpSwitch⟩

namespace Core

variable (c : Core)

/-- The PCB of a process number. -/
def pcbOf (p : UInt32) : Pcb := c.pcb (getPcbPointer p)

/-- Write the PCB of a process number. -/
@[simps -fullyApplied]
def setPcb (p : UInt32) (f : Pcb → Pcb) : Core :=
  { c with pcb := Function.update c.pcb (getPcbPointer p) (f (c.pcbOf p)) }

/-- The page directory with the page of process `p` at `VIRTUAL_FILE_PAGE`. -/
def userPageDirectory (p : UInt32) : Nat → UInt32 :=
  Function.update c.pageDirectory 32 (processPage p ||| 0x87)

/-- Physical page `phys` at `USER_VID_MEM`. -/
@[simps -fullyApplied]
def mapVideo (lay : Layout) (phys : UInt32) : Core :=
  { c with
    pageDirectory := Function.update c.pageDirectory 36 (lay.userVideoPageTable ||| 0x7)
    userVideoPageTable := Function.update c.userVideoPageTable 0 (phys ||| 0x7) }

/-- The slot `get_process` would hand out. -/
def freeSlot : Option Nat :=
  (List.range numProcesses).find? (fun i => c.processArray i == 0)

/-- The PCB with the arguments of a command. -/
def withArgs (command : List UInt8) (q : Pcb) : Pcb :=
  { q with args := storeArgs q.args command }

/-- `execute` up to its checks on the file: slot, `current_pcb` and arguments. -/
@[simps -fullyApplied]
def claim (p : UInt32) (command : List UInt8) : Core :=
  { c with
    processArray := Function.update c.processArray p.toNat 1
    pcb := (c.setPcb p (withArgs command)).pcb
    currentPcb := getPcbPointer p }

/-- `clear_process`. -/
@[simps -fullyApplied]
def clear : Core :=
  { c with processArray := fun i => if i < numProcesses then 0 else c.processArray i }

/-- The parent number `execute` gives a new process: it asks the viewed terminal. -/
def parentFor : UInt32 :=
  if c.active c.currTerminalNumber = 0 then minusOne else c.currProcess

/-- The PCB `execute` fills in for process `p` with parent `parent`. -/
def freshPcb (p parent : UInt32) (frame : Frame) (q : Pcb) : Pcb :=
  { q with
    ppid := parent
    pid := p
    fdsArray := fun i => if i < maxFile then Kernel.initFds i else q.fdsArray i
    esp0 := frame.esp
    ebp0 := frame.ebp }

/-- `execute` behind its checks. -/
@[simps -fullyApplied]
def start (p : UInt32) (frame : Frame) : Core :=
  { c with
    active := Function.update c.active c.currTerminalNumber
      (if c.active c.currTerminalNumber = 0 then 1 else c.active c.currTerminalNumber)
    currentProcess := Function.update c.currentProcess c.currTerm p
    pcb := (c.setPcb p (freshPcb p c.parentFor frame)).pcb
    currProcess := p
    tssEsp0 := kernelStack p
    pageDirectory := c.userPageDirectory p }

/-- `end_process`. -/
@[simps -fullyApplied]
def release (p : UInt32) : Core :=
  { c with processArray := Function.update c.processArray p.toNat 0 }

/-- Close those of the slots `l` that are in use. -/
def closeSlots (l : List Nat) (p : Pcb) : Pcb :=
  { p with fdsArray := fun i =>
      if i ∈ l ∧ (p.fdsArray i).flags ≠ notSet then ⟨0, 0, notSet⟩ else p.fdsArray i }

/-- What the closing loop of `halt` does to the table it works on. -/
def closeAll : Pcb → Pcb := closeSlots [2, 3, 4, 5, 6, 7]

/-- The return of `halt` to process `p`. -/
@[simps -fullyApplied]
def resume (p : UInt32) : Core :=
  { c with
    currentProcess := Function.update c.currentProcess c.currTerm p
    pcb := (c.setPcb p closeAll).pcb
    currProcess := p
    tssEsp0 := kernelStack p
    pageDirectory := c.userPageDirectory p }

/-- Store a frame where the scheduler looks for it. -/
def saveFrame (frame : Frame) (q : Pcb) : Pcb :=
  { q with espSwitch := frame.esp, ebpSwitch := frame.ebp }

/-- The frame saved for the scheduler. -/
def saved (p : UInt32) : Frame := ⟨(c.pcbOf p).espSwitch, (c.pcbOf p).ebpSwitch⟩

/-- The frame saved for `halt`. -/
def callFrame (p : UInt32) : Frame := ⟨(c.pcbOf p).esp0, (c.pcbOf p).ebp0⟩

/-- `switch_task` to terminal `t`. -/
@[simps -fullyApplied]
def switchTo (t : Nat) (frame : Frame) : Core :=
  { c with
    currTerm := t
    pcb := (c.setPcb (c.currentProcess c.currTerm) (saveFrame frame)).pcb
    currProcess := (c.currentProcess t).toUInt8.toUInt32
    currentPcb := getPcbPointer (c.currentProcess t)
    tssEsp0 := kernelStack (c.currentProcess t)
    pageDirectory := c.userPageDirectory (c.currentProcess t).toUInt8.toUInt32 }

/-- `switch_terminal` to an inactive terminal, up to the call of `execute`. -/
@[simps -fullyApplied]
def toTerminal (t : Nat) (frame : Frame) : Core :=
  { c with
    currTerm := t
    currTerminalNumber := t
    pcb := (c.setPcb (c.currentProcess c.currTerminalNumber) (saveFrame frame)).pcb }

theorem userPageDirectory_page (p : UInt32) : c.userPageDirectory p 32 = processPage p ||| 0x87 :=
  Function.update_self _ _ _

/-- The video page is not the page of the process. -/
theorem mapVideo_page (lay : Layout) (phys : UInt32) :
    (c.mapVideo lay phys).pageDirectory 32 = c.pageDirectory 32 := by
  rw [mapVideo_pageDirectory, Function.update_of_ne (by decide)]

/-- Reading a PCB behind a write to the PCB of a slot. -/
theorem pcbOf_setPcb (f : Pcb → Pcb) {p q : UInt32} (hp : p < 6) (hq : q < 6) :
    (c.setPcb p f).pcbOf q = if q = p then f (c.pcbOf p) else c.pcbOf q := by
  rw [pcbOf, setPcb_pcb]
  split_ifs with h
  · rw [h, Function.update_self]
  · exact Function.update_of_ne (getPcbPointer_ne hq hp h) _ _

theorem setPcb_self (p : UInt32) : c.setPcb p (fun _ => c.pcbOf p) = c := by
  simp only [setPcb, pcbOf, Function.update_eq_self]

theorem pcbOf_setPcb_self (f : Pcb → Pcb) (p : UInt32) :
    (c.setPcb p f).pcbOf p = f (c.pcbOf p) :=
  Function.update_self _ _ _

/-- What an edit of one PCB leaves alone is the same in all of them. -/
theorem field_setPcb {β : Type} (field : Pcb → β) {f : Pcb → Pcb} (hf : ∀ x, field (f x) = field x)
    (p q : UInt32) : field ((c.setPcb p f).pcbOf q) = field (c.pcbOf q) := by
  rw [pcbOf, setPcb_pcb, Function.update_apply]
  split_ifs with h
  · rw [hf, pcbOf, pcbOf, h]
  · rfl

theorem field_claim {β : Type} (field : Pcb → β) {command : List UInt8}
    (hf : ∀ x, field (withArgs command x) = field x) (p q : UInt32) :
    field ((c.claim p command).pcbOf q) = field (c.pcbOf q) :=
  c.field_setPcb field hf p q

theorem field_resume {β : Type} (field : Pcb → β) (hf : ∀ x, field (closeAll x) = field x)
    (p q : UInt32) : field ((c.resume p).pcbOf q) = field (c.pcbOf q) :=
  c.field_setPcb field hf p q

theorem field_switchTo {β : Type} (field : Pcb → β) {frame : Frame}
    (hf : ∀ x, field (saveFrame frame x) = field x) (t : Nat) (q : UInt32) :
    field ((c.switchTo t frame).pcbOf q) = field (c.pcbOf q) :=
  c.field_setPcb field hf _ q

theorem field_toTerminal {β : Type} (field : Pcb → β) {frame : Frame}
    (hf : ∀ x, field (saveFrame frame x) = field x) (t : Nat) (q : UInt32) :
    field ((c.toTerminal t frame).pcbOf q) = field (c.pcbOf q) :=
  c.field_setPcb field hf _ q

theorem pcbOf_claim (command : List UInt8) {p q : UInt32} (hp : p < 6) (hq : q < 6) :
    (c.claim p command).pcbOf q = if q = p then withArgs command (c.pcbOf p) else c.pcbOf q :=
  c.pcbOf_setPcb _ hp hq

/-- The viewed terminal is active behind the start of a program. -/
theorem active_start_viewed (p : UInt32) (frame : Frame) :
    (c.start p frame).active c.currTerminalNumber ≠ 0 := by
  rw [start_active, Function.update_self]
  split_ifs with h0
  · decide
  · exact h0

theorem active_start_of_ne (p : UInt32) (frame : Frame) {t : Nat} (ht : t ≠ c.currTerminalNumber) :
    (c.start p frame).active t = c.active t := by
  rw [start_active, Function.update_of_ne ht]

theorem pcbOf_start (frame : Frame) {p q : UInt32} (hp : p < 6) (hq : q < 6) :
    (c.start p frame).pcbOf q
      = if q = p then freshPcb p c.parentFor frame (c.pcbOf p) else c.pcbOf q :=
  c.pcbOf_setPcb _ hp hq

theorem pcbOf_start_self (frame : Frame) (p : UInt32) :
    (c.start p frame).pcbOf p = freshPcb p c.parentFor frame (c.pcbOf p) :=
  c.pcbOf_setPcb_self _ p

theorem pcbOf_resume {p q : UInt32} (hp : p < 6) (hq : q < 6) :
    (c.resume p).pcbOf q = if q = p then closeAll (c.pcbOf p) else c.pcbOf q :=
  c.pcbOf_setPcb _ hp hq

theorem pcbOf_switchTo (t : Nat) (frame : Frame) {q : UInt32} (hp : c.currentProcess c.currTerm < 6)
    (hq : q < 6) :
    (c.switchTo t frame).pcbOf q
      = if q = c.currentProcess c.currTerm then saveFrame frame (c.pcbOf q) else c.pcbOf q := by
  have h := c.pcbOf_setPcb (saveFrame frame) hp hq
  split_ifs at h ⊢ with heq
  · exact heq ▸ h
  · exact h

theorem pcbOf_toTerminal (t : Nat) (frame : Frame) {q : UInt32}
    (hp : c.currentProcess c.currTerminalNumber < 6) (hq : q < 6) :
    (c.toTerminal t frame).pcbOf q
      = if q = c.currentProcess c.currTerminalNumber then saveFrame frame (c.pcbOf q)
        else c.pcbOf q := by
  have h := c.pcbOf_setPcb (saveFrame frame) hp hq
  split_ifs at h ⊢ with heq
  · exact heq ▸ h
  · exact h

end Core

/-! ## What each kernel operation does to the core -/

theorem toNat_ofNat_slot {i : Nat} (hi : i < 6) : (UInt32.ofNat i).toNat = i :=
  UInt32.toNat_ofNat_of_lt' (Nat.lt_trans hi (by decide))

/-- A slot number passes unharmed through the 8-bit variable `curr_task`. -/
theorem toUInt8_toUInt32 {p : UInt32} (hp : p < 6) : p.toUInt8.toUInt32 = p := by
  have h := UInt32.lt_iff_toNat_lt.1 hp
  have h6 : (6 : UInt32).toNat = 6 := rfl
  apply UInt32.toNat_inj.1
  simp only [UInt8.toNat_toUInt32, UInt32.toNat_toUInt8]
  omega

/-- A slot number is not the number -1. -/
theorem ofNat_ne_minusOne {i : Nat} (hi : i < 6) : UInt32.ofNat i ≠ minusOne := by
  intro h
  have h' : i = minusOne.toNat := by rw [← h, toNat_ofNat_slot hi]
  have hm : minusOne.toNat = 4294967295 := rfl
  omega

namespace Kernel

variable (lay : Layout) (fs : FileSys) (k : Kernel)

theorem core_getProcess_none (h : k.core.freeSlot = none) : k.getProcess = (minusOne, k) := by
  have h' : (List.range numProcesses).find? (fun i => k.processArray i == 0) = none := h
  rw [getProcess, h']

theorem core_getProcess_some {i : Nat} (h : k.core.freeSlot = some i) :
    k.getProcess =
      (UInt32.ofNat i, { k with processArray := Function.update k.processArray i 1 }) := by
  have h' : (List.range numProcesses).find? (fun i => k.processArray i == 0) = some i := h
  rw [getProcess, h']

end Kernel

theorem Core.freeSlot_lt {c : Core} {i : Nat} (h : c.freeSlot = some i) : i < 6 :=
  List.mem_range.1 (List.mem_of_find?_eq_some h)

theorem Core.freeSlot_free {c : Core} {i : Nat} (h : c.freeSlot = some i) :
    c.processArray i = 0 := by
  simpa using List.find?_some h

namespace Kernel

variable (lay : Layout) (fs : FileSys) (k : Kernel)

theorem core_setPcb (p : UInt32) (f : Pcb → Pcb) :
    (k.setPcb (getPcbPointer p) f).core = k.core.setPcb p f := rfl

theorem core_startProcess (p : UInt32) (inode : Nat) (frame : Frame) :
    (k.startProcess fs p inode frame).core = k.core.start p frame := by
  ext1
  case pcb =>
    simp only [core, startProcess, setPcb, setTerminal, map, loadProgram, setCurrProcess,
      Function.update_idem, Function.update_self, Core.start, Core.setPcb, Core.pcbOf,
      Core.parentFor]
    congr 1
  case active =>
    funext t
    simp only [core, startProcess, setPcb, setTerminal, map, loadProgram, setCurrProcess, Core.start,
      Function.update_apply]
    grind
  case currentProcess =>
    funext t
    simp only [core, startProcess, setPcb, setTerminal, map, loadProgram, setCurrProcess, Core.start,
      Function.update_apply]
    grind
  all_goals rfl

theorem setPcb_setPcb (ptr : UInt32) (f g : Pcb → Pcb) :
    (k.setPcb ptr f).setPcb ptr g = k.setPcb ptr (fun p => g (f p)) := by
  simp only [setPcb, Function.update_self, Function.update_idem]

theorem closeSlots_cons (i : Nat) (l : List Nat) (p : Pcb) :
    Core.closeSlots l (Core.closeSlots [i] p) = Core.closeSlots (i :: l) p := by
  unfold Core.closeSlots
  congr 1
  funext j
  by_cases hj : j = i
  · subst hj
    by_cases hf : (p.fdsArray j).flags = notSet <;> simp [hf]
  · simp [hj]

/-- One pass of the closing loop on the table of the current process. -/
theorem closeLoop_step (i : Nat) (hi : 2 ≤ i) (hi' : i < 8) :
    (if ((k.pcb (getPcbPointer k.currProcess)).fdsArray i).flags ≠ 0 then (k.close i).2 else k)
      = k.setPcb (getPcbPointer k.currProcess) (Core.closeSlots [i]) := by
  have hrange : ¬ ((i : Int) = 0 ∨ (i : Int) = 1 ∨ (i : Int) > (maxFile : Int) - 1 ∨ (i : Int) < 0) := by
    simp only [maxFile]
    omega
  by_cases hf : ((k.pcb (getPcbPointer k.currProcess)).fdsArray i).flags = 0
  · rw [if_neg (not_not.2 hf)]
    have hsame : Core.closeSlots [i] (k.pcb (getPcbPointer k.currProcess))
        = k.pcb (getPcbPointer k.currProcess) := by
      unfold Core.closeSlots
      congr 1
      funext j
      rw [if_neg]
      rintro ⟨hj, hne⟩
      rw [List.mem_singleton.1 hj] at hne
      exact hne hf
    simp only [setPcb, hsame, Function.update_eq_self]
  · have hset : ¬ ((k.pcb (getPcbPointer k.currProcess)).fdsArray (i : Int).toNat).flags = notSet := hf
    rw [if_pos hf, close, if_neg hrange, if_neg hset]
    have hclose : (k.pcb (getPcbPointer k.currProcess)).setFds (i : Int).toNat (fun _ => ⟨0, 0, notSet⟩)
        = Core.closeSlots [i] (k.pcb (getPcbPointer k.currProcess)) := by
      unfold Core.closeSlots Pcb.setFds
      congr 1
      funext j
      by_cases hj : j = i
      · subst hj
        rw [if_pos ⟨List.mem_singleton_self _, hf⟩]
        exact Function.update_self _ _ _
      · rw [if_neg (fun h => hj (List.mem_singleton.1 h.1))]
        exact Function.update_of_ne hj _ _
    simp only [setPcb, hclose]

/-- The closing loop, on the table of the current process. -/
theorem closeLoop_eq :
    k.closeLoop (getPcbPointer k.currProcess)
      = k.setPcb (getPcbPointer k.currProcess) Core.closeAll := by
  have main : ∀ (l : List Nat), (∀ i ∈ l, 2 ≤ i ∧ i < 8) → ∀ k : Kernel,
      l.foldl (fun k' (i : Nat) =>
        if ((k'.pcb (getPcbPointer k.currProcess)).fdsArray i).flags ≠ 0 then (k'.close i).2 else k') k
      = k.setPcb (getPcbPointer k.currProcess) (Core.closeSlots l) := by
    intro l
    induction l with
    | nil =>
        intro _ k
        have hnil : Core.closeSlots [] (k.pcb (getPcbPointer k.currProcess))
            = k.pcb (getPcbPointer k.currProcess) := by simp [Core.closeSlots]
        simp only [List.foldl_nil, setPcb, hnil, Function.update_eq_self]
    | cons i l ih =>
        intro hl k
        obtain ⟨h2, h8⟩ := hl i List.mem_cons_self
        rw [List.foldl_cons, k.closeLoop_step i h2 h8]
        have hrec := ih (fun j hj => hl j (List.mem_cons_of_mem _ hj))
          (k.setPcb (getPcbPointer k.currProcess) (Core.closeSlots [i]))
        rw [show (k.setPcb (getPcbPointer k.currProcess) (Core.closeSlots [i])).currProcess
          = k.currProcess from rfl] at hrec
        rw [hrec, setPcb_setPcb]
        simp only [closeSlots_cons]
  exact main _ (by decide) k

/-- What a write to the `current_process` field of the executing terminal does. -/
theorem core_setCurrProcess (p : UInt32) :
    (k.setCurrProcess p).core
      = { k.core with currentProcess := Function.update k.core.currentProcess k.currTerm p } := by
  ext1 <;> try rfl
  all_goals
    funext t
    by_cases h : t = k.currTerm
    · subst h; simp [core, setCurrProcess, setTerminal]
    · simp [core, setCurrProcess, setTerminal, Function.update_of_ne h]

theorem core_map (p : UInt32) :
    (k.map virtualFilePage (processPage p)).core
      = { k.core with pageDirectory := k.core.userPageDirectory p } := rfl

theorem core_enterParent (p : UInt32) :
    (k.enterParent p).core = { k.core with
      currProcess := p
      currentProcess := Function.update k.core.currentProcess k.currTerm p
      tssEsp0 := kernelStack p
      pageDirectory := k.core.userPageDirectory p } := by
  rw [enterParent, core_map, core_setCurrProcess]
  rfl

theorem resumeParent_eq (eax childPcb : UInt32) :
    (k.resumeParent eax childPcb).1
        = .resumed eax ⟨(k.pcb childPcb).esp0, (k.pcb childPcb).ebp0⟩
      ∧ (k.resumeParent eax childPcb).2.core = k.core.resume (k.core.pcbOf k.currProcess).ppid := by
  have hloop : ∀ p, (k.enterParent p).closeLoop (getPcbPointer p)
      = (k.enterParent p).setPcb (getPcbPointer p) Core.closeAll :=
    fun p => (k.enterParent p).closeLoop_eq
  rw [resumeParent, hloop]
  constructor
  · -- closing descriptors leaves the saved frame alone
    simp only [setPcb, Function.update_apply]
    split_ifs with h
    · rw [h]; rfl
    · rfl
  · dsimp only
    rw [core_setPcb, core_enterParent]
    rfl

end Kernel

end UnixTerminal
