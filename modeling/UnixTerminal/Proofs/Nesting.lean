import UnixTerminal.Library.Stacks
import UnixTerminal.Proofs.ProcessTable

set_option autoImplicit false

/-! # The call stacks of the terminals

The abstract view of the process manager: each of the three terminals has a stack of processes, the
running one on top and below it the ones that wait in their call of `execute`. `execute` pushes on the
stack of the executing terminal, a halt pops from it, and `switch_task` and `switch_terminal` choose
between the stacks. `Nest c stk` says that the core `c` implements the stacks `stk`; `nest_step` is
the simulation, for the events that neither free the slots of live processes nor leave a terminal
without its shell (`NestOk`). -/

namespace UnixTerminal

/-- The stacks after one more event. -/
def stackAfter (fs : FileSys) (k : Kernel) (e : Event) (k' : Kernel) (stk : Nat → List UInt32) :
    Nat → List UInt32 :=
  let stk := if e.ends then Function.update stk k.currTerm (stk k.currTerm).tail else stk
  if k.launches fs e then
    Function.update stk k'.currTerm (k'.currProcess :: stk k'.currTerm)
  else stk

/-- `execute` does not clear the process table: it finds no free slot, or it finds its file. -/
def KeepsTable (fs : FileSys) (c : Core) (command : List UInt8) (env : ExecEnv) : Prop :=
  c.freeSlot = none ∨ checkFile fs command env.buffer ≠ .notFound

/-- The steps that keep the stacks: no call of `execute` clears the process table; the shell can be
    started where a root process ends or a terminal is opened; and the byte behind `terminals` reads
    as an inactive terminal. -/
def NestOk (fs : FileSys) (k : Kernel) : Event → Prop
  | .execute command env => KeepsTable fs k.core command env
  | .halt _ env => k.callerPcb.ppid = minusOne → IsExe fs shellName env
  | .haltFromExc env => k.callerPcb.ppid = minusOne → IsExe fs shellName env
  | .switchTask _ => k.currTerm = 2 → (k.terminals 3).active = 0
  | .switchTerminal newt _ env =>
      k.Opens newt → k.core.freeSlot ≠ none ∧ IsExe fs shellName env
  | _ => True

/-! ## The relation -/

/-- The parent number in the PCB of a process. -/
def Core.parentOf (c : Core) (p : UInt32) : UInt32 := (c.pcbOf p).ppid

/-- What the processes on the stacks have in any state: a slot of their own, the parent links, and one
    place. -/
structure Stacked (c : Core) (stk : Nat → List UInt32) : Prop where
  slot : ∀ t p, p ∈ stk t → p < 6 ∧ c.processArray p.toNat ≠ 0
  linked : ∀ t, Linked c.parentOf minusOne (stk t)
  separate : Separate stk

/-- The core implements the stacks. -/
structure Nest (c : Core) (stk : Nat → List UInt32) : Prop extends Stacked c stk where
  currTerm_lt : c.currTerm < 3
  currTerm_active : c.active c.currTerm ≠ 0
  viewed_lt : c.currTerminalNumber < 3
  viewed_active : c.active c.currTerminalNumber ≠ 0
  idle : ∀ t, 3 ≤ t ∨ c.active t = 0 → stk t = []
  running : ∀ t, t < 3 → c.active t ≠ 0 → ∃ l, stk t = c.currentProcess t :: l
  current : c.currProcess = c.currentProcess c.currTerm

/-- The states in which `execute` is about to start a program: the executing terminal and the viewed
    one, which the start activates, may not be active yet. -/
structure Ready (c : Core) (stk : Nat → List UInt32) : Prop extends Stacked c stk where
  currTerm_lt : c.currTerm < 3
  currTerm_active : c.active c.currTerm ≠ 0 ∨ c.currTerm = c.currTerminalNumber
  viewed_lt : c.currTerminalNumber < 3
  idle : ∀ t, 3 ≤ t ∨ c.active t = 0 ∧ t ≠ c.currTerminalNumber → stk t = []
  running : ∀ t, t < 3 → t ≠ c.currTerm → c.active t ≠ 0 ∨ t = c.currTerminalNumber →
    ∃ l, stk t = c.currentProcess t :: l
  parent : c.parentFor = (stk c.currTerm).headD minusOne

variable {lay : Layout} {fs : FileSys} {c c' : Core} {stk : Nat → List UInt32}

/-- Edits that keep parents and slots. -/
theorem Stacked.of_edit (h : Stacked c stk)
    (hslot : ∀ p : UInt32, p < 6 → c.processArray p.toNat ≠ 0 → c'.processArray p.toNat ≠ 0)
    (hpar : ∀ p, c'.parentOf p = c.parentOf p) : Stacked c' stk where
  slot t p hp := ⟨(h.slot t p hp).1, hslot p (h.slot t p hp).1 (h.slot t p hp).2⟩
  linked t := (h.linked t).congr (fun p _ => hpar p)
  separate := h.separate

/-- The number -1 is no process. -/
theorem Stacked.minusOne_notMem (h : Stacked c stk) (t : Nat) : minusOne ∉ stk t :=
  fun hm => absurd (h.slot t _ hm).1 (show ¬ minusOne < 6 by decide)

/-- The stack of the executing terminal. -/
theorem Nest.top (h : Nest c stk) : ∃ l, stk c.currTerm = c.currProcess :: l := by
  rw [h.current]
  exact h.running _ h.currTerm_lt h.currTerm_active

theorem Nest.current_lt (h : Nest c stk) : c.currProcess < 6 := by
  obtain ⟨l, hl⟩ := h.top
  exact (h.slot c.currTerm _ (hl ▸ List.mem_cons_self)).1

/-- The process of an active terminal is one of the slots. -/
theorem Nest.running_lt (h : Nest c stk) {t : Nat} (ht : t < 3) (hactive : c.active t ≠ 0) :
    c.currentProcess t < 6 := by
  obtain ⟨l, hl⟩ := h.running t ht hactive
  exact (h.slot t _ (hl ▸ List.mem_cons_self)).1

/-! ## Starting a program -/

/-- A slot that `get_process` hands out is on no stack. -/
theorem Stacked.notMem_of_freeSlot (h : Stacked c stk) {p : UInt32}
    (hslot : c.freeSlot = some p.toNat) (t : Nat) : p ∉ stk t :=
  fun hp => (h.slot t p hp).2 (Core.freeSlot_free hslot)

/-- Claiming a slot does not touch the stacks. -/
theorem Stacked.claim (h : Stacked c stk) (p : UInt32) (command : List UInt8) :
    Stacked (c.claim p command) stk := by
  refine h.of_edit (fun q _ hs => ?_) (c.field_claim (·.ppid) (fun _ => rfl) p)
  rw [Core.claim_processArray, Function.update_apply]
  split_ifs
  · decide
  · exact hs

theorem Ready.claim (h : Ready c stk) (p : UInt32) (command : List UInt8) :
    Ready (c.claim p command) stk :=
  { h with toStacked := h.toStacked.claim p command }

theorem Nest.claim (h : Nest c stk) (p : UInt32) (command : List UInt8) :
    Nest (c.claim p command) stk :=
  { h with toStacked := h.toStacked.claim p command }

/-- The parent numbers behind the start of `p`. -/
theorem Core.parentOf_start {p : UInt32} (hp : p < 6) (frame : Frame) :
    (c.start p frame).parentOf p = c.parentFor ∧
      ∀ q, q < 6 → q ≠ p → (c.start p frame).parentOf q = c.parentOf q := by
  constructor
  · rw [Core.parentOf, Core.pcbOf_start_self]
    rfl
  · intro q hq hne
    rw [Core.parentOf, Core.pcbOf_start _ _ hp hq, if_neg hne]
    rfl

/-- The stacks behind a start. -/
theorem Ready.stacked_start (h : Ready c stk) {p : UInt32} (hp : p < 6)
    (hslot : c.processArray p.toNat ≠ 0) (hfresh : ∀ t, p ∉ stk t) (frame : Frame) :
    Stacked (c.start p frame) (Function.update stk c.currTerm (p :: stk c.currTerm)) := by
  obtain ⟨hself, hother⟩ := Core.parentOf_start (c := c) hp frame
  have hlinked : ∀ t, Linked (c.start p frame).parentOf minusOne (stk t) := fun t =>
    (h.linked t).congr (fun q hq => hother q (h.slot t q hq).1 (fun he => hfresh t (he ▸ hq)))
  refine ⟨fun t q hq => ?_, fun t => ?_, h.separate.push _ hfresh⟩
  · by_cases ht : t = c.currTerm
    · subst ht
      rw [Function.update_self] at hq
      rcases List.mem_cons.1 hq with rfl | hq
      · exact ⟨hp, hslot⟩
      · exact h.slot _ q hq
    · rw [Function.update_of_ne ht] at hq
      exact h.slot t q hq
  · by_cases ht : t = c.currTerm
    · subst ht
      rw [Function.update_self]
      exact ⟨hself.trans h.parent, hlinked _⟩
    · rw [Function.update_of_ne ht]
      exact hlinked t

/-- **A program start is a push** on the stack of the executing terminal. -/
theorem Ready.start (h : Ready c stk) {p : UInt32} (hp : p < 6) (hslot : c.processArray p.toNat ≠ 0)
    (hfresh : ∀ t, p ∉ stk t) (frame : Frame) :
    Nest (c.start p frame) (Function.update stk c.currTerm (p :: stk c.currTerm)) := by
  have hviewed := c.active_start_viewed p frame
  have hactive : ∀ t, t ≠ c.currTerminalNumber → (c.start p frame).active t = c.active t :=
    fun t ht => c.active_start_of_ne p frame ht
  constructor
  case toStacked => exact h.stacked_start hp hslot hfresh frame
  case currTerm_lt => exact h.currTerm_lt
  case currTerm_active =>
    by_cases ht : c.currTerm = c.currTerminalNumber
    · exact ht ▸ hviewed
    · rw [Core.start_currTerm, hactive _ ht]
      exact h.currTerm_active.resolve_right ht
  case viewed_lt => exact h.viewed_lt
  case viewed_active => exact hviewed
  case idle =>
    intro t ht
    have hnew : t ≠ c.currTerminalNumber := by
      rintro rfl
      rcases ht with ht | ht
      · exact absurd ht (not_le.2 h.viewed_lt)
      · exact hviewed ht
    have hidle : 3 ≤ t ∨ c.active t = 0 := ht.imp id (fun h0 => hactive t hnew ▸ h0)
    have hcur : t ≠ c.currTerm := by
      rintro rfl
      rcases hidle with hge | h0
      · exact absurd hge (not_le.2 h.currTerm_lt)
      · exact (h.currTerm_active.resolve_right hnew) h0
    rw [Function.update_of_ne hcur]
    exact h.idle t (hidle.imp id (fun h0 => ⟨h0, hnew⟩))
  case running =>
    intro t ht hact
    by_cases hcur : t = c.currTerm
    · subst hcur
      rw [Function.update_self, Core.start_currentProcess, Function.update_self]
      exact ⟨_, rfl⟩
    · rw [Function.update_of_ne hcur, Core.start_currentProcess, Function.update_of_ne hcur]
      refine h.running t ht hcur ?_
      by_cases hnew : t = c.currTerminalNumber
      · exact Or.inr hnew
      · exact Or.inl (hactive t hnew ▸ hact)
  case current =>
    rw [Core.start_currProcess, Core.start_currentProcess, Core.start_currTerm, Function.update_self]

/-- The start of a program in a slot that was just claimed. -/
theorem Ready.launch (h : Ready c stk) {p : UInt32} (hp : p < 6) (hslot : c.freeSlot = some p.toNat)
    (command : List UInt8) (frame : Frame) :
    Nest ((c.claim p command).start p frame)
      (Function.update stk c.currTerm (p :: stk c.currTerm)) := by
  refine (h.claim p command).start hp ?_ (h.notMem_of_freeSlot hslot) frame
  rw [Core.claim_processArray, Function.update_self]
  decide

/-- A running process may call `execute`. -/
theorem Nest.ready (h : Nest c stk) : Ready c stk where
  toStacked := h.toStacked
  currTerm_lt := h.currTerm_lt
  currTerm_active := Or.inl h.currTerm_active
  viewed_lt := h.viewed_lt
  idle t ht := h.idle t (ht.imp id And.left)
  running t ht _ hact := h.running t ht (hact.elim id (fun he => he ▸ h.viewed_active))
  parent := by
    obtain ⟨l, hl⟩ := h.top
    rw [hl]
    exact if_neg h.viewed_active

/-- `switch_terminal` may start the shell of a terminal that is not active. -/
theorem Nest.ready_toTerminal (h : Nest c stk) {newt : Nat} (hlt : newt < 3)
    (hactive : c.active newt = 0) (frame : Frame) : Ready (c.toTerminal newt frame) stk where
  toStacked := h.toStacked.of_edit (fun _ _ hs => hs) (c.field_toTerminal (·.ppid) (fun _ => rfl) newt)
  currTerm_lt := hlt
  currTerm_active := Or.inr rfl
  viewed_lt := hlt
  idle t ht := h.idle t (ht.imp id And.left)
  running t ht hne hact := h.running t ht (hact.resolve_right hne)
  parent := by
    have hidle : stk newt = [] := h.idle newt (Or.inr hactive)
    rw [Core.toTerminal_currTerm, hidle]
    exact if_pos hactive

/-! ## Ending a program -/

/-- What is left of the stacks when the current process is gone. -/
theorem Nest.pop (h : Nest c stk) {c' : Core}
    (hslot : ∀ p : UInt32, p < 6 → p ≠ c.currProcess →
      c'.processArray p.toNat = c.processArray p.toNat)
    (hpar : ∀ p, c'.parentOf p = c.parentOf p) :
    Stacked c' (Function.update stk c.currTerm (stk c.currTerm).tail) := by
  obtain ⟨l, hl⟩ := h.top
  refine ⟨fun t p hp => ?_, fun t => ?_, h.separate.pop _⟩
  · have hmem := h.slot t p (Separate.mem_of_mem_pop hp)
    have hne : p ≠ c.currProcess := fun he => h.separate.not_mem_pop hl (he ▸ hp)
    exact ⟨hmem.1, (hslot p hmem.1 hne).symm ▸ hmem.2⟩
  · have hold : ∀ t, Linked c'.parentOf minusOne (stk t) := fun t =>
      (h.linked t).congr (fun p _ => hpar p)
    by_cases ht : t = c.currTerm
    · subst ht
      rw [Function.update_self]
      exact (hold _).tail
    · rw [Function.update_of_ne ht]
      exact hold t

theorem release_processArray_of_ne (c : Core) {p q : UInt32} (hne : q ≠ p) :
    (c.release p).processArray q.toNat = c.processArray q.toNat := by
  rw [Core.release_processArray, Function.update_of_ne]
  exact fun h => hne (UInt32.toNat_inj.1 h)

/-- **A halt is a pop**: the process below becomes the current one. -/
theorem Nest.resume (h : Nest c stk) (hpar : c.ppid ≠ minusOne) :
    Nest ((c.release c.currProcess).resume c.ppid)
      (Function.update stk c.currTerm (stk c.currTerm).tail) := by
  obtain ⟨l, hl⟩ := h.top
  obtain ⟨l', hl'⟩ := Linked.below (hl ▸ h.linked c.currTerm) hpar
  have htail : (stk c.currTerm).tail = c.ppid :: l' := by rw [hl]; exact hl'
  constructor
  case toStacked =>
    exact h.pop (fun p _ hne => release_processArray_of_ne c hne)
      (Core.field_resume _ (·.ppid) (fun _ => rfl) _)
  case currTerm_lt => exact h.currTerm_lt
  case currTerm_active => exact h.currTerm_active
  case viewed_lt => exact h.viewed_lt
  case viewed_active => exact h.viewed_active
  case idle =>
    intro t ht
    have hold := h.idle t ht
    by_cases hcur : t = c.currTerm
    · subst hcur
      rw [Function.update_self, hold]
      rfl
    · rw [Function.update_of_ne hcur]
      exact hold
  case running =>
    intro t ht hact
    rw [Core.resume_currentProcess]
    by_cases hcur : t = c.currTerm
    · subst hcur
      rw [Function.update_self, htail]
      exact ⟨l', by rw [Core.release_currTerm, Function.update_self]⟩
    · rw [Function.update_of_ne hcur, Core.release_currTerm, Function.update_of_ne hcur]
      exact h.running t ht hact
  case current =>
    rw [Core.resume_currProcess, Core.resume_currentProcess, Core.resume_currTerm,
      Function.update_self]

theorem endRoot_active_of_ne (c : Core) {t : Nat} (ht : t ≠ c.currTerminalNumber) :
    c.endRoot.active t = c.active t :=
  Function.update_of_ne ht _ _

/-- The end of a root process empties the stack of its terminal, and a shell may be started. -/
theorem Nest.ready_endRoot (h : Nest c stk) (hroot : c.ppid = minusOne) :
    Ready c.endRoot (Function.update stk c.currTerm (stk c.currTerm).tail)
      ∧ c.endRoot.freeSlot ≠ none := by
  obtain ⟨l, hl⟩ := h.top
  have hnil : (stk c.currTerm).tail = [] := by
    rw [hl]
    refine Linked.eq_singleton (hl ▸ h.linked c.currTerm) hroot (fun hm => ?_)
    exact h.minusOne_notMem c.currTerm (hl ▸ List.mem_cons_of_mem _ hm)
  constructor
  · constructor
    case toStacked =>
      exact h.pop (fun p _ hne => release_processArray_of_ne c hne) (fun _ => rfl)
    case currTerm_lt => exact h.currTerm_lt
    case currTerm_active =>
      by_cases ht : c.currTerm = c.currTerminalNumber
      · exact Or.inr ht
      · left
        rw [show c.endRoot.currTerm = c.currTerm from rfl, endRoot_active_of_ne c ht]
        exact h.currTerm_active
    case viewed_lt => exact h.viewed_lt
    case idle =>
      intro t ht
      by_cases hcur : t = c.currTerm
      · subst hcur
        rw [Function.update_self, hnil]
      · rw [Function.update_of_ne hcur]
        refine h.idle t (ht.imp id ?_)
        rintro ⟨h0, hnew⟩
        exact endRoot_active_of_ne c hnew ▸ h0
    case running =>
      intro t ht hcur hact
      have hne : t ≠ c.currTerm := hcur
      rw [Function.update_of_ne hne]
      refine h.running t ht ?_
      rcases hact with hact | rfl
      · by_cases hnew : t = c.currTerminalNumber
        · exact hnew ▸ h.viewed_active
        · exact endRoot_active_of_ne c hnew ▸ hact
      · exact h.viewed_active
    case parent =>
      rw [show c.endRoot.currTerm = c.currTerm from rfl, Function.update_self, hnil]
      exact if_pos (Function.update_self _ _ _)
  · exact Core.freeSlot_endRoot h.current_lt

/-! ## Choosing a stack -/

/-- A tick to one of the three terminals. -/
theorem Nest.switchTo (h : Nest c stk) {t : Nat} (ht : t < 3) (hactive : c.active t ≠ 0)
    (frame : Frame) : Nest (c.switchTo t frame) stk where
  toStacked := h.toStacked.of_edit (fun _ _ hs => hs) (c.field_switchTo (·.ppid) (fun _ => rfl) t)
  currTerm_lt := ht
  currTerm_active := hactive
  viewed_lt := h.viewed_lt
  viewed_active := h.viewed_active
  idle := h.idle
  running := h.running
  current := toUInt8_toUInt32 (h.running_lt ht hactive)

theorem Nest.mapVideo (h : Nest c stk) (phys : UInt32) : Nest (c.mapVideo lay phys) stk :=
  { h with toStacked := h.toStacked.of_edit (fun _ _ hs => hs) (fun _ => rfl) }

theorem Nest.viewTo (h : Nest c stk) {newt : Nat} (hlt : newt < 3) (hactive : c.active newt ≠ 0) :
    Nest (c.viewTo lay newt) stk :=
  { h with
    toStacked := h.toStacked.of_edit (fun _ _ hs => hs) (fun _ => rfl)
    viewed_lt := hlt
    viewed_active := hactive }

/-- The memory behind the three terminals is on no stack. -/
theorem Nest.neighbours (h : Nest c stk) {active : Nat → UInt8} {currentProcess : Nat → UInt32}
    (hact : ∀ t, t < 3 → active t = c.active t)
    (hproc : ∀ t, t < 3 → currentProcess t = c.currentProcess t) :
    Nest { c with active := active, currentProcess := currentProcess } stk where
  toStacked := h.toStacked.of_edit (fun _ _ hs => hs) (fun _ => rfl)
  currTerm_lt := h.currTerm_lt
  currTerm_active := (hact _ h.currTerm_lt).trans_ne h.currTerm_active
  viewed_lt := h.viewed_lt
  viewed_active := (hact _ h.viewed_lt).trans_ne h.viewed_active
  idle t ht := by
    by_cases hlt : t < 3
    · exact h.idle t (ht.imp id (hact t hlt).symm.trans)
    · exact h.idle t (Or.inl (not_lt.1 hlt))
  running t ht hrun := by
    obtain ⟨l, hl⟩ := h.running t ht ((hact t ht).symm.trans_ne hrun)
    exact ⟨l, hl.trans (congrArg (· :: l) (hproc t ht).symm)⟩
  current := h.current.trans (hproc _ h.currTerm_lt).symm

/-- The system calls on descriptors. -/
theorem Nest.edit (h : Nest c stk) {q : Pcb} (hq : FdEdit (c.pcbOf c.currProcess) q) :
    Nest (c.setPcb c.currProcess (fun _ => q)) stk := by
  refine { h with toStacked := h.toStacked.of_edit (fun _ _ hs => hs) (fun p => ?_) }
  rw [Core.parentOf, Core.pcbOf, Core.setPcb_pcb, Function.update_apply]
  split_ifs with he
  · rw [Core.parentOf, Core.pcbOf, he]
    exact hq.ppid
  · rfl

theorem Core.Local.nest (h : c.Local lay c') (hc : Nest c stk) : Nest c' stk := by
  cases h with
  | edit hq => exact hc.edit hq
  | video phys => exact hc.mapVideo phys

/-! ## The simulation -/

/-- `execute` by a running process. -/
theorem Core.Exec.nest {command : List UInt8} {env : ExecEnv} {o : ExecOutcome}
    (h : c.Exec fs command env o c') (hc : Nest c stk) (hkeep : KeepsTable fs c command env) :
    Nest c' (if o.isStarted then Function.update stk c'.currTerm (c'.currProcess :: stk c'.currTerm)
      else stk) := by
  cases h with
  | full => exact hc
  | notFound hp hslot hfile =>
      rcases hkeep with hfull | hfound
      · rw [hslot] at hfull; cases hfull
      · exact absurd hfile hfound
  | notExe => exact hc.claim _ command
  | started hp hslot => exact hc.ready.launch hp hslot command env.frame

/-- `execute` of a shell that can be started. -/
theorem Ready.exec_shell {env : ExecEnv} {o : ExecOutcome} (hc : Ready c stk)
    (h : c.Exec fs shellName env o c') (hslot : c.freeSlot ≠ none) (hexe : IsExe fs shellName env) :
    o.isStarted = true
      ∧ Nest c' (Function.update stk c'.currTerm (c'.currProcess :: stk c'.currTerm)) := by
  rcases h.full_or_started (Or.inr hexe) with ⟨-, hfull, -⟩ | ⟨entry, p, rfl, hp, hfree, rfl⟩
  · exact absurd hfull hslot
  · exact ⟨rfl, hc.launch hp hfree shellName env.frame⟩

/-- The halts. -/
theorem Core.Halt.nest {eax : UInt32} {env : ExecEnv} {o : HaltOutcome}
    (h : c.Halt fs eax env o c') (hc : Nest c stk) (hexe : c.ppid = minusOne → IsExe fs shellName env) :
    let stk' := Function.update stk c.currTerm (stk c.currTerm).tail
    Nest c' (if o.isRestarted then
      Function.update stk' c'.currTerm (c'.currProcess :: stk' c'.currTerm) else stk') := by
  cases h with
  | toParent hpar => exact hc.resume hpar
  | restarted hroot hexec =>
      obtain ⟨hready, hfree⟩ := hc.ready_endRoot hroot
      exact (hready.exec_shell hexec hfree (hexe hroot)).2
  | stuck hroot hexec =>
      obtain ⟨hready, hfree⟩ := hc.ready_endRoot hroot
      exact Bool.noConfusion (hready.exec_shell hexec hfree (hexe hroot)).1

/-- **The kernel implements the call stacks.** -/
theorem nest_step {k k' : Kernel} {e : Event} (h : Nest k.core stk) (hok : NestOk fs k e)
    (hstep : k.step lay fs e = some k') : Nest k'.core (stackAfter fs k e k' stk) := by
  cases e with
  | execute command env =>
      cases hstep
      exact (k.core_execute fs command env).nest h hok
  | halt status env =>
      cases hstep
      exact (k.core_haltWith fs status.toUInt32 env).nest h hok
  | haltFromExc env =>
      cases hstep
      exact (k.core_haltWith fs 256 env).nest h hok
  | switchTask frame =>
      obtain ⟨r, hr, rfl⟩ := Option.map_eq_some_iff.1 hstep
      obtain ⟨t, ht, rfl⟩ := Option.map_eq_some_iff.1 hr
      have hlt := k.nextTerm_lt ht h.currTerm_lt hok
      exact (k.core_switchTo lay t frame).1 ▸
        (h.switchTo hlt (k.nextTerm_spec ht).1 frame).mapVideo _
  | switchTerminal newt frame env =>
      cases hstep
      rcases k.switchTerminal_cases lay fs newt frame env with ⟨hopen, hk⟩ | ⟨hnot, hk⟩
      · obtain ⟨hslot, hexe⟩ := hok hopen
        have hready := h.ready_toTerminal hopen.2.1 hopen.2.2 frame
        obtain ⟨hstarted, hnest⟩ :=
          hready.exec_shell (k.core_openTerminal fs newt frame env) hslot hexe
        simp only [stackAfter, Event.ends, Kernel.launches, hopen, hstarted, decide_true,
          Bool.and_self, if_true, hk]
        exact hnest
      · simp only [stackAfter, Event.ends, Kernel.launches, hnot, decide_false, Bool.false_and]
        rcases hk with hk | ⟨hlt, hactive, hk⟩
        · exact hk.symm ▸ h
        · exact hk.symm ▸ h.viewTo hlt hactive
  | neighbours past =>
      cases hstep
      exact h.neighbours (fun t ht => congrArg Terminal.active (if_pos ht))
        (fun t ht => congrArg Terminal.currentProcess (if_pos ht))
  | _ => exact ((k.core_step lay fs hstep).toLocal trivial).nest h

/-- A process on a stack was just started, or was there before and has not ended. -/
theorem mem_stackAfter {k k' : Kernel} {e : Event} {t : Nat} {p : UInt32}
    (h : p ∈ stackAfter fs k e k' stk t) :
    (k.launches fs e = true ∧ p = k'.currProcess)
      ∨ (p ∈ stk t
        ∧ (e.ends = true → p ∈ Function.update stk k.currTerm (stk k.currTerm).tail t)) := by
  have hpop : ∀ t, p ∈ (if e.ends then Function.update stk k.currTerm (stk k.currTerm).tail
      else stk) t → p ∈ stk t
        ∧ (e.ends = true → p ∈ Function.update stk k.currTerm (stk k.currTerm).tail t) := by
    intro t ht
    split_ifs at ht with hends
    · exact ⟨Separate.mem_of_mem_pop ht, fun _ => ht⟩
    · exact ⟨ht, fun h => absurd h hends⟩
  dsimp only [stackAfter] at h
  generalize (if e.ends then Function.update stk k.currTerm (stk k.currTerm).tail else stk) = popped
    at h hpop
  split_ifs at h with hl
  · by_cases ht : t = k'.currTerm
    · rw [ht, Function.update_self] at h
      rcases List.mem_cons.1 h with hp | hp
      · exact Or.inl ⟨hl, hp⟩
      · exact Or.inr (ht ▸ hpop _ hp)
    · rw [Function.update_of_ne ht] at h
      exact Or.inr (hpop t h)
  · exact Or.inr (hpop t h)

/-- Before the first shell is started there is nothing on the stacks. -/
theorem ready_boot (lay : Layout) (mem : BootMemory) :
    Ready (Kernel.boot lay mem).core (fun _ => []) := by
  have hactive : (Kernel.boot lay mem).core.active 0 = 0 := by rw [core_boot]; rfl
  rw [core_boot] at hactive ⊢
  exact {
    slot := fun _ _ h => absurd h List.not_mem_nil
    linked := fun _ => trivial
    separate := Separate.empty
    currTerm_lt := show 0 < 3 by decide
    currTerm_active := Or.inr rfl
    viewed_lt := show 0 < 3 by decide
    idle := fun _ _ => rfl
    running := fun t ht hne h => absurd (if_pos ht) (h.resolve_right hne)
    parent := if_pos hactive }

/-- The first shell is alone on the stack of terminal 0. -/
theorem nest_boot {mem : BootMemory} {env : ExecEnv} {entry : UInt32}
    (hboot : ((Kernel.boot lay mem).execute fs shellName env).1 = .started entry) :
    ∃ stk, Nest ((Kernel.boot lay mem).execute fs shellName env).2.core stk := by
  obtain ⟨p, hp, hslot, hc⟩ := (Kernel.boot lay mem).core_started fs hboot
  exact ⟨_, hc ▸ (ready_boot lay mem).launch hp hslot shellName env.frame⟩

end UnixTerminal
