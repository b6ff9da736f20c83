import UnixTerminal.Kernel.Linkage
import UnixTerminal.Library.Run

set_option autoImplicit false

/-! # What the entry stubs restore

`rtc_linkage` and `keyboard_linkage` save every register around their call and `syscall_link` saves by
hand what its caller may expect back, so the C convention is all they need of the function they call.
`pit_linkage` saves nothing, and `switch_task` is no C function to the process that comes back from it: that
finds in EAX, ECX and EDX what `switch_task` left there, and in ESI and EDI what the process had that was
interrupted instead. -/

namespace UnixTerminal

/-! ## System calls -/

/-- The registers that `syscall_link` saves, in the order of its pushes. -/
def savedRegs : List Reg := [.ebx, .ecx, .edx, .esi, .edi]

/-- The signed comparisons of `syscall_link` let the numbers 1 to 10 through. -/
theorem signed_bounds (v : UInt32) : (¬ signed v ≤ 0 ∧ ¬ 11 ≤ signed v) ↔ (1 ≤ v ∧ v ≤ 10) := by
  have h : signed v = if 2 * v.toNat < 2 ^ 32 then (v.toNat : Int) else v.toNat - 2 ^ 32 :=
    BitVec.toInt_eq_toNat_cond v.toBitVec
  have hlt := v.toNat_lt
  rw [UInt32.le_iff_toNat_le, UInt32.le_iff_toNat_le, show (1 : UInt32).toNat = 1 from rfl,
    show (10 : UInt32).toNat = 10 from rfl, h]
  split <;> omega

/-- What a system call leaves of the registers and the stack. -/
structure SyscallReturn (c c' : Cpu) : Prop where
  reg : ∀ r, r ≠ .eax → c'.reg r = c.reg r
  base : c'.base = c.base
  stack : c'.stack = c.stack

/-- The pops at the end of both paths, when the saved words are on top of the stack. -/
theorem exec_restore (f : Handler → Cpu → Option Cpu) (c : Cpu) (s : Machine Handler)
    (hebp : s.cpu.reg .ebp = c.reg .ebp) (hbase : s.cpu.base = c.base)
    (hstack : s.cpu.stack = (savedRegs.map c.reg).reverse ++ c.stack) :
    ∃ t, (Code.block (savedRegs.reverse.map .popl) .iret).exec f s = some t ∧ SyscallReturn c t.cpu ∧
      t.cpu.reg .eax = s.cpu.reg .eax ∧ t.calls = s.calls := by
  rw [← List.map_reverse] at hstack
  rw [Code.exec_block (exec_pops savedRegs.reverse c.reg c.stack s hstack)]
  refine ⟨_, rfl, ⟨fun r hr => ?_, hbase, rfl⟩, rfl, rfl⟩
  cases r with
  | eax => exact absurd rfl hr
  | ebp => exact hebp
  | ecx | edx | ebx | esi | edi => rfl

/-- The machine behind the first pushes of a system call that entered in `c`. -/
def saved (c : Cpu) (compared : Int × Int) (calls : List (Handler × List UInt32)) : Machine Handler where
  cpu := { c with stack := (savedRegs.map c.reg).reverse ++ c.stack }
  compared := compared
  calls := calls

/-- The error path. -/
theorem exec_notValid (f : Handler → Cpu → Option Cpu) (c : Cpu) (compared : Int × Int)
    (calls : List (Handler × List UInt32)) :
    ∃ t, notValid.exec f (saved c compared calls) = some t ∧ SyscallReturn c t.cpu ∧
      t.cpu.reg .eax = -1 ∧ t.calls = calls := by
  let s : Machine Handler := saved c compared calls
  have hsplit : notValid.exec f s =
      (Code.block (savedRegs.reverse.map .popl) .iret).exec f { s with cpu := s.cpu.set .eax (-1) } :=
    (Code.exec_block_append [.movl (-1) .eax] (savedRegs.reverse.map .popl) .iret s).trans
      (Code.exec_block rfl)
  rw [hsplit]
  exact exec_restore f c { s with cpu := s.cpu.set .eax (-1) } rfl rfl rfl

/-- The registers that carry the arguments, the first argument first. -/
def argRegs : List Reg := [.ebx, .ecx, .edx]

theorem args_of_mem_jumpTable {k : Handler} (hk : k ∈ jumpTable) : k.args = 3 := by
  revert hk
  cases k <;> decide

/-- Three words on the stack as the values of the argument registers. -/
theorem exists_argRegs (slots : List UInt32) (h : slots.length = 3) :
    ∃ v : Reg → UInt32, slots = argRegs.map v := by
  obtain ⟨a, b, d, rfl⟩ := List.length_eq_three.1 h
  exact ⟨fun r => if r = .ebx then a else if r = .ecx then b else d, rfl⟩

/-- The pops behind the call: first the argument slots, then the saved registers. -/
theorem exec_drop_restore (f : Handler → Cpu → Option Cpu) (c : Cpu) (s : Machine Handler)
    (slots : List UInt32) (hslots : slots.length = 3) (hebp : s.cpu.reg .ebp = c.reg .ebp)
    (hbase : s.cpu.base = c.base)
    (hstack : s.cpu.stack = slots ++ ((savedRegs.map c.reg).reverse ++ c.stack)) :
    ∃ t, (Code.block (argRegs.map .popl ++ savedRegs.reverse.map .popl) .iret).exec f s = some t ∧
      SyscallReturn c t.cpu ∧ t.cpu.reg .eax = s.cpu.reg .eax ∧ t.calls = s.calls := by
  obtain ⟨v, rfl⟩ := exists_argRegs slots hslots
  rw [Code.exec_block_append, Code.exec_block (exec_pops argRegs v _ s hstack)]
  exact exec_restore f c _ hebp hbase rfl

/-- The state in which a system call that entered in `c` calls its function: the arguments on top of
    the saved registers, the number of the function from 0 in EAX. -/
def atCall (c : Cpu) (compared : Int × Int) (calls : List (Handler × List UInt32)) :
    Machine Handler where
  cpu := { c with stack := argRegs.map c.reg ++ ((savedRegs.map c.reg).reverse ++ c.stack) }.set .eax
    (c.reg .eax - 1)
  compared := compared
  calls := calls

/-- The instructions behind the comparisons up to the call. -/
theorem exec_atCall (f : Handler → Cpu → Option Cpu) (c : Cpu) (compared : Int × Int)
    (calls : List (Handler × List UInt32)) (k : Handler)
    (hk : jumpTable[(c.reg .eax - 1).toNat]? = some k) (next : Code Handler) :
    (Code.block (argRegs.reverse.map .pushl) <|
      .block [.subl 1 .eax, .callTable jumpTable .eax] next).exec f (saved c compared calls) =
      ((atCall c compared calls).call f k).bind (fun s => next.exec f s) := by
  have hargs : (argRegs.reverse.map c.reg).reverse = argRegs.map c.reg := rfl
  rw [Code.exec_block (exec_pushes argRegs.reverse (saved c compared calls))]
  simp only [Code.exec, List.foldlM_cons, List.foldlM_nil, Instr.exec, Option.bind_eq_bind,
    Option.bind_some, Cpu.reg_set_self, saved, hargs, hk]
  simp only [Option.pure_def, Option.bind_fun_some]
  rfl

/-- The path of a valid number, behind the comparisons. -/
theorem exec_call (h : CFunctions Handler Handler.args) (c : Cpu) (compared : Int × Int)
    (calls : List (Handler × List UInt32)) (k : Handler)
    (hk : jumpTable[(c.reg .eax - 1).toNat]? = some k) :
    ∃ t, (Code.block (argRegs.reverse.map .pushl) <|
        .block [.subl 1 .eax, .callTable jumpTable .eax] <|
        .block (argRegs.map .popl ++ savedRegs.reverse.map .popl) .iret).exec h.run
          (saved c compared calls) = some t ∧
      SyscallReturn c t.cpu ∧
      t.cpu.reg .eax = (h.ret k ((atCall c compared calls).cpu.push returnAddress)).reg .eax ∧
      t.calls = calls ++ [(k, (atCall c compared calls).cpu.stack)] := by
  have hargs : k.args = 3 := args_of_mem_jumpTable (List.mem_of_getElem? hk)
  have hret := h.convention k ((atCall c compared calls).cpu.push returnAddress)
    (by simp [hargs, atCall, argRegs])
  rw [hargs] at hret
  obtain ⟨slots, hslots, hstack⟩ := hret.stack
  rw [exec_atCall h.run c compared calls k hk]
  exact exec_drop_restore h.run c _ slots hslots (hret.saved .ebp rfl) hret.base hstack

theorem jumpTable_get {v : UInt32} (h : 1 ≤ v ∧ v ≤ 10) : ∃ k, jumpTable[(v - 1).toNat]? = some k := by
  have hlen : (v - 1).toNat < jumpTable.length := by
    have h1 := UInt32.le_iff_toNat_le.1 h.1
    have h10 := UInt32.le_iff_toNat_le.1 h.2
    rw [UInt32.toNat_sub_of_le _ _ h.1]
    exact Nat.lt_of_le_of_lt (Nat.sub_le_sub_right h10 _) (by decide)
  exact ⟨_, List.getElem?_eq_getElem hlen⟩

/-- The comparisons: only a number in range gets to the call. -/
theorem exec_compare (f : Handler → Cpu → Option Cpu) (s : Machine Handler) (next : Code Handler) :
    (Code.block (savedRegs.map .pushl) <| .block [.cmpl 0 .eax] <| .jle notValid <|
        .block [.cmpl 11 .eax] <| .jge notValid next).exec f s =
      if signed (s.cpu.reg .eax) ≤ 0 then
        notValid.exec f (saved s.cpu (signed (s.cpu.reg .eax), 0) s.calls)
      else if 11 ≤ signed (s.cpu.reg .eax) then
        notValid.exec f (saved s.cpu (signed (s.cpu.reg .eax), 11) s.calls)
      else next.exec f (saved s.cpu (signed (s.cpu.reg .eax), 11) s.calls) := by
  rw [Code.exec_block (exec_pushes savedRegs s), Code.exec_block rfl]
  rfl

/-- **System calls.** With a number from 1 to 10 the stub calls that function on the arguments and
    returns what it returns, with any other number it calls nothing and returns -1; every other
    register and the stack are as at entry. -/
theorem exec_syscallLink (h : CFunctions Handler Handler.args) (s : Machine Handler) :
    ∃ t, syscallLink.exec h.run s = some t ∧ SyscallReturn s.cpu t.cpu ∧
      ((1 ≤ s.cpu.reg .eax ∧ s.cpu.reg .eax ≤ 10) →
        ∃ k entry stack, jumpTable[(s.cpu.reg .eax - 1).toNat]? = some k ∧
          entry.stack = returnAddress :: stack ∧ stack.take 3 = argRegs.map s.cpu.reg ∧
          t.calls = s.calls ++ [(k, stack)] ∧ t.cpu.reg .eax = (h.ret k entry).reg .eax) ∧
      (¬ (1 ≤ s.cpu.reg .eax ∧ s.cpu.reg .eax ≤ 10) →
        t.calls = s.calls ∧ t.cpu.reg .eax = -1) := by
  have hcode := exec_compare h.run s (Code.block (argRegs.reverse.map .pushl) <|
    .block [.subl 1 .eax, .callTable jumpTable .eax] <|
    .block (argRegs.map .popl ++ savedRegs.reverse.map .popl) .iret)
  have hcode : syscallLink.exec h.run s = _ := hcode
  rw [hcode]
  by_cases hv : 1 ≤ s.cpu.reg .eax ∧ s.cpu.reg .eax ≤ 10
  · obtain ⟨hle, hge⟩ := (signed_bounds _).2 hv
    obtain ⟨k, hk⟩ := jumpTable_get hv
    obtain ⟨t, ht, hsys, heax, hcalls⟩ :=
      exec_call h s.cpu (signed (s.cpu.reg .eax), 11) s.calls k hk
    rw [if_neg hle, if_neg hge]
    exact ⟨t, ht, hsys, fun _ => ⟨k, _, _, hk, rfl, rfl, hcalls, heax⟩, fun hn => absurd hv hn⟩
  · by_cases hle : signed (s.cpu.reg .eax) ≤ 0
    · obtain ⟨t, ht, hsys, heax, hcalls⟩ := exec_notValid h.run s.cpu _ s.calls
      rw [if_pos hle]
      exact ⟨t, ht, hsys, fun h => absurd h hv, fun _ => ⟨hcalls, heax⟩⟩
    · have hge : 11 ≤ signed (s.cpu.reg .eax) :=
        Decidable.not_not.1 fun hge => hv ((signed_bounds _).1 ⟨hle, hge⟩)
      obtain ⟨t, ht, hsys, heax, hcalls⟩ := exec_notValid h.run s.cpu _ s.calls
      rw [if_neg hle, if_pos hge]
      exact ⟨t, ht, hsys, fun h => absurd h hv, fun _ => ⟨hcalls, heax⟩⟩

/-! ## Preemption -/

/-- What a process that called `switch_task` in `c` comes back with, where the tick interrupted `out`. -/
def resumed (scratch : Reg → UInt32) (out c : Cpu) : Cpu where
  reg
    | .ebx => c.reg .ebx
    | .ebp => c.reg .ebp
    | .esi => out.reg .esi
    | .edi => out.reg .edi
    | r => scratch r
  base := c.base
  stack := c.stack

/-- The return from a frame undoes the call of the process that saved it. -/
theorem returnFrame_saveFrame (scratch : Reg → UInt32) (out c : Cpu) (v : UInt32) :
    returnFrame scratch (saveFrame (c.push v)) out = some (resumed scratch out c) := by
  simp only [returnFrame, saveFrame, Cpu.pop, Cpu.stack_push, Cpu.reg_push, Cpu.base_push, Cpu.stack_set,
    Option.bind_some, Option.map_some]
  refine congrArg some (Cpu.ext (funext fun r => ?_) rfl rfl)
  cases r <;> rfl

theorem resumed_eq_iff (scratch : Reg → UInt32) (out c : Cpu) :
    resumed scratch out c = c ↔ (out.reg .esi = c.reg .esi ∧ out.reg .edi = c.reg .edi) ∧
      ∀ r, r.calleeSaved = false → scratch r = c.reg r := by
  constructor
  · intro h
    have hreg : ∀ r, (resumed scratch out c).reg r = c.reg r := fun r => by rw [h]
    refine ⟨⟨hreg .esi, hreg .edi⟩, fun r hr => ?_⟩
    cases r with
    | eax => exact hreg .eax
    | ecx => exact hreg .ecx
    | edx => exact hreg .edx
    | ebx | ebp | esi | edi => cases hr
  · rintro ⟨⟨hesi, hedi⟩, hscratch⟩
    refine Cpu.ext (funext fun r => ?_) rfl rfl
    cases r with
    | ebx | ebp => rfl
    | esi => exact hesi
    | edi => exact hedi
    | eax | ecx | edx => exact hscratch _ rfl

/-- The states in which the processes were last interrupted by the PIT, or called `switch_terminal`, beside
    a run. -/
def interruptedAt (s : Tasks) (e : TaskEvent) (_ : Tasks) (g : UInt32 → Option Cpu) :
    UInt32 → Option Cpu :=
  match e with
  | .goesOn _ _ => g
  | .startsShell _ _ | .tick _ _ => Function.update g s.running (some s.cpu)

/-- Every saved stack is that of a call made in the state that was interrupted. -/
def ParkedAt (s : Tasks × (UInt32 → Option Cpu)) : Prop :=
  ∀ p, s.1.parked p = (s.2 p).map fun c => saveFrame (c.push returnAddress)

/-- A tick as the stub's code runs it. -/
theorem step_tick (s : Tasks) (next : UInt32) (scratch : Reg → UInt32) :
    s.step (.tick next scratch) = (s.switchTask next scratch (s.cpu.push returnAddress)).map fun c =>
      { running := next, cpu := c, parked := s.park (s.cpu.push returnAddress) } := by
  simp only [Tasks.step, pitLinkage, Code.exec, List.foldlM_cons, List.foldlM_nil, Instr.exec,
    Machine.call, Option.bind_eq_bind, Option.pure_def, Option.bind_fun_some, Option.map_map,
    Function.comp_def]

theorem parkedAt_park {s : Tasks} {g : UInt32 → Option Cpu} (h : ParkedAt (s, g)) (p : UInt32) :
    s.park (s.cpu.push returnAddress) p =
      (Function.update g s.running (some s.cpu) p).map fun c => saveFrame (c.push returnAddress) := by
  unfold Tasks.park
  by_cases hp : p = s.running
  · rw [hp, Function.update_self, Function.update_self, Option.map_some]
  · rw [Function.update_of_ne hp, Function.update_of_ne hp]
    exact h p

theorem parkedAt_step (s s' : Tasks × (UInt32 → Option Cpu)) (e : TaskEvent) (h : ParkedAt s)
    (hs : withGhost Tasks.step interruptedAt s e = some s') : ParkedAt s' := by
  obtain ⟨hstep, hghost⟩ := withGhost_eq_some hs
  intro p
  rw [hghost]
  cases e with
  | goesOn process cpu =>
      have hs' : _ = s'.1 := Option.some.inj hstep
      rw [← hs']
      exact h p
  | startsShell process cpu =>
      have hs' : _ = s'.1 := Option.some.inj hstep
      rw [← hs']
      exact parkedAt_park h p
  | tick next scratch =>
      rw [step_tick, Option.map_eq_some_iff] at hstep
      obtain ⟨_, _, hs'⟩ := hstep
      rw [← hs']
      exact parkedAt_park h p

theorem reaches_parkedAt {s₀ : Tasks} (h0 : ∀ p, s₀.parked p = none) {s : Tasks × (UInt32 → Option Cpu)}
    (h : Reaches (withGhost Tasks.step interruptedAt) (fun _ _ => True) (s₀, fun _ => none) s) :
    ParkedAt s :=
  h.invariant (fun p => h0 p) (fun s e s' hi _ hs => parkedAt_step s s' e hi hs)

/-- **A tick**: the next process was interrupted in some `c`, and is resumed with what is left of it. -/
theorem tick_eq {s : Tasks × (UInt32 → Option Cpu)} (h : ParkedAt s) {next : UInt32} {c : Cpu}
    (hc : Function.update s.2 s.1.running (some s.1.cpu) next = some c) (scratch : Reg → UInt32) :
    withGhost Tasks.step interruptedAt s (.tick next scratch) =
      some (⟨next, resumed scratch s.1.cpu c, s.1.park (s.1.cpu.push returnAddress)⟩,
        Function.update s.2 s.1.running (some s.1.cpu)) := by
  have hsaved := parkedAt_park h next
  rw [hc, Option.map_some] at hsaved
  have hswitch : s.1.switchTask next scratch (s.1.cpu.push returnAddress) = some (resumed scratch s.1.cpu c) := by
    rw [Tasks.switchTask, hsaved]
    exact returnFrame_saveFrame scratch (s.1.cpu.push returnAddress) c returnAddress
  rw [withGhost, step_tick, hswitch]
  rfl

/-- Only a process with a saved stack is resumed. -/
theorem exists_of_tick {s s' : Tasks × (UInt32 → Option Cpu)} (h : ParkedAt s) {next : UInt32}
    {scratch : Reg → UInt32} (hs : withGhost Tasks.step interruptedAt s (.tick next scratch) = some s') :
    ∃ c, Function.update s.2 s.1.running (some s.1.cpu) next = some c := by
  obtain ⟨hstep, -⟩ := withGhost_eq_some hs
  rw [step_tick, Tasks.switchTask, parkedAt_park h, Option.map_eq_some_iff] at hstep
  obtain ⟨c', hswitch, -⟩ := hstep
  cases hc : Function.update s.2 s.1.running (some s.1.cpu) next with
  | none =>
      rw [hc] at hswitch
      cases hswitch
  | some c => exact ⟨c, rfl⟩

/-- A tick resumes the next process on its stack and with its EBX and EBP. It has all its registers back if
    the process that was interrupted had the same ESI and EDI, and if `switch_task` leaves it its EAX, ECX
    and EDX. -/
theorem tick_resumes {s s' : Tasks × (UInt32 → Option Cpu)} (h : ParkedAt s) {next : UInt32}
    {scratch : Reg → UInt32}
    (hs : withGhost Tasks.step interruptedAt s (.tick next scratch) = some s') :
    ∃ c, s'.2 next = some c ∧ s'.1.running = next ∧ s'.1.cpu.stack = c.stack ∧ s'.1.cpu.esp = c.esp ∧
      s'.1.cpu.reg .ebx = c.reg .ebx ∧ s'.1.cpu.reg .ebp = c.reg .ebp ∧
      (s'.1.cpu = c ↔ (s.1.cpu.reg .esi = c.reg .esi ∧ s.1.cpu.reg .edi = c.reg .edi) ∧
        ∀ r, r.calleeSaved = false → scratch r = c.reg r) ∧
      ∃ scratch' s'', withGhost Tasks.step interruptedAt s (.tick next scratch') = some s'' ∧
        s''.2 next = some c ∧ s''.1.cpu ≠ c := by
  obtain ⟨c, hc⟩ := exists_of_tick h hs
  obtain rfl := Option.some.inj ((tick_eq h hc scratch).symm.trans hs)
  refine ⟨c, hc, rfl, rfl, rfl, rfl, rfl, resumed_eq_iff scratch s.1.cpu c, fun _ => c.reg .eax + 1, _,
    tick_eq h hc _, hc, fun hcpu => ?_⟩
  -- what is left in EAX is not what was there
  have heax : c.reg .eax + 1 = c.reg .eax := congrArg (fun c => c.reg .eax) hcpu
  simp at heax

/-! ## All stubs -/

/-- Functions that return at once. -/
def sampleHandlers : CFunctions Handler Handler.args where
  ret _ c := { c with stack := c.stack.tail }
  convention k c hlen := by
    refine ⟨fun _ _ => rfl, rfl, c.stack.tail.take k.args, ?_, ?_⟩
    · rw [List.length_take, List.length_tail]
      omega
    · rw [← List.drop_tail, List.take_append_drop]

/-- A program with 1 in EAX and `esi` in ESI, interrupted by the PIT: the frame of the interrupt is on its
    stack, which ends below `base`. -/
def sampleCpu (base esi : UInt32) : Cpu where
  reg r := if r = .eax then 1 else if r = .esi then esi else 0
  base := base
  stack := [0x8048000, 0x23, 0x202, 0x83FFFFC, 0x2B]

/-- Process 0 runs. -/
def sampleTasks : Tasks where
  running := 0
  cpu := sampleCpu 0x7FFFFC 5
  parked _ := none

/-- Process 0 opens a terminal, where the shell, process 1, runs with `esi` in ESI; a tick resumes process 0,
    which comes back to what it did. -/
def twoTasks (esi : UInt32) : Tasks × (UInt32 → Option Cpu) :=
  (⟨0, sampleCpu 0x7FFFFC 5, Function.update
      (Function.update (fun _ => none) 0 (some (saveFrame ((sampleCpu 0x7FFFFC 5).push returnAddress)))) 1
      (some (saveFrame ((sampleCpu 0x7FDFFC esi).push returnAddress)))⟩,
    Function.update (Function.update (fun _ => none) 0 (some (sampleCpu 0x7FFFFC 5))) 1
      (some (sampleCpu 0x7FDFFC esi)))

theorem reaches_twoTasks (esi : UInt32) :
    Reaches (withGhost Tasks.step interruptedAt) (fun _ _ => True) (sampleTasks, fun _ => none) (twoTasks esi) :=
  ((Reaches.refl.tail (e := .startsShell 1 (sampleCpu 0x7FDFFC esi)) trivial rfl).tail
    (e := .tick 0 (sampleCpu 0x7FFFFC 5).reg) trivial rfl).tail
    (e := .goesOn 0 (sampleCpu 0x7FFFFC 5)) trivial rfl

end UnixTerminal
