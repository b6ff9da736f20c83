import Mathlib.Data.List.Basic
import Mathlib.Logic.Function.Basic

set_option autoImplicit false

/-! # Code over a register file and a stack

Straight-line 32-bit code with forward jumps that ends in `iret`: pushes and pops, comparisons and
calls of functions that are only known by what they may change. The stack is the list of its words
from ESP upwards, so the stack pointer is where the list begins.

`CReturn` is the C calling convention: a function returns with EBX, EBP, ESI and EDI as they were, on
the stack it was called on, and may leave anything in EAX, ECX, EDX and in its own argument slots. -/

namespace UnixTerminal

/-! ## Registers and stack -/

/-- The general registers beside the stack pointer. -/
inductive Reg
  | eax | ecx | edx | ebx | ebp | esi | edi
  deriving DecidableEq

/-- The registers that a C function gives back as it found them. -/
def Reg.calleeSaved : Reg → Bool
  | .ebx | .ebp | .esi | .edi => true
  | .eax | .ecx | .edx => false

/-- The general registers and a stack that ends below the address `base`. -/
@[ext] structure Cpu where
  reg : Reg → UInt32
  base : UInt32
  stack : List UInt32

namespace Cpu

/-- The stack pointer: the stack grows downwards by four bytes a word. -/
def esp (c : Cpu) : UInt32 := c.base - 4 * UInt32.ofNat c.stack.length

def set (c : Cpu) (r : Reg) (v : UInt32) : Cpu := { c with reg := Function.update c.reg r v }

def push (c : Cpu) (v : UInt32) : Cpu := { c with stack := v :: c.stack }

/-- `popl r`; `none` on an empty stack. -/
def pop (c : Cpu) (r : Reg) : Option Cpu :=
  match c.stack with
  | [] => none
  | v :: rest => some ({ c with stack := rest }.set r v)

/-- `pushal`: EAX, ECX, EDX, EBX, the stack pointer before the first push, EBP, ESI, EDI. -/
def pushal (c : Cpu) : Cpu :=
  { c with stack :=
      c.reg .edi :: c.reg .esi :: c.reg .ebp :: c.esp :: c.reg .ebx :: c.reg .edx :: c.reg .ecx ::
        c.reg .eax :: c.stack }

/-- `popal`: the reverse; the stored stack pointer is skipped. -/
def popal (c : Cpu) : Option Cpu :=
  match c.stack with
  | edi :: esi :: ebp :: _ :: ebx :: edx :: ecx :: eax :: rest =>
      some ((((((({ c with stack := rest }.set .edi edi).set .esi esi).set .ebp ebp).set .ebx ebx).set
        .edx edx).set .ecx ecx).set .eax eax)
  | _ => none

@[simp] theorem reg_push (c : Cpu) (v : UInt32) : (c.push v).reg = c.reg := rfl
@[simp] theorem base_push (c : Cpu) (v : UInt32) : (c.push v).base = c.base := rfl
@[simp] theorem stack_push (c : Cpu) (v : UInt32) : (c.push v).stack = v :: c.stack := rfl
@[simp] theorem base_set (c : Cpu) (r : Reg) (v : UInt32) : (c.set r v).base = c.base := rfl
@[simp] theorem stack_set (c : Cpu) (r : Reg) (v : UInt32) : (c.set r v).stack = c.stack := rfl

@[simp] theorem reg_set_self (c : Cpu) (r : Reg) (v : UInt32) : (c.set r v).reg r = v :=
  Function.update_self ..

theorem reg_set_of_ne (c : Cpu) {r r' : Reg} (v : UInt32) (h : r' ≠ r) : (c.set r v).reg r' = c.reg r' :=
  Function.update_of_ne h ..

/-- The stack pointer is a matter of the stack alone. -/
theorem esp_congr {c c' : Cpu} (hbase : c'.base = c.base) (hstack : c'.stack = c.stack) :
    c'.esp = c.esp := by
  rw [esp, esp, hbase, hstack]

end Cpu

/-! ## The C calling convention -/

/-- What a C function with `args` argument slots may do between its call in `c`, the return address
    already on the stack, and its return in `c'`. -/
structure CReturn (args : Nat) (c c' : Cpu) : Prop where
  saved : ∀ r, r.calleeSaved = true → c'.reg r = c.reg r
  base : c'.base = c.base
  stack : ∃ slots : List UInt32, slots.length = args ∧ c'.stack = slots ++ c.stack.drop (args + 1)

/-- A family of C functions: each returns, and as the convention says. -/
structure CFunctions (κ : Type) (args : κ → Nat) where
  ret : κ → Cpu → Cpu
  convention : ∀ k c, args k + 1 ≤ c.stack.length → CReturn (args k) c (ret k c)

/-- A function without arguments returns on the very stack of its caller. -/
theorem CReturn.stack_zero {c c' : Cpu} (h : CReturn 0 c c') : c'.stack = c.stack.tail := by
  obtain ⟨slots, hlen, hstack⟩ := h.stack
  rw [hstack, List.length_eq_zero_iff.1 hlen, List.nil_append, List.drop_one]

/-! ## Code -/

/-- An instruction that falls through to the next one; the functions are named by `κ`. -/
inductive Instr (κ : Type)
  | pushl (r : Reg)
  | popl (r : Reg)
  | pushal
  | popal
  | movl (v : UInt32) (r : Reg)
  | subl (v : UInt32) (r : Reg)
  | cmpl (v : UInt32) (r : Reg)
  | call (k : κ)
  /-- `call *table(, %r, 4)` -/
  | callTable (table : List κ) (r : Reg)

/-- Code whose jumps go forward: blocks of instructions, conditional jumps, and `iret`. -/
inductive Code (κ : Type)
  | block (is : List (Instr κ)) (next : Code κ)
  | jle (target next : Code κ)
  | jge (target next : Code κ)
  | iret

/-- The machine: the processor, the operands of the last comparison as the signed numbers they stand
    for, and the calls so far, each with the stack above its return address. -/
structure Machine (κ : Type) where
  cpu : Cpu
  compared : Int × Int
  calls : List (κ × List UInt32)

/-- A word as a signed number. -/
def signed (v : UInt32) : Int := v.toBitVec.toInt

variable {κ : Type}

/-- The word that a call leaves on the stack; nothing reads it but the return. -/
def returnAddress : UInt32 := 0

/-- Call function `k`, whose behaviour is `f`: `none` if it does not return here. -/
def Machine.call (f : κ → Cpu → Option Cpu) (k : κ) (s : Machine κ) : Option (Machine κ) :=
  (f k (s.cpu.push returnAddress)).map
    (fun c => { s with cpu := c, calls := s.calls ++ [(k, s.cpu.stack)] })

/-- One instruction. -/
def Instr.exec (f : κ → Cpu → Option Cpu) (s : Machine κ) : Instr κ → Option (Machine κ)
  | .pushl r => some { s with cpu := s.cpu.push (s.cpu.reg r) }
  | .popl r => (s.cpu.pop r).map (fun c => { s with cpu := c })
  | .pushal => some { s with cpu := s.cpu.pushal }
  | .popal => s.cpu.popal.map (fun c => { s with cpu := c })
  | .movl v r => some { s with cpu := s.cpu.set r v }
  | .subl v r => some { s with cpu := s.cpu.set r (s.cpu.reg r - v) }
  | .cmpl v r => some { s with compared := (signed (s.cpu.reg r), signed v) }
  | .call k => s.call f k
  | .callTable table r =>
      match table[(s.cpu.reg r).toNat]? with
      | none => none
      | some k => s.call f k

/-- Run code up to its `iret`. -/
def Code.exec (f : κ → Cpu → Option Cpu) (s : Machine κ) : Code κ → Option (Machine κ)
  | .block is next => (is.foldlM (Instr.exec f) s).bind (fun s => next.exec f s)
  | .jle target next => if s.compared.1 ≤ s.compared.2 then target.exec f s else next.exec f s
  | .jge target next => if s.compared.2 ≤ s.compared.1 then target.exec f s else next.exec f s
  | .iret => some s

/-! ## Saving and restoring -/

variable {f : κ → Cpu → Option Cpu}

/-- A run of pushes leaves the registers on the stack, the last one on top. -/
theorem exec_pushes (rs : List Reg) (s : Machine κ) :
    (rs.map Instr.pushl).foldlM (Instr.exec f) s =
      some { s with cpu :=
        { s.cpu with stack := (rs.map s.cpu.reg).reverse ++ s.cpu.stack } } := by
  induction rs generalizing s with
  | nil => rfl
  | cons r rs ih =>
      rw [List.map_cons, List.foldlM_cons]
      simp [Instr.exec, Cpu.push, ih]

/-- A run of pops loads the registers from the words on top of the stack. -/
theorem exec_pops (rs : List Reg) (v : Reg → UInt32) (rest : List UInt32) (s : Machine κ)
    (h : s.cpu.stack = rs.map v ++ rest) :
    (rs.map Instr.popl).foldlM (Instr.exec f) s =
      some { s with cpu :=
        { reg := fun r => if r ∈ rs then v r else s.cpu.reg r, base := s.cpu.base, stack := rest } } := by
  induction rs generalizing s with
  | nil =>
      have hs : s.cpu.stack = rest := h
      subst hs
      simp
  | cons r rs ih =>
      have hpop : s.cpu.pop r = some ({ s.cpu with stack := rs.map v ++ rest }.set r (v r)) := by
        rw [Cpu.pop, h]
        rfl
      rw [List.map_cons, List.foldlM_cons]
      simp only [Instr.exec, hpop, Option.map_some, Option.bind_eq_bind, Option.bind_some]
      rw [ih _ rfl]
      congr 3
      funext r'
      by_cases hr : r' = r
      · subst hr
        simp
      · simp [hr, Cpu.reg_set_of_ne]

/-- `popal` undoes `pushal`, whatever became of the registers. -/
theorem Cpu.popal_pushal (c c' : Cpu) (hbase : c'.base = c.base) (hstack : c'.stack = c.pushal.stack) :
    c'.popal = some c := by
  rw [Cpu.popal, hstack]
  simp only [Cpu.pushal, Option.some.injEq]
  ext r
  · cases r <;> simp [Cpu.set, Function.update]
  · simp [hbase]
  · simp

/-! ## Calls -/

variable {args : κ → Nat}

/-- The functions of a family as the machine calls them. -/
def CFunctions.run (h : CFunctions κ args) (k : κ) (c : Cpu) : Option Cpu := some (h.ret k c)

/-- A call of a C function that finds its return address and its arguments on the stack. -/
theorem Machine.call_run (h : CFunctions κ args) (k : κ) (s : Machine κ)
    (hlen : args k ≤ s.cpu.stack.length) :
    ∃ c, s.call h.run k = some { s with cpu := c, calls := s.calls ++ [(k, s.cpu.stack)] } ∧
      CReturn (args k) (s.cpu.push returnAddress) c :=
  ⟨_, rfl, h.convention k _ (by simpa using hlen)⟩

/-! ## Blocks -/

theorem Code.exec_block {is : List (Instr κ)} {next : Code κ} {s t : Machine κ}
    (h : is.foldlM (Instr.exec f) s = some t) : (Code.block is next).exec f s = next.exec f t := by
  rw [Code.exec, h, Option.bind_some]

theorem Code.exec_block_append (is js : List (Instr κ)) (next : Code κ) (s : Machine κ) :
    (Code.block (is ++ js) next).exec f s = (Code.block is (Code.block js next)).exec f s := by
  simp only [Code.exec, List.foldlM_append, Option.bind_eq_bind, Option.bind_assoc]

/-- **Interrupt stubs.** All registers saved around the call of a function without arguments. -/
theorem exec_pushal_call_popal (h : CFunctions κ args) (k : κ) (hk : args k = 0) (s : Machine κ) :
    ∃ t, (Code.block [.pushal, .call k, .popal] .iret).exec h.run s = some t ∧ t.cpu = s.cpu := by
  obtain ⟨c, hcall, hret⟩ := Machine.call_run h k { s with cpu := s.cpu.pushal } (by simp [hk])
  rw [hk] at hret
  have hpopal : c.popal = some s.cpu := Cpu.popal_pushal s.cpu c hret.base hret.stack_zero
  refine ⟨{ s with calls := s.calls ++ [(k, s.cpu.pushal.stack)] }, ?_, rfl⟩
  rw [Code.exec]
  simp only [List.foldlM_cons, List.foldlM_nil, Instr.exec, hcall, hpopal, Option.bind_eq_bind,
    Option.bind_some, Option.map_some, Option.pure_def, Code.exec]

end UnixTerminal
