import UnixTerminal.Kernel.Process
import UnixTerminal.Library.Fuel
import UnixTerminal.Programs.Grep

set_option autoImplicit false

/-! # The system calls of a user program

The wrappers of `ece391syscall.S` as a user program sees them: functions over the state `σ` of the system.
A pointer argument is the memory from the pointer on, and what a call stores comes back as a `Transfer`.

`kernelCalls` are the calls of the kernel, for programs that start no others. -/

namespace UnixTerminal

/-- The calls of the user programs. `none`: the call does not return. -/
structure UserCalls (σ : Type) where
  ece391Getargs : Int → σ → Option (Transfer × σ)
  ece391Open : (Nat → UInt8) → σ → Option (Int × σ)
  ece391Close : Int → σ → Option (Int × σ)
  ece391Read : Int → Int → σ → Option (Transfer × σ)
  ece391Write : Int → (Nat → UInt8) → Int → σ → Option (Int × σ)
  ece391Execute : (Nat → UInt8) → σ → Option (Int × σ)

/-! ## Memory -/

/-- The first `n` bytes of a memory. -/
def memBytes (n : Nat) (mem : Nat → UInt8) : List UInt8 := (List.range n).map mem

/-- A string literal, with its NUL. -/
def literal (text : List UInt8) : Nat → UInt8 := fun i => text.getD i 0

/-- The buffer behind a call that stores into it. -/
def Transfer.store (t : Transfer) (buf : Nat → UInt8) : Nat → UInt8 :=
  fun i => if t.start ≤ i then t.bytes.getD (i - t.start) (buf i) else buf i

/-- `ece391_fdputs (1, s)` for a string literal. The value of `ece391_write` is not looked at. -/
def UserCalls.putLiteral {σ : Type} (calls : UserCalls σ) (text : List UInt8) (sys : σ) : Option σ :=
  (calls.ece391Write 1 (literal text) text.length sys).map (·.2)

/-! ## The kernel -/

/-- Where a program has its buffers: their address, how many bytes are mapped from there on, and what
    lies in kernel memory behind its PCB. -/
structure UserSpace where
  ptr : UInt32
  span : Nat
  behind : List UInt8
  ptr_ne : ptr ≠ 0
  le_span : 1024 ≤ span

/-- The system calls of the kernel. `execute` is left to what runs the program that it starts. -/
def kernelCalls (fs : FileSys) (us : UserSpace) : UserCalls Kernel where
  ece391Getargs nbytes k := some (k.getargs us.behind us.ptr nbytes, k)
  ece391Open name k := some (k.openFile fs (memBytes us.span name))
  ece391Close fd k := some (k.close fd)
  ece391Read fd nbytes k := k.read fs fd us.ptr nbytes
  ece391Write fd buf nbytes k := k.write fd us.ptr (memBytes us.span buf) nbytes
  ece391Execute _ _ := none

end UnixTerminal
