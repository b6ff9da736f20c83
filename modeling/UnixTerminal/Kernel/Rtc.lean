import UnixTerminal.Kernel.Console
import UnixTerminal.Library.Run

set_option autoImplicit false

/-! # Waiting for the clock (`rtc_handler` and `rtc_read` of `rtc.c`)

`rtc_read` spins until the flag `rtc_interrupt` is set and clears it. System calls run with interrupts
on, so the handler of the clock and the switch of processes come in between any two statements. The
handler comes through an interrupt gate: up to its `sti` nothing comes in between, but the store
`rtc_lock = 0` is behind it. -/

namespace UnixTerminal

/-- Where a process is in `rtc_read`: at the test of the loop, or behind the loop. -/
inductive RtcPoint
  | outside
  | waiting
  | leaving
deriving DecidableEq

/-- The variables of `rtc.c`, the executing process, and for each process where it is in `rtc_read` and
    whether `rtc_handler` interrupted it and has not released its lock yet. -/
structure RtcSystem where
  rtcInterrupt : Bool
  rtcLock : Bool
  running : Nat
  reader : Nat → RtcPoint
  inHandler : Nat → Bool

/-- What happens: the clock interrupts, with the lock free or taken; the handler ends; another process is
    switched to; and the statements of `rtc_read`, by the process that executes them. -/
inductive RtcEvent
  | interrupt
  | ignored
  | unlock
  | switchTask (p : Nat)
  | call (p : Nat)
  | test (p : Nat)
  | ret (p : Nat)
deriving DecidableEq

namespace RtcSystem

/-- A booted machine in which process `p` executes. -/
def boot (p : Nat) : RtcSystem := ⟨false, false, p, fun _ => .outside, fun _ => false⟩

/-- Process `p` executes, and no handler has interrupted it. -/
def Executes (s : RtcSystem) (p : Nat) : Prop := s.running = p ∧ s.inHandler p = false

instance (s : RtcSystem) (p : Nat) : Decidable (s.Executes p) := inferInstanceAs (Decidable (_ ∧ _))

/-- Process `p` is at point `r` of `rtc_read`. -/
def setReader (s : RtcSystem) (p : Nat) (r : RtcPoint) : RtcSystem :=
  { s with reader := Function.update s.reader p r }

/-- One event; `none`: it cannot happen in this state. -/
def step (s : RtcSystem) : RtcEvent → Option RtcSystem
  -- `rtc_handler` up to its `sti`
  | .interrupt =>
      if s.rtcLock then none
      else some { s with
        rtcLock := true
        rtcInterrupt := true
        inHandler := Function.update s.inHandler s.running true }
  | .ignored => if s.rtcLock then some s else none
  | .unlock =>
      if s.inHandler s.running then
        some { s with rtcLock := false, inHandler := Function.update s.inHandler s.running false }
      else none
  | .switchTask p => some { s with running := p }
  | .call p => if s.Executes p ∧ s.reader p = .outside then some (s.setReader p .waiting) else none
  -- `while (!rtc_interrupt)`
  | .test p =>
      if s.Executes p ∧ s.reader p = .waiting then
        some (if s.rtcInterrupt then s.setReader p .leaving else s)
      else none
  -- `rtc_interrupt = 0; return 0`
  | .ret p =>
      if s.Executes p ∧ s.reader p = .leaving then
        some { s.setReader p .outside with rtcInterrupt := false }
      else none

/-- The state behind a sequence of events. -/
def run (s : RtcSystem) (es : List RtcEvent) : Option RtcSystem := runEvents step s es

end RtcSystem

end UnixTerminal
