import UnixTerminal.Proofs.Boot

set_option autoImplicit false

/-! # A call of `execute` that starts nothing

`execute` claims a slot and redirects `current_pcb` before it looks at the file, and its three early
exits undo different amounts of that: a full table is reported as 0, an unknown name frees every slot
of the table, and a file that is no executable keeps the slot. -/

namespace UnixTerminal

/-- What a failed call must leave as it was. A process is live when its slot is taken. -/
structure SameProcesses (k k' : Kernel) : Prop where
  processArray : ∀ i, i < 6 → k'.processArray i = k.processArray i
  currProcess : k'.currProcess = k.currProcess
  currentPcb : k'.currentPcb = k.currentPcb
  livePcb : ∀ p : UInt32, p < 6 → k.processArray p.toNat ≠ 0 → k'.pcbOf p = k.pcbOf p
  active : ∀ t, (k'.terminals t).active = (k.terminals t).active
  currentProcess : ∀ t, (k'.terminals t).currentProcess = (k.terminals t).currentProcess
  pageDirectory : k'.pageDirectory = k.pageDirectory
  tssEsp0 : k'.tssEsp0 = k.tssEsp0

/-- The states and commands for which a failed call is clean: no process holds a slot, the name is
    unknown, and `current_pcb` already points at the PCB the call will claim. -/
def CleanFailure (fs : FileSys) (k : Kernel) (command : List UInt8) : Prop :=
  (∀ i, i < 6 → k.processArray i = 0) ∧ fs.readDentryByName (commandName command) = none
    ∧ k.currentPcb = getPcbPointer 0

theorem checkFile_eq_notFound {fs : FileSys} {command : List UInt8} {buffer : Nat → UInt8} :
    checkFile fs command buffer = .notFound ↔ fs.readDentryByName (commandName command) = none := by
  unfold checkFile checkNamed
  split
  · next h => simp [h]
  · next d h =>
      dsimp only
      split_ifs <;> simp [h]

/-- With every slot free, slot 0 is the one handed out. -/
theorem freeSlot_eq_zero {c : Core} (h : ∀ i, i < 6 → c.processArray i = 0) :
    c.freeSlot = some 0 := by
  have h0 : c.processArray 0 = 0 := h 0 (by decide)
  simp [Core.freeSlot, numProcesses, List.range, List.range.loop, h0]

/-- The slot handed out from an empty table. -/
theorem eq_zero_of_freeSlot {c : Core} {p : UInt32} (h : ∀ i, i < 6 → c.processArray i = 0)
    (hslot : c.freeSlot = some p.toNat) : p = 0 := by
  rw [freeSlot_eq_zero h, Option.some.injEq] at hslot
  exact UInt32.toNat_inj.1 hslot.symm

end UnixTerminal
