import UnixTerminal.Proofs.Transitions
import UnixTerminal.Proofs.Image

set_option autoImplicit false

/-! # The state after boot

`entry` clears the process table and the terminals and then executes the first shell. -/

namespace UnixTerminal

/-- The page directory that `paging_init` leaves. -/
def initialDirectory (lay : Layout) (i : Nat) : UInt32 :=
  if i = 0 then 0x03 ||| lay.pageTable
  else if i = 1 then 0x87 ||| 0x400000
  else if i < 1024 then 0x02
  else 0

/-- The core of the state in which the first shell is executed. -/
theorem core_boot (lay : Layout) (mem : BootMemory) :
    (Kernel.boot lay mem).core =
      { processArray := fun _ => 0
        currTerm := 0
        currTerminalNumber := 0
        active := fun t => if t < 3 then 0 else (mem.past t).active
        currentProcess := fun t => if t < 3 then minusOne else (mem.past t).currentProcess
        pcb := mem.pcb
        currProcess := 0
        currentPcb := 0
        tssEsp0 := 0x800000
        pageDirectory := initialDirectory lay
        pageTable := fun i =>
          if i < 1024 then
            UInt32.ofNat (i * 4096) ||| 2 ||| (if i = 0xB8000 / 4096 then 1 else 0)
          else 0
        userVideoPageTable := fun _ => 0 } := by
  ext1
  case processArray =>
    funext i
    simp [Kernel.core, Kernel.boot, Kernel.entry, Kernel.clearProcess, Kernel.terminalInit,
      Kernel.pagingInit, Kernel.keyboardInit, Kernel.clear, Kernel.loaded]
  case active =>
    funext t
    by_cases h : t < 3 <;>
      simp [Kernel.core, Kernel.boot, Kernel.entry, Kernel.clearProcess, Kernel.terminalInit,
        Kernel.pagingInit, Kernel.keyboardInit, Kernel.clear, Kernel.loaded, h]
  case currentProcess =>
    funext t
    by_cases h : t < 3 <;>
      simp [Kernel.core, Kernel.boot, Kernel.entry, Kernel.clearProcess, Kernel.terminalInit,
        Kernel.pagingInit, Kernel.keyboardInit, Kernel.clear, Kernel.loaded, h]
  all_goals rfl

/-! ## A machine -/

/-- The arrays somewhere in the kernel's page. -/
def sampleLayout : Layout := ⟨0x420000, 0x421000, 0x430000, by decide, by decide⟩

/-- Memory that is zero. -/
def sampleMemory : BootMemory where
  pcb _ := ⟨0, fun _ => ⟨0, 0, 0⟩, fun _ => 0, fun _ => 0, 0, 0, 0, 0, 0, 0⟩
  userPage _ _ := 0
  videoMem _ := 0
  cursor := 0
  past _ := ⟨0, 0, 0, 0, 0, 0, fun _ => 0, fun _ => 0, 0, 0, 0⟩
  beforeKeyboardBuf := 0
  rtcRegisterA := 0

/-- A call of `execute` with a zero buffer and the given frame. -/
def sampleEnv (esp ebp : UInt32) : ExecEnv := ⟨fun _ => 0, ⟨esp, ebp⟩⟩

/-- The machine with the first shell running. -/
def sampleShell : Kernel :=
  ((Kernel.boot sampleLayout sampleMemory).execute sampleFs shellName (sampleEnv 100 101)).2

theorem sampleShell_started : ((Kernel.boot sampleLayout sampleMemory).execute sampleFs shellName
    (sampleEnv 100 101)).1 = .started 0x8048000 := by
  decide +kernel

/-- The first shell with `note` open in slot 2. -/
def shellWithNote : Kernel := (sampleShell.openFile sampleFs noteName).2

/-- Terminal 1 is opened beside the first shell, and a tick comes back to terminal 0. -/
def sampleTwo : Kernel :=
  ((sampleShell.switchTerminal sampleLayout sampleFs 1 ⟨200, 201⟩ (sampleEnv 102 103)).switchTo
    sampleLayout 0 ⟨300, 301⟩).2

end UnixTerminal
