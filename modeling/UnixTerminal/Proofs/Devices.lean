import UnixTerminal.Proofs.Transitions

set_option autoImplicit false

/-! # The devices, without the process manager

`Devices` is the other half of the kernel state, beside `Core`: the screen and the saved screens, the
line buffer and the saved lines, and the variables of the directory and clock drivers. The process
manager leaves it alone, but for the message of a full process table and the attribute bytes that
`switch_task` sets. -/

namespace UnixTerminal

/-- The half of a terminal struct that belongs to its screen and its keyboard. -/
@[ext]
structure TerminalDevices where
  x : Int
  y : Int
  inputBuf : Nat → UInt8
  screen : Nat → UInt8
  keyboardLastIndex : UInt8
  keyboardIndex : UInt8
  termEnter : UInt32

def Terminal.devices (t : Terminal) : TerminalDevices where
  x := t.x
  y := t.y
  inputBuf := t.inputBuf
  screen := t.screen
  keyboardLastIndex := t.keyboardLastIndex
  keyboardIndex := t.keyboardIndex
  termEnter := t.termEnter

@[ext]
structure Devices where
  terminal : Nat → TerminalDevices
  videoMem : Nat → UInt8
  screenX : Int
  screenY : Int
  cursor : UInt16
  keyboardBuf : Int → UInt8
  keyboardIdx : UInt8
  lastIdx : UInt8
  dirReadIdxNew : Nat
  rtcInterrupt : Bool
  rtcRegisterA : UInt8

/-- The devices of a kernel state. -/
def Kernel.devices (k : Kernel) : Devices where
  terminal := fun t => (k.terminals t).devices
  videoMem := k.videoMem
  screenX := k.screenX
  screenY := k.screenY
  cursor := k.cursor
  keyboardBuf := k.keyboardBuf
  keyboardIdx := k.keyboardIdx
  lastIdx := k.lastIdx
  dirReadIdxNew := k.dirReadIdxNew
  rtcInterrupt := k.rtcInterrupt
  rtcRegisterA := k.rtcRegisterA

namespace Kernel

variable (lay : Layout) (fs : FileSys) (k : Kernel)

/-- A write to a terminal struct that keeps its screen and its line is invisible. -/
theorem devices_setTerminal (t : Nat) (f : Terminal → Terminal)
    (hf : ∀ x, (f x).devices = x.devices) : (k.setTerminal t f).devices = k.devices := by
  ext1 <;> try rfl
  funext i
  by_cases h : i = t
  · subst h
    simp [devices, setTerminal, hf]
  · simp [devices, setTerminal, Function.update_of_ne h]

/-! ## Processes -/

theorem devices_close (fd : Int) : (k.close fd).2.devices = k.devices := by
  unfold close
  dsimp only
  split_ifs <;> rfl

theorem devices_openFile (filename : List UInt8) :
    (k.openFile fs filename).2.devices = k.devices := by
  have h := k.openFile_cases fs filename
  generalize k.openFile fs filename = r at h ⊢
  obtain ⟨v, k'⟩ := r
  dsimp only at h ⊢
  cases h <;> rfl

theorem devices_startProcess (p : UInt32) (inode : Nat) (frame : Frame) :
    (k.startProcess fs p inode frame).devices = k.devices := by
  ext1 <;> try rfl
  funext t
  simp only [devices, startProcess, setPcb, setTerminal, map, loadProgram, setCurrProcess,
    Function.update_apply]
  -- three writes to terminal structs, none of them to a device
  split_ifs <;> grind [Terminal.devices]

/-- `execute` writes to the devices when the process table is full, and then a message. -/
theorem devices_execute (command : List UInt8) (env : ExecEnv) :
    (k.core.freeSlot ≠ none ∧ (k.execute fs command env).2.devices = k.devices)
      ∨ (k.core.freeSlot = none
        ∧ k.execute fs command env = (.returned 0, k.puts tooManyProcesses)) := by
  cases hslot : k.core.freeSlot with
  | none =>
      refine Or.inr ⟨rfl, ?_⟩
      simp [execute, k.core_getProcess_none hslot]
  | some i =>
      refine Or.inl ⟨Option.some_ne_none i, ?_⟩
      have hne : UInt32.ofNat i ≠ minusOne := ofNat_ne_minusOne (Core.freeSlot_lt hslot)
      cases hfile : checkFile fs command env.buffer with
      | notFound =>
          simp only [execute, k.core_getProcess_some hslot, hne, hfile, if_false]
          rfl
      | notExe =>
          simp only [execute, k.core_getProcess_some hslot, hne, hfile, if_false]
          rfl
      | exe inode entry =>
          simp only [execute, k.core_getProcess_some hslot, hne, hfile, if_false]
          rw [devices_startProcess]
          rfl

/-- A program that is started leaves the devices alone. -/
theorem devices_of_started {command : List UInt8} {env : ExecEnv} {entry : UInt32}
    (h : (k.execute fs command env).1 = .started entry) :
    (k.execute fs command env).2.devices = k.devices := by
  rcases k.devices_execute fs command env with ⟨-, hk⟩ | ⟨-, hfull⟩
  · exact hk
  · rw [hfull] at h
    cases h

theorem devices_resumeParent (eax childPcb : UInt32) :
    (k.resumeParent eax childPcb).2.devices = k.devices := by
  have hloop : ∀ (k : Kernel) (ptr : UInt32), (k.closeLoop ptr).devices = k.devices := by
    intro k ptr
    refine field_foldl devices (fun k i => ?_) _ k
    split_ifs
    · exact k.devices_close i
    · rfl
  have henter : ∀ p, (k.enterParent p).devices = k.devices := fun p =>
    devices_setTerminal { k with tssEsp0 := kernelStack p, currProcess := p } k.currTerm
      (fun t => { t with currentProcess := p }) (fun _ => rfl)
  unfold resumeParent
  dsimp only
  rw [hloop, henter]

/-- The two halts: the devices are left alone, or they show the message for a full table. -/
theorem devices_haltWith (eax : UInt32) (env : ExecEnv) :
    (k.haltWith fs eax env).2.devices = k.devices
      ∨ ∃ m : Kernel, m.devices = k.devices
        ∧ (k.haltWith fs eax env).2.devices = (m.puts tooManyProcesses).devices := by
  unfold haltWith
  dsimp only
  split_ifs with hroot
  · generalize hm : (k.endProcess k.currProcess).setTerminal
      (k.endProcess k.currProcess).currTerminalNumber (fun t => { t with active := 0 }) = m
    have hm' : m.devices = k.devices := by
      rw [← hm]
      exact devices_setTerminal (k.endProcess k.currProcess) _ _ (fun _ => rfl)
    have hexec := m.devices_execute fs shellName env
    rcases he : m.execute fs shellName env with ⟨v | entry, m'⟩
    · -- the shell did not start
      dsimp only
      rw [devices_resumeParent]
      rw [he] at hexec
      rcases hexec with ⟨-, hd⟩ | ⟨-, hfull⟩
      · exact Or.inl (hd.trans hm')
      · exact Or.inr ⟨m, hm', congrArg (fun r => r.2.devices) hfull⟩
    · rw [he] at hexec
      rcases hexec with ⟨-, hd⟩ | ⟨-, hfull⟩
      · exact Or.inl (hd.trans hm')
      · cases hfull
  · exact Or.inl (devices_resumeParent _ _ _)

/-! ## The scheduler -/

/-- `switch_task` sets the attribute bytes of the saved screen it selects. -/
theorem devices_switchTo (t : Nat) (frame : Frame) :
    (k.switchTo lay t frame).2.devices
      = (k.setTerminal t (fun x => { x with screen := attribScreen x.screen })).devices := by
  unfold switchTo backgroundVideo
  dsimp only
  split_ifs <;> rfl

end Kernel

end UnixTerminal
