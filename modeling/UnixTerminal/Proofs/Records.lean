import UnixTerminal.Proofs.Nesting
import UnixTerminal.Proofs.PcbFields

set_option autoImplicit false

/-! # What `execute` recorded

`execute` records in the PCB of a new process its parent and the frame of the parent's call
(`Pcb.callRecord`); `halt` uses both when the process ends. The history of a run keeps what was recorded
at the start of each process. The PCBs of the processes on the call stacks agree with it, as long as no
`open` stores a name of 32 characters in the last slot, whose NUL lands in `ESP0`. -/

namespace UnixTerminal

/-- The records of the starts, after one more event. -/
def recordAfter (fs : FileSys) (k : Kernel) (e : Event) (k' : Kernel)
    (record : UInt32 → UInt32 × Frame) : UInt32 → UInt32 × Frame :=
  if k.launches fs e then Function.update record k'.currProcess k'.callerPcb.callRecord else record

/-- The steps that keep the records: those that keep the call stacks, where a name with its NUL fits
    into the slots. -/
def RecordOk (fs : FileSys) (k : Kernel) (e : Event) : Prop :=
  NestOk fs k e ∧ ∀ filename, e = .openFile filename → strlen filename = 32 →
    Kernel.freeSlot k.callerPcb ≠ some 7

/-! ## Events -/

theorem callRecord_setName (p : Pcb) {i : Nat} {name : List UInt8} (hfit : 32 * i + strlen name < 256) :
    (p.setName i name).callRecord = p.callRecord := by
  refine strcpy_preserves (P := fun q : Pcb => q.callRecord = p.callRecord) name p _
    (fun d j b _ hj hd => ?_) rfl
  have hlt : j < 256 := by
    simp only [maxFileChar] at hj
    omega
  rw [Pcb.storeByte, if_pos hlt]
  exact hd

/-- `open` in a slot that the name fits into. -/
theorem callRecord_openSlot {p q : Pcb} {i : Nat} {filename : List UInt8} {d : Dentry}
    (h : Kernel.openSlot p i filename d = some q) (hfit : 32 * i + strlen filename < 256) :
    q.callRecord = p.callRecord := by
  unfold Kernel.openSlot at h
  split_ifs at h <;> cases h
  · rfl
  · exact callRecord_setName _ hfit
  · exact callRecord_setName _ hfit

variable {lay : Layout} {fs : FileSys}

/-- A call record is written at the start of a program only. -/
theorem keptField_callRecord : KeptField Pcb.callRecord :=
  ⟨fun _ _ => rfl, fun _ => rfl, fun _ _ => rfl, fun _ _ _ => rfl⟩

theorem Core.Exec.record {c c' : Core} {command : List UInt8} {env : ExecEnv} {o : ExecOutcome}
    (h : c.Exec fs command env o c') {q : UInt32} (hq : q < 6)
    (hne : o.isStarted = true → q ≠ c'.currProcess) :
    (c'.pcbOf q).callRecord = (c.pcbOf q).callRecord :=
  keptField_callRecord.exec h (Or.inr (fun hs => getPcbPointer_ne hq (h.fresh hs).slot (hne hs)))

theorem Core.Halt.record {c c' : Core} {eax : UInt32} {env : ExecEnv} {o : HaltOutcome}
    (h : c.Halt fs eax env o c') {q : UInt32} (hq : q < 6)
    (hne : o.isRestarted = true → q ≠ c'.currProcess) :
    (c'.pcbOf q).callRecord = (c.pcbOf q).callRecord :=
  keptField_callRecord.halt h (Or.inr (fun hs => getPcbPointer_ne hq (h.fresh hs).slot (hne hs)))

/-- **An event writes the record of the process it starts, and no other.** -/
theorem record_step {k k' : Kernel} {e : Event} (hok : RecordOk fs k e)
    (hstep : k.step lay fs e = some k') {q : UInt32} (hq : q < 6)
    (hne : k.launches fs e = true → q ≠ k'.currProcess) :
    (k'.core.pcbOf q).callRecord = (k.core.pcbOf q).callRecord := by
  refine keptField_callRecord.step hstep ?_
    (Or.inr (fun hl => getPcbPointer_ne hq (Kernel.fresh_of_launches hstep hl).slot (hne hl)))
  rintro filename i d p rfl - hd hi hp -
  have hlen := (fs.strlen_of_readDentryByName hd).2
  have hlt := (Kernel.freeSlot_mem hi).2.1
  refine callRecord_openSlot hp ?_
  by_cases h7 : i = 7
  · have hne : strlen filename ≠ 32 := fun h32 => hok.2 filename rfl h32 (h7 ▸ hi)
    omega
  · omega

/-! ## Runs -/

/-- The PCBs of the processes on the stacks have the records of the history. -/
def Recorded (c : Core) (stk : Nat → List UInt32) (record : UInt32 → UInt32 × Frame) : Prop :=
  ∀ t p, p ∈ stk t → (c.pcbOf p).callRecord = record p

theorem recorded_step {k k' : Kernel} {e : Event} {stk : Nat → List UInt32}
    {record : UInt32 → UInt32 × Frame} (h : Recorded k.core stk record) (hnest : Nest k.core stk)
    (hok : RecordOk fs k e) (hstep : k.step lay fs e = some k') :
    Recorded k'.core (stackAfter fs k e k' stk) (recordAfter fs k e k' record) := by
  intro t p hp
  by_cases hnew : k.launches fs e = true ∧ p = k'.currProcess
  · rw [recordAfter, if_pos hnew.1, hnew.2, Function.update_self]
    rfl
  · have hold : p ∈ stk t := ((mem_stackAfter hp).resolve_left hnew).1
    have hne : k.launches fs e = true → p ≠ k'.currProcess := fun hl he => hnew ⟨hl, he⟩
    have hrec : recordAfter fs k e k' record p = record p := by
      rw [recordAfter]
      split_ifs with hl
      · exact Function.update_of_ne (hne hl) _ _
      · rfl
    rw [hrec, record_step hok hstep (hnest.slot t p hold).1 hne]
    exact h t p hold

/-- The stacks and the records in every state of a run from boot. -/
theorem recorded_of_run {mem : BootMemory} {env : ExecEnv} {entry : UInt32}
    (hboot : ((Kernel.boot lay mem).execute fs shellName env).1 = .started entry)
    {s : Kernel × (UInt32 → UInt32 × Frame)}
    (hrun : Reaches (withGhost (Kernel.step lay fs) (recordAfter fs)) (fun s e => RecordOk fs s.1 e)
      (((Kernel.boot lay mem).execute fs shellName env).2,
        fun _ => ((Kernel.boot lay mem).execute fs shellName env).2.callerPcb.callRecord) s) :
    ∃ stk, Nest s.1.core stk ∧ Recorded s.1.core stk s.2 := by
  refine hrun.invariant (I := fun s => ∃ stk, Nest s.1.core stk ∧ Recorded s.1.core stk s.2) ?_ ?_
  · -- the first shell is the only process on the stacks
    obtain ⟨p, hp, hslot, hc⟩ := (Kernel.boot lay mem).core_started fs hboot
    refine ⟨_, hc ▸ (ready_boot lay mem).launch hp hslot shellName env.frame, fun t q hq => ?_⟩
    have hcur : ((Kernel.boot lay mem).execute fs shellName env).2.core.currProcess = p :=
      congrArg Core.currProcess hc
    have hqp : q = p := by
      rw [Function.update_apply] at hq
      split_ifs at hq
      · exact List.mem_singleton.1 hq
      · exact absurd hq List.not_mem_nil
    rw [hqp, ← hcur]
    rfl
  · rintro s e s' ⟨stk, hnest, hrec⟩ hok hstep
    obtain ⟨hk, hg⟩ := withGhost_eq_some hstep
    rw [hg]
    exact ⟨_, nest_step hnest hok.1 hk, recorded_step hrec hnest hok hk⟩

end UnixTerminal
