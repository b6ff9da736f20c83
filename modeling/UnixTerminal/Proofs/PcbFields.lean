import UnixTerminal.Proofs.ProcessTable

set_option autoImplicit false

/-! # What an event leaves alone in a PCB

A reading of a PCB (`field`) that the process manager and the descriptor table do not touch
(`KeptField`) can change in two ways only: `execute` fills in the PCB of the program that it starts,
and `open` stores the name of the entry in the slot. `Kernel.field_step` says so for every event of the
system, so that a result about one reading has to look at these two places alone. -/

namespace UnixTerminal

/-- Neither the arguments of a command, nor the closing of a table, nor the frame of the scheduler, nor
    a descriptor shows in `field`. -/
structure KeptField {β : Type} (field : Pcb → β) : Prop where
  withArgs : ∀ command x, field (Core.withArgs command x) = field x
  closeAll : ∀ x, field (Core.closeAll x) = field x
  saveFrame : ∀ frame x, field (Core.saveFrame frame x) = field x
  setFds : ∀ (x : Pcb) i f, field (x.setFds i f) = field x

/-- What `execute` writes into the PCB of a new program does not show in `field`. -/
def FreshKept {β : Type} (field : Pcb → β) : Prop :=
  ∀ p parent frame x, field (Core.freshPcb p parent frame x) = field x

variable {β : Type} {field : Pcb → β} {lay : Layout} {fs : FileSys} {q : UInt32}

namespace KeptField

theorem launch (hf : KeptField field) (c : Core) {p : UInt32} (command : List UInt8) (frame : Frame)
    (hnew : FreshKept field ∨ getPcbPointer q ≠ getPcbPointer p) :
    field (((c.claim p command).start p frame).pcbOf q) = field (c.pcbOf q) := by
  have hclaim := c.field_claim field (hf.withArgs command) p q
  rcases hnew with hfresh | hne
  · exact ((c.claim p command).field_setPcb field (hfresh p _ frame) p q).trans hclaim
  · have hother : ((c.claim p command).start p frame).pcbOf q = (c.claim p command).pcbOf q :=
      Function.update_of_ne hne _ _
    rw [hother, hclaim]

theorem exec (hf : KeptField field) {c c' : Core} {command : List UInt8} {env : ExecEnv}
    {o : ExecOutcome} (h : c.Exec fs command env o c')
    (hnew : FreshKept field ∨
      (o.isStarted = true → getPcbPointer q ≠ getPcbPointer c'.currProcess)) :
    field (c'.pcbOf q) = field (c.pcbOf q) := by
  cases h with
  | full => rfl
  | notFound => exact c.field_claim field (hf.withArgs command) _ q
  | notExe => exact c.field_claim field (hf.withArgs command) _ q
  | started => exact hf.launch c command env.frame (hnew.imp_right (fun h => h rfl))

theorem halt (hf : KeptField field) {c c' : Core} {eax : UInt32} {env : ExecEnv} {o : HaltOutcome}
    (h : c.Halt fs eax env o c')
    (hnew : FreshKept field ∨
      (o.isRestarted = true → getPcbPointer q ≠ getPcbPointer c'.currProcess)) :
    field (c'.pcbOf q) = field (c.pcbOf q) := by
  cases h with
  | toParent => exact Core.field_resume _ field hf.closeAll _ q
  | restarted _ hexec =>
      have hshell : field (c'.pcbOf q) = field (c.endRoot.pcbOf q) :=
        hf.exec hexec (hnew.imp_right (fun h _ => h rfl))
      exact hshell
  | @stuck v c'' _ hexec =>
      have hshell : field (c''.pcbOf q) = field (c.endRoot.pcbOf q) :=
        hf.exec hexec (Or.inr (fun hs => Bool.noConfusion hs))
      rw [Core.field_resume _ field hf.closeAll]
      exact hshell

/-- `open` changes the reading only by what it makes of the slot, in the PCB of the caller. -/
theorem openFile (hf : KeptField field) {k : Kernel} {filename : List UInt8}
    (hopen : ∀ i d p, getPcbPointer q = getPcbPointer k.currProcess →
      fs.readDentryByName filename = some d → Kernel.freeSlot k.callerPcb = some i →
      Kernel.openSlot k.callerPcb i filename d = some p → (k.openFile fs filename).1 = i →
      field p = field k.callerPcb) :
    field ((k.openFile fs filename).2.core.pcbOf q) = field (k.core.pcbOf q) := by
  have h := k.openFile_cases fs filename
  generalize k.openFile fs filename = r at h hopen ⊢
  obtain ⟨v, k'⟩ := r
  dsimp only at h hopen ⊢
  cases h with
  | stdin => exact k.core.field_setPcb field (fun x => hf.setFds x 1 _) _ q
  | stdout => exact k.core.field_setPcb field (fun x => hf.setFds x 2 _) _ q
  | failed => rfl
  | otherType => rfl
  | @opened i d p hd hi hp =>
      rw [Kernel.core_setPcb, Core.pcbOf, Core.setPcb_pcb, Function.update_apply]
      split_ifs with hq
      · rw [hopen i d p hq hd hi hp rfl, Core.pcbOf, hq]
        rfl
      · rfl

theorem close (hf : KeptField field) (k : Kernel) (fd : Int) :
    field ((k.close fd).2.core.pcbOf q) = field (k.core.pcbOf q) := by
  have h := k.close_cases fd
  generalize k.close fd = r at h ⊢
  obtain ⟨v, k'⟩ := r
  dsimp only at h ⊢
  cases h with
  | failed => rfl
  | closed => exact k.core.field_setPcb field (fun x => hf.setFds x fd.toNat _) _ q

theorem read (hf : KeptField field) {k : Kernel} {fd : Int} {buf : UInt32} {nbytes : Int}
    {r : Transfer × Kernel} (h : k.read fs fd buf nbytes = some r) :
    field (r.2.core.pcbOf q) = field (k.core.pcbOf q) := by
  rcases k.read_cases fs h with hsame | ⟨-, -, -, rfl⟩
  · rw [hsame]
  · exact k.core.field_setPcb field (fun x => hf.setFds x fd.toNat _) _ q

/-- **Every event keeps the reading**, where `open` does and no program is started in the PCB (or its
    start does not show). -/
theorem step (hf : KeptField field) {k k' : Kernel} {e : Event} (hstep : k.step lay fs e = some k')
    (hopen : ∀ filename i d p, e = .openFile filename → getPcbPointer q = getPcbPointer k.currProcess →
      fs.readDentryByName filename = some d → Kernel.freeSlot k.callerPcb = some i →
      Kernel.openSlot k.callerPcb i filename d = some p → (k.openFile fs filename).1 = i →
      field p = field k.callerPcb)
    (hnew : FreshKept field ∨
      (k.launches fs e = true → getPcbPointer q ≠ getPcbPointer k'.currProcess)) :
    field (k'.core.pcbOf q) = field (k.core.pcbOf q) := by
  cases e with
  | execute command env =>
      cases hstep
      exact hf.exec (k.core_execute fs command env) hnew
  | halt status env =>
      cases hstep
      exact hf.halt (k.core_haltWith fs status.toUInt32 env) hnew
  | haltFromExc env =>
      cases hstep
      exact hf.halt (k.core_haltWith fs 256 env) hnew
  | openFile filename =>
      cases hstep
      exact hf.openFile (fun i d p => hopen filename i d p rfl)
  | close fd =>
      cases hstep
      exact hf.close k fd
  | read fd buf nbytes =>
      obtain ⟨r, hr, rfl⟩ := Option.map_eq_some_iff.1 hstep
      exact hf.read hr
  | write fd buf bytes nbytes =>
      obtain ⟨r, hr, rfl⟩ := Option.map_eq_some_iff.1 hstep
      rw [k.core_write hr]
  | vidmap screenStart =>
      cases hstep
      unfold Kernel.vidmap
      split_ifs <;> rfl
  | switchTask frame =>
      obtain ⟨r, hr, rfl⟩ := Option.map_eq_some_iff.1 hstep
      obtain ⟨t, -, rfl⟩ := Option.map_eq_some_iff.1 hr
      rw [(k.core_switchTo lay t frame).1]
      exact k.core.field_switchTo field (hf.saveFrame frame) t q
  | switchTerminal newt frame env =>
      cases hstep
      rcases k.switchTerminal_cases lay fs newt frame env with ⟨hopens, hk⟩ | ⟨-, hk⟩
      · have hstarted : FreshKept field ∨ ((k.openTerminal fs newt frame env).1.isStarted = true →
            getPcbPointer q ≠ getPcbPointer (k.openTerminal fs newt frame env).2.core.currProcess) := by
          refine hnew.imp_right (fun h hs => ?_)
          rw [← hk]
          exact h (by simp [Kernel.launches, hopens, hs])
        rw [hk, hf.exec (k.core_openTerminal fs newt frame env) hstarted]
        exact k.core.field_toTerminal field (hf.saveFrame frame) newt q
      · rcases hk with hk | ⟨-, -, hk⟩
        · rw [hk]
        · rw [hk]
          rfl
  | neighbours past =>
      cases hstep
      rfl

end KeptField

/-! ## A started program -/

/-- The current process has a slot, and the table that `execute` gives a new process. -/
structure Core.Fresh (c : Core) : Prop where
  slot : c.currProcess < 6
  initFds : ∀ i, i < 8 → (c.pcbOf c.currProcess).fdsArray i = Kernel.initFds i

theorem Core.Exec.fresh {c c' : Core} {command : List UInt8} {env : ExecEnv} {o : ExecOutcome}
    (h : c.Exec fs command env o c') (hs : o.isStarted = true) : c'.Fresh := by
  cases h with
  | @started p _ _ hp _ _ =>
      refine ⟨hp, fun i hi => ?_⟩
      rw [show ((c.claim p command).start p env.frame).currProcess = p from rfl,
        Core.pcbOf_start_self]
      exact if_pos hi
  | _ => cases hs

theorem Core.Halt.fresh {c c' : Core} {eax : UInt32} {env : ExecEnv} {o : HaltOutcome}
    (h : c.Halt fs eax env o c') (hs : o.isRestarted = true) : c'.Fresh := by
  cases h with
  | restarted _ hexec => exact hexec.fresh rfl
  | _ => cases hs

/-- A program starts with a slot of its own and the initial table. -/
theorem Kernel.fresh_of_launches {k k' : Kernel} {e : Event} (hstep : k.step lay fs e = some k')
    (hl : k.launches fs e = true) : k'.core.Fresh := by
  cases e with
  | execute command env =>
      cases hstep
      exact (k.core_execute fs command env).fresh hl
  | halt status env =>
      cases hstep
      exact (k.core_haltWith fs status.toUInt32 env).fresh hl
  | haltFromExc env =>
      cases hstep
      exact (k.core_haltWith fs 256 env).fresh hl
  | switchTerminal newt frame env =>
      cases hstep
      obtain ⟨hopens, hs⟩ := Bool.and_eq_true_iff.1 hl
      rcases k.switchTerminal_cases lay fs newt frame env with ⟨-, hk⟩ | ⟨hnot, -⟩
      · rw [hk]
        exact (k.core_openTerminal fs newt frame env).fresh hs
      · exact absurd (of_decide_eq_true hopens) hnot
  | _ => cases hl

end UnixTerminal
