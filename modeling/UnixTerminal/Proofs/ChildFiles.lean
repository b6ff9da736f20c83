import UnixTerminal.Library.Run
import UnixTerminal.Proofs.DescriptorTable

set_option autoImplicit false

/-! # The files of a child and of its parent

`halt` moves `curr_process` to the parent before its closing loop runs, and both the loop and `close`
work on the parent's table from then on. So the loop closes the files of the parent, and those of the
child stay open. -/

namespace UnixTerminal

/-- The calls of the child: `open`, `read` and `close`. -/
def ChildCall : Event → Prop
  | .openFile _ => True
  | .close _ => True
  | .read _ _ _ => True
  | _ => False

/-- The two ways a process ends. -/
def EndCall : Event → Prop
  | .halt _ _ => True
  | .haltFromExc _ => True
  | _ => False

/-- The slots 2 to 7 of a table are free. -/
def NoFiles (p : Pcb) : Prop := ∀ i, 2 ≤ i → i < 8 → (p.fdsArray i).flags = notSet

/-- The end of `child` left the files of `parent` as they were in `before` and closed its own. -/
structure FilesKept (before after : Kernel) (parent child : UInt32) : Prop where
  fdsArray : ∀ i, i < 8 → (after.pcbOf parent).fdsArray i = (before.pcbOf parent).fdsArray i
  fileName : ∀ j, j < 256 → (after.pcbOf parent).fileName j = (before.pcbOf parent).fileName j
  childClosed : NoFiles (after.pcbOf child)

/-! ## The child's run -/

/-- What a run of child `child` keeps: it stays the current process, with its parent, and other
    processes' PCBs are not touched. -/
structure ChildRun (k1 : Kernel) (child : UInt32) (k : Kernel) : Prop where
  currProcess : k.currProcess = child
  ppid : (k.pcbOf child).ppid = (k1.pcbOf child).ppid
  others : ∀ q : UInt32, q < 6 → q ≠ child → k.pcbOf q = k1.pcbOf q

/-- An edit of the current process's table is part of its run. -/
theorem ChildRun.edit {k1 k k' : Kernel} {child : UInt32} (h : ChildRun k1 child k) (hchild : child < 6)
    (hedit : ∃ q, FdEdit (k.core.pcbOf k.core.currProcess) q
      ∧ k'.core = k.core.setPcb k.core.currProcess (fun _ => q)) : ChildRun k1 child k' := by
  obtain ⟨q, hq, hcore⟩ := hedit
  have hcur : k.core.currProcess = child := h.currProcess
  rw [hcur] at hq hcore
  have hpcb : ∀ p : UInt32, p < 6 → k'.pcbOf p = if p = child then q else k.pcbOf p := fun p hp =>
    (congrArg (fun c : Core => c.pcbOf p) hcore).trans (k.core.pcbOf_setPcb _ hchild hp)
  refine ⟨(congrArg Core.currProcess hcore).trans hcur, ?_, fun p hp hne => ?_⟩
  · rw [hpcb child hchild, if_pos rfl, hq.ppid]
    exact h.ppid
  · rw [hpcb p hp, if_neg hne]
    exact h.others p hp hne

theorem childRun_of_reaches {lay : Layout} {fs : FileSys} {k1 k2 : Kernel} (hchild : k1.currProcess < 6)
    (hrun : Reaches (Kernel.step lay fs) (fun _ e => ChildCall e) k1 k2) :
    ChildRun k1 k1.currProcess k2 := by
  refine hrun.invariant (I := ChildRun k1 k1.currProcess) ⟨rfl, rfl, fun _ _ _ => rfl⟩ ?_
  intro k e k' hk hcall hstep
  cases e with
  | openFile filename =>
      cases hstep
      exact hk.edit hchild (k.core_openFile fs filename)
  | close fd =>
      cases hstep
      exact hk.edit hchild (k.core_close fd)
  | read fd buf nbytes =>
      obtain ⟨r, hr, rfl⟩ := Option.map_eq_some_iff.1 hstep
      exact hk.edit hchild (k.core_read fs hr)
  | _ => exact hcall.elim

/-! ## Start and end of the child -/

/-- The child gets a slot of its own, and the parent's PCB is not touched. -/
theorem pcbOf_parent_of_started {fs : FileSys} {k : Kernel} {command : List UInt8} {env : ExecEnv}
    {entry : UInt32} (hparent : k.currProcess < 6) (hlive : k.processArray k.currProcess.toNat ≠ 0)
    (hstart : (k.execute fs command env).1 = .started entry) :
    (k.execute fs command env).2.currProcess < 6
      ∧ k.currProcess ≠ (k.execute fs command env).2.currProcess
      ∧ (k.execute fs command env).2.pcbOf k.currProcess = k.pcbOf k.currProcess := by
  obtain ⟨p, hp, hslot, hc⟩ := k.core_started fs hstart
  have hcur : (k.execute fs command env).2.currProcess = p := congrArg Core.currProcess hc
  have hne : k.currProcess ≠ p := by
    rintro rfl
    exact hlive (Core.freeSlot_free hslot)
  rw [hcur]
  refine ⟨hp, hne, ?_⟩
  have hpcb : (k.execute fs command env).2.pcbOf k.currProcess = _ :=
    congrArg (fun c : Core => c.pcbOf k.currProcess) hc
  rw [hpcb, Core.pcbOf_start _ _ hp hparent, if_neg hne, Core.pcbOf_claim _ _ hp hparent, if_neg hne]
  rfl

/-- The end of a process with a parent: the closing loop runs over the parent's table. -/
theorem pcbOf_of_end {lay : Layout} {fs : FileSys} {k k' : Kernel} {e : Event} {parent : UInt32}
    (hparent : parent < 6) (hppid : k.callerPcb.ppid = parent) (hend : EndCall e)
    (hstep : k.step lay fs e = some k') :
    ∀ q : UInt32, q < 6 → k'.pcbOf q = if q = parent then Core.closeAll (k.pcbOf parent)
      else k.pcbOf q := by
  have hne : k.core.ppid ≠ minusOne := by
    intro h
    have hcontra : parent = minusOne := hppid.symm.trans h
    rw [hcontra] at hparent
    exact absurd hparent (by decide)
  have hcore : k'.core = (k.core.release k.core.currProcess).resume parent := by
    have hppid' : k.core.ppid = parent := hppid
    rw [← hppid']
    cases e with
    | halt status env =>
        cases hstep
        exact ((k.core_haltWith fs status.toUInt32 env).parent_spec hne).2
    | haltFromExc env =>
        cases hstep
        exact ((k.core_haltWith fs 256 env).parent_spec hne).2
    | _ => exact hend.elim
  intro q hq
  exact (congrArg (fun c : Core => c.pcbOf q) hcore).trans (Core.pcbOf_resume _ hparent hq)

/-- Closing all files leaves a table alone exactly when it had none. -/
theorem closeAll_eq_iff (p : Pcb) :
    (∀ i, i < 8 → (Core.closeAll p).fdsArray i = p.fdsArray i) ↔ NoFiles p := by
  have hmem : ∀ i, i ∈ [2, 3, 4, 5, 6, 7] ↔ 2 ≤ i ∧ i < 8 := by
    intro i
    simp only [List.mem_cons, List.not_mem_nil, or_false]
    omega
  constructor
  · intro h i h2 h8
    by_contra hset
    have hclosed := h i h8
    simp only [Core.closeAll, Core.closeSlots] at hclosed
    rw [if_pos ⟨(hmem i).2 ⟨h2, h8⟩, hset⟩] at hclosed
    exact hset (congrArg Fds.flags hclosed).symm
  · intro h i h8
    simp only [Core.closeAll, Core.closeSlots]
    rw [if_neg]
    rintro ⟨hi, hset⟩
    exact hset (h i ((hmem i).1 hi).1 h8)

/-- **When the end of a child leaves its parent's files alone and closes its own**: when neither has
    any open. -/
theorem files_kept_iff (lay : Layout) (fs : FileSys) (k : Kernel) (command : List UInt8)
    (env : ExecEnv) (entry : UInt32) (hparent : k.currProcess < 6)
    (hlive : k.processArray k.currProcess.toNat ≠ 0)
    (hstart : (k.execute fs command env).1 = .started entry)
    (hchild : (k.execute fs command env).2.callerPcb.ppid = k.currProcess)
    (k2 : Kernel)
    (hrun : Reaches (Kernel.step lay fs) (fun _ e => ChildCall e) (k.execute fs command env).2 k2)
    (e : Event) (hend : EndCall e) (k3 : Kernel) (hstep : k2.step lay fs e = some k3) :
    FilesKept k k3 k.currProcess (k.execute fs command env).2.currProcess
      ↔ NoFiles k.callerPcb ∧ NoFiles k2.callerPcb := by
  obtain ⟨hlt, hne, hpcb⟩ := pcbOf_parent_of_started hparent hlive hstart
  generalize (k.execute fs command env).2 = k1 at hlt hne hpcb hchild hrun ⊢
  have hkept := childRun_of_reaches hlt hrun
  have hpar2 : k2.pcbOf k.currProcess = k.pcbOf k.currProcess :=
    (hkept.others _ hparent hne).trans hpcb
  have hcaller : k2.callerPcb = k2.pcbOf k1.currProcess := by
    rw [Kernel.callerPcb, hkept.currProcess]
  have hppid : k2.callerPcb.ppid = k.currProcess := by
    rw [hcaller, hkept.ppid]
    exact hchild
  have hafter := pcbOf_of_end hparent hppid hend hstep
  have hpar3 : k3.pcbOf k.currProcess = Core.closeAll (k.pcbOf k.currProcess) := by
    rw [hafter _ hparent, if_pos rfl, hpar2]
  have hchild3 : k3.pcbOf k1.currProcess = k2.callerPcb := by
    rw [hafter _ hlt, if_neg hne.symm, hcaller]
  constructor
  · rintro ⟨hfds, -, hclosed⟩
    rw [hpar3] at hfds
    rw [hchild3] at hclosed
    exact ⟨(closeAll_eq_iff _).1 hfds, hclosed⟩
  · rintro ⟨hfds, hclosed⟩
    refine ⟨?_, fun j _ => ?_, ?_⟩
    · rw [hpar3]
      exact (closeAll_eq_iff _).2 hfds
    · rw [hpar3]
      rfl
    · rw [hchild3]
      exact hclosed

/-- The first shell runs a second one that opens nothing and halts. -/
theorem files_kept_shell :
    FilesKept sampleShell
      ((sampleShell.execute sampleFs shellName (sampleEnv 102 103)).2.halt sampleFs 0 (sampleEnv 0 0)).2
      sampleShell.currProcess (sampleShell.execute sampleFs shellName (sampleEnv 102 103)).2.currProcess := by
  have hparent : ∀ i < 8, 2 ≤ i → (sampleShell.callerPcb.fdsArray i).flags = notSet := by
    decide +kernel
  have hchild : ∀ i < 8, 2 ≤ i →
      ((sampleShell.execute sampleFs shellName (sampleEnv 102 103)).2.callerPcb.fdsArray i).flags
        = notSet := by decide +kernel
  exact (files_kept_iff sampleLayout sampleFs sampleShell shellName (sampleEnv 102 103) 0x8048000
    (by decide +kernel) (by decide +kernel) (by decide +kernel) (by decide +kernel) _ Reaches.refl
    (.halt 0 (sampleEnv 0 0)) trivial _ rfl).2
    ⟨fun i h2 h8 => hparent i h8 h2, fun i h2 h8 => hchild i h8 h2⟩

/-- It runs a second shell, which halts at once: `note` is closed. -/
theorem child_closes_parent_file :
    ¬ ∀ (lay : Layout) (fs : FileSys) (k : Kernel) (command : List UInt8) (env : ExecEnv)
      (entry : UInt32), k.currProcess < 6 → k.processArray k.currProcess.toNat ≠ 0 →
      (k.execute fs command env).1 = .started entry →
      (k.execute fs command env).2.callerPcb.ppid = k.currProcess →
      ∀ k2, Reaches (Kernel.step lay fs) (fun _ e => ChildCall e) (k.execute fs command env).2 k2 →
      ∀ e, EndCall e → ∀ k3, k2.step lay fs e = some k3 →
      FilesKept k k3 k.currProcess (k.execute fs command env).2.currProcess := by
  intro h
  have hbefore : ((shellWithNote.pcbOf shellWithNote.currProcess).fdsArray 2).flags = fileFlag := by
    decide +kernel
  have hafter : ((((shellWithNote.execute sampleFs shellName (sampleEnv 102 103)).2.halt sampleFs 0
      (sampleEnv 0 0)).2.pcbOf shellWithNote.currProcess).fdsArray 2).flags = notSet := by
    decide +kernel
  have hkept := h sampleLayout sampleFs shellWithNote shellName (sampleEnv 102 103) 0x8048000
    (by decide +kernel) (by decide +kernel) (by decide +kernel) (by decide +kernel) _ Reaches.refl
    (.halt 0 (sampleEnv 0 0)) trivial _ rfl
  have hsame := congrArg Fds.flags (hkept.fdsArray 2 (by decide))
  exact absurd ((hafter.symm.trans hsame).trans hbefore) (by decide)

end UnixTerminal
