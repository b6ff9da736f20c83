import UnixTerminal.Library.Run
import UnixTerminal.Proofs.Boot

set_option autoImplicit false

/-! # Who owns the process slots

A process is live from the call of `execute` that starts it to its own `halt` or `halt_from_exc`. The
history of a run keeps the set of the live process numbers; the process table should be that set. It
is, as long as no call of `execute` gets past its slot and then gives up on the file: that exit frees
every slot for an unknown name, and none for a file that is no executable. -/

namespace UnixTerminal

/-- The file a command names is found and is an executable. -/
def IsExe (fs : FileSys) (command : List UInt8) (env : ExecEnv) : Prop :=
  ∃ inode entry, checkFile fs command env.buffer = .exe inode entry

/-- `execute` started a program. -/
def ExecOutcome.isStarted : ExecOutcome → Bool
  | .started _ => true
  | .returned _ => false

/-- `halt` started a new shell. -/
def HaltOutcome.isRestarted : HaltOutcome → Bool
  | .restarted _ => true
  | .resumed _ _ => false

/-- The event starts a program. -/
def Kernel.launches (fs : FileSys) (k : Kernel) : Event → Bool
  | .execute command env => (k.execute fs command env).1.isStarted
  | .halt status env => (k.halt fs status env).1.isRestarted
  | .haltFromExc env => (k.haltFromExc fs env).1.isRestarted
  | .switchTerminal newt frame env =>
      decide (k.Opens newt) && (k.openTerminal fs newt frame env).1.isStarted
  | _ => false

/-- The event ends the current process. -/
def Event.ends : Event → Bool
  | .halt _ _ => true
  | .haltFromExc _ => true
  | _ => false

/-- The live processes after one more event: the process that ended is gone, and the one that was
    started (it is the current process then) is new. -/
def liveAfter (fs : FileSys) (k : Kernel) (e : Event) (k' : Kernel) (live : UInt32 → Bool) :
    UInt32 → Bool :=
  let live := if e.ends then Function.update live k.currProcess false else live
  if k.launches fs e then Function.update live k'.currProcess true else live

/-- No call of `execute` gives up on its file: not the event's own, and not the one for a new shell
    made by the end of a root process or by the opening of a terminal. A full table is no obstacle. -/
def LaunchesOk (fs : FileSys) (k : Kernel) : Event → Prop
  | .execute command env => k.core.freeSlot = none ∨ IsExe fs command env
  | .halt _ env => k.callerPcb.ppid = minusOne → IsExe fs shellName env
  | .haltFromExc env => k.callerPcb.ppid = minusOne → IsExe fs shellName env
  | .switchTerminal newt _ env =>
      k.Opens newt → k.core.freeSlot = none ∨ IsExe fs shellName env
  | _ => True

/-- The process table is the set of live processes. -/
def TableIs (processArray : Nat → UInt32) (live : UInt32 → Bool) : Prop :=
  ∀ p : UInt32, p < 6 → processArray p.toNat = if live p then 1 else 0

namespace TableIs

variable {processArray : Nat → UInt32} {live : UInt32 → Bool}

theorem set (h : TableIs processArray live) (p : UInt32) (b : Bool) :
    TableIs (Function.update processArray p.toNat (if b then 1 else 0)) (Function.update live p b) := by
  intro q hq
  by_cases hqp : q = p
  · subst hqp
    simp
  · have hne : q.toNat ≠ p.toNat := fun h => hqp (UInt32.toNat_inj.1 h)
    rw [Function.update_of_ne hne, Function.update_of_ne hqp]
    exact h q hq

end TableIs

/-! ## Transitions -/

/-- With an executable, `execute` either finds the table full or starts the program. -/
theorem Core.Exec.full_or_started {fs : FileSys} {c c' : Core} {command : List UInt8} {env : ExecEnv}
    {o : ExecOutcome} (h : c.Exec fs command env o c')
    (hexe : c.freeSlot = none ∨ IsExe fs command env) :
    (o = .returned 0 ∧ c.freeSlot = none ∧ c' = c)
    ∨ ∃ entry p, o = .started entry ∧ p < 6 ∧ c.freeSlot = some p.toNat
      ∧ c' = (c.claim p command).start p env.frame := by
  cases h with
  | full hslot => exact Or.inl ⟨rfl, hslot, rfl⟩
  | notFound hp hslot hfile =>
      rcases hexe with hfull | ⟨_, _, hexe⟩
      · rw [hslot] at hfull; cases hfull
      · rw [hfile] at hexe; cases hexe
  | notExe hp hslot hfile =>
      rcases hexe with hfull | ⟨_, _, hexe⟩
      · rw [hslot] at hfull; cases hfull
      · rw [hfile] at hexe; cases hexe
  | started hp hslot _ => exact Or.inr ⟨_, _, rfl, hp, hslot, rfl⟩

/-- A root process that ends, with a shell in the image, is replaced by a new shell. -/
theorem Core.Halt.root_spec {fs : FileSys} {c c' : Core} {eax : UInt32} {env : ExecEnv}
    {o : HaltOutcome} (h : c.Halt fs eax env o c') (hlt : c.currProcess < 6)
    (hroot : c.ppid = minusOne) (hexe : IsExe fs shellName env) :
    ∃ entry p, o = .restarted entry ∧ p < 6 ∧ c.endRoot.freeSlot = some p.toNat
      ∧ c' = (c.endRoot.claim p shellName).start p env.frame := by
  cases h with
  | toParent hpar => exact absurd hroot hpar
  | restarted _ hexec =>
      obtain ⟨p, hp, hslot, hc⟩ := hexec.started_spec
      exact ⟨_, p, rfl, hp, hslot, hc⟩
  | stuck _ hexec =>
      rcases hexec.full_or_started (Or.inr hexe) with ⟨-, hfull, -⟩ | ⟨_, _, hstarted, -⟩
      · exact absurd hfull (Core.freeSlot_endRoot hlt)
      · cases hstarted

/-- `execute` and the table. -/
theorem Core.Exec.tableIs {fs : FileSys} {c c' : Core} {command : List UInt8} {env : ExecEnv}
    {o : ExecOutcome} (h : c.Exec fs command env o c')
    (hexe : c.freeSlot = none ∨ IsExe fs command env) {live : UInt32 → Bool}
    (hlive : TableIs c.processArray live) :
    TableIs c'.processArray
      (if o.isStarted then Function.update live c'.currProcess true else live) := by
  rcases h.full_or_started hexe with ⟨rfl, -, rfl⟩ | ⟨entry, p, rfl, -, -, rfl⟩
  · exact hlive
  · exact hlive.set p true

/-- The halts and the table. -/
theorem Core.Halt.tableIs {fs : FileSys} {c c' : Core} {eax : UInt32} {env : ExecEnv}
    {o : HaltOutcome} (h : c.Halt fs eax env o c') (hexe : c.ppid = minusOne → IsExe fs shellName env)
    {live : UInt32 → Bool} (hlive : TableIs c.processArray live) :
    TableIs c'.processArray
      (if o.isRestarted then
        Function.update (Function.update live c.currProcess false) c'.currProcess true
      else Function.update live c.currProcess false) := by
  have hend : TableIs c.endRoot.processArray (Function.update live c.currProcess false) :=
    hlive.set c.currProcess false
  cases h with
  | toParent => exact hend
  | restarted hroot hexec => exact hexec.tableIs (Or.inr (hexe hroot)) hend
  | stuck hroot hexec => exact hexec.tableIs (Or.inr (hexe hroot)) hend

/-- The events that neither start nor end a process. -/
def Event.Quiet : Event → Prop
  | .execute _ _ => False
  | .halt _ _ => False
  | .haltFromExc _ => False
  | .switchTerminal _ _ _ => False
  | _ => True

theorem Core.Step.processArray_eq {lay : Layout} {fs : FileSys} {c c' : Core} {e : Event}
    (h : c.Step lay fs e c') (hquiet : e.Quiet) : c'.processArray = c.processArray := by
  cases h with
  | execute => exact hquiet.elim
  | halt => exact hquiet.elim
  | haltFromExc => exact hquiet.elim
  | openTerminal => exact hquiet.elim
  | _ => rfl

/-- One event keeps the table and the history together. -/
theorem tableIs_step {lay : Layout} {fs : FileSys} {k k' : Kernel} {e : Event} {live : UInt32 → Bool}
    (h : TableIs k.processArray live) (hok : LaunchesOk fs k e) (hstep : k.step lay fs e = some k') :
    TableIs k'.processArray (liveAfter fs k e k' live) := by
  have hsame : k'.core.processArray = k.core.processArray → TableIs k'.processArray live :=
    fun hs => show TableIs k'.core.processArray live by rw [hs]; exact h
  cases e with
  | execute command env =>
      cases hstep
      exact (k.core_execute fs command env).tableIs hok h
  | halt status env =>
      cases hstep
      exact (k.core_haltWith fs status.toUInt32 env).tableIs hok h
  | haltFromExc env =>
      cases hstep
      exact (k.core_haltWith fs 256 env).tableIs hok h
  | switchTerminal newt frame env =>
      cases hstep
      rcases k.switchTerminal_cases lay fs newt frame env with ⟨hopen, hk⟩ | ⟨hnot, hk⟩
      · have hexec := (k.core_openTerminal fs newt frame env).tableIs (hok hopen) h
        simp only [liveAfter, Event.ends, Kernel.launches, hopen, decide_true, Bool.true_and, hk]
        exact hexec
      · simp only [liveAfter, Event.ends, Kernel.launches, hnot, decide_false, Bool.false_and]
        refine hsame ?_
        rcases hk with hk | ⟨-, -, hk⟩
        · rw [hk]
        · rw [hk]
          rfl
  | _ => exact hsame ((k.core_step lay fs hstep).processArray_eq trivial)

/-! ## Runs -/

/-- What a table that is the set of live processes means for `get_process`: it hands out no slot of a
    live process, and it hands out a slot whenever one is not live. -/
theorem TableIs.getProcess {k : Kernel} {live : UInt32 → Bool} (h : TableIs k.processArray live) :
    (∀ p : UInt32, p < 6 → k.getProcess.1 = p → live p = false)
      ∧ ((∃ p : UInt32, p < 6 ∧ live p = false) → k.getProcess.1 < 6) := by
  cases hslot : k.core.freeSlot with
  | none =>
      rw [k.core_getProcess_none hslot]
      constructor
      · rintro p hp rfl
        exact absurd hp (show ¬ minusOne < 6 by decide)
      · rintro ⟨p, hp, hfree⟩
        have hzero : k.processArray p.toNat = 0 := by rw [h p hp, hfree]; rfl
        have hall := List.find?_eq_none.1 hslot p.toNat
          (List.mem_range.2 (UInt32.lt_iff_toNat_lt.1 hp))
        exact absurd (beq_iff_eq.2 hzero) hall
  | some i =>
      have hi := Core.freeSlot_lt hslot
      have hlt : UInt32.ofNat i < 6 := by
        rw [UInt32.lt_iff_toNat_lt, toNat_ofNat_slot hi]
        exact hi
      rw [k.core_getProcess_some hslot]
      refine ⟨?_, fun _ => hlt⟩
      rintro p hp rfl
      have hzero : k.processArray i = 0 := Core.freeSlot_free hslot
      have hp' := h _ hp
      rw [toNat_ofNat_slot hi, hzero] at hp'
      by_contra hlive
      rw [Bool.not_eq_false] at hlive
      rw [hlive] at hp'
      exact absurd hp' (by decide)

/-- **The process table is the set of live processes**, in every state of a run from boot in which no
    call of `execute` gives up on its file. -/
theorem process_table_is_live (lay : Layout) (fs : FileSys) (mem : BootMemory)
    (s : Kernel × (UInt32 → Bool))
    (hrun : Reaches (withGhost (Kernel.step lay fs) (liveAfter fs))
      (fun s e => LaunchesOk fs s.1 e) (Kernel.boot lay mem, fun _ => false) s) :
    (∀ p : UInt32, p < 6 → s.1.processArray p.toNat = if s.2 p then 1 else 0)
      ∧ (∀ p : UInt32, p < 6 → s.1.getProcess.1 = p → s.2 p = false)
      ∧ ((∃ p : UInt32, p < 6 ∧ s.2 p = false) → s.1.getProcess.1 < 6) := by
  have h : TableIs s.1.processArray s.2 := by
    refine hrun.invariant (I := fun s => TableIs s.1.processArray s.2) ?_ ?_
    · intro p _
      exact congrFun (congrArg Core.processArray (core_boot lay mem)) p.toNat
    · intro s e s' hs hok hstep
      obtain ⟨hk, hg⟩ := withGhost_eq_some hstep
      rw [hg]
      exact tableIs_step hs hok hk
  exact ⟨h, h.getProcess⟩

/-- The image of the examples has a shell, whatever the buffer held before. -/
theorem sampleFs_shell (env : ExecEnv) : IsExe sampleFs shellName env := by
  have hname : commandName shellName = shellName := by decide
  have hentry : (sampleFs.readDentryByName shellName).map (·.inode.toNat) = some 0 := by
    decide +kernel
  obtain ⟨d, hd, hinode⟩ := Option.map_eq_some_iff.1 hentry
  have hmagic : (sampleFs.readData 0 0 4).2 = [0x7F, 0x45, 0x4C, 0x46] := by decide +kernel
  have hstart : (sampleFs.readData 0 24 4).2 = [0, 0x80, 0x04, 0x08] := by decide +kernel
  refine ⟨0, 0x8048000, ?_⟩
  simp [checkFile, checkNamed, hname, hd, hinode, hmagic, hstart, overlay, wordAt]

/-- The first shell is live and owns slot 0. -/
theorem process_table_is_live_shell :
    sampleShell.processArray (0 : UInt32).toNat
      = if liveAfter sampleFs (Kernel.boot sampleLayout sampleMemory)
          (.execute shellName (sampleEnv 100 101)) sampleShell (fun _ => false) 0 then 1 else 0 :=
  (process_table_is_live sampleLayout sampleFs sampleMemory
    (sampleShell, liveAfter sampleFs (Kernel.boot sampleLayout sampleMemory)
      (.execute shellName (sampleEnv 100 101)) sampleShell (fun _ => false))
    (Reaches.refl.tail (e := .execute shellName (sampleEnv 100 101))
      (Or.inr (sampleFs_shell _)) rfl)).1 0 (by decide)

/-- The first shell executes the unknown command `x`: it is live, and its slot is free. -/
theorem unknown_command_frees_live_slot :
    ¬ ∀ (lay : Layout) (fs : FileSys) (mem : BootMemory) (s : Kernel × (UInt32 → Bool)),
      Reaches (withGhost (Kernel.step lay fs) (liveAfter fs)) (fun _ _ => True)
        (Kernel.boot lay mem, fun _ => false) s →
      ∀ p : UInt32, p < 6 → s.1.processArray p.toNat = if s.2 p then 1 else 0 := by
  intro h
  have hrun : Reaches (withGhost (Kernel.step sampleLayout sampleFs) (liveAfter sampleFs))
      (fun _ _ => True) (Kernel.boot sampleLayout sampleMemory, fun _ => false)
      ((sampleShell.execute sampleFs [120] (sampleEnv 0 0)).2, _) :=
    (Reaches.refl.tail (e := .execute shellName (sampleEnv 100 101)) trivial rfl).tail
      (e := .execute [120] (sampleEnv 0 0)) trivial rfl
  have hzero := h sampleLayout sampleFs sampleMemory _ hrun 0 (by decide)
  exact absurd hzero (by decide +kernel)

end UnixTerminal
