import UnixTerminal.Proofs.ProcessTable

set_option autoImplicit false

/-! # `current_pcb` and `curr_process`

`read` and `write` find the caller's table through `current_pcb`, the other calls through
`curr_process`. A program start and a PIT tick set both. The return of a halt to the parent sets only
`curr_process`, and a call of `execute` that gives up on its file has set only `current_pcb`: from
there to the next tick or start the two disagree (`staleAfter`). -/

namespace UnixTerminal

/-- The two are apart: since a halt that returned to a parent or an `execute` that refused its file,
    neither a tick nor the start of a program has come. -/
def staleAfter (fs : FileSys) (k : Kernel) (e : Event) (_ : Kernel) (stale : Bool) : Bool :=
  match e with
  | .execute command env =>
      match (k.execute fs command env).1 with
      | .started _ => false
      | .returned v => if v = -1 then true else stale
  | .halt status env => !(k.halt fs status env).1.isRestarted
  | .haltFromExc env => !(k.haltFromExc fs env).1.isRestarted
  | .switchTask _ => false
  | .switchTerminal newt frame env =>
      if k.Opens newt ∧ (k.openTerminal fs newt frame env).1.isStarted then false else stale
  | _ => stale

/-- The steps that keep `current_pcb` right whenever it is used: a system call is not entered while it
    is stale; the shell can be started where a root process ends or a terminal is opened; and the byte
    behind `terminals` reads as an inactive terminal. -/
def CallsInStep (fs : FileSys) (s : Kernel × Bool) : Event → Prop
  | .halt _ env => s.2 = false ∧ (s.1.callerPcb.ppid = minusOne → IsExe fs shellName env)
  | .haltFromExc env => s.1.callerPcb.ppid = minusOne → IsExe fs shellName env
  | .switchTask _ => s.1.currTerm = 2 → (s.1.terminals 3).active = 0
  | .switchTerminal newt _ env =>
      s.1.Opens newt → s.1.core.freeSlot ≠ none ∧ IsExe fs shellName env
  | .neighbours _ => True
  | _ => s.2 = false

/-! ## Started processes -/

/-- A set of process numbers whose PCBs were filled in by `execute`: drivers by known flags, and no
    parent or one of the set. -/
def StartedSet (pcbOf : UInt32 → Pcb) (S : UInt32 → Prop) : Prop :=
  ∀ p, S p → p < 6 ∧ (∀ i, i < 8 → ((pcbOf p).fdsArray i).flags < 6)
    ∧ ((pcbOf p).ppid = minusOne ∨ S (pcbOf p).ppid)

/-- The current process and the processes of the active terminals were started by `execute`, and the
    viewed terminal is active. -/
structure Sane (c : Core) : Prop where
  currTerm_lt : c.currTerm < 3
  viewed_lt : c.currTerminalNumber < 3
  viewed_active : c.active c.currTerminalNumber ≠ 0
  started : ∃ S, StartedSet c.pcbOf S ∧ S c.currProcess
    ∧ ∀ t, t < 3 → c.active t ≠ 0 → S (c.currentProcess t)

namespace StartedSet

variable {pcbOf pcbOf' : UInt32 → Pcb} {S : UInt32 → Prop}

/-- Edits that keep parents and leave known flags keep the set. -/
theorem of_edit (h : StartedSet pcbOf S)
    (hppid : ∀ p, S p → (pcbOf' p).ppid = (pcbOf p).ppid)
    (hflags : ∀ p, S p → ∀ i, ((pcbOf p).fdsArray i).flags < 6 → ((pcbOf' p).fdsArray i).flags < 6) :
    StartedSet pcbOf' S := by
  intro p hp
  obtain ⟨hlt, hfl, hpar⟩ := h p hp
  refine ⟨hlt, fun i hi => hflags p hp i (hfl i hi), ?_⟩
  rw [hppid p hp]
  exact hpar

/-- A process filled in afresh joins the set. -/
theorem insert (h : StartedSet pcbOf S) {p : UInt32} (hp : p < 6)
    (hother : ∀ q, q < 6 → q ≠ p → pcbOf' q = pcbOf q)
    (hflags : ∀ i, i < 8 → ((pcbOf' p).fdsArray i).flags < 6)
    (hppid : (pcbOf' p).ppid = minusOne ∨ S (pcbOf' p).ppid) :
    StartedSet pcbOf' (fun q => q = p ∨ S q) := by
  rintro q (rfl | hq)
  · exact ⟨hp, hflags, hppid.imp id Or.inr⟩
  · by_cases hqp : q = p
    · subst hqp
      exact ⟨hp, hflags, hppid.imp id Or.inr⟩
    · obtain ⟨hlt, hfl, hpar⟩ := h q hq
      rw [hother q hlt hqp]
      exact ⟨hlt, hfl, hpar.imp id Or.inr⟩

end StartedSet

theorem initFds_flags_lt (i : Nat) : (Kernel.initFds i).flags < 6 := by
  unfold Kernel.initFds
  dsimp only
  split_ifs <;> decide

/-! ## Transitions -/

section Transitions

variable {lay : Layout} {fs : FileSys} {c c' : Core}

/-- Arguments are neither parents nor descriptors. -/
theorem StartedSet.claim {S : UInt32 → Prop} (h : StartedSet c.pcbOf S) (p : UInt32)
    (command : List UInt8) : StartedSet (c.claim p command).pcbOf S :=
  h.of_edit (fun q _ => c.field_claim (·.ppid) (fun _ => rfl) p q)
    (fun q _ _ hi => (c.field_claim (·.fdsArray) (fun _ => rfl) p q).symm ▸ hi)

/-- The start of a program. Where it activates the viewed terminal, that terminal runs the new program
    or had a started one. -/
theorem sane_start {S : UInt32 → Prop} {p : UInt32} {frame : Frame} (hp : p < 6)
    (hterm : c.currTerm < 3) (hnum : c.currTerminalNumber < 3) (hset : StartedSet c.pcbOf S)
    (hpar : c.parentFor = minusOne ∨ S c.parentFor)
    (hact : ∀ t, t < 3 → c.active t ≠ 0 → S (c.currentProcess t))
    (hviewed : c.currTerminalNumber = c.currTerm ∨ S (c.currentProcess c.currTerminalNumber)) :
    Sane (c.start p frame) := by
  refine ⟨hterm, hnum, c.active_start_viewed p frame, fun q => q = p ∨ S q, ?_, Or.inl rfl,
    fun t ht hactive => ?_⟩
  · refine hset.insert hp (fun q hq hne => ?_) (fun i hi => ?_) ?_
    · rw [Core.pcbOf_start _ _ hp hq, if_neg hne]
    · rw [Core.pcbOf_start_self]
      simp only [Core.freshPcb, maxFile, hi, if_true]
      exact initFds_flags_lt i
    · rw [Core.pcbOf_start_self]
      exact hpar
  · simp only [Core.start_currentProcess, Function.update_apply]
    split_ifs with hcur
    · exact Or.inl rfl
    · right
      by_cases htv : t = c.currTerminalNumber
      · rcases hviewed with hv | hv
        · exact absurd (htv.trans hv) hcur
        · exact htv ▸ hv
      · rw [c.active_start_of_ne p frame htv] at hactive
        exact hact t ht hactive

/-- `execute` by a running process. -/
theorem Core.Exec.sane {command : List UInt8} {env : ExecEnv} {o : ExecOutcome}
    (h : c.Exec fs command env o c') (hc : Sane c) : Sane c' := by
  obtain ⟨S, hset, hcur, hact⟩ := hc.started
  cases h with
  | full => exact hc
  | notFound => exact { hc with started := ⟨S, hset.claim _ command, hcur, hact⟩ }
  | notExe => exact { hc with started := ⟨S, hset.claim _ command, hcur, hact⟩ }
  | started hp =>
      have hparent : c.parentFor = c.currProcess := if_neg hc.viewed_active
      have hpar : S c.parentFor := hparent ▸ hcur
      exact sane_start hp hc.currTerm_lt hc.viewed_lt (hset.claim _ command) (Or.inr hpar) hact
        (Or.inr (hact _ hc.viewed_lt hc.viewed_active))

/-- The halts, where a new shell can be started. -/
theorem Core.Halt.sane {eax : UInt32} {env : ExecEnv} {o : HaltOutcome}
    (h : c.Halt fs eax env o c') (hc : Sane c) (hexe : c.ppid = minusOne → IsExe fs shellName env) :
    Sane c' ∧ (o.isRestarted → c'.currentPcb = getPcbPointer c'.currProcess) := by
  obtain ⟨S, hset, hcur, hact⟩ := hc.started
  cases h with
  | toParent hpar =>
      refine ⟨⟨hc.currTerm_lt, hc.viewed_lt, hc.viewed_active, S, ?_, ?_, fun t ht hactive => ?_⟩,
        fun hr => Bool.noConfusion hr⟩
      · have hps : S c.ppid := (hset _ hcur).2.2.resolve_left hpar
        refine hset.of_edit (fun q _ => Core.field_resume _ (·.ppid) (fun _ => rfl) _ q)
          (fun q hq i hi => ?_)
        rw [Core.pcbOf_resume _ (hset _ hps).1 (hset q hq).1]
        split_ifs with hqp
        · rw [hqp] at hi
          simp only [Core.closeAll, Core.closeSlots]
          split_ifs
          · decide
          · exact hi
        · exact hi
      · exact (hset _ hcur).2.2.resolve_left hpar
      · simp only [Core.resume_currentProcess, Function.update_apply]
        split_ifs
        · exact (hset _ hcur).2.2.resolve_left hpar
        · exact hact t ht hactive
  | restarted hroot hexec =>
      obtain ⟨p, hp, -, rfl⟩ := hexec.started_spec
      refine ⟨?_, fun _ => rfl⟩
      have hset' : StartedSet c.endRoot.pcbOf S := hset
      have hroot' : c.endRoot.parentFor = minusOne := by simp [Core.endRoot, Core.parentFor]
      refine sane_start hp hc.currTerm_lt hc.viewed_lt (hset'.claim p shellName) (Or.inl hroot')
        (fun t ht hactive => ?_) (Or.inr (hact _ hc.viewed_lt hc.viewed_active))
      by_cases htv : t = c.currTerminalNumber
      · exact htv ▸ hact _ hc.viewed_lt hc.viewed_active
      · have hsame : c.active t ≠ 0 := by
          simpa [Core.endRoot, Function.update_of_ne htv] using hactive
        exact hact t ht hsame
  | stuck hroot hexec =>
      rcases hexec.full_or_started (Or.inr (hexe hroot)) with ⟨-, hfull, -⟩ | ⟨_, _, hstarted, -⟩
      · exact absurd hfull (Core.freeSlot_endRoot (hset _ hcur).1)
      · cases hstarted

/-- The system calls on descriptors. -/
theorem Sane.edit (hc : Sane c) {q : Pcb} (hq : FdEdit (c.pcbOf c.currProcess) q) :
    Sane (c.setPcb c.currProcess (fun _ => q)) := by
  obtain ⟨S, hset, hcur, hact⟩ := hc.started
  refine { hc with started := ⟨S, ?_, hcur, hact⟩ }
  have hlt := (hset _ hcur).1
  refine hset.of_edit (fun p hp => ?_) (fun p hp i hi => ?_)
  · rw [Core.pcbOf_setPcb _ _ hlt (hset p hp).1]
    split_ifs with hpc
    · rw [hpc]; exact hq.ppid
    · rfl
  · rw [Core.pcbOf_setPcb _ _ hlt (hset p hp).1]
    split_ifs with hpc
    · rw [hpc] at hi; exact hq.flags i hi
    · exact hi

/-- Saved frames are neither parents nor descriptors. -/
theorem StartedSet.save {S : UInt32 → Prop} (h : StartedSet c.pcbOf S) (p : UInt32) (frame : Frame) :
    StartedSet (c.setPcb p (Core.saveFrame frame)).pcbOf S := by
  refine h.of_edit (fun q _ => c.field_setPcb (·.ppid) (f := Core.saveFrame frame) (fun _ => rfl) p q)
    (fun q _ i hi => ?_)
  rwa [c.field_setPcb (·.fdsArray) (f := Core.saveFrame frame) (fun _ => rfl) p q]

/-- A tick to one of the three terminals sets both. -/
theorem Sane.switchTo (hc : Sane c) {t : Nat} (ht : t < 3) (hactive : c.active t ≠ 0) (frame : Frame) :
    Sane (c.switchTo t frame)
      ∧ (c.switchTo t frame).currentPcb = getPcbPointer (c.switchTo t frame).currProcess := by
  obtain ⟨S, hset, hcur, hact⟩ := hc.started
  have hS := hact t ht hactive
  have hpid : (c.switchTo t frame).currProcess = c.currentProcess t := toUInt8_toUInt32 (hset _ hS).1
  refine ⟨⟨ht, hc.viewed_lt, hc.viewed_active, S, hset.save _ frame, ?_, hact⟩, ?_⟩
  · rw [hpid]
    exact hS
  · rw [hpid]
    rfl

/-- Opening a terminal, with a shell that starts. -/
theorem sane_openTerminal (hc : Sane c) {newt : Nat} (hlt : newt < 3) (hactive : c.active newt = 0)
    {frame : Frame} {env : ExecEnv} {p : UInt32} (hp : p < 6) :
    Sane (((c.toTerminal newt frame).claim p shellName).start p env.frame) := by
  obtain ⟨S, hset, hcur, hact⟩ := hc.started
  have hset' : StartedSet (c.toTerminal newt frame).pcbOf S := hset.save _ frame
  have hroot : (c.toTerminal newt frame).parentFor = minusOne := if_pos hactive
  exact sane_start hp hlt hlt (hset'.claim p shellName) (Or.inl hroot) hact (Or.inl rfl)

theorem Sane.mapVideo (hc : Sane c) (phys : UInt32) : Sane (c.mapVideo lay phys) :=
  ⟨hc.currTerm_lt, hc.viewed_lt, hc.viewed_active, hc.started⟩

/-- The calls on descriptors and `vidmap` set neither of the two. -/
theorem Core.Local.sane (h : c.Local lay c') (hc : Sane c) :
    Sane c' ∧ c'.currentPcb = c.currentPcb ∧ c'.currProcess = c.currProcess := by
  cases h with
  | edit hq => exact ⟨hc.edit hq, rfl, rfl⟩
  | video phys => exact ⟨hc.mapVideo phys, rfl, rfl⟩

theorem Sane.viewTo (hc : Sane c) {newt : Nat} (hlt : newt < 3) (hactive : c.active newt ≠ 0) :
    Sane (c.viewTo lay newt) :=
  ⟨hc.currTerm_lt, hlt, hactive, hc.started⟩

end Transitions

/-! ## Runs -/

/-- The invariant of a run with its history. -/
def PcbInv (k : Kernel) (stale : Bool) : Prop :=
  Sane k.core ∧ (stale = false → k.currentPcb = getPcbPointer k.currProcess)

/-- A transition that keeps both `current_pcb` and `curr_process`. -/
theorem PcbInv.of_core {k k' : Kernel} {stale : Bool} (h : PcbInv k stale) (hsane : Sane k'.core)
    (hpcb : k'.core.currentPcb = k.core.currentPcb) (hcur : k'.core.currProcess = k.core.currProcess) :
    PcbInv k' stale := by
  refine ⟨hsane, fun hs => ?_⟩
  rw [show k'.currentPcb = k.currentPcb from hpcb, show k'.currProcess = k.currProcess from hcur]
  exact h.2 hs

/-- A transition, by the core it leads to. -/
theorem PcbInv.of_core_eq {k' : Kernel} {c' : Core} {stale : Bool} (hc : k'.core = c') (hsane : Sane c')
    (hagree : stale = false → c'.currentPcb = getPcbPointer c'.currProcess) : PcbInv k' stale := by
  subst hc
  exact ⟨hsane, hagree⟩

section Step

variable {lay : Layout} {fs : FileSys} {k k' : Kernel} {stale : Bool}

theorem PcbInv.execute (h : PcbInv k stale) (command : List UInt8) (env : ExecEnv) :
    PcbInv (k.execute fs command env).2
      (staleAfter fs k (.execute command env) (k.execute fs command env).2 stale) := by
  have hexec := k.core_execute fs command env
  refine .of_core_eq rfl (hexec.sane h.1) ?_
  dsimp only [staleAfter]
  generalize (k.execute fs command env).2.core = c' at hexec
  generalize (k.execute fs command env).1 = o at hexec
  cases hexec with
  | full => exact h.2
  | notFound => exact fun hs => Bool.noConfusion hs
  | notExe => exact fun hs => Bool.noConfusion hs
  | started => exact fun _ => rfl

/-- Where a new shell is started, the two agree again. -/
theorem PcbInv.haltWith (h : PcbInv k stale) {eax : UInt32} {env : ExecEnv}
    (hexe : k.callerPcb.ppid = minusOne → IsExe fs shellName env) :
    PcbInv (k.haltWith fs eax env).2 (!(k.haltWith fs eax env).1.isRestarted) := by
  obtain ⟨hsane, hagree⟩ := (k.core_haltWith fs eax env).sane h.1 hexe
  exact .of_core_eq rfl hsane (fun hs => hagree (by simpa using hs))

theorem PcbInv.switchTo (h : PcbInv k stale) {t : Nat} (ht : k.nextTerm = some t)
    (hpast : k.currTerm = 2 → (k.terminals 3).active = 0) (frame : Frame) :
    PcbInv (k.switchTo lay t frame).2 false := by
  have hactive := (k.nextTerm_spec ht).1
  have ht3 := k.nextTerm_lt ht h.1.currTerm_lt hpast
  obtain ⟨hsane, hagree⟩ := h.1.switchTo ht3 hactive frame
  exact .of_core_eq (k.core_switchTo lay t frame).1 (hsane.mapVideo _) (fun _ => hagree)

theorem PcbInv.openTerminal (h : PcbInv k stale) {newt : Nat} (hopen : k.Opens newt) (frame : Frame)
    {env : ExecEnv} (hslot : k.core.freeSlot ≠ none) (hexe : IsExe fs shellName env) :
    PcbInv (k.openTerminal fs newt frame env).2 false := by
  have hexec := k.core_openTerminal fs newt frame env
  rcases hexec.full_or_started (Or.inr hexe) with ⟨-, hfull, -⟩ | ⟨_, p, -, hp, -, hc⟩
  · exact absurd hfull hslot
  · exact .of_core_eq hc (sane_openTerminal h.1 hopen.2.1 hopen.2.2 hp) (fun _ => rfl)

theorem PcbInv.switchTerminal (h : PcbInv k stale) {newt : Nat} {frame : Frame} {env : ExecEnv}
    (hok : k.Opens newt → k.core.freeSlot ≠ none ∧ IsExe fs shellName env) :
    PcbInv (k.switchTerminal lay fs newt frame env) (staleAfter fs k (.switchTerminal newt frame env)
      (k.switchTerminal lay fs newt frame env) stale) := by
  rcases k.switchTerminal_cases lay fs newt frame env with ⟨hopen, hk⟩ | ⟨hnot, hk⟩
  · obtain ⟨hslot, hexe⟩ := hok hopen
    have hinv := h.openTerminal hopen frame hslot hexe
    rw [hk]
    exact ⟨hinv.1, fun _ => hinv.2 rfl⟩
  · have hstale : staleAfter fs k (.switchTerminal newt frame env)
        (k.switchTerminal lay fs newt frame env) stale = stale := by
      simp [staleAfter, hnot]
    rw [hstale]
    rcases hk with hk | ⟨hlt, hactive, hk⟩
    · exact h.of_core (hk ▸ h.1) (hk ▸ rfl) (hk ▸ rfl)
    · exact h.of_core (hk ▸ h.1.viewTo hlt hactive) (hk ▸ rfl) (hk ▸ rfl)

/-- The bytes behind the array `terminals` do not count. -/
theorem PcbInv.neighbours (h : PcbInv k stale) (past : Nat → Terminal) :
    PcbInv { k with terminals := fun i => if i < 3 then k.terminals i else past i } stale := by
  obtain ⟨S, hset, hcur, hact⟩ := h.1.started
  have hviewed := h.1.viewed_lt
  refine h.of_core ⟨h.1.currTerm_lt, hviewed, ?_, S, hset, hcur, fun t ht hactive => ?_⟩ rfl rfl
  · have hactive := h.1.viewed_active
    simp only [Kernel.core] at hactive hviewed ⊢
    simpa [hviewed] using hactive
  · have hsame : k.core.active t ≠ 0 := by simpa [Kernel.core, ht] using hactive
    simpa [Kernel.core, ht] using hact t ht hsame

/-- **One event.** -/
theorem pcbInv_step {e : Event} (h : PcbInv k stale) (hok : CallsInStep fs (k, stale) e)
    (hstep : k.step lay fs e = some k') : PcbInv k' (staleAfter fs k e k' stale) := by
  cases e with
  | execute command env =>
      cases hstep
      exact h.execute command env
  | halt status env =>
      cases hstep
      exact h.haltWith hok.2
  | haltFromExc env =>
      cases hstep
      exact h.haltWith hok
  | switchTask frame =>
      obtain ⟨r, hr, rfl⟩ := Option.map_eq_some_iff.1 hstep
      obtain ⟨t, ht, rfl⟩ := Option.map_eq_some_iff.1 hr
      exact h.switchTo ht hok frame
  | switchTerminal newt frame env =>
      cases hstep
      exact h.switchTerminal hok
  | neighbours past =>
      cases hstep
      exact h.neighbours past
  | _ =>
      obtain ⟨hsane, hpcb, hcur⟩ := ((k.core_step lay fs hstep).toLocal trivial).sane h.1
      exact h.of_core hsane hpcb hcur

end Step

/-- The invariant when the first shell has been started. -/
theorem pcbInv_boot {lay : Layout} {fs : FileSys} {mem : BootMemory} {env : ExecEnv} {entry : UInt32}
    (hboot : ((Kernel.boot lay mem).execute fs shellName env).1 = .started entry) :
    PcbInv ((Kernel.boot lay mem).execute fs shellName env).2 false := by
  obtain ⟨p, hp, -, hc⟩ := (Kernel.boot lay mem).core_started fs hboot
  have hactive : ∀ t, t < 3 → (Kernel.boot lay mem).core.active t = 0 := by
    intro t ht
    rw [core_boot]
    exact if_pos ht
  have hset : StartedSet ((Kernel.boot lay mem).core.claim p shellName).pcbOf (fun _ => False) :=
    fun _ h => h.elim
  constructor
  · rw [hc]
    exact sane_start hp (show 0 < 3 by decide) (show 0 < 3 by decide) hset
      (Or.inl (if_pos (hactive 0 (by decide)))) (fun t ht h => h (hactive t ht)) (Or.inl rfl)
  · intro _
    have hpcb : ((Kernel.boot lay mem).execute fs shellName env).2.currentPcb = _ :=
      congrArg Core.currentPcb hc
    have hcur : ((Kernel.boot lay mem).execute fs shellName env).2.currProcess = _ :=
      congrArg Core.currProcess hc
    rw [hpcb, hcur]
    rfl

/-- The system calls of user processes. -/
def SystemCall : Event → Prop
  | .execute _ _ => True
  | .halt _ _ => True
  | .openFile _ => True
  | .close _ => True
  | .read _ _ _ => True
  | .write _ _ _ _ => True
  | .vidmap _ => True
  | _ => False

/-- The two ways to the caller's table lead to the same one, and its flags index `fops_table`. -/
def SameTable (k : Kernel) : Prop :=
  k.currentPcb = getPcbPointer k.currProcess
    ∧ k.pcb k.currentPcb = k.callerPcb
    ∧ ∀ fd, fd < 8 → ((k.pcb k.currentPcb).fdsArray fd).flags < 6

theorem PcbInv.sameTable {k : Kernel} (h : PcbInv k false) : SameTable k := by
  obtain ⟨S, hset, hcur, -⟩ := h.1.started
  have hagree := h.2 rfl
  have hpcb : k.pcb k.currentPcb = k.callerPcb := by rw [hagree]; rfl
  exact ⟨hagree, hpcb, fun fd hfd => hpcb ▸ (hset _ hcur).2.1 fd hfd⟩

/-- **`current_pcb` is the PCB of the caller** at every system call of a run from boot in which no
    system call is entered between the return of a halt to a parent, or the refusal of a file by
    `execute`, and the next tick or program start. -/
theorem current_pcb_of_caller (lay : Layout) (fs : FileSys) (mem : BootMemory) (env : ExecEnv)
    (entry : UInt32) (hboot : ((Kernel.boot lay mem).execute fs shellName env).1 = .started entry)
    (s : Kernel × Bool)
    (hrun : Reaches (withGhost (Kernel.step lay fs) (staleAfter fs)) (CallsInStep fs)
      (((Kernel.boot lay mem).execute fs shellName env).2, false) s)
    (e : Event) (hcall : SystemCall e) (hok : CallsInStep fs s e) : SameTable s.1 := by
  have hinv : PcbInv s.1 s.2 := by
    refine hrun.invariant (I := fun s => PcbInv s.1 s.2) (pcbInv_boot hboot) ?_
    intro s e s' hs hok hstep
    obtain ⟨hk, hg⟩ := withGhost_eq_some hstep
    rw [hg]
    exact pcbInv_step hs hok hk
  have hfresh : s.2 = false := by
    cases e with
    | halt status env => exact hok.1
    | haltFromExc env => exact hcall.elim
    | switchTask frame => exact hcall.elim
    | switchTerminal newt frame env => exact hcall.elim
    | neighbours past => exact hcall.elim
    | _ => exact hok
  rw [hfresh] at hinv
  exact hinv.sameTable

/-- The first shell has run a second one, which halted. -/
def shellBack : Kernel :=
  ((sampleShell.execute sampleFs shellName (sampleEnv 102 103)).2.halt sampleFs 0 (sampleEnv 0 0)).2

/-- After the next tick the first shell makes a call. -/
theorem current_pcb_of_caller_shell : SameTable (shellBack.switchTo sampleLayout 0 ⟨200, 201⟩).2 := by
  have hexec : Reaches (withGhost (Kernel.step sampleLayout sampleFs) (staleAfter sampleFs)) (CallsInStep sampleFs)
      (sampleShell, false) ((sampleShell.execute sampleFs shellName (sampleEnv 102 103)).2, _) :=
    Reaches.refl.tail (e := .execute shellName (sampleEnv 102 103)) (Eq.refl false) (withGhost_of_step rfl _)
  have hhalt : Reaches (withGhost (Kernel.step sampleLayout sampleFs) (staleAfter sampleFs)) (CallsInStep sampleFs)
      (sampleShell, false) (shellBack, _) :=
    hexec.tail (e := .halt 0 (sampleEnv 0 0)) ⟨by decide +kernel, fun _ => sampleFs_shell _⟩
      (withGhost_of_step rfl _)
  have htick : Reaches (withGhost (Kernel.step sampleLayout sampleFs) (staleAfter sampleFs)) (CallsInStep sampleFs)
      (sampleShell, false) ((shellBack.switchTo sampleLayout 0 ⟨200, 201⟩).2, false) :=
    hhalt.tail (e := .switchTask ⟨200, 201⟩) (fun h => absurd h (by decide +kernel))
      (withGhost_of_step (Kernel.step_switchTask _ _ _ (by decide +kernel) _) _)
  exact current_pcb_of_caller sampleLayout sampleFs sampleMemory (sampleEnv 100 101) 0x8048000
    sampleShell_started _ htick (.openFile noteName) trivial (Eq.refl false)

/-- The first shell runs a second one, which halts: when the first makes its next call, `current_pcb`
    is still the PCB of the second. -/
theorem halt_leaves_child_pcb :
    ¬ ∀ (lay : Layout) (fs : FileSys) (mem : BootMemory) (env : ExecEnv) (entry : UInt32),
      ((Kernel.boot lay mem).execute fs shellName env).1 = .started entry →
      ∀ k, Reaches (Kernel.step lay fs) (fun _ _ => True)
        ((Kernel.boot lay mem).execute fs shellName env).2 k →
      ∀ e, SystemCall e → SameTable k := by
  intro h
  have hrun : Reaches (Kernel.step sampleLayout sampleFs) (fun _ _ => True) sampleShell shellBack :=
    (Reaches.refl.tail (e := .execute shellName (sampleEnv 102 103)) trivial rfl).tail
      (e := .halt 0 (sampleEnv 0 0)) trivial rfl
  have hsame := (h sampleLayout sampleFs sampleMemory (sampleEnv 100 101) 0x8048000
    sampleShell_started _ hrun (.openFile noteName) trivial).1
  exact absurd hsame (by decide +kernel)

end UnixTerminal
