import UnixTerminal.Proofs.ProcessTable

set_option autoImplicit false

/-! # `execute` and `halt` as call and return

`Coherent` is the relation between the pieces of state that say which process runs: `curr_process`, the
`current_process` of the executing terminal, the user page and `tss.esp0`. `execute` decides by the
*viewed* terminal whether it starts a root process: where the viewed terminal is not active, the start
activates a terminal that runs nothing, and the child has no parent to return to. The results below say
exactly when the relation is kept and when the child returns to its caller. -/

namespace UnixTerminal

/-- The pieces of state agree on the current process, and every active terminal runs a process. -/
structure Coherent (c : Core) : Prop where
  currTerm_lt : c.currTerm < 3
  viewed_lt : c.currTerminalNumber < 3
  slots : ∀ t, t < 3 → c.active t ≠ 0 → c.currentProcess t < 6
  currTerm_active : c.active c.currTerm ≠ 0
  current : c.currProcess = c.currentProcess c.currTerm
  page : c.pageDirectory 32 = processPage c.currProcess ||| 0x87
  stack : c.tssEsp0 = kernelStack c.currProcess

namespace Coherent

variable {fs : FileSys} {c c' : Core}

theorem current_lt (h : Coherent c) : c.currProcess < 6 :=
  h.current ▸ h.slots _ h.currTerm_lt h.currTerm_active

/-- The relation is about these fields only. -/
theorem congr (h : Coherent c) (hterm : c'.currTerm = c.currTerm)
    (hview : c'.currTerminalNumber = c.currTerminalNumber) (hact : c'.active = c.active)
    (hproc : c'.currentProcess = c.currentProcess) (hcur : c'.currProcess = c.currProcess)
    (hpage : c'.pageDirectory 32 = c.pageDirectory 32) (hstack : c'.tssEsp0 = c.tssEsp0) :
    Coherent c' := by
  obtain ⟨h1, h2, h3, h4, h5, h6, h7⟩ := h
  constructor
  · rwa [hterm]
  · rwa [hview]
  · rwa [hact, hproc]
  · rwa [hact, hterm]
  · rwa [hcur, hproc, hterm]
  · rwa [hpage, hcur]
  · rwa [hstack, hcur]

/-! ## When the relation is kept -/

/-- The start of a program makes the pieces agree, unless it activates another terminal that runs
    nothing. -/
theorem start_iff {p : UInt32} (hp : p < 6) (hterm : c.currTerm < 3) (hview : c.currTerminalNumber < 3)
    (hslots : ∀ t, t < 3 → t ≠ c.currTerminalNumber → c.active t ≠ 0 → c.currentProcess t < 6)
    (hact : c.active c.currTerm ≠ 0 ∨ c.currTerm = c.currTerminalNumber) (frame : Frame) :
    Coherent (c.start p frame)
      ↔ c.currTerminalNumber = c.currTerm ∨ c.currentProcess c.currTerminalNumber < 6 := by
  have hviewed := c.active_start_viewed p frame
  have hother : ∀ t, t ≠ c.currTerminalNumber → (c.start p frame).active t = c.active t :=
    fun t ht => c.active_start_of_ne p frame ht
  constructor
  · intro h
    by_cases hcur : c.currTerminalNumber = c.currTerm
    · exact Or.inl hcur
    · right
      have hlt := h.slots c.currTerminalNumber hview hviewed
      rwa [Core.start_currentProcess, Function.update_of_ne hcur] at hlt
  · intro h
    refine ⟨hterm, hview, fun t ht hactive => ?_, ?_, ?_, c.userPageDirectory_page p, rfl⟩
    · rw [Core.start_currentProcess]
      by_cases hcur : t = c.currTerm
      · rw [hcur, Function.update_self]
        exact hp
      · rw [Function.update_of_ne hcur]
        by_cases hnew : t = c.currTerminalNumber
        · rw [hnew] at hcur ⊢
          exact h.resolve_left hcur
        · exact hslots t ht hnew (hother t hnew ▸ hactive)
    · by_cases hcur : c.currTerm = c.currTerminalNumber
      · exact hcur ▸ hviewed
      · rw [Core.start_currTerm, hother _ hcur]
        exact hact.resolve_right hcur
    · rw [Core.start_currProcess, Core.start_currentProcess, Core.start_currTerm,
        Function.update_self]

/-- In a coherent state, the executing terminal runs a process. -/
theorem viewed_cases (h : Coherent c) :
    (c.currTerminalNumber = c.currTerm ∨ c.currentProcess c.currTerminalNumber < 6)
      ↔ c.currentProcess c.currTerminalNumber < 6 := by
  constructor
  · rintro (heq | hlt)
    · rw [heq]
      exact h.slots _ h.currTerm_lt h.currTerm_active
    · exact hlt
  · exact Or.inr

/-- `execute`. -/
theorem exec_iff (h : Coherent c) {command : List UInt8} {env : ExecEnv} {o : ExecOutcome}
    (hexec : c.Exec fs command env o c') :
    Coherent c' ↔ (c.freeSlot ≠ none ∧ IsExe fs command env →
      c.currentProcess c.currTerminalNumber < 6) := by
  have hkept : ∀ {c' : Core}, Coherent c' → ¬ (c.freeSlot ≠ none ∧ IsExe fs command env) →
      (Coherent c' ↔ (c.freeSlot ≠ none ∧ IsExe fs command env →
        c.currentProcess c.currTerminalNumber < 6)) :=
    fun h' hnot => ⟨fun _ hs => absurd hs hnot, fun _ => h'⟩
  cases hexec with
  | full hslot => exact hkept h (fun hs => hs.1 hslot)
  | notFound _ _ hfile =>
      refine hkept (h.congr rfl rfl rfl rfl rfl rfl rfl) ?_
      rintro ⟨-, inode, entry, hexe⟩
      rw [hfile] at hexe
      cases hexe
  | notExe _ _ hfile =>
      refine hkept (h.congr rfl rfl rfl rfl rfl rfl rfl) ?_
      rintro ⟨-, inode, entry, hexe⟩
      rw [hfile] at hexe
      cases hexe
  | @started p inode entry hp hslot hfile =>
      have hstarts : c.freeSlot ≠ none ∧ IsExe fs command env :=
        ⟨by rw [hslot]; exact Option.some_ne_none _, inode, entry, hfile⟩
      have hiff := start_iff (c := c.claim p command) hp h.currTerm_lt h.viewed_lt
        (fun t ht _ => h.slots t ht) (Or.inl h.currTerm_active) env.frame
      rw [hiff]
      exact (viewed_cases h).trans ⟨fun hlt _ => hlt, fun hs => hs hstarts⟩

/-- The halts, with a shell in the image. -/
theorem halt_iff (h : Coherent c) {eax : UInt32} {env : ExecEnv} {o : HaltOutcome}
    (hhalt : c.Halt fs eax env o c') (hexe : IsExe fs shellName env) :
    Coherent c' ↔ c.ppid < 6 ∨ c.ppid = minusOne ∧ c.currentProcess c.currTerminalNumber < 6 := by
  have hnot : ¬ minusOne < 6 := by decide
  by_cases hroot : c.ppid = minusOne
  · obtain ⟨entry, p, -, hp, -, rfl⟩ := hhalt.root_spec h.current_lt hroot hexe
    have hother : ∀ t, t ≠ c.currTerminalNumber → c.endRoot.active t = c.active t :=
      fun t ht => Function.update_of_ne ht _ _
    have hact : c.endRoot.active c.currTerm ≠ 0 ∨ c.currTerm = c.currTerminalNumber := by
      by_cases hcur : c.currTerm = c.currTerminalNumber
      · exact Or.inr hcur
      · exact Or.inl ((hother _ hcur).trans_ne h.currTerm_active)
    have hiff := start_iff (c := c.endRoot.claim p shellName) hp h.currTerm_lt h.viewed_lt
      (fun t ht hnew hact => h.slots t ht (hother t hnew ▸ hact)) hact env.frame
    rw [hiff, hroot]
    exact (viewed_cases h).trans ⟨fun hlt => Or.inr ⟨rfl, hlt⟩,
      fun hs => hs.elim (fun hm => absurd hm hnot) And.right⟩
  · obtain ⟨-, rfl⟩ := hhalt.parent_spec hroot
    have hiff : Coherent ((c.release c.currProcess).resume c.ppid) ↔ c.ppid < 6 := by
      refine ⟨fun h' => h'.current_lt, fun hlt => ⟨h.currTerm_lt, h.viewed_lt, fun t ht hact => ?_,
        h.currTerm_active, ?_, c.userPageDirectory_page _, rfl⟩⟩
      · rw [Core.resume_currentProcess, Core.release_currTerm]
        by_cases hcur : t = c.currTerm
        · rw [hcur, Function.update_self]
          exact hlt
        · rw [Function.update_of_ne hcur]
          exact h.slots t ht hact
      · rw [Core.resume_currProcess, Core.resume_currentProcess, Core.resume_currTerm,
          Function.update_self]
    rw [hiff]
    exact ⟨Or.inl, fun hs => hs.elim id (fun hr => absurd hr.1 hroot)⟩

/-- A tick to an active terminal. -/
theorem switchTo (h : Coherent c) {t : Nat} (ht : t < 3) (hact : c.active t ≠ 0) (frame : Frame) :
    Coherent (c.switchTo t frame) := by
  have hpid : (c.currentProcess t).toUInt8.toUInt32 = c.currentProcess t :=
    toUInt8_toUInt32 (h.slots t ht hact)
  refine ⟨ht, h.viewed_lt, h.slots, hact, hpid, c.userPageDirectory_page _, ?_⟩
  rw [Core.switchTo_tssEsp0, Core.switchTo_currProcess, hpid]

end Coherent

/-! ## The return to the caller -/

/-- A halt that gives control to process `p`: the frame is loaded with `eax` as the result, and the
    pieces of state are those of `p`. -/
structure ReturnsTo (r : HaltOutcome × Kernel) (eax : UInt32) (frame : Frame) (p : UInt32) : Prop where
  outcome : r.1 = .resumed eax frame
  current : r.2.currProcess = p
  terminal : (r.2.terminals r.2.currTerm).currentProcess = p
  page : r.2.pageDirectory 32 = processPage p ||| 0x87
  stack : r.2.tssEsp0 = kernelStack p

/-- A halt that starts a new shell, with the PCB of a root process. -/
structure StartsShell (r : HaltOutcome × Kernel) : Prop where
  outcome : ∃ entry, r.1 = .restarted entry
  current : (r.2.terminals r.2.currTerm).currentProcess = r.2.currProcess
  ppid : r.2.callerPcb.ppid = minusOne
  pid : r.2.callerPcb.pid = r.2.currProcess
  fdsArray : ∀ i, i < 8 → r.2.callerPcb.fdsArray i = Kernel.initFds i

/-- The operations of a run in which `child` has not ended yet: calls of `execute` that start their
    program, halts of other processes, and ticks. -/
def NestedStep (fs : FileSys) (child : UInt32) (k : Kernel) : Event → Prop
  | .execute command env => (k.execute fs command env).1.isStarted = true
  | .halt _ _ => k.currProcess ≠ child
  | .haltFromExc _ => k.currProcess ≠ child
  | .switchTask _ => True
  | _ => False

/-- Whatever runs after the call of `execute`, the end of the child returns to the caller, with its
    status or with 256. -/
def ChildReturns (lay : Layout) (fs : FileSys) (k : Kernel) (command : List UInt8) (env : ExecEnv) :
    Prop :=
  let started := (k.execute fs command env).2
  ∀ k', Reaches (Kernel.step lay fs) (NestedStep fs started.currProcess) started k' →
    k'.currProcess = started.currProcess →
    (∀ (status : UInt8) env', ReturnsTo (k'.halt fs status env') status.toUInt32 env.frame k.currProcess
      ∧ status.toUInt32 ≠ 256)
    ∧ ∀ env', ReturnsTo (k'.haltFromExc fs env') 256 env.frame k.currProcess

/-- A child that runs or waits: its slot is taken, and its PCB has the parent and the frame of the
    call that started it. -/
structure Pending (c : Core) (child : UInt32) (record : UInt32 × Frame) : Prop where
  slot : c.processArray child.toNat ≠ 0
  record : (c.pcbOf child).callRecord = record

namespace Pending

variable {lay : Layout} {fs : FileSys} {c c' : Core} {child : UInt32} {record : UInt32 × Frame}

/-- The start of another program. -/
theorem launch (h : Pending c child record) (hchild : child < 6) {p : UInt32} (hp : p < 6)
    (hslot : c.freeSlot = some p.toNat) (command : List UInt8) (frame : Frame) :
    Pending ((c.claim p command).start p frame) child record := by
  have hne : child ≠ p := fun he => h.slot (he ▸ Core.freeSlot_free hslot)
  constructor
  · rw [Core.start_processArray, Core.claim_processArray, Function.update_of_ne]
    · exact h.slot
    · exact fun he => hne (UInt32.toNat_inj.1 he)
  · rw [Core.pcbOf_start _ _ hp hchild, if_neg hne, Core.pcbOf_claim _ _ hp hchild, if_neg hne]
    exact h.record

theorem exec (h : Pending c child record) (hchild : child < 6) {command : List UInt8} {env : ExecEnv}
    {o : ExecOutcome} (hexec : c.Exec fs command env o c') (hstarted : o.isStarted = true) :
    Pending c' child record := by
  cases hexec with
  | full => cases hstarted
  | notFound => cases hstarted
  | notExe => cases hstarted
  | started hp hslot => exact h.launch hchild hp hslot command env.frame

/-- The end of another process. -/
theorem halt (h : Pending c child record) (hchild : child < 6) {eax : UInt32} {env : ExecEnv}
    {o : HaltOutcome} (hhalt : c.Halt fs eax env o c') (hother : c.currProcess ≠ child)
    (hexe : IsExe fs shellName env) : Pending c' child record := by
  have hend : Pending c.endRoot child record := by
    refine ⟨?_, h.record⟩
    have hne : child.toNat ≠ c.currProcess.toNat := fun he => hother (UInt32.toNat_inj.1 he).symm
    exact (Function.update_of_ne hne _ _).trans_ne h.slot
  -- the closing loop, whichever table it works on
  have hresume : ∀ {c : Core} (p : UInt32), Pending c child record →
      Pending (c.resume p) child record :=
    fun p h' => ⟨h'.slot, (Core.field_resume _ Pcb.callRecord (fun _ => rfl) p child).trans h'.record⟩
  cases hhalt with
  | toParent => exact hresume _ ⟨hend.slot, hend.record⟩
  | restarted _ hexec => exact hend.exec hchild hexec rfl
  | stuck _ hexec =>
      rcases hexec.full_or_started (Or.inr hexe) with ⟨-, -, rfl⟩ | ⟨_, _, hstarted, -⟩
      · exact hresume _ hend
      · cases hstarted

theorem step {k k' : Kernel} {e : Event} (h : Pending k.core child record) (hchild : child < 6)
    (hexe : ∀ env, IsExe fs shellName env) (hok : NestedStep fs child k e)
    (hstep : k.step lay fs e = some k') : Pending k'.core child record := by
  cases e with
  | execute command env =>
      cases hstep
      exact h.exec hchild (k.core_execute fs command env) hok
  | halt status env =>
      cases hstep
      exact h.halt hchild (k.core_haltWith fs status.toUInt32 env) hok (hexe env)
  | haltFromExc env =>
      cases hstep
      exact h.halt hchild (k.core_haltWith fs 256 env) hok (hexe env)
  | switchTask frame =>
      obtain ⟨r, hr, rfl⟩ := Option.map_eq_some_iff.1 hstep
      obtain ⟨t, -, rfl⟩ := Option.map_eq_some_iff.1 hr
      rw [(k.core_switchTo lay t frame).1]
      exact ⟨h.slot,
        (k.core.field_switchTo Pcb.callRecord (fun _ => rfl) t child).trans h.record⟩
  | _ => exact hok.elim

/-- The end of the child itself. -/
theorem returnsTo {k : Kernel} {parent : UInt32} {frame : Frame}
    (h : Pending k.core child (parent, frame)) (hparent : parent ≠ minusOne)
    (hcur : k.currProcess = child) (eax : UInt32) (env : ExecEnv) :
    ReturnsTo (k.haltWith fs eax env) eax frame parent := by
  have hrec : (k.core.pcbOf k.core.currProcess).callRecord = (parent, frame) := by
    rw [show k.core.currProcess = child from hcur]
    exact h.record
  have hppid : k.core.ppid = parent := congrArg Prod.fst hrec
  have hframe : k.core.callFrame k.core.currProcess = frame := congrArg Prod.snd hrec
  obtain ⟨ho, hc⟩ := (k.core_haltWith fs eax env).parent_spec (hppid.trans_ne hparent)
  rw [hframe] at ho
  rw [hppid] at hc
  refine ⟨ho, congrArg Core.currProcess hc, ?_, ?_, congrArg Core.tssEsp0 hc⟩
  · have hproc := congrArg (fun c : Core => c.currentProcess c.currTerm) hc
    exact hproc.trans (Function.update_self _ _ _)
  · have hpage := congrArg (fun c : Core => c.pageDirectory 32) hc
    exact hpage.trans (k.core.userPageDirectory_page parent)

end Pending

/-- The child that a call of `execute` started. -/
theorem pending_started {fs : FileSys} {k : Kernel} {command : List UInt8} {env : ExecEnv}
    {entry : UInt32} (hstart : (k.execute fs command env).1 = .started entry) :
    (k.execute fs command env).2.currProcess < 6
      ∧ Pending (k.execute fs command env).2.core (k.execute fs command env).2.currProcess
        (k.core.parentFor, env.frame) := by
  obtain ⟨p, hp, -, hc⟩ := k.core_started fs hstart
  have hcur : (k.execute fs command env).2.currProcess = p := congrArg Core.currProcess hc
  rw [hcur, hc]
  refine ⟨hp, ?_, ?_⟩
  · rw [Core.start_processArray, Core.claim_processArray, Function.update_self]
    decide
  · rw [Core.pcbOf_start_self]
    rfl

/-- **The child returns to its caller exactly when the viewed terminal is active** at the call. -/
theorem childReturns_iff {lay : Layout} {fs : FileSys} (hshell : ∀ env, IsExe fs shellName env)
    {k : Kernel} (hk : k.currProcess < 6) {command : List UInt8} {env : ExecEnv} {entry : UInt32}
    (hstart : (k.execute fs command env).1 = .started entry) :
    ChildReturns lay fs k command env ↔ k.core.active k.currTerminalNumber ≠ 0 := by
  obtain ⟨hchild, hpend⟩ := pending_started hstart
  constructor
  · intro hret hinactive
    -- with an inactive viewed terminal the child is a root process, and its end starts a shell
    have hroot : k.core.parentFor = minusOne := if_pos hinactive
    rw [hroot] at hpend
    have hppid : (k.execute fs command env).2.core.ppid = minusOne :=
      congrArg Prod.fst hpend.record
    obtain ⟨entry', p, ho, -⟩ := ((k.execute fs command env).2.core_haltWith fs 256 env).root_spec
      hchild hppid (hshell env)
    have hresumed := ((hret _ Reaches.refl rfl).2 env).outcome
    exact HaltOutcome.noConfusion (ho.symm.trans hresumed)
  · intro hactive k' hrun hcur
    have hparent : k.core.parentFor = k.currProcess := if_neg hactive
    rw [hparent] at hpend
    have hne : k.currProcess ≠ minusOne := fun he =>
      absurd (he ▸ hk) (show ¬ minusOne < 6 by decide)
    have hpend' : Pending k'.core (k.execute fs command env).2.currProcess
        (k.currProcess, env.frame) :=
      hrun.invariant (I := fun s => Pending s.core (k.execute fs command env).2.currProcess
        (k.currProcess, env.frame)) hpend (fun s e s' hs hok hstep => hs.step hchild hshell hok hstep)
    refine ⟨fun status env' => ⟨hpend'.returnsTo hne hcur _ env', fun h256 => ?_⟩,
      fun env' => hpend'.returnsTo hne hcur _ env'⟩
    have hlt := status.toNat_lt
    have hnat := congrArg UInt32.toNat h256
    rw [UInt8.toNat_toUInt32, show (256 : UInt32).toNat = 256 from rfl] at hnat
    omega

/-- A root process that ends is replaced by a root process. -/
theorem startsShell {fs : FileSys} {k : Kernel} (hlt : k.currProcess < 6)
    (hroot : k.callerPcb.ppid = minusOne) (eax : UInt32) {env : ExecEnv}
    (hexe : IsExe fs shellName env) : StartsShell (k.haltWith fs eax env) := by
  obtain ⟨entry, p, ho, -, -, hc⟩ :=
    (k.core_haltWith fs eax env).root_spec hlt (show k.core.ppid = minusOne from hroot) hexe
  have hcur : (k.haltWith fs eax env).2.currProcess = p := congrArg Core.currProcess hc
  have hpcb : (k.haltWith fs eax env).2.callerPcb
      = Core.freshPcb p minusOne env.frame ((k.core.endRoot.claim p shellName).pcbOf p) := by
    have hself := congrArg (fun c : Core => c.pcbOf c.currProcess) hc
    refine hself.trans ((Core.pcbOf_start_self _ _ _).trans ?_)
    have hpar : (k.core.endRoot.claim p shellName).parentFor = minusOne :=
      if_pos (Function.update_self _ _ _)
    rw [hpar]
  refine ⟨⟨entry, ho⟩, ?_, by rw [hpcb]; rfl, by rw [hpcb, hcur]; rfl, fun i hi => ?_⟩
  · have hproc := congrArg (fun c : Core => c.currentProcess c.currTerm) hc
    exact (hproc.trans (Function.update_self _ _ _)).trans hcur.symm
  · rw [hpcb]
    exact if_pos hi

/-! ## Execute and halt nest -/

/-- **When `execute` and the halts keep the state coherent and return to the caller.** In a coherent
    state, with a shell in the image and an inactive terminal behind the three:
    `execute` keeps the relation unless it starts a program while the viewed terminal runs nothing; the
    halts keep it when the process returns to a process, or is a root process and the viewed terminal
    runs something; `switch_task` keeps it. The child of a call of `execute` returns to the caller in
    every run if and only if the viewed terminal is active at the call, and a root process that ends is
    replaced by a new root shell. -/
theorem nesting_restores_caller_iff (lay : Layout) (fs : FileSys)
    (hshell : ∀ env, IsExe fs shellName env) (k : Kernel) (h : Coherent k.core)
    (hpast : (k.terminals 3).active = 0) :
    (∀ command env, Coherent (k.execute fs command env).2.core ↔
      (k.core.freeSlot ≠ none ∧ IsExe fs command env →
        (k.terminals k.currTerminalNumber).currentProcess < 6))
    ∧ (∀ status env, Coherent (k.halt fs status env).2.core ↔
      k.callerPcb.ppid < 6
        ∨ k.callerPcb.ppid = minusOne ∧ (k.terminals k.currTerminalNumber).currentProcess < 6)
    ∧ (∀ env, Coherent (k.haltFromExc fs env).2.core ↔
      k.callerPcb.ppid < 6
        ∨ k.callerPcb.ppid = minusOne ∧ (k.terminals k.currTerminalNumber).currentProcess < 6)
    ∧ (∀ frame, ∃ loaded k', k.switchTask lay frame = some (loaded, k') ∧ Coherent k'.core)
    ∧ (∀ command env entry, (k.execute fs command env).1 = .started entry →
      (ChildReturns lay fs k command env ↔ (k.terminals k.currTerminalNumber).active ≠ 0))
    ∧ (k.callerPcb.ppid = minusOne → ∀ env,
      (∀ status, StartsShell (k.halt fs status env)) ∧ StartsShell (k.haltFromExc fs env)) := by
  refine ⟨fun command env => h.exec_iff (k.core_execute fs command env),
    fun status env => h.halt_iff (k.core_haltWith fs status.toUInt32 env) (hshell env),
    fun env => h.halt_iff (k.core_haltWith fs 256 env) (hshell env), fun frame => ?_,
    fun command env entry hstart => childReturns_iff hshell h.current_lt hstart,
    fun hroot env => ⟨fun status => startsShell h.current_lt hroot _ (hshell env),
      startsShell h.current_lt hroot _ (hshell env)⟩⟩
  obtain ⟨t, ht⟩ := k.nextTerm_isSome h.currTerm_lt h.currTerm_active
  have hlt := k.nextTerm_lt ht h.currTerm_lt (fun _ => hpast)
  refine ⟨(k.switchTo lay t frame).1, (k.switchTo lay t frame).2, k.switchTask_eq lay ht frame, ?_⟩
  rw [(k.core_switchTo lay t frame).1]
  exact (h.switchTo hlt (k.nextTerm_spec ht).1 frame).congr rfl rfl rfl rfl rfl
    (Core.mapVideo_page _ _ _) rfl

theorem coherent_sampleShell : Coherent sampleShell.core := by
  constructor <;> decide +kernel

/-- The first shell runs a second one: its end returns to the first. -/
theorem nesting_restores_caller_shell :
    ChildReturns sampleLayout sampleFs sampleShell shellName (sampleEnv 102 103) :=
  ((nesting_restores_caller_iff sampleLayout sampleFs sampleFs_shell sampleShell coherent_sampleShell
    (by decide +kernel)).2.2.2.2.1 shellName (sampleEnv 102 103) 0x8048000 (by decide +kernel)).2
    (by decide +kernel)

/-- The first shell and `n` shells nested in it. -/
def sampleNested : Nat → Kernel
  | 0 => sampleShell
  | n + 1 => ((sampleNested n).execute sampleFs shellName (sampleEnv 102 103)).2

theorem reaches_sampleNested (n : Nat) :
    Reaches (Kernel.step sampleLayout sampleFs) (fun _ _ => True) sampleShell (sampleNested n) := by
  induction n with
  | zero => exact Reaches.refl
  | succ n ih => exact ih.tail (e := .execute shellName (sampleEnv 102 103)) trivial rfl

/-- With six shells the table is full; terminal 1 is chosen and cannot be opened. A tick comes back to
    terminal 0, where its store for a terminal without a process page-faults: the exception ends the sixth
    shell. -/
def sampleFull : Kernel :=
  ((((sampleNested 5).switchTerminal sampleLayout sampleFs 1 ⟨200, 201⟩ (sampleEnv 0 0)).switchTo
    sampleLayout 0 ⟨300, 301⟩).2.haltFromExc sampleFs (sampleEnv 0 0)).2

/-- The fifth shell then executes another one: terminal 1 becomes active and runs process -1. -/
theorem execute_activates_viewed_terminal :
    ¬ ∀ (lay : Layout) (fs : FileSys) (mem : BootMemory) (env : ExecEnv) (entry : UInt32),
      (∀ env, IsExe fs shellName env) →
      ((Kernel.boot lay mem).execute fs shellName env).1 = .started entry →
      ∀ k, Reaches (Kernel.step lay fs) (fun _ _ => True)
        ((Kernel.boot lay mem).execute fs shellName env).2 k →
      Coherent k.core → (k.terminals 3).active = 0 →
      ∀ command env, Coherent (k.execute fs command env).2.core := by
  intro h
  have hrun : Reaches (Kernel.step sampleLayout sampleFs) (fun _ _ => True) sampleShell sampleFull :=
    (((reaches_sampleNested 5).tail (e := .switchTerminal 1 ⟨200, 201⟩ (sampleEnv 0 0)) trivial rfl).tail
      (e := .switchTask ⟨300, 301⟩) trivial
      (Kernel.step_switchTask _ _ _ (by decide +kernel) _)).tail
      (e := .haltFromExc (sampleEnv 0 0)) trivial rfl
  have hcoherent : Coherent sampleFull.core := by constructor <;> decide +kernel
  have hafter := h sampleLayout sampleFs sampleMemory (sampleEnv 100 101) 0x8048000 sampleFs_shell
    sampleShell_started _ hrun hcoherent (by decide +kernel) shellName (sampleEnv 104 105)
  have hlt := hafter.slots 1 (by decide) (by decide +kernel)
  exact absurd hlt (by decide +kernel)

end UnixTerminal
