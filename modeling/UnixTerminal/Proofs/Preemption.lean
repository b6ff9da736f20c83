import UnixTerminal.Kernel.HaltStatements
import UnixTerminal.Library.Interleave
import UnixTerminal.Proofs.Callers
import UnixTerminal.Proofs.Records

set_option autoImplicit false

/-! # `halt` under preemption

`halt` of a process with a parent, statement by statement, with PIT ticks between the statements: each
tick goes to another terminal, whose process may make any system calls, and at last a tick comes back.
Two things go wrong. Between the assignment to `tss.esp0` and `set_curr_process` the three variables that
say who runs disagree, and the tick that comes back restores the child's values. And the slot of the
child is free from the first statement on, while its PCB is read up to the last one. `halt` returns to
the parent in every interleaving that avoids both. -/

namespace UnixTerminal

/-! ## Interleavings -/

/-- What can happen while `halt` is running on terminal `h`: ticks, and the system calls and exceptions
    of the process of another terminal. -/
def OtherStep (h : Nat) (k : Kernel) : Event → Prop
  | .switchTask _ => True
  | .switchTerminal _ _ _ => False
  | .neighbours _ => False
  | _ => k.currTerm ≠ h

/-- Before a statement of `halt` on terminal `h`: nothing happens, or a run of others that ends on that
    terminal again, in which every step meets `ok`. -/
def Preempts (lay : Layout) (fs : FileSys) (h : Nat) (ok : HaltStmt → Kernel → Event → Prop)
    (p : HaltPoint) (k k' : Kernel) : Prop :=
  k' = k ∨ (Reaches (Kernel.step lay fs) (fun k e => OtherStep h k e ∧ ok p.1 k e) k k'
    ∧ k'.currTerm = h)

/-- `halt` (or `halt_from_exc`) on terminal `h` from its first statement to its end. -/
def PreemptedHalt (lay : Layout) (fs : FileSys) (h : Nat) (ok : HaltStmt → Kernel → Event → Prop)
    (eax : UInt32) (env : ExecEnv) (l : HaltLocals) (k : Kernel) (o : HaltOutcome) (k' : Kernel) : Prop :=
  Interleaved (haltStmt fs eax env) (Preempts lay fs h ok) (.endProcess, l) k o k'

/-- No program is started in the slot of the child; the shell can be started where a root process ends;
    and the byte behind `terminals` reads as an inactive terminal. -/
def SlotKept (fs : FileSys) (child : UInt32) (k : Kernel) : Event → Prop
  | .execute command env => IsExe fs command env → k.core.freeSlot ≠ some child.toNat
  | .halt _ env => k.callerPcb.ppid = minusOne →
      IsExe fs shellName env ∧ k.core.endRoot.freeSlot ≠ some child.toNat
  | .haltFromExc env => k.callerPcb.ppid = minusOne →
      IsExe fs shellName env ∧ k.core.endRoot.freeSlot ≠ some child.toNat
  | .switchTask _ => k.currTerm = 2 → (k.terminals 3).active = 0
  | _ => True

/-- The preemptions that `halt` is safe under: none between the assignment to `tss.esp0` and
    `set_curr_process`, and none that starts a program in the child's slot. -/
def PreemptOk (fs : FileSys) (child : UInt32) (stmt : HaltStmt) (k : Kernel) (e : Event) : Prop :=
  stmt ≠ .currProcess ∧ stmt ≠ .setCurrProcess ∧ SlotKept fs child k e

/-! ## The statements are the atomic `halt` -/

section Sequential

variable {fs : FileSys} {eax : UInt32} {env : ExecEnv} {gap : HaltPoint → Kernel → Kernel → Prop}
  {l : HaltLocals} {k k' : Kernel} {o : HaltOutcome}

/-- The closing loop. -/
theorem interleaved_testFd (hgap : ∀ p k, gap p k k)
    (h : Interleaved (haltStmt fs eax env) gap (.load, l) (k.closeLoop l.curPcb) o k') :
    Interleaved (haltStmt fs eax env) gap (.testFd 2, l) k o k' := by
  unfold Kernel.closeLoop at h
  generalize hpass : (fun (k : Kernel) (i : Nat) =>
    if ((k.pcb l.curPcb).fdsArray i).flags ≠ 0 then (k.close i).2 else k) = pass at h
  have hone : ∀ (i : Nat) (s : HaltStmt) (k : Kernel), HaltStmt.afterFd i = s →
      Interleaved (haltStmt fs eax env) gap (s, l) (pass k i) o k' →
      Interleaved (haltStmt fs eax env) gap (.testFd i, l) k o k' := by
    rintro i _ k rfl hrest
    rw [← hpass] at hrest
    dsimp only at hrest
    split_ifs at hrest with hset
    · exact .step (hgap _ _) (if_pos hset) (.step (hgap _ _) rfl hrest)
    · exact .step (hgap _ _) (if_neg hset) hrest
  simp only [List.foldl_cons, List.foldl_nil] at h
  exact hone 2 _ _ rfl (hone 3 _ _ rfl (hone 4 _ _ rfl (hone 5 _ _ rfl (hone 6 _ _ rfl
    (hone 7 _ _ rfl h)))))

/-- The statements from `set_curr_process` on, with others in front of it. -/
theorem interleaved_setCurrProcess (hgap : ∀ p k, gap p k k) {k₀ : Kernel}
    (hfirst : gap (.setCurrProcess, l) k₀ k)
    (hk : ((k.setCurrProcess k.currProcess).map virtualFilePage (processPage l.curPpid)).closeLoop
      l.curPcb = k') :
    Interleaved (haltStmt fs eax env) gap (.setCurrProcess, l) k₀
      (.resumed eax ⟨(k'.pcb l.childPcb).esp0, (k'.pcb l.childPcb).ebp0⟩) k' := by
  refine .step hfirst rfl (.step (hgap _ _) rfl (interleaved_testFd hgap ?_))
  rw [hk]
  exact .done (hgap _ _) rfl

/-- The statements behind the test for a root process, up to `curr_process = cur_ppid`. -/
theorem interleaved_curPpid (hgap : ∀ p k, gap p k k)
    (h : Interleaved (haltStmt fs eax env) gap (.setCurrProcess,
        { l with
          curPpid := (k.pcb (getPcbPointer k.currProcess)).ppid
          curPcb := getPcbPointer (k.pcb (getPcbPointer k.currProcess)).ppid })
      { k with
        tssEsp0 := kernelStack (k.pcb (getPcbPointer k.currProcess)).ppid
        currProcess := (k.pcb (getPcbPointer k.currProcess)).ppid } o k') :
    Interleaved (haltStmt fs eax env) gap (.curPpid, l) k o k' :=
  .step (hgap _ _) rfl (.step (hgap _ _) rfl (.step (hgap _ _) rfl (.step (hgap _ _) rfl h)))

/-- The statements behind the test for a root process. -/
theorem interleaved_resumeParent (hgap : ∀ p k, gap p k k) :
    Interleaved (haltStmt fs eax env) gap (.curPpid, l) k (k.resumeParent eax l.childPcb).1
      (k.resumeParent eax l.childPcb).2 := by
  refine interleaved_curPpid hgap ?_
  dsimp only [Kernel.resumeParent, Kernel.enterParent]
  generalize hparent : (k.pcb (getPcbPointer k.currProcess)).ppid = parent
  generalize hk : Kernel.closeLoop _ (getPcbPointer parent) = k'
  exact interleaved_setCurrProcess hgap (hgap _ _) hk

/-- **Without preemption the statements of `halt` are the atomic `halt`.** -/
theorem interleaved_haltWith (hgap : ∀ p k, gap p k k) :
    Interleaved (haltStmt fs eax env) gap (.endProcess, l) k (k.haltWith fs eax env).1
      (k.haltWith fs eax env).2 := by
  refine .step (hgap _ _) rfl (.step (hgap _ _) rfl ?_)
  dsimp only [Kernel.haltWith]
  generalize k.endProcess k.currProcess = m
  have hrest : ∀ m' : Kernel, Interleaved (haltStmt fs eax env) gap
      (.curPpid, { l with childPcb := getPcbPointer m.currProcess }) m'
      (m'.resumeParent eax (getPcbPointer m.currProcess)).1
      (m'.resumeParent eax (getPcbPointer m.currProcess)).2 := fun m' =>
    interleaved_resumeParent (l := { l with childPcb := getPcbPointer m.currProcess }) hgap
  split_ifs with hroot
  · rcases he : (m.setTerminal m.currTerminalNumber (fun t => { t with active := 0 })).execute fs
      shellName env with ⟨v | entry, m'⟩
    · refine .step (hgap _ _) ?_ (hrest m')
      dsimp only [haltStmt]
      rw [if_pos hroot, he]
    · refine .done (hgap _ _) ?_
      dsimp only [haltStmt]
      rw [if_pos hroot, he]
  · exact .step (hgap _ _) (if_neg hroot) (hrest m)

/-- How many statements are left, at most. -/
def HaltStmt.left : HaltStmt → Nat
  | .endProcess => 23
  | .childPcb => 22
  | .root => 21
  | .curPpid => 20
  | .curPcb => 19
  | .tss => 18
  | .currProcess => 17
  | .setCurrProcess => 16
  | .map => 15
  | .testFd i => 2 * (8 - i) + 2
  | .closeFd i => 2 * (8 - i) + 1
  | .load => 0

theorem left_afterFd (i : Nat) : (HaltStmt.afterFd i).left < 2 * (8 - i) + 1 := by
  unfold HaltStmt.afterFd
  split_ifs
  · simp only [HaltStmt.left]
    omega
  · simp only [HaltStmt.left]
    omega

/-- `halt` makes progress with every statement. -/
theorem left_haltStmt {p p' : HaltPoint} (h : haltStmt fs eax env p k = (.inl p', k')) :
    p'.1.left < p.1.left := by
  obtain ⟨stmt, l⟩ := p
  cases stmt with
  | root =>
      dsimp only [haltStmt] at h
      split_ifs at h
      · split at h <;> cases h
        exact Nat.lt_succ_self 20
      · cases h
        exact Nat.lt_succ_self 20
  | testFd i =>
      have hafter := left_afterFd i
      dsimp only [haltStmt] at h
      split_ifs at h <;> cases h
      · exact Nat.lt_succ_self _
      · exact Nat.lt_succ_of_lt hafter
  | closeFd i =>
      cases h
      exact left_afterFd i
  | load => cases h
  | _ =>
      cases h
      exact Nat.lt_succ_self _

end Sequential

/-! ## What the others can do -/

/-- The processes of the other terminals and their ancestors, none of which is the child. -/
structure Away (c : Core) (h : Nat) (child : UInt32) (S : UInt32 → Prop) : Prop where
  currTerm_lt : c.currTerm < 3
  viewed_lt : c.currTerminalNumber < 3
  viewed_active : c.active c.currTerminalNumber ≠ 0
  others : ∀ p, S p → p < 6 ∧ p ≠ child ∧ (c.parentOf p = minusOne ∨ S (c.parentOf p))
  terminals : ∀ t, t < 3 → t ≠ h → c.active t ≠ 0 → S (c.currentProcess t)
  current : c.currTerm ≠ h → S c.currProcess

/-- What `halt` on terminal `h` finds again when control comes back: the record of the child, process
    `x` on the terminal and, on that terminal, `curr_process`, `tss.esp0` and the user page as `Q`
    says. -/
structure Held (c : Core) (h : Nat) (child : UInt32) (record : UInt32 × Frame) (x : UInt32)
    (Q : UInt32 → UInt32 → Prop) : Prop where
  record : (c.pcbOf child).callRecord = record
  terminal : c.currentProcess h = x
  home : c.currTerm = h → c.currProcess = x ∧ Q c.tssEsp0 (c.pageDirectory 32)

section Others

variable {lay : Layout} {fs : FileSys} {c c' : Core} {h : Nat} {child : UInt32} {S : UInt32 → Prop}
  {record : UInt32 × Frame} {x : UInt32} {Q : UInt32 → UInt32 → Prop}

/-- Edits that keep the parents. -/
theorem Away.of_edit (ha : Away c h child S) (hpar : ∀ p, c'.parentOf p = c.parentOf p)
    (hterm : c'.currTerm = c.currTerm) (hview : c'.currTerminalNumber = c.currTerminalNumber)
    (hact : c'.active = c.active) (hproc : c'.currentProcess = c.currentProcess)
    (hcur : c'.currProcess = c.currProcess) : Away c' h child S := by
  obtain ⟨h1, h2, h3, h4, h5, h6⟩ := ha
  constructor
  · rwa [hterm]
  · rwa [hview]
  · rwa [hact, hview]
  · intro p hp
    rw [hpar p]
    exact h4 p hp
  · rwa [hact, hproc]
  · rwa [hterm, hcur]

theorem Away.claim (ha : Away c h child S) (p : UInt32) (command : List UInt8) :
    Away (c.claim p command) h child S :=
  ha.of_edit (c.field_claim (·.ppid) (fun _ => rfl) p) rfl rfl rfl rfl rfl

/-- The start of a program on another terminal, in another slot. -/
theorem away_start (hterm : c.currTerm < 3) (hview : c.currTerminalNumber < 3) {p : UInt32} (hp : p < 6)
    (hne : p ≠ child)
    (hothers : ∀ q, S q → q < 6 ∧ q ≠ child ∧ (c.parentOf q = minusOne ∨ S (c.parentOf q)))
    (hpar : c.parentFor = minusOne ∨ S c.parentFor)
    (hterms : ∀ t, t < 3 → t ≠ h → c.active t ≠ 0 ∨ t = c.currTerminalNumber → S (c.currentProcess t))
    (frame : Frame) : Away (c.start p frame) h child (fun q => q = p ∨ S q) := by
  refine ⟨hterm, hview, c.active_start_viewed p frame, fun q hq => ?_, fun t ht hth hact => ?_,
    fun _ => Or.inl rfl⟩
  · by_cases hqp : q = p
    · rw [hqp, (Core.parentOf_start hp frame).1]
      exact ⟨hp, hne, hpar.imp id Or.inr⟩
    · obtain ⟨hlt, hqc, hq'⟩ := hothers q (hq.resolve_left hqp)
      rw [(Core.parentOf_start hp frame).2 q hlt hqp]
      exact ⟨hlt, hqc, hq'.imp id Or.inr⟩
  · rw [Core.start_currentProcess, Function.update_apply]
    split_ifs with hcur
    · exact Or.inl rfl
    · refine Or.inr (hterms t ht hth ?_)
      by_cases hnew : t = c.currTerminalNumber
      · exact Or.inr hnew
      · left
        rwa [c.active_start_of_ne p frame hnew] at hact

/-- `execute` by a process of another terminal. -/
theorem Away.exec (ha : Away c h child S) (hother : c.currTerm ≠ h) {command : List UInt8}
    {env : ExecEnv} {o : ExecOutcome} (hexec : c.Exec fs command env o c')
    (hslot : IsExe fs command env → c.freeSlot ≠ some child.toNat) :
    (∃ S', Away c' h child S') ∧ (o.isStarted = true → child ≠ c'.currProcess)
      ∧ c'.currTerm = c.currTerm ∧ c'.currentProcess h = c.currentProcess h := by
  cases hexec with
  | full => exact ⟨⟨S, ha⟩, fun hs => Bool.noConfusion hs, rfl, rfl⟩
  | @notFound p =>
      refine ⟨⟨S, ?_⟩, fun hs => Bool.noConfusion hs, rfl, rfl⟩
      exact (ha.claim p command).of_edit (fun _ => rfl) rfl rfl rfl rfl rfl
  | @notExe p => exact ⟨⟨S, ha.claim p command⟩, fun hs => Bool.noConfusion hs, rfl, rfl⟩
  | @started p inode entry hp hfree hfile =>
      have hne : p ≠ child := fun he => hslot ⟨inode, entry, hfile⟩ (he ▸ hfree)
      have hparent : c.parentFor = c.currProcess := if_neg ha.viewed_active
      have hS : S c.parentFor := hparent ▸ ha.current hother
      have ha' := ha.claim p command
      refine ⟨⟨_, away_start (c := c.claim p command) ha.currTerm_lt ha.viewed_lt hp hne ha'.others
        (Or.inr hS) (fun t ht hth hact => ?_) env.frame⟩, fun _ => hne.symm, rfl,
        Function.update_of_ne (Ne.symm hother) _ _⟩
      exact ha.terminals t ht hth (hact.elim id (fun he => he ▸ ha.viewed_active))

/-- The halts of a process of another terminal. -/
theorem Away.halt (ha : Away c h child S) (hother : c.currTerm ≠ h) {eax : UInt32} {env : ExecEnv}
    {o : HaltOutcome} (hhalt : c.Halt fs eax env o c')
    (hslot : c.ppid = minusOne → IsExe fs shellName env ∧ c.endRoot.freeSlot ≠ some child.toNat) :
    (∃ S', Away c' h child S') ∧ (o.isRestarted = true → child ≠ c'.currProcess)
      ∧ c'.currTerm = c.currTerm ∧ c'.currentProcess h = c.currentProcess h := by
  obtain ⟨hlt, -, hpar⟩ := ha.others _ (ha.current hother)
  by_cases hroot : c.ppid = minusOne
  · obtain ⟨hexe, hfree⟩ := hslot hroot
    obtain ⟨entry, p, rfl, hp, hslot', rfl⟩ := hhalt.root_spec hlt hroot hexe
    have hne : p ≠ child := fun he => hfree (he ▸ hslot')
    have hothers : ∀ q, S q → q < 6 ∧ q ≠ child
        ∧ ((c.endRoot.claim p shellName).parentOf q = minusOne
          ∨ S ((c.endRoot.claim p shellName).parentOf q)) := by
      intro q hq
      have hsame : (c.endRoot.claim p shellName).parentOf q = c.parentOf q :=
        c.endRoot.field_claim (·.ppid) (fun _ => rfl) p q
      rw [hsame]
      exact ha.others q hq
    refine ⟨⟨_, away_start (c := c.endRoot.claim p shellName) ha.currTerm_lt ha.viewed_lt hp hne hothers
      (Or.inl (if_pos (Function.update_self _ _ _))) (fun t ht hth hact => ?_) env.frame⟩,
      fun _ => hne.symm, rfl, Function.update_of_ne (Ne.symm hother) _ _⟩
    refine ha.terminals t ht hth ?_
    by_cases hnew : t = c.currTerminalNumber
    · exact hnew ▸ ha.viewed_active
    · exact endRoot_active_of_ne c hnew ▸ hact.resolve_right hnew
  · obtain ⟨rfl, rfl⟩ := hhalt.parent_spec hroot
    have hS : S c.ppid := hpar.resolve_left hroot
    refine ⟨⟨S, ha.currTerm_lt, ha.viewed_lt, ha.viewed_active, fun q hq => ?_,
      fun t ht hth hact => ?_, fun _ => hS⟩, fun hs => Bool.noConfusion hs, rfl,
      Function.update_of_ne (Ne.symm hother) _ _⟩
    · have hsame : ((c.release c.currProcess).resume c.ppid).parentOf q = c.parentOf q :=
        Core.field_resume _ (·.ppid) (fun _ => rfl) _ q
      rw [hsame]
      exact ha.others q hq
    · rw [Core.resume_currentProcess, Function.update_apply]
      split_ifs
      · exact hS
      · exact ha.terminals t ht hth hact

/-- A tick, from whichever terminal. -/
theorem Away.switchTo (ha : Away c h child S) {t : Nat} (ht : t < 3) (hact : c.active t ≠ 0)
    (frame : Frame) : Away (c.switchTo t frame) h child S := by
  refine ⟨ht, ha.viewed_lt, ha.viewed_active, fun q hq => ?_, ha.terminals, fun hth => ?_⟩
  · have hsame : (c.switchTo t frame).parentOf q = c.parentOf q :=
      c.field_switchTo (·.ppid) (fun _ => rfl) t q
    rw [hsame]
    exact ha.others q hq
  · have hS := ha.terminals t ht hth hact
    rw [Core.switchTo_currProcess, toUInt8_toUInt32 (ha.others _ hS).1]
    exact hS

/-- The system calls on descriptors, by a process of another terminal. -/
theorem Away.edit (ha : Away c h child S) (hother : c.currTerm ≠ h) (hchild : child < 6) {q : Pcb}
    (hq : FdEdit (c.pcbOf c.currProcess) q) :
    Away (c.setPcb c.currProcess (fun _ => q)) h child S
      ∧ (c.setPcb c.currProcess (fun _ => q)).pcbOf child = c.pcbOf child := by
  obtain ⟨hlt, hne, -⟩ := ha.others _ (ha.current hother)
  constructor
  · refine ha.of_edit (fun p => ?_) rfl rfl rfl rfl rfl
    rw [Core.parentOf, Core.pcbOf, Core.setPcb_pcb, Function.update_apply]
    split_ifs with he
    · rw [Core.parentOf, Core.pcbOf, he]
      exact hq.ppid
    · rfl
  · rw [Core.pcbOf_setPcb _ _ hlt hchild, if_neg (Ne.symm hne)]

/-- Control is elsewhere. -/
theorem Held.elsewhere (hh : Held c h child record x Q)
    (hrec : (c'.pcbOf child).callRecord = (c.pcbOf child).callRecord)
    (hproc : c'.currentProcess h = c.currentProcess h) (hterm : c'.currTerm ≠ h) :
    Held c' h child record x Q :=
  ⟨hrec.trans hh.record, hproc.trans hh.terminal, fun he => absurd he hterm⟩

/-- A tick: where it comes back, it restores the values of process `x`. -/
theorem Held.switchTo (hh : Held c h child record x Q) (hx : x < 6)
    (hQ : Q (kernelStack x) (processPage x ||| 0x87)) (t : Nat) (frame : Frame) (phys : UInt32) :
    Held ((c.switchTo t frame).mapVideo lay phys) h child record x Q := by
  refine ⟨(c.field_switchTo Pcb.callRecord (fun _ => rfl) t child).trans hh.record, hh.terminal,
    fun (he : t = h) => ?_⟩
  have hpid : c.currentProcess t = x := he ▸ hh.terminal
  have hpid' : (c.currentProcess t).toUInt8.toUInt32 = x := by rw [hpid, toUInt8_toUInt32 hx]
  refine ⟨hpid', ?_⟩
  rw [Core.mapVideo_page, Core.switchTo_pageDirectory, Core.userPageDirectory_page, hpid',
    Core.mapVideo_tssEsp0, Core.switchTo_tssEsp0, hpid]
  exact hQ

/-- The invariant while others run. -/
def GapInv (c : Core) (h : Nat) (child : UInt32) (record : UInt32 × Frame) (x : UInt32)
    (Q : UInt32 → UInt32 → Prop) : Prop :=
  (∃ S, Away c h child S) ∧ Held c h child record x Q

theorem Core.Local.gapInv (hlocal : c.Local lay c') (hchild : child < 6) (hother : c.currTerm ≠ h)
    (hinv : GapInv c h child record x Q) : GapInv c' h child record x Q := by
  obtain ⟨⟨S, ha⟩, hh⟩ := hinv
  cases hlocal with
  | edit hq =>
      obtain ⟨ha', hpcb⟩ := ha.edit hother hchild hq
      exact ⟨⟨S, ha'⟩, hh.elsewhere (congrArg Pcb.callRecord hpcb) rfl hother⟩
  | video =>
      exact ⟨⟨S, ha.of_edit (fun _ => rfl) rfl rfl rfl rfl rfl⟩, hh.elsewhere rfl rfl hother⟩

theorem gapInv_step {k k' : Kernel} {e : Event} (hchild : child < 6) (hx : x < 6)
    (hQ : Q (kernelStack x) (processPage x ||| 0x87)) (hinv : GapInv k.core h child record x Q)
    (hother : OtherStep h k e) (hslot : SlotKept fs child k e) (hstep : k.step lay fs e = some k') :
    GapInv k'.core h child record x Q := by
  obtain ⟨⟨S, ha⟩, hh⟩ := hinv
  cases e with
  | execute command env =>
      cases hstep
      have hexec := k.core_execute fs command env
      obtain ⟨hS, hne, hterm, hproc⟩ := ha.exec hother hexec hslot
      exact ⟨hS, hh.elsewhere (hexec.record hchild hne) hproc (hterm.trans_ne hother)⟩
  | halt status env =>
      cases hstep
      have hhalt := k.core_haltWith fs status.toUInt32 env
      obtain ⟨hS, hne, hterm, hproc⟩ := ha.halt hother hhalt hslot
      exact ⟨hS, hh.elsewhere (hhalt.record hchild hne) hproc (hterm.trans_ne hother)⟩
  | haltFromExc env =>
      cases hstep
      have hhalt := k.core_haltWith fs 256 env
      obtain ⟨hS, hne, hterm, hproc⟩ := ha.halt hother hhalt hslot
      exact ⟨hS, hh.elsewhere (hhalt.record hchild hne) hproc (hterm.trans_ne hother)⟩
  | switchTask frame =>
      obtain ⟨r, hr, rfl⟩ := Option.map_eq_some_iff.1 hstep
      obtain ⟨t, ht, rfl⟩ := Option.map_eq_some_iff.1 hr
      have hlt := k.nextTerm_lt ht ha.currTerm_lt hslot
      rw [(k.core_switchTo lay t frame).1]
      exact ⟨⟨S, (ha.switchTo hlt (k.nextTerm_spec ht).1 frame).of_edit (fun _ => rfl) rfl rfl rfl rfl
        rfl⟩, hh.switchTo hx hQ t frame _⟩
  | switchTerminal newt frame env => exact hother.elim
  | neighbours past => exact hother.elim
  | _ => exact ((k.core_step lay fs hstep).toLocal trivial).gapInv hchild hother ⟨⟨S, ha⟩, hh⟩

theorem gapInv_run {k k' : Kernel} {stmt : HaltStmt} (hchild : child < 6) (hx : x < 6)
    (hQ : Q (kernelStack x) (processPage x ||| 0x87)) (hinv : GapInv k.core h child record x Q)
    (hrun : Reaches (Kernel.step lay fs) (fun k e => OtherStep h k e ∧ PreemptOk fs child stmt k e)
      k k') : GapInv k'.core h child record x Q :=
  hrun.invariant (I := fun k => GapInv k.core h child record x Q) hinv
    (fun _ _ _ hs hok hstep => gapInv_step hchild hx hQ hs hok.1 hok.2.2.2 hstep)

end Others

/-! ## The assertions -/

/-- The assertion at each statement of `halt` of process `child` on terminal `h`: up to the assignment
    to `curr_process` the terminal runs the child, from `set_curr_process` on it runs the parent. -/
def HaltAssert (h : Nat) (child parent : UInt32) (frame : Frame) (p : HaltPoint) (k : Kernel) : Prop :=
  let asChild := GapInv k.core h child (parent, frame) child (fun _ _ => True)
  let asParent := GapInv k.core h child (parent, frame) parent
    (fun esp0 page => esp0 = kernelStack parent ∧ page = processPage parent ||| 0x87)
  let hasChild := p.2.childPcb = getPcbPointer child
  let hasParent := p.2.curPpid = parent
  k.currTerm = h ∧ match p.1 with
  | .endProcess => asChild
  | .childPcb => asChild
  | .root => asChild ∧ hasChild
  | .curPpid => asChild ∧ hasChild
  | .curPcb => asChild ∧ hasChild ∧ hasParent
  | .tss => asChild ∧ hasChild ∧ hasParent
  | .currProcess => asChild ∧ hasChild ∧ hasParent ∧ k.tssEsp0 = kernelStack parent
  | .setCurrProcess =>
      (∃ S, Away k.core h child S) ∧ (k.core.pcbOf child).callRecord = (parent, frame)
        ∧ hasChild ∧ hasParent ∧ k.tssEsp0 = kernelStack parent ∧ k.currProcess = parent
  | .map =>
      GapInv k.core h child (parent, frame) parent (fun esp0 _ => esp0 = kernelStack parent)
        ∧ hasChild ∧ hasParent
  | .testFd _ => asParent ∧ hasChild
  | .closeFd _ => asParent ∧ hasChild
  | .load => asParent ∧ hasChild

section Assertions

variable {lay : Layout} {fs : FileSys} {h : Nat} {child parent : UInt32} {frame : Frame}

/-- The assertions are stable under the preemptions. -/
theorem haltAssert_stable (hchild : child < 6) (hparent : parent < 6) {p : HaltPoint} {k k' : Kernel}
    (hk : HaltAssert h child parent frame p k)
    (hgap : Preempts lay fs h (PreemptOk fs child) p k k') : HaltAssert h child parent frame p k' := by
  rcases hgap with rfl | ⟨hrun, hterm⟩
  · exact hk
  obtain ⟨stmt, l⟩ := p
  obtain ⟨-, hk⟩ := hk
  refine ⟨hterm, ?_⟩
  -- no step is allowed in the two gaps in which the variables disagree
  have hsame : stmt = .currProcess ∨ stmt = .setCurrProcess → k' = k := fun hstmt =>
    hrun.invariant (I := fun s => s = k) rfl (fun _ _ _ _ hok _ =>
      hstmt.elim (fun he => absurd he hok.2.1) (fun he => absurd he hok.2.2.1))
  cases stmt with
  | endProcess => exact gapInv_run hchild hchild trivial hk hrun
  | childPcb => exact gapInv_run hchild hchild trivial hk hrun
  | root => exact ⟨gapInv_run hchild hchild trivial hk.1 hrun, hk.2⟩
  | curPpid => exact ⟨gapInv_run hchild hchild trivial hk.1 hrun, hk.2⟩
  | curPcb => exact ⟨gapInv_run hchild hchild trivial hk.1 hrun, hk.2⟩
  | tss => exact ⟨gapInv_run hchild hchild trivial hk.1 hrun, hk.2⟩
  | currProcess => exact hsame (Or.inl rfl) ▸ hk
  | setCurrProcess => exact hsame (Or.inr rfl) ▸ hk
  | map => exact ⟨gapInv_run hchild hparent rfl hk.1 hrun, hk.2⟩
  | testFd i => exact ⟨gapInv_run hchild hparent ⟨rfl, rfl⟩ hk.1 hrun, hk.2⟩
  | closeFd i => exact ⟨gapInv_run hchild hparent ⟨rfl, rfl⟩ hk.1 hrun, hk.2⟩
  | load => exact ⟨gapInv_run hchild hparent ⟨rfl, rfl⟩ hk.1 hrun, hk.2⟩

/-- The child's PCB still has its parent at the test for a root process. -/
theorem haltAssert_root {l : HaltLocals} {k : Kernel} (hroot : parent ≠ minusOne)
    (hk : HaltAssert h child parent frame (.root, l) k) : (k.pcb l.childPcb).ppid ≠ minusOne := by
  obtain ⟨-, ⟨-, hh⟩, hpcb⟩ := hk
  have hppid : (k.pcb (getPcbPointer child)).ppid = parent := congrArg Prod.fst hh.record
  rw [show l.childPcb = getPcbPointer child from hpcb, hppid]
  exact hroot

/-- A write to the terminal's process, on the terminal itself. -/
theorem gapInv_setCurrProcess {k : Kernel} {Q : UInt32 → UInt32 → Prop} (hterm : k.currTerm = h)
    (ha : ∃ S, Away k.core h child S) (hrec : (k.core.pcbOf child).callRecord = (parent, frame))
    (hcur : k.currProcess = parent) (hQ : Q k.tssEsp0 (k.pageDirectory 32)) :
    GapInv (k.setCurrProcess k.currProcess).core h child (parent, frame) parent Q := by
  obtain ⟨S, ha⟩ := ha
  rw [Kernel.core_setCurrProcess, hterm]
  refine ⟨⟨S, ha.currTerm_lt, ha.viewed_lt, ha.viewed_active, ha.others, fun t ht hth hact => ?_,
    ha.current⟩, hrec, ?_, fun _ => ⟨hcur, hQ⟩⟩
  · show S (Function.update k.core.currentProcess h k.currProcess t)
    rw [Function.update_of_ne hth]
    exact ha.terminals t ht hth hact
  · exact (Function.update_self _ _ _).trans hcur

/-- `close` in the closing loop. -/
theorem gapInv_close {k : Kernel} {x : UInt32} {Q : UInt32 → UInt32 → Prop} {record : UInt32 × Frame}
    (hinv : GapInv k.core h child record x Q) (fd : Int) :
    GapInv (k.close fd).2.core h child record x Q ∧ (k.close fd).2.currTerm = k.currTerm := by
  obtain ⟨⟨S, ha⟩, hh⟩ := hinv
  have hrec := fun q => keptField_callRecord.close k fd (q := q)
  obtain ⟨q, -, hcore⟩ := k.core_close fd
  refine ⟨⟨⟨S, ?_⟩, ?_⟩, congrArg Core.currTerm hcore⟩
  · exact ha.of_edit (fun p => congrArg Prod.fst (hrec p)) (hcore ▸ rfl) (hcore ▸ rfl) (hcore ▸ rfl)
      (hcore ▸ rfl) (hcore ▸ rfl)
  · refine ⟨(hrec child).trans hh.record, hcore ▸ hh.terminal, ?_⟩
    rw [hcore]
    exact hh.home

/-- Behind a pass of the closing loop. -/
theorem haltAssert_afterFd {l : HaltLocals} {k : Kernel} {i : Nat}
    (hk : HaltAssert h child parent frame (.load, l) k) :
    HaltAssert h child parent frame (.afterFd i, l) k := by
  unfold HaltStmt.afterFd
  split_ifs
  · exact hk
  · exact hk

/-- Each statement leads from its assertion to the next one. -/
theorem haltAssert_step {eax : UInt32} {env : ExecEnv} (hroot : parent ≠ minusOne) {p p' : HaltPoint}
    {k k' : Kernel} (hk : HaltAssert h child parent frame p k)
    (hexec : haltStmt fs eax env p k = (.inl p', k')) : HaltAssert h child parent frame p' k' := by
  obtain ⟨stmt, l⟩ := p
  have hterm := hk.1
  cases stmt with
  | endProcess =>
      cases hexec
      obtain ⟨-, ⟨S, ha⟩, hh⟩ := hk
      exact ⟨hterm, ⟨S, ha.of_edit (fun _ => rfl) rfl rfl rfl rfl rfl⟩, hh.record, hh.terminal, hh.home⟩
  | childPcb =>
      cases hexec
      have hcur : k.currProcess = child := (hk.2.2.home hterm).1
      exact ⟨hterm, hk.2, congrArg getPcbPointer hcur⟩
  | root =>
      have hskip : haltStmt fs eax env (.root, l) k = (.inl (.curPpid, l), k) :=
        if_neg (haltAssert_root hroot hk)
      cases hskip.symm.trans hexec
      exact hk
  | curPpid =>
      cases hexec
      have hcur : k.currProcess = child := (hk.2.1.2.home hterm).1
      have hppid : (k.pcb (getPcbPointer child)).ppid = parent := congrArg Prod.fst hk.2.1.2.record
      exact ⟨hterm, hk.2.1, hk.2.2, by rw [hcur]; exact hppid⟩
  | curPcb =>
      cases hexec
      exact hk
  | tss =>
      cases hexec
      obtain ⟨-, ⟨⟨S, ha⟩, hh⟩, hpcb, hpar⟩ := hk
      exact ⟨hterm, ⟨⟨S, ha.of_edit (fun _ => rfl) rfl rfl rfl rfl rfl⟩, hh.record, hh.terminal,
        fun _ => ⟨(hh.home hterm).1, trivial⟩⟩, hpcb, hpar, congrArg kernelStack hpar⟩
  | currProcess =>
      cases hexec
      obtain ⟨-, ⟨⟨S, ha⟩, hh⟩, hpcb, hpar, htss⟩ := hk
      exact ⟨hterm, ⟨S, ha.currTerm_lt, ha.viewed_lt, ha.viewed_active, ha.others, ha.terminals,
        fun hne => absurd hterm hne⟩, hh.record, hpcb, hpar, htss, hpar⟩
  | setCurrProcess =>
      cases hexec
      obtain ⟨-, ha, hrec, hpcb, hpar, htss, hcur⟩ := hk
      exact ⟨hterm, gapInv_setCurrProcess hterm ha hrec hcur htss, hpcb, hpar⟩
  | map =>
      cases hexec
      obtain ⟨-, ⟨⟨S, ha⟩, hh⟩, hpcb, hpar⟩ := hk
      refine ⟨hterm, ⟨⟨S, ha.of_edit (fun _ => rfl) rfl rfl rfl rfl rfl⟩, hh.record, hh.terminal,
        fun _ => ⟨(hh.home hterm).1, (hh.home hterm).2, ?_⟩⟩, hpcb⟩
      rw [Kernel.core_map, show l.curPpid = parent from hpar]
      exact k.core.userPageDirectory_page parent
  | testFd i =>
      dsimp only [haltStmt] at hexec
      split_ifs at hexec
      · cases hexec
        exact hk
      · cases hexec
        exact haltAssert_afterFd hk
  | closeFd i =>
      cases hexec
      obtain ⟨hinv, hterm'⟩ := gapInv_close hk.2.1 i
      exact haltAssert_afterFd ⟨hterm'.trans hterm, hinv, hk.2.2⟩
  | load => cases hexec

/-- The last statement loads the frame of the parent's call. -/
theorem haltAssert_done {eax : UInt32} {env : ExecEnv} (hroot : parent ≠ minusOne) {p : HaltPoint}
    {k k' : Kernel} {o : HaltOutcome} (hk : HaltAssert h child parent frame p k)
    (hexec : haltStmt fs eax env p k = (.inr o, k')) :
    ReturnsTo (o, k') eax frame parent ∧ k'.currTerm = h := by
  obtain ⟨stmt, l⟩ := p
  have hterm := hk.1
  cases stmt with
  | root =>
      have hskip : haltStmt fs eax env (.root, l) k = (.inl (.curPpid, l), k) :=
        if_neg (haltAssert_root hroot hk)
      cases hskip.symm.trans hexec
  | testFd i =>
      dsimp only [haltStmt] at hexec
      split_ifs at hexec <;> cases hexec
  | load =>
      cases hexec
      obtain ⟨-, ⟨-, hh⟩, hpcb⟩ := hk
      obtain ⟨hcur, hstack, hpage⟩ := hh.home hterm
      have hframe : (⟨(k.pcb l.childPcb).esp0, (k.pcb l.childPcb).ebp0⟩ : Frame) = frame := by
        rw [show l.childPcb = getPcbPointer child from hpcb]
        exact congrArg Prod.snd hh.record
      exact ⟨⟨congrArg (HaltOutcome.resumed eax) hframe, hcur, hterm.symm ▸ hh.terminal, hpage,
        hstack⟩, hterm⟩
  | _ => cases hexec

end Assertions

/-! ## `halt` returns to the parent -/

/-- The processes on the stacks of the other terminals keep away from the process that halts. -/
theorem Nest.away {c : Core} {stk : Nat → List UInt32} (hn : Nest c stk) :
    Away c c.currTerm c.currProcess (fun p => ∃ t, t ≠ c.currTerm ∧ p ∈ stk t) := by
  obtain ⟨l, hl⟩ := hn.top
  refine ⟨hn.currTerm_lt, hn.viewed_lt, hn.viewed_active, ?_, fun t ht hth hact => ?_,
    fun hne => absurd rfl hne⟩
  · rintro p ⟨t, hth, hp⟩
    refine ⟨(hn.slot t p hp).1, fun he => hth ?_,
      ((hn.linked t).parent_mem hp).imp id (fun hm => ⟨t, hth, hm⟩)⟩
    exact hn.separate.eq_of_mem t c.currTerm p hp (he ▸ hl ▸ List.mem_cons_self)
  · obtain ⟨l', hl'⟩ := hn.running t ht hact
    exact ⟨t, hth, hl' ▸ List.mem_cons_self⟩

/-- `halt(status)` in state `k` ends whatever the others choose to do in the gaps, and it ends by
    resuming the recorded parent with the recorded frame. -/
def HaltReturns (lay : Layout) (fs : FileSys) (ok : HaltStmt → Kernel → Event → Prop) (status : UInt8)
    (env : ExecEnv) (l : HaltLocals) (k : Kernel) (record : UInt32 × Frame) : Prop :=
  (∀ others : HaltPoint → Kernel → Kernel,
    (∀ p k', Preempts lay fs k.currTerm ok p k' (others p k')) →
    ∃ o k', PreemptedHalt lay fs k.currTerm ok status.toUInt32 env l k o k')
  ∧ ∀ o k', PreemptedHalt lay fs k.currTerm ok status.toUInt32 env l k o k' →
      ReturnsTo (o, k') status.toUInt32 record.2 record.1 ∧ k'.currTerm = k.currTerm

/-- The first shell on terminal 0, behind a tick, runs a third one beside the shell of terminal 1. -/
def sampleChild : Kernel := (sampleTwo.execute sampleFs shellName (sampleEnv 106 107)).2

/-- The records at that state: process 2 was started by process 0. -/
theorem reaches_sampleChild : ∃ record : UInt32 → UInt32 × Frame, record 2 = (0, ⟨106, 107⟩)
    ∧ Reaches (withGhost (Kernel.step sampleLayout sampleFs) (recordAfter sampleFs))
      (fun s e => RecordOk sampleFs s.1 e)
      (sampleShell, fun _ => sampleShell.callerPcb.callRecord) (sampleChild, record) := by
  have hstart : Reaches (withGhost (Kernel.step sampleLayout sampleFs) (recordAfter sampleFs))
      (fun s e => RecordOk sampleFs s.1 e)
      (sampleShell, fun _ => sampleShell.callerPcb.callRecord) (sampleTwo, _) :=
    (Reaches.refl.tail (e := .switchTerminal 1 ⟨200, 201⟩ (sampleEnv 102 103))
      ⟨fun _ => ⟨by decide +kernel, sampleFs_shell _⟩, fun _ he => Event.noConfusion he⟩
      (withGhost_of_step rfl _)).tail
      (e := .switchTask ⟨300, 301⟩)
      ⟨fun h2 => absurd h2 (by decide +kernel), fun _ he => Event.noConfusion he⟩
      (withGhost_of_step (Kernel.step_switchTask _ _ _ (by decide +kernel) _) _)
  have hkeep : KeepsTable sampleFs sampleTwo.core shellName (sampleEnv 106 107) := by
    obtain ⟨inode, entry, hexe⟩ := sampleFs_shell (sampleEnv 106 107)
    right
    rw [hexe]
    exact FileCheck.noConfusion
  have hlaunch : sampleTwo.launches sampleFs (.execute shellName (sampleEnv 106 107)) = true := by
    decide +kernel
  refine ⟨_, ?_, hstart.tail (e := .execute shellName (sampleEnv 106 107))
    ⟨hkeep, fun _ he => Event.noConfusion he⟩ (withGhost_of_step rfl _)⟩
  have hcur : sampleChild.currProcess = 2 := by decide +kernel
  have hrec : sampleChild.callerPcb.callRecord = (0, ⟨106, 107⟩) := by decide +kernel
  rw [recordAfter, if_pos hlaunch]
  exact (congrArg (Function.update _ · _ 2) hcur).trans ((Function.update_self _ _ _).trans hrec)

/-- `halt` of process 2 behind the statement `curr_process = cur_ppid`. -/
def sampleHalting : Kernel :=
  let k := sampleChild.endProcess sampleChild.currProcess
  { k with
    tssEsp0 := kernelStack (k.pcb (getPcbPointer k.currProcess)).ppid
    currProcess := (k.pcb (getPcbPointer k.currProcess)).ppid }

/-- Two ticks: to terminal 1 and back. -/
def sampleBack : Kernel :=
  ((sampleHalting.switchTo sampleLayout 1 ⟨400, 401⟩).2.switchTo sampleLayout 0 ⟨500, 501⟩).2

end UnixTerminal
