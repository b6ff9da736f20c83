import UnixTerminal.Library.Run
import UnixTerminal.Proofs.ChildFiles
import UnixTerminal.Proofs.CommandSplit

set_option autoImplicit false

/-! # From the command to `getargs`

The arguments of a program lie in its PCB from its start on. What the kernel writes to a PCB later does
not touch them (`SlotField`), unless a program is started in the same slot; so `getargs` finds them
there whatever the process did before. The arrays that `execute` fills on the way have 128 bytes each,
and nothing compares the length of the command with that. -/

namespace UnixTerminal

variable {lay : Layout} {fs : FileSys} {β : Type} {field : Pcb → β} {q : UInt32}

/-! ## What stays in a PCB -/

/-- A reading of a PCB that the calls on descriptors, the closing of a table and the scheduler leave
    alone. -/
structure SlotField (field : Pcb → β) : Prop where
  fdEdit : ∀ {p p' : Pcb}, FdEdit p p' → field p' = field p
  closeAll : ∀ x, field (Core.closeAll x) = field x
  saveFrame : ∀ frame x, field (Core.saveFrame frame x) = field x

theorem slotField_args : SlotField Pcb.args := ⟨FdEdit.args, fun _ => rfl, fun _ _ => rfl⟩

theorem slotField_ppid : SlotField Pcb.ppid := ⟨FdEdit.ppid, fun _ => rfl, fun _ _ => rfl⟩

/-- The slot that an event takes for a new program. -/
def Kernel.claims (k : Kernel) : Event → Option Nat
  | .execute _ _ => k.core.freeSlot
  | .halt _ _ => if k.core.ppid = minusOne then k.core.endRoot.freeSlot else none
  | .haltFromExc _ => if k.core.ppid = minusOne then k.core.endRoot.freeSlot else none
  | .switchTerminal newt _ _ => if k.Opens newt then k.core.freeSlot else none
  | _ => none

/-- `execute` writes the PCB of the slot that it takes, and no other. -/
theorem Core.Exec.pcbOf_eq {c c' : Core} {command : List UInt8} {env : ExecEnv} {o : ExecOutcome}
    (h : c.Exec fs command env o c') (hq : q < 6) (hslot : c.freeSlot ≠ some q.toNat) :
    c'.pcbOf q = c.pcbOf q := by
  have hclaim : ∀ {p : UInt32}, p < 6 → c.freeSlot = some p.toNat → q ≠ p ∧
      (c.claim p command).pcbOf q = c.pcbOf q := by
    intro p hp hfree
    have hne : q ≠ p := fun he => hslot (he ▸ hfree)
    exact ⟨hne, by rw [c.pcbOf_claim command hp hq, if_neg hne]⟩
  cases h with
  | full => rfl
  | notFound hp hfree => exact (hclaim hp hfree).2
  | notExe hp hfree => exact (hclaim hp hfree).2
  | started hp hfree =>
      obtain ⟨hne, hsame⟩ := hclaim hp hfree
      rw [Core.pcbOf_start _ _ hp hq, if_neg hne, hsame]

namespace SlotField

theorem halt (hf : SlotField field) (hq : q < 6) {c c' : Core} {eax : UInt32} {env : ExecEnv}
    {o : HaltOutcome} (h : c.Halt fs eax env o c')
    (hslot : c.ppid = minusOne → c.endRoot.freeSlot ≠ some q.toNat) :
    field (c'.pcbOf q) = field (c.pcbOf q) := by
  cases h with
  | toParent => exact Core.field_resume _ field hf.closeAll _ q
  | restarted hroot hexec =>
      rw [hexec.pcbOf_eq hq (hslot hroot)]
      rfl
  | stuck hroot hexec =>
      rw [Core.field_resume _ field hf.closeAll, hexec.pcbOf_eq hq (hslot hroot)]
      rfl

/-- An edit of the caller's table. -/
theorem edit (hf : SlotField field) {c : Core} {p : Pcb} (hp : FdEdit (c.pcbOf c.currProcess) p) :
    field ((c.setPcb c.currProcess (fun _ => p)).pcbOf q) = field (c.pcbOf q) := by
  rw [Core.pcbOf, Core.setPcb_pcb, Function.update_apply]
  split_ifs with heq
  · rw [hf.fdEdit hp, Core.pcbOf, Core.pcbOf, heq]
  · rfl

/-- **Every event that takes another slot, or none, keeps the reading.** -/
theorem step (hf : SlotField field) (hq : q < 6) {k k' : Kernel} {e : Event}
    (hstep : k.step lay fs e = some k') (hslot : k.claims e ≠ some q.toNat) :
    field (k'.pcbOf q) = field (k.pcbOf q) := by
  have hcore := k.core_step lay fs hstep
  change field (k'.core.pcbOf q) = field (k.core.pcbOf q)
  generalize k'.core = c' at hcore
  cases hcore with
  | execute h => rw [h.pcbOf_eq hq hslot]
  | halt h => exact hf.halt hq h (fun hroot => by simpa [Kernel.claims, hroot] using hslot)
  | haltFromExc h => exact hf.halt hq h (fun hroot => by simpa [Kernel.claims, hroot] using hslot)
  | openFile hp => exact hf.edit hp
  | close hp => exact hf.edit hp
  | read hp => exact hf.edit hp
  | write => rfl
  | vidmapFail => rfl
  | vidmap => rfl
  | @switchTask frame t => exact k.core.field_switchTo field (hf.saveFrame frame) t q
  | stay => rfl
  | openTerminal hnew hlt hactive h =>
      have hopens : k.Opens _ := ⟨hnew, hlt, hactive⟩
      have hfree : k.core.freeSlot ≠ some q.toNat := by simpa [Kernel.claims, hopens] using hslot
      rw [h.pcbOf_eq hq hfree]
      exact k.core.field_toTerminal field (hf.saveFrame _) _ q
  | viewTerminal => rfl
  | neighbours => rfl

end SlotField

/-! ## The life of a process -/

/-- What a process does up to some moment: calls on descriptors, and programs that it starts and that end
    again. `live` lists the process and those that wait for it; the number of a program that is started
    is none of theirs. -/
inductive Session (lay : Layout) (fs : FileSys) : List UInt32 → Kernel → Kernel → Prop
  | nil {live : List UInt32} {k : Kernel} : Session lay fs live k k
  | call {live : List UInt32} {k k₁ k' : Kernel} {e : Event} (hcall : e.Local)
      (hstep : k.step lay fs e = some k₁) (hrest : Session lay fs live k₁ k') :
      Session lay fs live k k'
  | child {live : List UInt32} {k k₁ k₂ k₃ k' : Kernel} {command : List UInt8} {env : ExecEnv}
      {entry : UInt32} {e : Event} (hstart : k.execute fs command env = (.started entry, k₁))
      (hnew : k₁.currProcess ∉ live) (hbody : Session lay fs (k₁.currProcess :: live) k₁ k₂)
      (hend : EndCall e) (hstep : k₂.step lay fs e = some k₃) (hrest : Session lay fs live k₃ k') :
      Session lay fs live k k'

/-- What a session leaves as it was. -/
structure SessionFrame (live : List UInt32) (k k' : Kernel) : Prop where
  currProcess : k'.currProcess = k.currProcess
  args : ∀ q ∈ live, (k'.pcbOf q).args = (k.pcbOf q).args
  ppid : ∀ q ∈ live, (k'.pcbOf q).ppid = (k.pcbOf q).ppid
  viewed_active : k'.core.active k'.core.currTerminalNumber ≠ 0

theorem SessionFrame.trans {live : List UInt32} {k k₁ k' : Kernel} (h : SessionFrame live k k₁)
    (h' : SessionFrame live k₁ k') : SessionFrame live k k' where
  currProcess := h'.currProcess.trans h.currProcess
  args q hq := (h'.args q hq).trans (h.args q hq)
  ppid q hq := (h'.ppid q hq).trans (h.ppid q hq)
  viewed_active := h'.viewed_active

/-- A call on a descriptor. -/
theorem SessionFrame.call {live : List UInt32} (hlt : ∀ q ∈ live, q < 6) {k k' : Kernel} {e : Event}
    (hcall : e.Local) (hstep : k.step lay fs e = some k')
    (hactive : k.core.active k.core.currTerminalNumber ≠ 0) : SessionFrame live k k' := by
  have hclaims : ∀ q : UInt32, k.claims e ≠ some q.toNat := by
    cases e <;> first | exact hcall.elim | exact fun _ => by simp [Kernel.claims]
  have hlocal := (k.core_step lay fs hstep).toLocal hcall
  have hmanager : k'.core.currProcess = k.core.currProcess ∧ k'.core.active = k.core.active ∧
      k'.core.currTerminalNumber = k.core.currTerminalNumber := by
    generalize k'.core = c' at hlocal
    cases hlocal <;> exact ⟨rfl, rfl, rfl⟩
  obtain ⟨hcur, hact, hview⟩ := hmanager
  refine ⟨hcur, fun q hq => slotField_args.step (hlt q hq) hstep (hclaims q),
    fun q hq => slotField_ppid.step (hlt q hq) hstep (hclaims q), ?_⟩
  rw [hact, hview]
  exact hactive

/-- The start of a program, in whatever state. -/
theorem slot_of_started {k k' : Kernel} {command : List UInt8} {env : ExecEnv} {entry : UInt32}
    (hstart : k.execute fs command env = (.started entry, k')) :
    k'.currProcess < 6 ∧ k'.core.active k'.core.currTerminalNumber ≠ 0 ∧
      ∃ p, k.core.freeSlot = some p.toNat ∧ k'.core = (k.core.claim p command).start p env.frame := by
  have hexec := k.core_execute fs command env
  rw [hstart] at hexec
  obtain ⟨p, hp, hslot, hcore⟩ := hexec.started_spec
  have hcur : k'.currProcess = p := congrArg Core.currProcess hcore
  exact ⟨hcur ▸ hp, (congrArg (fun c : Core => c.active c.currTerminalNumber) hcore).trans_ne
    ((k.core.claim p command).active_start_viewed p env.frame), p, hslot, hcore⟩

/-- The start of a program with a new number: the caller is its parent. -/
theorem frame_of_started {live : List UInt32} (hlt : ∀ q ∈ live, q < 6) {k k' : Kernel}
    {command : List UInt8} {env : ExecEnv} {entry : UInt32}
    (hstart : k.execute fs command env = (.started entry, k')) (hnew : k'.currProcess ∉ live)
    (hactive : k.core.active k.core.currTerminalNumber ≠ 0) :
    (k'.pcbOf k'.currProcess).ppid = k.currProcess ∧ ∀ q ∈ live, k'.pcbOf q = k.pcbOf q := by
  obtain ⟨-, -, p, hslot, hcore⟩ := slot_of_started hstart
  have hcur : k'.currProcess = p := congrArg Core.currProcess hcore
  rw [hcur] at hnew
  constructor
  · have hpcb : k'.core.pcbOf p = _ := (congrArg (fun c : Core => c.pcbOf p) hcore).trans
      (Core.pcbOf_start_self _ _ _)
    rw [hcur]
    change (k'.core.pcbOf p).ppid = k.currProcess
    rw [hpcb]
    exact if_neg hactive
  · intro q hq
    have hexec := k.core_execute fs command env
    rw [hstart] at hexec
    refine hexec.pcbOf_eq (hlt q hq) (fun hq' => hnew ?_)
    rw [hslot, Option.some.injEq, UInt32.toNat_inj] at hq'
    exact hq' ▸ hq

/-- The end of a program with a parent. -/
theorem frame_of_ended {live : List UInt32} (hlt : ∀ q ∈ live, q < 6) {k k' : Kernel} {e : Event}
    (hend : EndCall e) (hstep : k.step lay fs e = some k') (hppid : k.core.ppid ≠ minusOne)
    (hactive : k.core.active k.core.currTerminalNumber ≠ 0) :
    k'.currProcess = k.core.ppid ∧ k'.core.active k'.core.currTerminalNumber ≠ 0 ∧
      ∀ q ∈ live, (k'.pcbOf q).args = (k.pcbOf q).args ∧ (k'.pcbOf q).ppid = (k.pcbOf q).ppid := by
  have hclaims : ∀ q : UInt32, k.claims e ≠ some q.toNat := by
    cases e <;> first | exact hend.elim | exact fun _ => by simp [Kernel.claims, hppid]
  have hcore : k'.core = (k.core.release k.core.currProcess).resume k.core.ppid := by
    cases e with
    | halt status env =>
        cases hstep
        exact ((k.core_haltWith fs status.toUInt32 env).parent_spec hppid).2
    | haltFromExc env =>
        cases hstep
        exact ((k.core_haltWith fs 256 env).parent_spec hppid).2
    | _ => exact hend.elim
  exact ⟨congrArg Core.currProcess hcore,
    (congrArg (fun c : Core => c.active c.currTerminalNumber) hcore).trans_ne hactive,
    fun q hq => ⟨slotField_args.step (hlt q hq) hstep (hclaims q),
      slotField_ppid.step (hlt q hq) hstep (hclaims q)⟩⟩

/-- **A session comes back to its process**, with the arguments and the parents of all that are live. -/
theorem Session.frame {live : List UInt32} {k k' : Kernel} (h : Session lay fs live k k')
    (hlt : ∀ q ∈ live, q < 6) (hcur : k.currProcess ∈ live)
    (hactive : k.core.active k.core.currTerminalNumber ≠ 0) : SessionFrame live k k' := by
  induction h with
  | nil => exact ⟨rfl, fun _ _ => rfl, fun _ _ => rfl, hactive⟩
  | call hcall hstep _ ih =>
      have hfirst := SessionFrame.call hlt hcall hstep hactive
      exact hfirst.trans (ih hlt (hfirst.currProcess ▸ hcur) hfirst.viewed_active)
  | @child live k k₁ k₂ k₃ k' command env entry e hstart hnew _ hend hstep _ ihbody ihrest =>
      obtain ⟨hp, hactive₁, -⟩ := slot_of_started hstart
      obtain ⟨hparent, hsame⟩ := frame_of_started hlt hstart hnew hactive
      have hbody := ihbody (List.forall_mem_cons.2 ⟨hp, hlt⟩) List.mem_cons_self hactive₁
      -- the child still is what it was: its parent is the process of this session
      have hppid : k₂.core.ppid = k.currProcess := by
        have hchild := hbody.ppid k₁.currProcess List.mem_cons_self
        rw [hparent, ← hbody.currProcess] at hchild
        exact hchild
      have hroot : k₂.core.ppid ≠ minusOne := by
        rw [hppid]
        intro he
        have h6 := hlt _ hcur
        rw [he] at h6
        exact absurd h6 (by decide)
      obtain ⟨hback, hactive₃, hkept⟩ := frame_of_ended hlt hend hstep hroot hbody.viewed_active
      have hpair : SessionFrame live k k₃ := by
        refine ⟨hback.trans hppid, fun q hq => ?_, fun q hq => ?_, hactive₃⟩
        · rw [(hkept q hq).1, hbody.args q (List.mem_cons_of_mem _ hq), hsame q hq]
        · rw [(hkept q hq).2, hbody.ppid q (List.mem_cons_of_mem _ hq), hsame q hq]
      exact hpair.trans (ihrest hlt (hpair.currProcess ▸ hcur) hactive₃)

/-! ## `getargs` -/

/-- The string in `args`, with its NUL inside the array. -/
structure Pcb.HasArgs (p : Pcb) (args : List UInt8) : Prop where
  eq : cstr ((List.range 128).map p.args) = args
  fits : args.length < 128

/-- A string that ends inside a piece of memory. -/
theorem cstr_append_of_lt {s : List UInt8} (h : (cstr s).length < s.length) (t : List UInt8) :
    cstr (s ++ t) = cstr s := by
  obtain ⟨u, hu, h0⟩ := exists_eq_cstr_append s
  cases u with
  | nil =>
      rw [List.append_nil] at hu
      rw [← hu] at h
      exact absurd h (Nat.lt_irrefl _)
  | cons c u =>
      obtain rfl : c = 0 := h0
      have hsplit : s ++ t = cstr s ++ 0 :: (u ++ t) := by
        conv => lhs; rw [hu]
        simp
      rw [hsplit]
      exact cstr_append_nul (fun _ => ne_zero_of_mem_cstr) _

namespace Kernel

variable {k : Kernel}

theorem getargs_of_hasArgs {args : List UInt8} (h : (k.pcbOf k.currProcess).HasArgs args)
    (behind : List UInt8) {buf : UInt32} (hbuf : buf ≠ 0) (nbytes : Int) :
    k.getargs behind buf nbytes = ⟨0, 0, args ++ [0]⟩ := by
  have hfits : (cstr ((List.range 128).map (k.pcbOf k.currProcess).args)).length
      < ((List.range 128).map (k.pcbOf k.currProcess).args).length := by
    rw [h.eq]
    simpa using h.fits
  rw [getargs, if_neg hbuf, Pcb.argsBytes, List.append_assoc, cstr_append_of_lt hfits, h.eq]

/-- `execute` leaves the rest of the command in the PCB of the program that it starts. -/
theorem hasArgs_of_started {command name rest : List UInt8} {blanks : Nat}
    (hsplit : CommandSplit command name rest blanks) (hlen : strlen command ≤ 127) {env : ExecEnv}
    {entry : UInt32} (hstart : (k.execute fs command env).1 = .started entry) :
    ((k.execute fs command env).2.pcbOf (k.execute fs command env).2.currProcess).HasArgs rest := by
  obtain ⟨p, -, -, hcore⟩ := k.core_started fs hstart
  have hcur : (k.execute fs command env).2.currProcess = p := congrArg Core.currProcess hcore
  have hpcb : (k.execute fs command env).2.pcbOf p
      = ((k.core.claim p command).start p env.frame).pcbOf p :=
    congrArg (fun c : Core => c.pcbOf p) hcore
  have hargs : ((k.execute fs command env).2.pcbOf p).args
      = storeArgs (k.core.pcbOf p).args command := by
    rw [hpcb, Core.pcbOf_start_self]
    change ((k.core.claim p command).pcbOf p).args = _
    exact congrArg Pcb.args (k.core.pcbOf_setPcb_self _ p)
  have hlens := hsplit.strlen_eq
  rw [hcur]
  refine ⟨?_, by omega⟩
  rw [hargs, hsplit.storeArgs_eq, Nat.mod_eq_of_lt (by omega : name.length + blanks < 256), Nat.sub_self]
  exact cstr_take_write (.fresh _) (fun c hc => hsplit.rest_ne_zero hc) (by omega)

end Kernel

/-- **From the command to `getargs`.** A command of at most 127 characters is a name, blanks and a rest.
    The loops of `execute` end, `execute` looks up the name, and the program that it starts has the rest
    for its arguments: `getargs` delivers them after every session of that program, and in every state
    of any run that the program makes a call from, as long as its slot is not given to another. -/
theorem getargs_delivers_command (lay : Layout) (fs : FileSys) (k : Kernel) (command : List UInt8)
    (env : ExecEnv) (hlen : strlen command ≤ 127) :
    ∃ name rest blanks, CommandSplit command name rest blanks ∧
      (∀ fuel buf com, 127 ≤ fuel → ∃ run, k.executeLoops fs fuel buf com command env = some run ∧
        (run.outcome, run.kernel) = k.execute fs command env ∧
        (k.core.freeSlot ≠ none → ∃ looked, run.looked = some looked ∧ cstr looked = name)) ∧
      ∀ k₀ entry, k.execute fs command env = (.started entry, k₀) →
        (k₀.pcbOf k₀.currProcess).HasArgs rest ∧
        (∀ k', Session lay fs [k₀.currProcess] k₀ k' → ∀ behind buf nbytes, buf ≠ 0 →
          k'.getargs behind buf nbytes = ⟨0, 0, rest ++ [0]⟩) ∧
        ∀ k', Reaches (Kernel.step lay fs) (fun k e => k.claims e ≠ some k₀.currProcess.toNat) k₀ k' →
          k'.currProcess = k₀.currProcess → ∀ behind buf nbytes, buf ≠ 0 →
          k'.getargs behind buf nbytes = ⟨0, 0, rest ++ [0]⟩ := by
  obtain ⟨name, rest, blanks, hsplit⟩ := exists_commandSplit command
  refine ⟨name, rest, blanks, hsplit, fun fuel buf com hfuel => ?_, fun k₀ entry hstart => ?_⟩
  · have hname := hsplit.strlen_eq
    exact k.executeLoops_eq fs hsplit buf com env (by omega) (by simp only [bufSize]; omega)
  · have hargs : (k₀.pcbOf k₀.currProcess).HasArgs rest := by
      have hstarted : (k.execute fs command env).1 = .started entry := congrArg Prod.fst hstart
      have h := Kernel.hasArgs_of_started hsplit hlen hstarted
      rwa [hstart] at h
    obtain ⟨hp, hactive, -⟩ := slot_of_started hstart
    refine ⟨hargs, fun k' hsession behind buf nbytes hbuf => ?_, fun k' hrun hcur behind buf nbytes hbuf => ?_⟩
    · have hframe := hsession.frame (by simpa using hp) List.mem_cons_self hactive
      refine Kernel.getargs_of_hasArgs ?_ behind hbuf nbytes
      have hkept := hframe.args k₀.currProcess List.mem_cons_self
      rw [hframe.currProcess]
      exact ⟨by rw [hkept]; exact hargs.eq, hargs.fits⟩
    · have hkept : (k'.pcbOf k₀.currProcess).args = (k₀.pcbOf k₀.currProcess).args :=
        hrun.invariant (I := fun k' => (k'.pcbOf k₀.currProcess).args = (k₀.pcbOf k₀.currProcess).args)
          rfl (fun _ _ _ ih hok hs => (slotField_args.step hp hs hok).trans ih)
      refine Kernel.getargs_of_hasArgs ?_ behind hbuf nbytes
      rw [hcur]
      exact ⟨by rw [hkept]; exact hargs.eq, hargs.fits⟩

/-- The command `shell  a b`. -/
def sampleCommand : List UInt8 := shellName ++ [32, 32, 97, 32, 98]

/-- The program opens the directory `.` and starts a shell that ends, and finds `a b`. -/
theorem getargs_after_child :
    ∃ k₀ k', (sampleShell.execute sampleFs sampleCommand (sampleEnv 102 103)).2 = k₀ ∧
      Session sampleLayout sampleFs [k₀.currProcess] k₀ k' ∧
      k'.getargs [] 0x8048000 16 = ⟨0, 0, [97, 32, 98, 0]⟩ := by
  have hstart : (sampleShell.execute sampleFs sampleCommand (sampleEnv 102 103)).1
      = .started 0x8048000 := by decide +kernel
  have hchild : (((sampleShell.execute sampleFs sampleCommand (sampleEnv 102 103)).2.openFile sampleFs
      [46]).2.execute sampleFs shellName (sampleEnv 104 105)).1 = .started 0x8048000 := by
    decide +kernel
  have hnew : (((sampleShell.execute sampleFs sampleCommand (sampleEnv 102 103)).2.openFile sampleFs
      [46]).2.execute sampleFs shellName (sampleEnv 104 105)).2.currProcess
      ≠ (sampleShell.execute sampleFs sampleCommand (sampleEnv 102 103)).2.currProcess := by
    decide +kernel
  obtain ⟨name, rest, blanks, hsplit, -, hrun⟩ :=
    getargs_delivers_command sampleLayout sampleFs sampleShell sampleCommand (sampleEnv 102 103)
      (by decide)
  have hrest : cstr (commandRest sampleCommand) = rest := hsplit.cstr_commandRest
  generalize hk : sampleShell.execute sampleFs sampleCommand (sampleEnv 102 103) = r
    at hstart hchild hnew
  obtain ⟨o, k₀⟩ := r
  obtain rfl : o = .started 0x8048000 := hstart
  have hargs := (hrun k₀ _ hk).2.1
  have hsession : Session sampleLayout sampleFs [k₀.currProcess] k₀
      (((k₀.openFile sampleFs [46]).2.execute sampleFs shellName (sampleEnv 104 105)).2.halt sampleFs 0
        (sampleEnv 0 0)).2 :=
    .call (e := .openFile [46]) trivial rfl (.child (e := .halt 0 (sampleEnv 0 0)) (Prod.ext hchild rfl)
      (by simpa using hnew) .nil trivial rfl .nil)
  refine ⟨k₀, _, rfl, hsession, ?_⟩
  rw [hargs _ hsession [] 0x8048000 16 (by decide), ← hrest]
  decide

/-! ## The size of the arrays -/

/-- Every store is inside its array. -/
structure ExecuteRun.StoresWithin (run : ExecuteRun) : Prop where
  buf : ∀ i ∈ run.bufStores, i < bufSize
  com : ∀ i ∈ run.comStores, i < bufSize
  args : ∀ i ∈ run.argsStores, i < bufSize

/-- The call failed before it stored anything. -/
structure ExecuteRun.Refused (run : ExecuteRun) : Prop where
  outcome : run.outcome = .returned (-1)
  buf : run.bufStores = []
  com : run.comStores = []
  args : run.argsStores = []

/-- **`execute` stays in its arrays exactly for commands of at most 127 characters.** A longer one is not
    refused: its copy to `buf` goes on behind the end. -/
theorem execute_stores_within_iff (fs : FileSys) (k : Kernel) (command : List UInt8)
    (buf com : Nat → UInt8) (env : ExecEnv) :
    ∃ run, (∀ fuel, strlen command ≤ fuel → k.executeLoops fs fuel buf com command env = some run) ∧
      (run.StoresWithin ∧ (bufSize ≤ strlen command → run.Refused) ↔ strlen command < bufSize) := by
  obtain ⟨name, rest, blanks, hsplit⟩ := exists_commandSplit command
  obtain ⟨run, hrun, hbuf, hcom, hargs⟩ := k.exists_executeLoops fs hsplit buf com env
  have hlen := hsplit.strlen_eq
  refine ⟨run, hrun, ?_, fun hlt => ⟨⟨?_, ?_, ?_⟩, fun hle => absurd hlt (Nat.not_lt.2 hle)⟩⟩
  · -- the NUL of the copy is stored behind the last character
    rintro ⟨hwithin, -⟩
    refine hwithin.buf (strlen command) ?_
    rw [hbuf]
    simp
  · intro i hi
    rw [hbuf, List.mem_range'_1] at hi
    omega
  · intro i hi
    rw [hcom, List.mem_range'_1] at hi
    omega
  · intro i hi
    simp only [bufSize] at hlt ⊢
    rw [hargs, Nat.mod_eq_of_lt (by omega : name.length + blanks < 256)] at hi
    split_ifs at hi
    · exact absurd hi List.not_mem_nil
    · rw [List.mem_range'_1] at hi
      omega

theorem strlen_replicate {c : UInt8} (hc : c ≠ 0) (n : Nat) : strlen (List.replicate n c) = n := by
  rw [strlen_eq_length_cstr, cstr_of_no_nul (fun d hd => List.eq_of_mem_replicate hd ▸ hc),
    List.length_replicate]

/-- The first shell executes the longest command that fits: 127 letters. -/
theorem stores_within_full :
    ∃ run, (∀ fuel, 127 ≤ fuel → sampleShell.executeLoops sampleFs fuel (fun _ => 0) (fun _ => 0)
      (List.replicate 127 97) (sampleEnv 102 103) = some run) ∧ run.StoresWithin := by
  obtain ⟨run, hrun, hiff⟩ := execute_stores_within_iff sampleFs sampleShell (List.replicate 127 97)
    (fun _ => 0) (fun _ => 0) (sampleEnv 102 103)
  have hlen : strlen (List.replicate 127 97) = 127 := strlen_replicate (by decide) 127
  rw [hlen] at hrun hiff
  exact ⟨run, hrun, (hiff.2 (by decide)).1⟩

/-- A line of 128 letters, the longest that the keyboard driver delivers. -/
theorem full_line_overruns_buf :
    ¬ ∀ (fs : FileSys) (k : Kernel) (command : List UInt8) (buf com : Nat → UInt8) (env : ExecEnv)
      (run : ExecuteRun), k.executeLoops fs (strlen command) buf com command env = some run →
      run.StoresWithin ∧ (bufSize ≤ strlen command → run.Refused) := by
  intro h
  obtain ⟨name, rest, blanks, hsplit⟩ := exists_commandSplit (List.replicate 128 97)
  obtain ⟨run, hrun, hbuf, -⟩ := sampleShell.exists_executeLoops sampleFs hsplit (fun _ => 0)
    (fun _ => 0) (sampleEnv 102 103)
  have hlast : 128 ∈ run.bufStores := by
    rw [hbuf, strlen_replicate (by decide), List.mem_range'_1]
    decide
  have hlt := (h _ _ _ _ _ _ run (hrun _ (Nat.le_refl _))).1.buf 128 hlast
  exact absurd hlt (by decide)

end UnixTerminal
