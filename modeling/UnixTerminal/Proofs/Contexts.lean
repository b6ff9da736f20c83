import UnixTerminal.Proofs.Nesting

set_option autoImplicit false

/-! # Saved contexts

A process is suspended by a PIT tick, or by the opening of a terminal; both store its kernel context
(`ESP_SWITCH`, `EBP_SWITCH`) in a PCB, and a tick loads the context of the process it selects. The
history of a run keeps, for each process, the frame of its most recent suspension. `switch_task` stores
through the executing terminal and `switch_terminal` through the viewed one: what a tick loads is what
the history says as long as terminals are opened only while the viewed one is executing. -/

namespace UnixTerminal

/-- The frame at which an event suspends the current process. -/
def Kernel.suspends (k : Kernel) : Event → Option Frame
  | .switchTask frame => some frame
  | .switchTerminal newt frame _ => if k.Opens newt then some frame else none
  | _ => none

/-- The frames of the most recent suspensions after one more event. A program that was just started
    has none. -/
def contextAfter (fs : FileSys) (k : Kernel) (e : Event) (k' : Kernel) (ctx : UInt32 → Option Frame) :
    UInt32 → Option Frame :=
  let ctx := match k.suspends e with
    | some frame => Function.update ctx k.currProcess (some frame)
    | none => ctx
  if k.launches fs e then Function.update ctx k'.currProcess none else ctx

/-- The steps that keep the contexts: those that keep the call stacks, where a terminal is opened only
    from the executing one. -/
def ContextOk (fs : FileSys) (k : Kernel) (e : Event) : Prop :=
  NestOk fs k e ∧ ∀ newt frame env, e = .switchTerminal newt frame env → k.Opens newt →
    k.currTerm = k.currTerminalNumber

/-- What an event does to contexts: a tick loads the frame of the most recent suspension of the process
    it resumes, and a suspension stores its frame for the current process and for no other. -/
def ContextsKept (lay : Layout) (fs : FileSys) (k : Kernel) (ctx : UInt32 → Option Frame)
    (e : Event) : Prop :=
  (∀ frame, e = .switchTask frame → ∃ loaded k', k.switchTask lay frame = some (loaded, k')
    ∧ contextAfter fs k e k' ctx k'.currProcess = some loaded)
  ∧ ∀ frame k', k.suspends e = some frame → k.step lay fs e = some k' →
      ∀ q : UInt32, q < 6 →
        k'.core.saved q = if q = k.currProcess then frame else k.core.saved q

/-! ## The invariant -/

/-- The suspended terminals have the frames of the history. -/
def SavedOk (c : Core) (ctx : UInt32 → Option Frame) : Prop :=
  ∀ t, t < 3 → t ≠ c.currTerm → c.active t ≠ 0 →
    ctx (c.currentProcess t) = some (c.saved (c.currentProcess t))

/-- The same where `execute` is about to start a program, which activates the viewed terminal. -/
def SavedReady (c : Core) (ctx : UInt32 → Option Frame) : Prop :=
  ∀ t, t < 3 → t ≠ c.currTerm → c.active t ≠ 0 ∨ t = c.currTerminalNumber →
    ctx (c.currentProcess t) = some (c.saved (c.currentProcess t))

variable {lay : Layout} {fs : FileSys} {c c' : Core} {stk : Nat → List UInt32}
  {ctx : UInt32 → Option Frame}

/-- Edits of the PCBs that keep the saved contexts of the slots. -/
theorem SavedOk.of_edit (h : SavedOk c ctx)
    (hterm : c'.currTerm = c.currTerm) (hactive : c'.active = c.active)
    (hproc : ∀ t, t ≠ c.currTerm → c'.currentProcess t = c.currentProcess t)
    (hsaved : ∀ q, c'.saved q = c.saved q) : SavedOk c' ctx := by
  intro t ht hne hact
  rw [hterm] at hne
  rw [hactive] at hact
  rw [hproc t hne, hsaved]
  exact h t ht hne hact

theorem saved_claim (c : Core) (p q : UInt32) (command : List UInt8) :
    (c.claim p command).saved q = c.saved q :=
  c.field_claim Pcb.switchFrame (fun _ => rfl) p q

/-- The start of a program stores no context. -/
theorem saved_start (c : Core) (p q : UInt32) (frame : Frame) :
    (c.start p frame).saved q = c.saved q :=
  c.field_setPcb Pcb.switchFrame (f := Core.freshPcb p c.parentFor frame) (fun _ => rfl) p q

theorem saved_switchTo (c : Core) (t : Nat) (frame : Frame) {q : UInt32}
    (hp : c.currentProcess c.currTerm < 6) (hq : q < 6) :
    (c.switchTo t frame).saved q
      = if q = c.currentProcess c.currTerm then frame else c.saved q := by
  rw [Core.saved, Core.pcbOf_switchTo _ _ _ hp hq]
  split_ifs <;> rfl

theorem saved_toTerminal (c : Core) (t : Nat) (frame : Frame) {q : UInt32}
    (hp : c.currentProcess c.currTerminalNumber < 6) (hq : q < 6) :
    (c.toTerminal t frame).saved q
      = if q = c.currentProcess c.currTerminalNumber then frame else c.saved q := by
  rw [Core.saved, Core.pcbOf_toTerminal _ _ _ hp hq]
  split_ifs <;> rfl

/-! ## Transitions -/

/-- The start of a program. -/
theorem SavedReady.launch (h : SavedReady c ctx) (hready : Ready c stk) {p : UInt32}
    (hslot : c.freeSlot = some p.toNat) (command : List UInt8) (frame : Frame) :
    SavedOk ((c.claim p command).start p frame) (Function.update ctx p none) := by
  intro t ht hne hact
  have hcur : t ≠ c.currTerm := hne
  have hact' : c.active t ≠ 0 ∨ t = c.currTerminalNumber := by
    by_cases hnew : t = c.currTerminalNumber
    · exact Or.inr hnew
    · left
      rwa [(c.claim p command).active_start_of_ne p frame hnew] at hact
  obtain ⟨l, hl⟩ := hready.running t ht hcur hact'
  have hmem : c.currentProcess t ∈ stk t := hl ▸ List.mem_cons_self
  have hne' : c.currentProcess t ≠ p := fun he => hready.notMem_of_freeSlot hslot t (he ▸ hmem)
  rw [Core.start_currentProcess, Core.claim_currentProcess, Core.claim_currTerm,
    Function.update_of_ne hcur, Function.update_of_ne hne', saved_start, saved_claim]
  exact h t ht hcur hact'

theorem SavedOk.ready (h : SavedOk c ctx) (hnest : Nest c stk) : SavedReady c ctx := by
  intro t ht hne hact
  exact h t ht hne (hact.elim id (fun he => he ▸ hnest.viewed_active))

/-- `execute` by a running process. -/
theorem Core.Exec.savedOk {command : List UInt8} {env : ExecEnv} {o : ExecOutcome}
    (h : c.Exec fs command env o c') (hnest : Nest c stk) (hctx : SavedOk c ctx) :
    SavedOk c' (if o.isStarted then Function.update ctx c'.currProcess none else ctx) := by
  cases h with
  | full => exact hctx
  | notFound =>
      exact hctx.of_edit rfl rfl (fun _ _ => rfl) (fun q => saved_claim c _ q command)
  | notExe =>
      exact hctx.of_edit rfl rfl (fun _ _ => rfl) (fun q => saved_claim c _ q command)
  | started _ hslot => exact (hctx.ready hnest).launch hnest.ready hslot command env.frame

/-- `execute` of a shell that can be started. -/
theorem SavedReady.exec_shell {env : ExecEnv} {o : ExecOutcome} (hctx : SavedReady c ctx)
    (hready : Ready c stk) (h : c.Exec fs shellName env o c') (hslot : c.freeSlot ≠ none)
    (hexe : IsExe fs shellName env) : SavedOk c' (Function.update ctx c'.currProcess none) := by
  rcases h.full_or_started (Or.inr hexe) with ⟨-, hfull, -⟩ | ⟨entry, p, rfl, -, hfree, rfl⟩
  · exact absurd hfull hslot
  · exact hctx.launch hready hfree shellName env.frame

/-- The halts. -/
theorem Core.Halt.savedOk {eax : UInt32} {env : ExecEnv} {o : HaltOutcome}
    (h : c.Halt fs eax env o c') (hnest : Nest c stk) (hctx : SavedOk c ctx)
    (hexe : c.ppid = minusOne → IsExe fs shellName env) :
    SavedOk c' (if o.isRestarted then Function.update ctx c'.currProcess none else ctx) := by
  cases h with
  | toParent =>
      exact hctx.of_edit rfl rfl (fun t ht => Function.update_of_ne ht _ _)
        (Core.field_resume _ Pcb.switchFrame (fun _ => rfl) _)
  | restarted hroot hexec =>
      obtain ⟨hready, hfree⟩ := hnest.ready_endRoot hroot
      refine SavedReady.exec_shell ?_ hready hexec hfree (hexe hroot)
      -- the end of the root process touches the stack of the executing terminal only
      intro t ht hne hact
      refine hctx.ready hnest t ht hne ?_
      by_cases hnew : t = c.currTerminalNumber
      · exact Or.inr hnew
      · exact hact.imp (fun ha => endRoot_active_of_ne c hnew ▸ ha) id
  | stuck hroot hexec =>
      obtain ⟨hready, hfree⟩ := hnest.ready_endRoot hroot
      exact Bool.noConfusion (hready.exec_shell hexec hfree (hexe hroot)).1

/-- The system calls on descriptors. -/
theorem SavedOk.edit (h : SavedOk c ctx) {q : Pcb} (hq : FdEdit (c.pcbOf c.currProcess) q) :
    SavedOk (c.setPcb c.currProcess (fun _ => q)) ctx := by
  refine h.of_edit rfl rfl (fun _ _ => rfl) (fun p => ?_)
  rw [Core.saved, Core.pcbOf, Core.setPcb_pcb, Function.update_apply]
  split_ifs with he
  · rw [Core.saved, Core.pcbOf, he, hq.espSwitch, hq.ebpSwitch]
    rfl
  · rfl

theorem Core.Local.savedOk (h : c.Local lay c') (hctx : SavedOk c ctx) : SavedOk c' ctx := by
  cases h with
  | edit hq => exact hctx.edit hq
  | video => exact hctx

/-- A tick: the terminal it leaves joins the suspended ones. -/
theorem SavedOk.switchTo (h : SavedOk c ctx) (hnest : Nest c stk) {t : Nat} (frame : Frame) :
    SavedOk (c.switchTo t frame) (Function.update ctx c.currProcess (some frame)) := by
  have hcur := hnest.running_lt hnest.currTerm_lt hnest.currTerm_active
  intro u hu _ hact
  rw [hnest.current, Core.switchTo_currentProcess,
    saved_switchTo c t frame hcur (hnest.running_lt hu hact), Function.update_apply]
  split_ifs with he
  · rfl
  · refine h u hu (fun hc => he ?_) hact
    rw [hc]

/-- The opening of a terminal from the executing one. -/
theorem SavedOk.toTerminal (h : SavedOk c ctx) (hnest : Nest c stk) {newt : Nat} (frame : Frame)
    (hview : c.currTerm = c.currTerminalNumber) :
    SavedReady (c.toTerminal newt frame) (Function.update ctx c.currProcess (some frame)) := by
  have hcur := hnest.running_lt hnest.viewed_lt hnest.viewed_active
  intro u hu hne hact
  have hact' : c.active u ≠ 0 := hact.resolve_right hne
  rw [hnest.current, hview, Core.toTerminal_currentProcess,
    saved_toTerminal c newt frame hcur (hnest.running_lt hu hact'), Function.update_apply]
  split_ifs with he
  · rfl
  · refine h u hu (fun hc => he ?_) hact'
    rw [hc, hview]

/-! ## Runs -/

/-- The invariant of a run with its history. -/
def ContextInv (k : Kernel) (ctx : UInt32 → Option Frame) : Prop :=
  SavedOk k.core ctx ∧ ∃ stk, Nest k.core stk

theorem savedOk_step {k k' : Kernel} {e : Event} (h : SavedOk k.core ctx) (hnest : Nest k.core stk)
    (hok : ContextOk fs k e) (hstep : k.step lay fs e = some k') :
    SavedOk k'.core (contextAfter fs k e k' ctx) := by
  cases e with
  | execute command env =>
      cases hstep
      exact (k.core_execute fs command env).savedOk hnest h
  | halt status env =>
      cases hstep
      exact (k.core_haltWith fs status.toUInt32 env).savedOk hnest h hok.1
  | haltFromExc env =>
      cases hstep
      exact (k.core_haltWith fs 256 env).savedOk hnest h hok.1
  | switchTask frame =>
      obtain ⟨r, hr, rfl⟩ := Option.map_eq_some_iff.1 hstep
      obtain ⟨t, ht, rfl⟩ := Option.map_eq_some_iff.1 hr
      have hs : SavedOk (k.core.switchTo t frame) (Function.update ctx k.currProcess (some frame)) :=
        h.switchTo hnest frame
      rw [(k.core_switchTo lay t frame).1]
      exact hs
  | switchTerminal newt frame env =>
      cases hstep
      rcases k.switchTerminal_cases lay fs newt frame env with ⟨hopen, hk⟩ | ⟨hnot, hk⟩
      · obtain ⟨hslot, hexe⟩ := hok.1 hopen
        have hready := hnest.ready_toTerminal hopen.2.1 hopen.2.2 frame
        have hexec := k.core_openTerminal fs newt frame env
        have hsaved : SavedReady (k.core.toTerminal newt frame) _ :=
          h.toTerminal hnest frame (hok.2 newt frame env rfl hopen)
        have hs := hsaved.exec_shell hready hexec hslot hexe
        simp only [contextAfter, Kernel.suspends, Kernel.launches, hopen,
          (hready.exec_shell hexec hslot hexe).1, decide_true, Bool.and_self, if_true, hk]
        exact hs
      · simp only [contextAfter, Kernel.suspends, Kernel.launches, hnot, decide_false,
          Bool.false_and, if_false]
        rcases hk with hk | ⟨-, -, hk⟩
        · exact hk.symm ▸ h
        · rw [hk]
          exact h
  | neighbours past =>
      cases hstep
      intro t ht hne hact
      have hact' : k.core.active t ≠ 0 := by
        simpa [Kernel.core, ht] using hact
      simpa [Kernel.core, ht, contextAfter, Kernel.suspends, Kernel.launches, Core.saved, Core.pcbOf]
        using h t ht hne hact'
  | _ => exact ((k.core_step lay fs hstep).toLocal trivial).savedOk h

/-- When the first shell has been started, no process has been suspended yet. -/
theorem savedOk_boot {mem : BootMemory} {env : ExecEnv} {entry : UInt32}
    (hboot : ((Kernel.boot lay mem).execute fs shellName env).1 = .started entry) :
    SavedOk ((Kernel.boot lay mem).execute fs shellName env).2.core (fun _ => none) := by
  obtain ⟨p, -, hslot, hc⟩ := (Kernel.boot lay mem).core_started fs hboot
  have hidle : SavedReady (Kernel.boot lay mem).core (fun _ => none) := by
    rw [core_boot]
    exact fun t ht hne h => absurd (if_pos ht) (h.resolve_right hne)
  have hs := hidle.launch (ready_boot lay mem) hslot shellName env.frame
  rw [Function.update_eq_self] at hs
  exact hc.symm ▸ hs

/-- What the invariant says about the next event. -/
theorem ContextInv.contextsKept {k : Kernel} {e : Event} (h : ContextInv k ctx)
    (hok : ContextOk fs k e) : ContextsKept lay fs k ctx e := by
  obtain ⟨hctx, stk, hnest⟩ := h
  constructor
  · rintro frame rfl
    obtain ⟨t, ht⟩ := k.nextTerm_isSome hnest.currTerm_lt hnest.currTerm_active
    have hlt := k.nextTerm_lt ht hnest.currTerm_lt hok.1
    have hact := (k.nextTerm_spec ht).1
    have hpid := hnest.running_lt hlt hact
    obtain ⟨hcore, hloaded⟩ := k.core_switchTo lay t frame
    refine ⟨(k.switchTo lay t frame).1, (k.switchTo lay t frame).2, k.switchTask_eq lay ht frame, ?_⟩
    have hcur : (k.switchTo lay t frame).2.currProcess = k.core.currentProcess t :=
      (congrArg Core.currProcess hcore).trans (toUInt8_toUInt32 hpid)
    have hold : k.currProcess = k.core.currentProcess k.core.currTerm := hnest.current
    have hafter : contextAfter fs k (.switchTask frame) (k.switchTo lay t frame).2 ctx
        = Function.update ctx k.currProcess (some frame) := rfl
    rw [hloaded, hcur, hafter, hold, Function.update_apply, saved_switchTo k.core t frame
      (hnest.running_lt hnest.currTerm_lt hnest.currTerm_active) hpid]
    split_ifs with he
    · rfl
    · exact hctx t hlt (fun hc => he (by rw [hc])) hact
  · intro frame k' hsusp hstep q hq
    cases e with
    | switchTask frame' =>
        obtain rfl : frame' = frame := Option.some.inj hsusp
        obtain ⟨r, hr, rfl⟩ := Option.map_eq_some_iff.1 hstep
        obtain ⟨t, ht, rfl⟩ := Option.map_eq_some_iff.1 hr
        rw [(k.core_switchTo lay t frame').1, show k.currProcess = _ from hnest.current]
        exact saved_switchTo k.core t frame'
          (hnest.running_lt hnest.currTerm_lt hnest.currTerm_active) hq
    | switchTerminal newt frame' env =>
        by_cases hopen : k.Opens newt
        · obtain rfl : frame' = frame := by simpa [Kernel.suspends, hopen] using hsusp
          cases hstep
          obtain ⟨hslot, hexe⟩ := hok.1 hopen
          have hview : k.core.currTerm = k.core.currTerminalNumber :=
            hok.2 newt frame' env rfl hopen
          rcases k.switchTerminal_cases lay fs newt frame' env with ⟨-, hk⟩ | ⟨hnot, -⟩
          · rw [hk]
            rcases (k.core_openTerminal fs newt frame' env).full_or_started (Or.inr hexe) with
              ⟨-, hfull, -⟩ | ⟨_, p, -, -, -, hc⟩
            · exact absurd hfull hslot
            · rw [hc, saved_start, saved_claim, show k.currProcess = _ from
                hnest.current, hview]
              exact saved_toTerminal k.core newt frame'
                (hnest.running_lt hnest.viewed_lt hnest.viewed_active) hq
          · exact absurd hopen hnot
        · simp [Kernel.suspends, hopen] at hsusp
    | _ => cases hsusp

/-- **Saved contexts belong to the process that was suspended**, at every event of a run from boot in
    which terminals are opened only from the executing one. -/
theorem saved_contexts_kept (lay : Layout) (fs : FileSys) (mem : BootMemory) (env : ExecEnv)
    (entry : UInt32) (hboot : ((Kernel.boot lay mem).execute fs shellName env).1 = .started entry)
    (s : Kernel × (UInt32 → Option Frame))
    (hrun : Reaches (withGhost (Kernel.step lay fs) (contextAfter fs))
      (fun s e => ContextOk fs s.1 e)
      (((Kernel.boot lay mem).execute fs shellName env).2, fun _ => none) s)
    (e : Event) (hok : ContextOk fs s.1 e) : ContextsKept lay fs s.1 s.2 e := by
  have hinv : ContextInv s.1 s.2 := by
    refine hrun.invariant (I := fun s => ContextInv s.1 s.2) ⟨savedOk_boot hboot, nest_boot hboot⟩ ?_
    rintro s e s' ⟨hctx, stk, hnest⟩ hok hstep
    obtain ⟨hk, hg⟩ := withGhost_eq_some hstep
    rw [hg]
    exact ⟨savedOk_step hctx hnest hok hk, _, nest_step hnest hok.1 hk⟩
  exact hinv.contextsKept hok

/-- Terminal 1 is opened, a tick comes back to terminal 0, and the next one goes to terminal 1, with the frame
    that the first one interrupted. -/
theorem saved_contexts_kept_shell :
    ∃ ctx, ctx 1 = some ⟨300, 301⟩ ∧
      ContextsKept sampleLayout sampleFs sampleTwo ctx (.switchTask ⟨400, 401⟩) := by
  have hrun : Reaches (withGhost (Kernel.step sampleLayout sampleFs) (contextAfter sampleFs))
      (fun s e => ContextOk sampleFs s.1 e) (sampleShell, fun _ => none) (sampleTwo, _) :=
    (Reaches.refl.tail (e := .switchTerminal 1 ⟨200, 201⟩ (sampleEnv 102 103))
      ⟨fun _ => ⟨by decide +kernel, sampleFs_shell _⟩, fun _ _ _ _ _ => by decide +kernel⟩
      (withGhost_of_step rfl _)).tail
      (e := .switchTask ⟨300, 301⟩) ⟨fun h2 => absurd h2 (by decide +kernel), fun _ _ _ h => Event.noConfusion h⟩
      (withGhost_of_step (Kernel.step_switchTask _ _ _ (by decide +kernel) _) _)
  refine ⟨_, ?_, saved_contexts_kept sampleLayout sampleFs sampleMemory (sampleEnv 100 101) 0x8048000
    sampleShell_started _ hrun (.switchTask ⟨400, 401⟩)
    ⟨fun h => absurd h (by decide +kernel), fun _ _ _ h => Event.noConfusion h⟩⟩
  decide +kernel

/-- Terminal 1 is opened, a tick comes back to terminal 0, and terminal 2 is opened: the frame of
    process 0, which is executing, goes to the PCB of process 1, which is viewed. -/
theorem third_terminal_overwrites_context :
    ¬ ∀ (lay : Layout) (fs : FileSys) (mem : BootMemory) (env : ExecEnv) (entry : UInt32),
      ((Kernel.boot lay mem).execute fs shellName env).1 = .started entry →
      ∀ s, Reaches (withGhost (Kernel.step lay fs) (contextAfter fs)) (fun s e => NestOk fs s.1 e)
        (((Kernel.boot lay mem).execute fs shellName env).2, fun _ => none) s →
      ∀ e, NestOk fs s.1 e → ContextsKept lay fs s.1 s.2 e := by
  intro h
  have hrun : Reaches (withGhost (Kernel.step sampleLayout sampleFs) (contextAfter sampleFs))
      (fun s e => NestOk sampleFs s.1 e) (sampleShell, fun _ => none) (sampleTwo, _) :=
    (Reaches.refl.tail (e := .switchTerminal 1 ⟨200, 201⟩ (sampleEnv 102 103))
      (fun _ => ⟨by decide +kernel, sampleFs_shell _⟩) (withGhost_of_step rfl _)).tail
      (e := .switchTask ⟨300, 301⟩) (fun h2 => absurd h2 (by decide +kernel))
      (withGhost_of_step (Kernel.step_switchTask _ _ _ (by decide +kernel) _) _)
  have hkept := h sampleLayout sampleFs sampleMemory (sampleEnv 100 101) 0x8048000 sampleShell_started _ hrun
    (.switchTerminal 2 ⟨400, 401⟩ (sampleEnv 104 105)) (fun _ => ⟨by decide +kernel, sampleFs_shell _⟩)
  have hsaved := hkept.2 ⟨400, 401⟩ _ (by decide +kernel) rfl 1 (by decide)
  exact absurd hsaved (by decide +kernel)

end UnixTerminal
