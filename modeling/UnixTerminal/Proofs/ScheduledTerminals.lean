import UnixTerminal.Proofs.Callers
import UnixTerminal.Proofs.Nesting
import UnixTerminal.Proofs.Scheduling

set_option autoImplicit false

/-! # The process of the executing terminal

`switch_terminal` makes a terminal the viewed and the executing one before it calls `execute` for its
shell, and it does not look at the result: with a full process table the executing terminal is inactive
and runs "process -1". In the runs in which every such shell can be started (`NestOk`) the executing
terminal is active and runs a live process, because the processes on the call stacks are live. -/

namespace UnixTerminal

/-- The executing terminal is active and runs a live process. -/
structure RunsLive (k : Kernel) (live : UInt32 → Bool) : Prop where
  active : k.IsActive k.currTerm
  slot : (k.terminals k.currTerm).currentProcess < 6
  live : live (k.terminals k.currTerm).currentProcess = true

/-- The viewed and the executing terminal, the screen and the cursor are as they were. -/
structure SameView (k k' : Kernel) : Prop where
  viewed : k'.currTerminalNumber = k.currTerminalNumber
  executing : k'.currTerm = k.currTerm
  screen : ∀ i, i < 2 * numRows * numCols → k'.videoMem i = k.videoMem i
  screenX : k'.screenX = k.screenX
  screenY : k'.screenY = k.screenY
  cursor : k'.cursor = k.cursor

/-- The processes on the stacks are live. -/
def StacksLive (stk : Nat → List UInt32) (live : UInt32 → Bool) : Prop :=
  ∀ t p, p ∈ stk t → live p = true

variable {lay : Layout} {fs : FileSys}

/-- A process that is live and does not end is live after the event. -/
theorem liveAfter_of_live {k k' : Kernel} {e : Event} {live : UInt32 → Bool} {p : UInt32}
    (h : live p = true) (hne : e.ends = true → p ≠ k.currProcess) :
    liveAfter fs k e k' live p = true := by
  have hkept : (if e.ends then Function.update live k.currProcess false else live) p = true := by
    split_ifs with hends
    · rw [Function.update_of_ne (hne hends)]
      exact h
    · exact h
  dsimp only [liveAfter]
  generalize (if e.ends then Function.update live k.currProcess false else live) = live' at hkept ⊢
  split_ifs with hl
  · rw [Function.update_apply]
    split_ifs
    · rfl
    · exact hkept
  · exact hkept

/-- The process that an event starts is live. -/
theorem liveAfter_of_launches {k k' : Kernel} {e : Event} (live : UInt32 → Bool)
    (h : k.launches fs e = true) : liveAfter fs k e k' live k'.currProcess = true := by
  dsimp only [liveAfter]
  rw [if_pos h, Function.update_self]

/-- One event keeps the processes on the stacks live: the one that ends was on top of its stack. -/
theorem stacksLive_step {k k' : Kernel} {e : Event} {stk : Nat → List UInt32} {live : UInt32 → Bool}
    (h : StacksLive stk live) (hnest : Nest k.core stk) :
    StacksLive (stackAfter fs k e k' stk) (liveAfter fs k e k' live) := by
  intro t p hp
  rcases mem_stackAfter hp with ⟨hl, rfl⟩ | ⟨hold, hpop⟩
  · exact liveAfter_of_launches live hl
  · obtain ⟨l, htop⟩ := hnest.top
    exact liveAfter_of_live (h t p hold)
      (fun hends he => hnest.separate.not_mem_pop htop (he ▸ hpop hends))

/-- The executing terminal has the top of its stack. -/
theorem Nest.runsLive {k : Kernel} {stk : Nat → List UInt32} {live : UInt32 → Bool}
    (h : Nest k.core stk) (hlive : StacksLive stk live) : RunsLive k live := by
  obtain ⟨l, hl⟩ := h.running k.currTerm h.currTerm_lt h.currTerm_active
  exact ⟨h.currTerm_active, h.running_lt h.currTerm_lt h.currTerm_active,
    hlive k.currTerm _ (hl ▸ List.mem_cons_self)⟩

/-- The first shell is live, and alone on the stacks. -/
theorem stacksLive_boot {mem : BootMemory} {env : ExecEnv} {entry : UInt32}
    (hboot : ((Kernel.boot lay mem).execute fs shellName env).1 = .started entry) :
    ∃ stk, Nest ((Kernel.boot lay mem).execute fs shellName env).2.core stk
      ∧ StacksLive stk (liveAfter fs (Kernel.boot lay mem) (.execute shellName env)
        ((Kernel.boot lay mem).execute fs shellName env).2 (fun _ => false)) := by
  obtain ⟨p, hp, hslot, hc⟩ := (Kernel.boot lay mem).core_started fs hboot
  refine ⟨_, hc ▸ (ready_boot lay mem).launch hp hslot shellName env.frame, fun t q hq => ?_⟩
  have hcur : ((Kernel.boot lay mem).execute fs shellName env).2.currProcess = p :=
    congrArg Core.currProcess hc
  have hlaunch : (Kernel.boot lay mem).launches fs (.execute shellName env) = true :=
    congrArg ExecOutcome.isStarted hboot
  rw [Function.update_apply] at hq
  split_ifs at hq
  · rw [List.mem_singleton.1 hq, ← hcur]
    exact liveAfter_of_launches _ hlaunch
  · exact absurd hq List.not_mem_nil

/-- A terminal whose shell cannot be started is viewed all the same. -/
theorem not_sameView_of_returned {k : Kernel} {newt : Nat} {frame : Frame} {env : ExecEnv} {v : Int}
    (hopen : k.Opens newt) (hfail : (k.openTerminal fs newt frame env).1 = .returned v) :
    ¬ SameView k (k.switchTerminal lay fs newt frame env) := by
  intro hsame
  rcases k.switchTerminal_cases lay fs newt frame env with ⟨-, hk⟩ | ⟨hnot, -⟩
  · have hexec := k.core_openTerminal fs newt frame env
    rw [hfail] at hexec
    have hviewed := hsame.viewed
    rw [hk] at hviewed
    exact hopen.1 (hexec.video.2.1.symm.trans hviewed)
  · exact hnot hopen

/-- **The executing terminal runs a live process**, in every state of a run from the first shell in
    which no call of `execute` clears the process table, the shells that the end of a root process or
    the opening of a terminal asks for can be started, and the byte behind `terminals` reads as
    inactive. Opening a terminal whose shell cannot be started never leaves the view as it was. -/
theorem executing_terminal_live (lay : Layout) (fs : FileSys) (mem : BootMemory) (env : ExecEnv)
    (entry : UInt32) (hboot : ((Kernel.boot lay mem).execute fs shellName env).1 = .started entry)
    (s : Kernel × (UInt32 → Bool))
    (hrun : Reaches (withGhost (Kernel.step lay fs) (liveAfter fs)) (fun s e => NestOk fs s.1 e)
      (((Kernel.boot lay mem).execute fs shellName env).2,
        liveAfter fs (Kernel.boot lay mem) (.execute shellName env)
          ((Kernel.boot lay mem).execute fs shellName env).2 (fun _ => false)) s) :
    RunsLive s.1 s.2
      ∧ ∀ (k : Kernel) (newt : Nat) (frame : Frame) (env : ExecEnv) (v : Int), k.Opens newt →
        (k.openTerminal fs newt frame env).1 = .returned v →
        ¬ SameView k (k.switchTerminal lay fs newt frame env) := by
  refine ⟨?_, fun k newt frame env v => not_sameView_of_returned⟩
  obtain ⟨stk, hnest, hlive⟩ := hrun.invariant
    (I := fun s => ∃ stk, Nest s.1.core stk ∧ StacksLive stk s.2) (stacksLive_boot hboot) (by
      rintro s e s' ⟨stk, hnest, hlive⟩ hok hstep
      obtain ⟨hk, hg⟩ := withGhost_eq_some hstep
      rw [hg]
      exact ⟨_, nest_step hnest hok hk, stacksLive_step hlive hnest⟩)
  exact hnest.runsLive hlive

/-- A second terminal is opened beside the first shell: it runs a live process. -/
theorem executing_terminal_live_second :
    RunsLive (sampleShell.switchTerminal sampleLayout sampleFs 1 ⟨200, 201⟩ (sampleEnv 102 103))
      (liveAfter sampleFs sampleShell (.switchTerminal 1 ⟨200, 201⟩ (sampleEnv 102 103))
        (sampleShell.switchTerminal sampleLayout sampleFs 1 ⟨200, 201⟩ (sampleEnv 102 103))
        (liveAfter sampleFs (Kernel.boot sampleLayout sampleMemory)
          (.execute shellName (sampleEnv 100 101)) sampleShell (fun _ => false))) :=
  (executing_terminal_live sampleLayout sampleFs sampleMemory (sampleEnv 100 101) 0x8048000
    sampleShell_started (_, _)
    (Reaches.refl.tail (e := .switchTerminal 1 ⟨200, 201⟩ (sampleEnv 102 103))
      (fun _ => ⟨by decide +kernel, sampleFs_shell _⟩) rfl)).1

/-- Six shells fill the table; terminal 1 is chosen, and it is executing although it is inactive. -/
theorem full_table_schedules_inactive :
    ¬ ∀ (lay : Layout) (fs : FileSys) (mem : BootMemory) (env : ExecEnv) (entry : UInt32),
      ((Kernel.boot lay mem).execute fs shellName env).1 = .started entry →
      ∀ s, Reaches (withGhost (Kernel.step lay fs) (liveAfter fs)) (fun _ _ => True)
        (((Kernel.boot lay mem).execute fs shellName env).2,
          liveAfter fs (Kernel.boot lay mem) (.execute shellName env)
            ((Kernel.boot lay mem).execute fs shellName env).2 (fun _ => false)) s →
      RunsLive s.1 s.2 := by
  intro h
  obtain ⟨live, hrun⟩ := ((reaches_sampleNested 5).tail
    (e := .switchTerminal 1 ⟨200, 201⟩ (sampleEnv 0 0)) trivial rfl).exists_withGhost
    (liveAfter sampleFs) _
  have hidle : ¬ ((sampleNested 5).switchTerminal sampleLayout sampleFs 1 ⟨200, 201⟩
      (sampleEnv 0 0)).IsActive 1 := by
    decide +kernel
  have hterm : ((sampleNested 5).switchTerminal sampleLayout sampleFs 1 ⟨200, 201⟩
      (sampleEnv 0 0)).currTerm = 1 := by
    decide +kernel
  have hactive := (h sampleLayout sampleFs sampleMemory (sampleEnv 100 101) 0x8048000
    sampleShell_started _ hrun).active
  exact hidle (hterm ▸ hactive)

end UnixTerminal
