import UnixTerminal.Library.Run
import UnixTerminal.Proofs.Boot

set_option autoImplicit false

/-! # The descriptor table of a process

A process starts with stdin in slot 0, stdout in slot 1 and nothing else; the slots 2 to 7 follow its
calls of `open` and `close`. The two reserved names break this: `open` writes the slot numbered by
the *flag* of stdin or stdout, which is slot 1 or slot 2. -/

namespace UnixTerminal

/-- The calls of a process on its descriptors. -/
def FdCall : Event → Prop
  | .openFile _ => True
  | .close _ => True
  | .read _ _ _ => True
  | .write _ _ _ _ => True
  | _ => False

/-- The descriptors that were returned by `open` and not closed since, after one more call. -/
def openedAfter (fs : FileSys) (k : Kernel) (e : Event) (_ : Kernel) (opened : Nat → Bool) : Nat → Bool :=
  match e with
  | .openFile filename =>
      let fd := (k.openFile fs filename).1
      if 2 ≤ fd then Function.update opened fd.toNat true else opened
  | .close fd => if (k.close fd).1 = 0 then Function.update opened fd.toNat false else opened
  | _ => opened

/-- The table agrees with the history of the calls. -/
structure TableMatches (k : Kernel) (opened : Nat → Bool) : Prop where
  stdin : (k.callerPcb.fdsArray 0).flags = stdinFlag
  stdout : (k.callerPcb.fdsArray 1).flags = stdoutFlag
  files : ∀ i, 2 ≤ i → i < 8 → ((k.callerPcb.fdsArray i).flags ≠ notSet ↔ opened i = true)

/-- The names that do not run into the slot mix-up: none that begins with `stdin`, and one that begins
    with `stdout` only while slot 2 is in use. -/
def ReservedNameOk (k : Kernel) : Event → Prop
  | .openFile filename =>
      strncmp filename stdinName 5 ≠ 0
      ∧ (strncmp filename stdoutName 6 = 0 → (k.callerPcb.fdsArray 2).flags ≠ notSet)
  | _ => True

/-- A fresh process: its table is the initial one, and both ways to it agree. -/
theorem callerPcb_of_started {fs : FileSys} {k : Kernel} {command : List UInt8} {env : ExecEnv}
    {entry : UInt32} (h : (k.execute fs command env).1 = .started entry) :
    (∀ i, i < 8 → (k.execute fs command env).2.callerPcb.fdsArray i = Kernel.initFds i)
      ∧ (k.execute fs command env).2.currentPcb
        = getPcbPointer (k.execute fs command env).2.currProcess := by
  obtain ⟨p, hp, hslot, hc⟩ := k.core_started fs h
  constructor
  · intro i hi
    have hpcb : (k.execute fs command env).2.callerPcb
        = Core.freshPcb p _ env.frame ((k.core.claim p command).pcbOf p) :=
      (congrArg (fun c : Core => c.pcbOf c.currProcess) hc).trans (Core.pcbOf_start_self _ _ p)
    rw [hpcb]
    simp [Core.freshPcb, maxFile, hi]
  · have h1 : (k.execute fs command env).2.currentPcb = getPcbPointer p :=
      congrArg Core.currentPcb hc
    have h2 : (k.execute fs command env).2.currProcess = p := congrArg Core.currProcess hc
    rw [h1, h2]

theorem tableMatches_of_started {fs : FileSys} {k : Kernel} {command : List UInt8} {env : ExecEnv}
    {entry : UInt32} (h : (k.execute fs command env).1 = .started entry) :
    TableMatches (k.execute fs command env).2 (fun _ => false) := by
  have hfds := (callerPcb_of_started h).1
  refine ⟨by rw [hfds 0 (by decide)]; rfl, by rw [hfds 1 (by decide)]; rfl, fun i h2 h8 => ?_⟩
  have hne : i ≠ 0 ∧ i ≠ 1 := by omega
  rw [hfds i h8]
  simp [Kernel.initFds, hne]

namespace TableMatches

variable {k : Kernel} {opened : Nat → Bool}

/-- What leaves the flags alone keeps the agreement. -/
theorem of_flags {k' : Kernel} (h : TableMatches k opened)
    (hflags : ∀ i, (k'.callerPcb.fdsArray i).flags = (k.callerPcb.fdsArray i).flags) :
    TableMatches k' opened :=
  ⟨(hflags 0).trans h.stdin, (hflags 1).trans h.stdout, fun i h2 h8 => by
    rw [hflags i]; exact h.files i h2 h8⟩

theorem openFile (fs : FileSys) (h : TableMatches k opened) (filename : List UInt8)
    (hname : ReservedNameOk k (.openFile filename)) :
    TableMatches (k.openFile fs filename).2
      (openedAfter fs k (.openFile filename) (k.openFile fs filename).2 opened) := by
  have hcase := k.openFile_cases fs filename
  dsimp only [openedAfter]
  generalize k.openFile fs filename = r at hcase ⊢
  obtain ⟨v, k'⟩ := r
  dsimp only at hcase
  cases hcase with
  | stdin hin => exact absurd hin hname.1
  | stdout hin hout =>
      -- slot 2 is in use already and stays so
      have hset := hname.2 hout
      refine ⟨by simpa using h.stdin, by simpa using h.stdout, fun i h2 h8 => ?_⟩
      by_cases hi : i = 2
      · subst hi
        simp only [Kernel.callerPcb_setPcb, Pcb.fdsArray_setFds, if_true]
        exact ⟨fun _ => (h.files 2 h2 h8).1 hset, fun _ => by decide⟩
      · simpa [hi] using h.files i h2 h8
  | failed => exact h
  | otherType => exact h
  | @opened i d q hd hi hq =>
      obtain ⟨h2, h8, -⟩ := Kernel.freeSlot_mem hi
      obtain ⟨hother, hslot⟩ := Kernel.fdsArray_openSlot hq
      have hset : (q.fdsArray i).flags ≠ notSet := by
        rcases hslot with ⟨-, hf⟩ | ⟨-, hf⟩ | ⟨-, hf⟩ <;> rw [hf]
        · exact show rtcFlag ≠ notSet by decide
        · exact show dirFlag ≠ notSet by decide
        · exact show fileFlag ≠ notSet by decide
      have hfd : (2 : Int) ≤ (i : Int) := by omega
      refine ⟨?_, ?_, fun j hj2 hj8 => ?_⟩
      · rw [Kernel.callerPcb_setPcb, hother 0 (by omega)]
        exact h.stdin
      · rw [Kernel.callerPcb_setPcb, hother 1 (by omega)]
        exact h.stdout
      · by_cases hj : j = i
        · subst hj
          simp [hfd, hset]
        · rw [Kernel.callerPcb_setPcb, hother j hj]
          simpa [hfd, hj] using h.files j hj2 hj8

theorem close (fs : FileSys) (h : TableMatches k opened) (fd : Int) :
    TableMatches (k.close fd).2 (openedAfter fs k (.close fd) (k.close fd).2 opened) := by
  have hcase := k.close_cases fd
  dsimp only [openedAfter]
  generalize k.close fd = r at hcase ⊢
  obtain ⟨v, k'⟩ := r
  dsimp only at hcase
  cases hcase with
  | failed => exact h
  | closed hlo hhi hset =>
      have h0 : ¬ 0 = fd.toNat := by omega
      have h1 : ¬ 1 = fd.toNat := by omega
      refine ⟨by simpa [h0] using h.stdin, by simpa [h1] using h.stdout, fun i h2 h8 => ?_⟩
      by_cases hi : i = fd.toNat
      · subst hi
        simp
      · simpa [hi] using h.files i h2 h8

theorem read (fs : FileSys) (h : TableMatches k opened) {fd : Int} {buf : UInt32} {nbytes : Int}
    {r : Transfer × Kernel} (hr : k.read fs fd buf nbytes = some r) : TableMatches r.2 opened := by
  refine h.of_flags (fun i => ?_)
  rcases k.read_cases fs hr with hsame | ⟨-, -, -, rfl⟩
  · rw [Kernel.callerPcb_congr hsame]
  · rw [Kernel.fileReadSetup, Kernel.callerPcb_setPcb, Pcb.fdsArray_setFds]
    split_ifs with hi
    · rw [hi]
    · rfl

end TableMatches

/-- One call keeps the agreement. -/
theorem tableMatches_step {lay : Layout} {fs : FileSys} {k k' : Kernel} {e : Event}
    {opened : Nat → Bool} (h : TableMatches k opened) (hcall : FdCall e) (hname : ReservedNameOk k e)
    (hstep : k.step lay fs e = some k') : TableMatches k' (openedAfter fs k e k' opened) := by
  cases e with
  | openFile filename =>
      cases hstep
      exact h.openFile fs filename hname
  | close fd =>
      cases hstep
      exact h.close fs fd
  | read fd buf nbytes =>
      obtain ⟨r, hr, rfl⟩ := Option.map_eq_some_iff.1 hstep
      exact h.read fs hr
  | write fd buf bytes nbytes =>
      obtain ⟨r, hr, rfl⟩ := Option.map_eq_some_iff.1 hstep
      refine h.of_flags (fun i => ?_)
      rw [Kernel.callerPcb_congr (k.core_write hr)]
  | _ => exact hcall.elim

/-- **The descriptor table follows the calls.** From the start of a program, over every sequence of
    calls on descriptors with harmless names. -/
theorem descriptor_table_of_run (lay : Layout) (fs : FileSys) (k : Kernel) (command : List UInt8)
    (env : ExecEnv) (entry : UInt32) (hstart : (k.execute fs command env).1 = .started entry)
    (s : Kernel × (Nat → Bool))
    (hrun : Reaches (withGhost (Kernel.step lay fs) (openedAfter fs))
      (fun s e => FdCall e ∧ ReservedNameOk s.1 e) ((k.execute fs command env).2, fun _ => false) s) :
    TableMatches s.1 s.2 := by
  refine hrun.invariant (I := fun s => TableMatches s.1 s.2) (tableMatches_of_started hstart) ?_
  intro s e s' hs hok hstep
  obtain ⟨hk, hg⟩ := withGhost_eq_some hstep
  rw [hg]
  exact tableMatches_step hs hok.1 hok.2 hk

/-- The shell opens `note`. -/
theorem descriptor_table_of_run_note :
    TableMatches (sampleShell.openFile sampleFs noteName).2
      (openedAfter sampleFs sampleShell (.openFile noteName) (sampleShell.openFile sampleFs noteName).2
        (fun _ => false)) :=
  descriptor_table_of_run sampleLayout sampleFs (Kernel.boot sampleLayout sampleMemory) shellName
    (sampleEnv 100 101) 0x8048000 sampleShell_started (_, _)
    (Reaches.refl.tail (e := .openFile noteName)
      ⟨trivial, by decide +kernel, fun h => absurd h (by decide +kernel)⟩ rfl)

/-- The shell opens `stdin`: slot 1 is stdin afterwards, and stdout is gone. -/
theorem open_stdin_breaks_table :
    ¬ ∀ (lay : Layout) (fs : FileSys) (k : Kernel) (command : List UInt8) (env : ExecEnv)
      (entry : UInt32), (k.execute fs command env).1 = .started entry →
      ∀ s, Reaches (withGhost (Kernel.step lay fs) (openedAfter fs)) (fun _ e => FdCall e)
        ((k.execute fs command env).2, fun _ => false) s → TableMatches s.1 s.2 := by
  intro h
  have hflags : ((sampleShell.openFile sampleFs stdinName).2.callerPcb.fdsArray 1).flags = stdinFlag := by
    decide +kernel
  have hmatch := h sampleLayout sampleFs (Kernel.boot sampleLayout sampleMemory) shellName
    (sampleEnv 100 101) 0x8048000 sampleShell_started
    ((sampleShell.openFile sampleFs stdinName).2, _)
    (Reaches.refl.tail (e := .openFile stdinName) trivial rfl)
  exact absurd (hflags.symm.trans hmatch.stdout) (by decide)

end UnixTerminal
