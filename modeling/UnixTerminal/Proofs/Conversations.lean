import UnixTerminal.Proofs.KeyedLine

set_option autoImplicit false

/-! # Programs that print and read lines

What is seen of a program at its terminal is a conversation: it prints, and it reads lines that are typed.
`Talked` says that a conversation was all that happened, and conversations are put together like runs
(`Talked.trans`). A program without a read of the keyboard, as in `Prints`, is one that only prints. -/

namespace UnixTerminal

/-! ## Conversations -/

/-- The program prints, or reads a line of keys. -/
inductive Talk
  | print (text : List UInt8)
  | line (codes : List UInt8)

/-- The lines that are typed. -/
def Talk.lines : Talk → List (List UInt8)
  | .print _ => []
  | .line codes => [codes]

def typedLines (script : List Talk) : List (List UInt8) := script.flatMap Talk.lines

/-- What the screen shows of it. -/
def PrivateScreen.talk (s : PrivateScreen) : Talk → PrivateScreen
  | .print text => text.foldl PrivateScreen.putc s
  | .line codes => s.typeLine (typedChars codes)

/-- The process runs on the viewed terminal, and nothing is typed yet. -/
structure Kernel.Attended (k : Kernel) : Prop extends k.LineReady where
  term : k.currTerm = k.currTerminalNumber

/-- From `k` to `k'` the running process had a conversation and worked on its own descriptors. -/
structure Talked (k : Kernel) (script : List Talk) (k' : Kernel) : Prop where
  core : k'.core = k.core.setPcb k.currProcess (fun _ => k'.callerPcb)
  ownEdit : OwnEdit k.callerPcb k'.callerPcb
  screen : ∀ s : PrivateScreen, (k.cells k.currTerm).logical = s.logical →
    (k'.cells k.currTerm).logical = (script.foldl PrivateScreen.talk s).logical
  others : ∀ t, t ≠ k.currTerm → k'.cells t = k.cells t
  ready : k.LineReady → k'.LineReady

theorem Kernel.LineReady.congr {k k' : Kernel} (h : k.LineReady) (hlines : k'.lines = k.lines)
    (hindices : k'.indices = k.indices) : k'.LineReady := by
  have hbuf : k'.keyboardBuf = k.keyboardBuf := congrArg Lines.buf hlines
  refine ⟨hindices ▸ h.level, (congrArg Lines.idx hlines).trans h.idx, ?_⟩
  rw [hbuf]
  exact h.front

namespace Talked

variable {k k₁ k₂ : Kernel} {script script' : List Talk}

theorem currTerm (h : Talked k script k₁) : k₁.currTerm = k.currTerm := congrArg Core.currTerm h.core

theorem currTerminalNumber (h : Talked k script k₁) : k₁.currTerminalNumber = k.currTerminalNumber :=
  congrArg Core.currTerminalNumber h.core

theorem currProcess (h : Talked k script k₁) : k₁.currProcess = k.currProcess := congrArg Core.currProcess h.core

/-- **Conversations are put together.** -/
theorem trans (h : Talked k script k₁) (h' : Talked k₁ script' k₂) : Talked k (script ++ script') k₂ := by
  refine ⟨?_, h.ownEdit.trans h'.ownEdit, fun s hs => ?_, fun t ht => ?_, fun hready => h'.ready (h.ready hready)⟩
  · rw [h'.core, h.currProcess, h.core]
    simp only [Core.setPcb, Function.update_idem]
  · rw [List.foldl_append, ← h.currTerm]
    exact h'.screen _ (h.currTerm ▸ h.screen s hs)
  · rw [h'.others t (h.currTerm ▸ ht), h.others t ht]

theorem attended (h : Talked k script k₁) (hk : k.Attended) : k₁.Attended :=
  ⟨h.ready hk.toLineReady, h.currTerm.trans (hk.term.trans h.currTerminalNumber.symm)⟩

theorem running (h : Talked k script k₁) (hk : k.Running) : k₁.Running where
  currentPcb := by
    rw [h.currProcess, ← hk.currentPcb]
    exact congrArg Core.currentPcb h.core
  stdin := by rw [h.ownEdit.stdin, hk.stdin]
  stdout := by rw [h.ownEdit.stdout, hk.stdout]

end Talked

/-! ## Prints -/

theorem field_emit {β : Type} {field : Kernel → β} (hf : QuietField field) (k : Kernel) (c : UInt8) :
    field (k.emit c) = field k := by
  unfold Kernel.emit
  split_ifs
  · exact hf.screen.putc k c
  · exact hf.putcNodisplay k c

namespace Kernel

variable {k k' : Kernel} {text : List UInt8}

/-- A run leaves the keyboard alone. -/
theorem Ran.keyboard (h : k.Ran text k') : k'.lines = k.lines ∧ k'.indices = k.indices := by
  obtain ⟨p, i, -, rfl⟩ := h
  exact ⟨Kernel.field_foldl Kernel.lines (field_emit Kernel.quietField_lines) text k,
    Kernel.field_foldl Kernel.indices (field_emit Kernel.quietField_indices) text k⟩

/-- A run is a conversation without lines. -/
theorem Ran.talked (h : k.Ran text k') : Talked k [.print text] k' := by
  refine ⟨h.core, h.ownEdit, fun s hs => ?_, fun t ht => ?_, fun hready => ?_⟩
  · rw [h.cells, if_pos rfl]
    exact foldl_logical_putc text hs
  · rw [h.cells, if_neg ht]
  · exact hready.congr h.keyboard.1 h.keyboard.2

/-- On the viewed terminal the kernel prints where the program does. -/
theorem puts_eq_foldl_emit (text : List UInt8) : ∀ {k : Kernel}, k.currTerm = k.currTerminalNumber →
    k.puts text = text.foldl emit k := by
  induction text with
  | nil => intro k _; rfl
  | cons c text ih =>
      intro k h
      have hcore := k.core_emit c
      have hstep : k.putc c = k.emit c := (if_pos h).symm
      rw [List.foldl_cons, ← ih, puts, puts, List.foldl_cons, hstep]
      exact (congrArg Core.currTerm hcore).trans (h.trans (congrArg Core.currTerminalNumber hcore).symm)

end Kernel

/-! ## Lines -/

/-- The line is taken: no screen changes. -/
theorem Kernel.cells_lineTaken (k : Kernel) (t u : Nat) : (k.lineTaken t).cells u = k.cells u := by
  have hsaved : ((k.lineTaken t).terminals u).cells = (k.terminals u).cells := by
    change (Function.update k.terminals t { k.terminals t with termEnter := 0 } u).cells = _
    by_cases hu : u = t
    · subst hu
      rw [Function.update_self]
      rfl
    · rw [Function.update_of_ne hu]
  rw [Kernel.cells, hsaved]
  rfl

/-- A line was typed and read. -/
structure LineRead (k : Kernel) (codes : List UInt8) (k' : Kernel) : Prop where
  core : k'.core = k.core
  screen : ∀ s : PrivateScreen, (k.cells k.currTerm).logical = s.logical →
    (k'.cells k.currTerm).logical = (s.typeLine (typedChars codes)).logical
  others : ∀ t, t ≠ k.currTerm → k'.cells t = k.cells t
  ready : k'.LineReady
  listing : k'.dirReadIdxNew = k.dirReadIdxNew

section Read

variable (lay : Layout) (fs : FileSys) (us : UserSpace) (frame : Frame) (env : ExecEnv) {k : Kernel} {keys : Keys}

/-- **A program reads a line**: its characters and the newline, or as many of them as it asked for. -/
theorem exists_lineRead (hk : k.Attended) (hin : ((k.pcb k.currentPcb).fdsArray 0).flags = stdinFlag)
    (hplain : keys.Plain) (lines : List (List UInt8)) {codes : List UInt8}
    (hcodes : ∀ code ∈ codes, Typeable code) (hlen : codes.length ≤ 128) :
    ∃ k', LineRead k codes k' ∧ ∀ (run : List UInt8 → Typing → Option (Int × Typing)) (n : Nat),
      (Typing.calls lay fs us frame env run).ece391Read 0 n ⟨keys, k, codes :: lines⟩
        = some (⟨(min n (codes.length + 1) : Nat), 0, (typedChars codes ++ [10]).take n ++ [0]⟩, ⟨keys, k', lines⟩) := by
  obtain ⟨k₁, hpresses, htyped⟩ := lineTyped_of_presses lay fs frame env hplain hk.toLineReady lines hcodes hlen
  have hterm : k₁.currTerm = k.currTerminalNumber := (congrArg Core.currTerm htyped.core).trans hk.term
  have henter : k₁.EnterPressed := by
    change (k₁.terminals k₁.currTerm).termEnter ≠ 0
    rw [hterm]
    exact htyped.enter
  have hline : ∀ i : Nat, i < k₁.keyboardIdx.toNat → k₁.keyboardBuf i ≠ 10 :=
    fun i hi => (htyped.pending.char (htyped.pending.idx ▸ hi)).2
  have hchars : (typedChars codes).length = codes.length := List.length_map _
  have hread : ∀ n : Nat, k₁.keyboardRead n
      = some (⟨(min n (codes.length + 1) : Nat), 0, (typedChars codes ++ [10]).take n ++ [0]⟩,
        k₁.lineTaken k₁.currTerm) := by
    intro n
    rw [keyboardRead_of_line hline henter, htyped.pending.copyLine_eq n (Nat.zero_le _), List.drop_zero,
      List.length_take, List.length_append, hchars, List.length_singleton]
  have hcore := k₁.core_keyboardRead (hread 0)
  refine ⟨k₁.lineTaken k₁.currTerm, ⟨hcore.trans htyped.core, fun s hs => ?_, fun t ht => ?_, ?_, htyped.listing⟩,
    fun run n => ?_⟩
  · rw [Kernel.cells_lineTaken, hk.term]
    exact htyped.screen s (hk.term ▸ hs)
  · rw [Kernel.cells_lineTaken, htyped.others t (hk.term ▸ ht)]
  · refine ⟨Kernel.level_keyboardRead htyped.level (hread 0), rfl, ?_⟩
    have hfront : (k₁.lineTaken k₁.currTerm).keyboardBuf (-1) = k₁.keyboardBuf (-1) := by
      simp [Kernel.lineTaken]
    rw [hfront]
    exact htyped.pending.front
  · have hpcb : k₁.pcb k₁.currentPcb = k.pcb k.currentPcb :=
      congrArg (fun c : Core => c.pcb c.currentPcb) htyped.core
    have hflags : ((k₁.pcb k₁.currentPcb).fdsArray (0 : Int).toNat).flags.toNat = 1 := by
      rw [hpcb]
      exact congrArg UInt32.toNat hin
    have hrange : ¬ ((n : Int) < 0 ∨ us.ptr = 0 ∨ (0 : Int) > (maxFile : Int) - 1 ∨ (0 : Int) < 0) := by
      simp [us.ptr_ne, maxFile]
    simp only [Typing.calls, if_true, hpresses, Typing.call, kernelCalls, Kernel.read]
    rw [if_neg hrange, hflags]
    simp only [Int.toNat_natCast, hread, Option.map_some]

end Read

/-! ## Programs -/

/-- With these arguments the program has this conversation at an attended terminal, ends in this way and does
    nothing else that is seen from outside. -/
def Talks (main : Typing → Nat → Option (ProgramEnd × Typing)) (args : List UInt8) (script : List Talk)
    (stop : ProgramEnd) : Prop :=
  ∀ (keys : Keys) (k : Kernel) (lines : List (List UInt8)), keys.Plain → k.Fresh args → k.Attended →
    ∃ k', Yields (main ⟨keys, k, typedLines script ++ lines⟩) (stop, ⟨keys, k', lines⟩) ∧ Talked k script k' ∧
      k'.dirReadIdxNew = 0

/-- A program that only prints. -/
theorem Prints.talks {main : Kernel → Nat → Option (Int × Kernel)} {args text : List UInt8} {status : Int}
    (h : Prints main args text status) :
    Talks (Typing.ofKernel main) args [.print text] (.returns status) := by
  intro keys k lines _ hk _
  obtain ⟨k', hrun, hran, hidx⟩ := h k hk
  exact ⟨k', hrun.map (fun r => (ProgramEnd.returns r.1, (⟨keys, r.2, lines⟩ : Typing))), hran.talked, hidx⟩

end UnixTerminal
