import UnixTerminal.Programs.Shell
import UnixTerminal.Proofs.CatFile
import UnixTerminal.Proofs.ExecuteFailure
import UnixTerminal.Proofs.GrepStrings
import UnixTerminal.Proofs.ProgramReturns
import UnixTerminal.Proofs.TypedLines

set_option autoImplicit false

/-! # A session of the shell

The shell of `ece391shell.c` on the kernel, with lines typed at the keyboard: prompt, line, program, prompt.
The program has its own conversation at the keyboard, and may end in an exception. The invariant of the loop is
`Kernel.AtPrompt`, and `Shown` says what the terminal shows there. Each step of a pass (a print, a typed line,
a command that returns) keeps both; the session follows by induction on the lines. -/

namespace UnixTerminal

/-! ## `ece391_strcmp` -/

section Strcmp

variable {mem mem' : Nat → UInt8} {i : Nat} {s t : List UInt8}

theorem StringAt.head {c : UInt8} (h : StringAt mem i (c :: s)) : mem i = c := h.char 0 (Nat.zero_lt_succ _)

/-- Where the bytes differ, the loop ends with their difference. -/
theorem breaks_strcmp_ne (h : mem i ≠ mem' i) :
    ∃ r, Breaks (fun _ => strcmpPass mem mem') i r ∧ r ≠ 0 := by
  refine ⟨((mem i).toNat : Int) - (mem' i).toNat, .here ?_, ?_⟩
  · rw [strcmpPass, if_neg h]
    exact yields_some _
  · intro h0
    have heq : (mem i).toNat = (mem' i).toNat := by omega
    exact h (UInt8.toNat_inj.1 heq)

/-- **`ece391_strcmp`** ends, with 0 for equal strings only. -/
theorem breaks_strcmp (hs : StringAt mem i s) (ht : StringAt mem' i t) (hsnul : ∀ c ∈ s, c ≠ 0)
    (htnul : ∀ c ∈ t, c ≠ 0) : ∃ r, Breaks (fun _ => strcmpPass mem mem') i r ∧ (r = 0 ↔ s = t) := by
  induction s generalizing i t with
  | nil =>
      have hs0 : mem i = 0 := hs.nul
      cases t with
      | nil =>
          have ht0 : mem' i = 0 := ht.nul
          refine ⟨0, .here ?_, by simp⟩
          rw [strcmpPass, if_pos (hs0.trans ht0.symm), if_pos hs0]
          exact yields_some _
      | cons d t =>
          have hne : mem i ≠ mem' i := by
            rw [hs0, ht.head]
            exact (htnul d List.mem_cons_self).symm
          obtain ⟨r, hr, hr0⟩ := breaks_strcmp_ne hne
          exact ⟨r, hr, by simp [hr0]⟩
  | cons c s ih =>
      have hc : mem i ≠ 0 := by
        rw [hs.head]
        exact hsnul c List.mem_cons_self
      cases t with
      | nil =>
          have hne : mem i ≠ mem' i := by
            rw [show mem' i = 0 from ht.nul]
            exact hc
          obtain ⟨r, hr, hr0⟩ := breaks_strcmp_ne hne
          exact ⟨r, hr, by simp [hr0]⟩
      | cons d t =>
          by_cases hcd : c = d
          · obtain ⟨r, hr, hr0⟩ := ih hs.tail ht.tail (fun x hx => hsnul x (List.mem_cons_of_mem _ hx))
              (fun x hx => htnul x (List.mem_cons_of_mem _ hx))
            have hsame : mem i = mem' i := by rw [hs.head, ht.head, hcd]
            refine ⟨r, .pass ?_ hr, by rw [hr0, hcd, List.cons_inj_right]⟩
            rw [strcmpPass, if_pos hsame, if_neg hc]
            exact yields_some _
          · have hne : mem i ≠ mem' i := by
              rw [hs.head, ht.head]
              exact hcd
            obtain ⟨r, hr, hr0⟩ := breaks_strcmp_ne hne
            exact ⟨r, hr, by simp [hr0, hcd]⟩

theorem stringAt_literal (text : List UInt8) : StringAt (literal text) 0 text := by
  refine ⟨fun j hj => ?_, ?_⟩
  · rw [Nat.zero_add, literal, List.getD_eq_getElem _ _ hj]
  · rw [Nat.zero_add, literal, List.getD_eq_default _ _ le_rfl]

end Strcmp

/-! ## At the prompt -/

/-- The shell runs on the viewed terminal and waits for a line: it has its descriptors 0 and 1 and no others,
    nothing was typed yet, and there is room for a program. -/
structure Kernel.AtPrompt (k : Kernel) : Prop extends k.Parent, k.Attended where
  stdin : ((k.pcb k.currentPcb).fdsArray 0).flags = stdinFlag
  stdout : ((k.pcb k.currentPcb).fdsArray 1).flags = stdoutFlag
  free : k.core.freeSlot ≠ none
  listing : k.dirReadIdxNew = 0

/-- From `k` the shell came to a prompt in `k'`, with `s` on its screen and the other screens untouched. -/
structure Shown (k : Kernel) (s : PrivateScreen) (k' : Kernel) : Prop where
  prompt : k'.AtPrompt
  term : k'.currTerm = k.currTerm
  screen : (k'.cells k.currTerm).logical = s.logical
  others : ∀ t, t ≠ k.currTerm → k'.cells t = k.cells t

theorem Kernel.Parent.congr {k k' : Kernel} (h : k.Parent) (hcore : k'.core = k.core) : k'.Parent := by
  refine ⟨hcore ▸ h.coherent, ?_, ?_, ?_⟩
  · rw [hcore, show k'.currTerminalNumber = k.currTerminalNumber from congrArg Core.currTerminalNumber hcore]
    exact h.viewed
  · rw [show k'.processArray = k.processArray from congrArg Core.processArray hcore,
      show k'.currProcess = k.currProcess from congrArg Core.currProcess hcore]
    exact h.live
  · rw [Kernel.callerPcb_congr hcore]
    exact h.files

/-- The process manager, the line and the listing decide. -/
theorem Kernel.AtPrompt.congr {k k' : Kernel} (h : k.AtPrompt) (hcore : k'.core = k.core) (hready : k'.LineReady)
    (hidx : k'.dirReadIdxNew = k.dirReadIdxNew) : k'.AtPrompt := by
  have hpcb : k'.pcb k'.currentPcb = k.pcb k.currentPcb := congrArg (fun c : Core => c.pcb c.currentPcb) hcore
  have hterm : k'.currTerm = k'.currTerminalNumber :=
    (congrArg Core.currTerm hcore).trans (h.term.trans (congrArg Core.currTerminalNumber hcore).symm)
  refine ⟨h.toParent.congr hcore, ⟨hready, hterm⟩, ?_, ?_, ?_, hidx.trans h.listing⟩
  · rw [hpcb]
    exact h.stdin
  · rw [hpcb]
    exact h.stdout
  · rw [hcore]
    exact h.free

section Booted

variable {lay : Layout} {fs : FileSys} {mem : BootMemory} {env : ExecEnv} {entry : UInt32} {k : Kernel}
  {frame : Frame}

/-- The process manager with the first shell just started. -/
abbrev firstShellCore (lay : Layout) (mem : BootMemory) (frame : Frame) : Core :=
  ((Kernel.boot lay mem).core.claim 0 shellName).start 0 frame

theorem core_booted (hstart : ((Kernel.boot lay mem).execute fs shellName env).1 = .started entry) :
    ((Kernel.boot lay mem).execute fs shellName env).2.core = firstShellCore lay mem env.frame := by
  obtain ⟨p, -, hslot, hcore⟩ := (Kernel.boot lay mem).core_started fs hstart
  have hfree : ∀ i, i < 6 → (Kernel.boot lay mem).core.processArray i = 0 := by
    intro i _
    rw [core_boot]
  obtain rfl : p = 0 := eq_zero_of_freeSlot hfree hslot
  exact hcore

theorem coherent_firstShell : Coherent (firstShellCore lay mem frame) := by
  refine (Coherent.start_iff (by decide) ?_ ?_ (fun t ht _ hactive => ?_) (Or.inr ?_) frame).2 (Or.inl ?_)
  all_goals simp only [Core.claim, core_boot]
  · decide
  · decide
  · simp only [Core.claim, core_boot, if_pos ht] at hactive
    exact absurd rfl hactive

theorem processArray_firstShell (hcore : k.core = firstShellCore lay mem frame) :
    k.processArray = Function.update (fun _ => 0) 0 1 := by
  have harray : k.processArray = Function.update (Kernel.boot lay mem).core.processArray 0 1 :=
    congrArg Core.processArray hcore
  rw [harray, core_boot]

theorem parent_firstShell (hcore : k.core = firstShellCore lay mem frame) (hfiles : NoFiles k.callerPcb) :
    k.Parent := by
  refine ⟨hcore ▸ coherent_firstShell, ?_, ?_, hfiles⟩
  · rw [hcore, show k.currTerminalNumber = (Kernel.boot lay mem).core.currTerminalNumber from
      congrArg Core.currTerminalNumber hcore]
    exact Core.active_start_viewed _ _ _
  · rw [processArray_firstShell hcore, show k.currProcess = 0 from congrArg Core.currProcess hcore]
    decide

/-- Slot 1 is free. -/
theorem freeSlot_firstShell (hcore : k.core = firstShellCore lay mem frame) : k.core.freeSlot ≠ none := by
  intro hnone
  have hall := List.find?_eq_none.1 hnone 1 (by decide)
  have hone : k.core.processArray 1 = 0 := by
    change k.processArray 1 = 0
    rw [processArray_firstShell hcore]
    rfl
  rw [hone] at hall
  exact hall rfl

/-- **The first shell** comes to its prompt on a blank screen, if the byte in front of the line buffer is no
    newline. -/
theorem atPrompt_booted (hstart : ((Kernel.boot lay mem).execute fs shellName env).1 = .started entry)
    (hfront : mem.beforeKeyboardBuf ≠ 10) :
    ((Kernel.boot lay mem).execute fs shellName env).2.AtPrompt ∧
      ((Kernel.boot lay mem).execute fs shellName env).2.currTerm = 0 ∧
      ∀ t, t < 3 → (((Kernel.boot lay mem).execute fs shellName env).2.cells t).logical
        = PrivateScreen.blank.logical := by
  have hcore := core_booted hstart
  obtain ⟨hfds, hpcb⟩ := callerPcb_of_started hstart
  have hready := ready_shell lay fs mem shellName env
  have hlevel : ((Kernel.boot lay mem).execute fs shellName env).2.indices.Level := by
    rw [Kernel.indices_execute]
    exact level_boot lay mem
  have hidx : ((Kernel.boot lay mem).execute fs shellName env).2.dirReadIdxNew = 0 :=
    dirReadIdxNew_execute _ _ _
  have hcells : ∀ t, t < 3 → (((Kernel.boot lay mem).execute fs shellName env).2.cells t).logical
      = PrivateScreen.blank.logical := by
    intro t ht
    rw [← Kernel.logicalScreen_eq]
    exact logicalScreen_boot hstart ht
  generalize ((Kernel.boot lay mem).execute fs shellName env).2 = k at *
  have hterm : k.currTerm = 0 :=
    (congrArg Core.currTerm hcore).trans (congrArg Core.currTerm (core_boot lay mem))
  have hviewed : k.currTerminalNumber = 0 :=
    (congrArg Core.currTerminalNumber hcore).trans (congrArg Core.currTerminalNumber (core_boot lay mem))
  have hflags : k.pcb k.currentPcb = k.callerPcb := by
    rw [hpcb]
    rfl
  have hfiles : NoFiles k.callerPcb := by
    intro i h2 h8
    rw [hfds i h8, Kernel.initFds, if_neg (by omega), if_neg (by omega)]
  have hattended : k.Attended :=
    ⟨⟨hlevel, hready.1.idx, by rw [hready.2]; exact hfront⟩, hterm.trans hviewed.symm⟩
  refine ⟨⟨parent_firstShell hcore hfiles, hattended, ?_, ?_, freeSlot_firstShell hcore, hidx⟩, hterm, hcells⟩
  · rw [hflags, hfds 0 (by decide)]
    rfl
  · rw [hflags, hfds 1 (by decide)]
    rfl

end Booted

/-! ## Steps -/

namespace Shown

variable {k k₁ k₂ : Kernel} {s : PrivateScreen}

theorem refl (h : k.AtPrompt) (hs : (k.cells k.currTerm).logical = s.logical) : Shown k s k :=
  ⟨h, rfl, hs, fun _ _ => rfl⟩

/-- Text is printed. -/
theorem print (h : Shown k s k₁) (text : List UInt8) :
    Shown k (text.foldl PrivateScreen.putc s) (text.foldl Kernel.emit k₁) := by
  have hran := Kernel.Ran.print k₁ text
  have hcore := k₁.core_foldl_emit text
  refine ⟨h.prompt.congr hcore ?_ (Kernel.dirReadIdxNew_foldl_emit text k₁), ?_, ?_, fun t ht => ?_⟩
  · exact h.prompt.toLineReady.congr hran.keyboard.1 hran.keyboard.2
  · exact (congrArg Core.currTerm hcore).trans h.term
  · rw [hran.cells, if_pos h.term.symm]
    exact foldl_logical_putc text h.screen
  · rw [hran.cells, if_neg (fun he => ht (he.trans h.term)), h.others t ht]

/-- A line is typed and read. -/
theorem line (h : Shown k s k₁) {codes : List UInt8} (hread : LineRead k₁ codes k₂) :
    Shown k (s.typeLine (typedChars codes)) k₂ := by
  refine ⟨h.prompt.congr hread.core hread.ready hread.listing, ?_, ?_, fun t ht => ?_⟩
  · exact (congrArg Core.currTerm hread.core).trans h.term
  · rw [← h.term]
    exact hread.screen s (h.term ▸ h.screen)
  · rw [hread.others t (h.term ▸ ht), h.others t ht]

/-- A command came back. -/
theorem returned (h : Shown k s k₁) {script : List Talk} (hret : k₁.Returned script k₂) :
    Shown k (script.foldl PrivateScreen.talk s) k₂ := by
  obtain ⟨⟨p, q, hp, hslot, hstdin, hstdout, hcore⟩, hscreen, hothers, hready, hidx⟩ := hret
  have hprompt := h.prompt
  have hne : k₁.currProcess ≠ p := by
    rintro rfl
    exact hprompt.live (Core.freeSlot_free hslot)
  have hptr : getPcbPointer k₁.currProcess ≠ getPcbPointer p := getPcbPointer_ne hprompt.coherent.current_lt hp hne
  have hterm : k₂.currTerm = k₁.currTerm := congrArg Core.currTerm hcore
  have hview : k₂.currTerminalNumber = k₁.currTerminalNumber := congrArg Core.currTerminalNumber hcore
  have hcurr : k₂.currProcess = k₁.currProcess := congrArg Core.currProcess hcore
  have hactive : k₂.core.active = k₁.core.active := by
    rw [hcore]
    rfl
  -- the slot of the program is another one, and its PCB is the current one
  have hcaller : k₂.callerPcb = k₁.callerPcb := by
    have hpcb : k₂.core.pcb (getPcbPointer k₁.currProcess) = k₁.core.pcb (getPcbPointer k₁.currProcess) := by
      rw [hcore]
      exact Function.update_of_ne hptr _ _
    rw [Kernel.callerPcb, hcurr]
    exact hpcb
  have hcurrent : k₂.pcb k₂.currentPcb = q := by
    change k₂.core.pcb k₂.core.currentPcb = q
    rw [hcore]
    exact Function.update_self _ _ _
  refine ⟨⟨⟨?_, ?_, ?_, ?_⟩, ⟨hready, ?_⟩, ?_, ?_, ?_, hidx⟩, hterm.trans h.term, ?_, fun t ht => ?_⟩
  · rw [hcore]
    exact hprompt.coherent.congr rfl rfl rfl rfl rfl rfl rfl
  · rw [hactive, hview]
    exact hprompt.viewed
  · rw [hcurr, show k₂.processArray = k₁.processArray from congrArg Core.processArray hcore]
    exact hprompt.live
  · rw [hcaller]
    exact hprompt.files
  · rw [hterm, hview]
    exact hprompt.term
  · rw [hcurrent]
    exact hstdin
  · rw [hcurrent]
    exact hstdout
  · rw [hcore]
    exact hprompt.free
  · rw [← h.term]
    exact hscreen s (h.term ▸ h.screen)
  · rw [hothers t (h.term ▸ ht), h.others t ht]

end Shown

/-! ## A pass of the loop -/

theorem StringAt.memBytes {mem : Nat → UInt8} {text : List UInt8} (h : StringAt mem 0 text) :
    memBytes text.length mem = text := by
  refine List.ext_getElem (length_memBytes _ _) (fun i _ hi => ?_)
  have hchar := h.char i hi
  rw [Nat.zero_add] at hchar
  simp [UnixTerminal.memBytes, hchar]

theorem StringAt.cstr {mem : Nat → UInt8} {text : List UInt8} (h : StringAt mem 0 text) (hnul : ∀ c ∈ text, c ≠ 0)
    {n : Nat} (hn : text.length < n) : cstr (UnixTerminal.memBytes n mem) = text := by
  have hend := h.nul
  rw [Nat.zero_add] at hend
  exact cstr_memBytes hnul hn h.memBytes hend

/-- The line in the buffer of the shell, with a NUL for its newline. -/
theorem stringAt_line (chars : List UInt8) (ret : Int) (buf : Nat → UInt8) :
    StringAt (Function.update (Transfer.store ⟨ret, 0, chars ++ [10] ++ [0]⟩ buf) chars.length 0) 0 chars := by
  refine ⟨fun j hj => ?_, ?_⟩
  · rw [Nat.zero_add, Function.update_of_ne (Nat.ne_of_lt hj), Transfer.store, if_pos (Nat.zero_le _), Nat.sub_zero,
      List.append_assoc, List.getD_append _ _ _ _ hj, List.getD_eq_getElem _ _ hj]
  · rw [Nat.zero_add, Function.update_self]

section Choice

variable {σ : Type}

/-- The end of a pass, with the line in `b`. -/
def shellChoice (calls : UserCalls σ) (fuel : Nat) (b : Nat → UInt8) (sys : σ) :
    Option ((Int × σ) ⊕ (Nat → UInt8) × σ) :=
  (ece391Strcmp b (literal exitName) fuel).bind fun differs =>
    if differs = 0 then some (.inl (0, sys))
    else if b 0 = 0 then some (.inr (b, sys))
    else
      (calls.ece391Execute b sys).bind fun r =>
        if r.1 = 0 then some (.inr (b, r.2))
        else (calls.putLiteral (statusText r.1) r.2).map fun sys => .inr (b, sys)

theorem literalText_exitName : LiteralText exitName := by constructor <;> simp [exitName]

variable {calls : Nat → UserCalls σ} {b : Nat → UInt8} {chars : List UInt8} {sys sys' sys'' : σ}

/-- The comparison with `exit` decides. -/
theorem yields_isExit (h : StringAt b 0 chars) (hnul : ∀ c ∈ chars, c ≠ 0) :
    ∃ r, Yields (fun fuel => ece391Strcmp b (literal exitName) fuel) r ∧ (r = 0 ↔ chars = exitName) := by
  obtain ⟨r, hbreaks, hr⟩ := breaks_strcmp h (stringAt_literal exitName) hnul literalText_exitName.ne_zero
  exact ⟨r, hbreaks.yields, hr⟩

theorem yields_choice_exit (h : StringAt b 0 exitName) :
    Yields (fun fuel => shellChoice (calls fuel) fuel b sys) (.inl (0, sys)) := by
  obtain ⟨r, hcmp, hr⟩ := yields_isExit h literalText_exitName.ne_zero
  exact hcmp.bind ((yields_some _).congr (fun _ => if_pos (hr.2 rfl)))

theorem yields_choice_blank (h : StringAt b 0 []) :
    Yields (fun fuel => shellChoice (calls fuel) fuel b sys) (.inr (b, sys)) := by
  obtain ⟨r, hcmp, hr⟩ := yields_isExit h (fun c hc => absurd hc List.not_mem_nil)
  have hexit : ¬ r = 0 := by
    rw [hr]
    decide
  have hfirst : b 0 = 0 := h.nul
  exact hcmp.bind ((yields_some _).congr (fun _ => (if_neg hexit).trans (if_pos hfirst)))

/-- A command, with what the shell says of its end. -/
theorem yields_choice_command (h : StringAt b 0 chars) (hnul : ∀ c ∈ chars, c ≠ 0) (hne : chars ≠ [])
    (hname : chars ≠ exitName) {rval : Int}
    (hexec : Yields (fun fuel => (calls fuel).ece391Execute b sys) (rval, sys'))
    (hprint : ∀ fuel, (calls fuel).putLiteral (statusText rval) sys' = some sys'')
    (hsilent : rval = 0 → sys'' = sys') :
    Yields (fun fuel => shellChoice (calls fuel) fuel b sys) (.inr (b, sys'')) := by
  obtain ⟨r, hcmp, hr⟩ := yields_isExit h hnul
  have hexit : ¬ r = 0 := fun he => hname (hr.1 he)
  have hfirst : ¬ b 0 = 0 := h.ne_zero hnul (List.length_pos_of_ne_nil hne)
  have hstatus : Yields (fun fuel => if rval = 0 then some (.inr (b, sys'))
      else ((calls fuel).putLiteral (statusText rval) sys').map fun sys => .inr (b, sys))
      (.inr (b, sys'') : (Int × σ) ⊕ (Nat → UInt8) × σ) := by
    refine (yields_some _).congr (fun fuel => ?_)
    by_cases hzero : rval = 0
    · rw [if_pos hzero, hsilent hzero]
    · rw [if_neg hzero, hprint]
      rfl
  exact hcmp.bind ((hexec.bind hstatus).congr (fun _ => (if_neg hexit).trans (if_neg hfirst)))

end Choice

section Pass

variable (lay : Layout) (fs : FileSys) (us : UserSpace) (frame : Frame) (env : ExecEnv) {k k₁ : Kernel}
  {s : PrivateScreen} {keys : Keys}

/-- A call of `ece391_fdputs` while lines are typed. -/
theorem putLiteral_typing (run : List UInt8 → Typing → Option (Int × Typing)) (keys : Keys) {text : List UInt8}
    (htext : LiteralText text) (hout : ((k₁.pcb k₁.currentPcb).fdsArray 1).flags = stdoutFlag)
    (lines : List (List UInt8)) :
    (Typing.calls lay fs us frame env run).putLiteral text ⟨keys, k₁, lines⟩
      = some ⟨keys, text.foldl Kernel.emit k₁, lines⟩ := by
  have hput := Kernel.putLiteral_stdout fs us htext hout
  rw [UserCalls.putLiteral, Option.map_eq_some_iff] at hput
  obtain ⟨r, hwrite, hr⟩ := hput
  simp only [UserCalls.putLiteral, Typing.calls, Typing.call, hwrite, Option.map_some, hr]

/-- The prompt and the line: what is left of the pass is the choice by the line. -/
theorem shellPass_typed (h : Shown k s k₁) (hplain : keys.Plain) (lines : List (List UInt8)) {codes : List UInt8}
    (hcodes : ∀ code ∈ codes, Typeable code) (hlen : codes.length ≤ 128) (buf : Nat → UInt8) :
    ∃ b k₂, StringAt b 0 (typedChars codes) ∧
      Shown k (PrivateScreen.typeLine (promptText.foldl PrivateScreen.putc s) (typedChars codes)) k₂ ∧
      ∀ (run : List UInt8 → Typing → Option (Int × Typing)) (fuel : Nat),
        shellPass (Typing.calls lay fs us frame env run) fuel (buf, ⟨keys, k₁, codes :: lines⟩)
          = shellChoice (Typing.calls lay fs us frame env run) fuel b ⟨keys, k₂, lines⟩ := by
  have hprinted := h.print promptText
  obtain ⟨k₂, hline, hread⟩ := exists_lineRead lay fs us frame env hprinted.prompt.toAttended hprinted.prompt.stdin
    hplain lines hcodes hlen
  have hchars : (typedChars codes).length = codes.length := List.length_map _
  have hread' := fun run => hread run 1023
  rw [Nat.min_eq_right (by omega), List.take_of_length_le (by simp; omega)] at hread'
  refine ⟨_, k₂, stringAt_line (typedChars codes) (codes.length + 1 : Nat) buf, hprinted.line hline,
    fun run fuel => ?_⟩
  have htext : LiteralText promptText := by constructor <;> simp [promptText]
  have hput := putLiteral_typing lay fs us frame env run keys htext h.prompt.stdout (codes :: lines)
  have hvalue : (Typing.calls lay fs us frame env run).ece391Read 0 1023
      ⟨keys, promptText.foldl Kernel.emit k₁, codes :: lines⟩
      = some (⟨(codes.length + 1 : Nat), 0, typedChars codes ++ [10] ++ [0]⟩, ⟨keys, k₂, lines⟩) := hread' run
  have hfail : ¬ (((codes.length + 1 : Nat) : Int) = -1) := by omega
  have hsub : (((codes.length + 1 : Nat) : Int) - 1).toNat = (typedChars codes).length := by
    rw [hchars]
    omega
  -- the newline is the last byte
  have hlast : Transfer.store ⟨(codes.length + 1 : Nat), 0, typedChars codes ++ [10] ++ [0]⟩ buf
      (typedChars codes).length = 10 := by
    simp [Transfer.store]
  have hpos : ((codes.length + 1 : Nat) : Int) > 0 := by omega
  simp only [shellPass, shellChoice, hput, hvalue, Option.bind_some, hfail, hsub, hlast, hpos, and_self, if_false,
    if_true]

end Pass

/-! ## The session -/

/-- A line for the shell: its keys, the conversation that follows it, and what `execute` returns (0 where
    it is not called). -/
structure ShellLine where
  codes : List UInt8
  script : List Talk
  rval : Int

/-- What a line is: nothing, or the command of a program, with the message of the exception that ends it, if
    one does. -/
inductive ShellLine.Meaning (fs : FileSys) (caller : ExecEnv)
    (mains : Nat → List UInt8 → Typing → Option (ProgramEnd × Typing)) (l : ShellLine) : Prop
  | blank : l.codes = [] → l.script = [] → l.rval = 0 → Meaning fs caller mains l
  | command {name rest : List UInt8} {blanks : Nat} {main : Typing → Nat → Option (ProgramEnd × Typing)}
      {script : List Talk} {stop : ProgramEnd} :
      l.codes ≠ [] → typedChars l.codes ≠ exitName → CommandSplit (typedChars l.codes) name rest blanks →
      IsExe fs (typedChars l.codes) caller → Talks main rest script stop →
      (∀ fuel s, mains fuel name s = main s fuel) → l.script = script ++ [.print stop.message] →
      l.rval = stop.rval → Meaning fs caller mains l

/-- A line that can be typed, with its meaning. -/
structure ShellLine.Ok (fs : FileSys) (caller : ExecEnv)
    (mains : Nat → List UInt8 → Typing → Option (ProgramEnd × Typing)) (l : ShellLine) : Prop where
  typeable : ∀ code ∈ l.codes, Typeable code
  length_le : l.codes.length ≤ 127
  meaning : l.Meaning fs caller mains

/-- What is typed: the line, and what the program reads. -/
def ShellLine.typed (l : ShellLine) : List (List UInt8) := l.codes :: typedLines l.script

/-- What the terminal shows behind a line. -/
def PrivateScreen.shellLine (s : PrivateScreen) (l : ShellLine) : PrivateScreen :=
  (statusText l.rval).foldl PrivateScreen.putc (l.script.foldl PrivateScreen.talk
    (PrivateScreen.typeLine (promptText.foldl PrivateScreen.putc s) (typedChars l.codes)))

/-- What it shows behind a session that ends with `exit`. -/
def PrivateScreen.session (s : PrivateScreen) (lines : List ShellLine) : PrivateScreen :=
  PrivateScreen.typeLine (promptText.foldl PrivateScreen.putc
    (lines.foldl PrivateScreen.shellLine (startingText.foldl PrivateScreen.putc s))) exitName

theorem typedChars_ne_zero {codes : List UInt8} (h : ∀ code ∈ codes, Typeable code) :
    ∀ c ∈ typedChars codes, c ≠ 0 := by
  intro c hc
  obtain ⟨code, hcode, rfl⟩ := List.mem_map.1 hc
  exact (h code hcode).2.1

/-- Two spellings of a command. -/
theorem CommandSplit.congr {command command' name rest : List UInt8} {blanks : Nat}
    (h : CommandSplit command name rest blanks) (heq : cstr command' = cstr command) :
    CommandSplit command' name rest blanks :=
  ⟨heq.trans h.eq, h.name_char, h.name_end, h.rest_head⟩

theorem literalText_statusText (v : Int) : LiteralText (statusText v) := by
  unfold statusText
  split_ifs <;> constructor <;> simp [noCommandText, exceptionText, abnormalText]

theorem typedLines_append (script script' : List Talk) :
    typedLines (script ++ script') = typedLines script ++ typedLines script' := List.flatMap_append

section Session

variable (lay : Layout) {fs : FileSys} (us : UserSpace) (frame : Frame) (env : ExecEnv) {caller : ExecEnv}
  (halting : ExecEnv) {mains : Nat → List UInt8 → Typing → Option (ProgramEnd × Typing)} {k k₁ : Kernel}
  {s : PrivateScreen} {keys : Keys}

/-- The line in memory is the command. -/
theorem command_in_memory {b : Nat → UInt8} {chars name rest : List UInt8} {blanks : Nat} (h : StringAt b 0 chars)
    (hnul : ∀ c ∈ chars, c ≠ 0) (hlen : chars.length ≤ 127) (hsplit : CommandSplit chars name rest blanks)
    (hexe : IsExe fs chars caller) :
    CommandSplit (memBytes us.span b) name rest blanks ∧ IsExe fs (memBytes us.span b) caller ∧
      strlen (memBytes us.span b) ≤ 127 := by
  have hcstr : cstr (memBytes us.span b) = chars := h.cstr hnul (by have := us.le_span; omega)
  have hsplit' : CommandSplit (memBytes us.span b) name rest blanks :=
    hsplit.congr (by rw [hcstr, cstr_of_no_nul hnul])
  refine ⟨hsplit', ?_, ?_⟩
  · rw [isExe_iff, hsplit'.commandName_eq, ← hsplit.commandName_eq, ← isExe_iff]
    exact hexe
  · rw [strlen_eq_length_cstr, hcstr]
    exact hlen

/-- **A pass** with a line that is not `exit`. -/
theorem shellPass_line (h : Shown k s k₁) (hplain : keys.Plain) {l : ShellLine} (hok : l.Ok fs caller mains)
    (lines : List (List UInt8)) (buf : Nat → UInt8) :
    ∃ b k₂, Yields (fun fuel => shellPass (Typing.shellCalls lay fs us frame env caller halting mains fuel) fuel
        (buf, ⟨keys, k₁, l.typed ++ lines⟩)) (.inr (b, ⟨keys, k₂, lines⟩)) ∧
      Shown k (s.shellLine l) k₂ := by
  obtain ⟨b, k₂, hb, hshown, hpass⟩ := shellPass_typed lay fs us frame env h hplain
    (typedLines l.script ++ lines) hok.typeable (Nat.le_succ_of_le hok.length_le) buf
  have hnul := typedChars_ne_zero hok.typeable
  simp only [ShellLine.typed, List.cons_append, Typing.shellCalls, hpass]
  cases hok.meaning with
  | blank hcodes hscript hrval =>
      rw [hcodes] at hb
      refine ⟨b, k₂, ?_, ?_⟩
      · rw [hscript]
        exact yields_choice_blank hb
      · rw [PrivateScreen.shellLine, hscript, hrval]
        exact hshown
  | @command name rest blanks main script stop hcodes hname hsplit hexe hmain hmains hscript hrval =>
      have hlen : (typedChars l.codes).length ≤ 127 := (List.length_map _).trans_le hok.length_le
      obtain ⟨hsplit, hexe, hlen⟩ := command_in_memory us hb hnul hlen hsplit hexe
      have hprompt := hshown.prompt
      obtain ⟨k₃, hrun, hret⟩ := returned_of_talks halting hprompt.toParent hprompt.toAttended hprompt.listing
        hprompt.free hexe hsplit hlen hmain hmains hplain lines
      have hback := hshown.returned hret
      have htyped : typedLines l.script = typedLines script := by
        rw [hscript, typedLines_append]
        exact List.append_nil _
      rw [← htyped, ← hrval] at hrun
      rw [← hscript] at hback
      refine ⟨b, (statusText l.rval).foldl Kernel.emit k₃, ?_, hback.print _⟩
      refine yields_choice_command hb hnul (fun h => hcodes (List.map_eq_nil_iff.1 h)) hname hrun (fun fuel => ?_)
        (fun hzero => ?_)
      · exact putLiteral_typing lay fs us frame env _ keys (literalText_statusText _) hback.prompt.stdout lines
      · rw [hzero]
        rfl

/-- The lines of a session, one after the other. -/
theorem breaks_shell (hplain : keys.Plain) {exitCodes : List UInt8} (hexit : ∀ code ∈ exitCodes, Typeable code)
    (hname : typedChars exitCodes = exitName) :
    ∀ (lines : List ShellLine) {k₁ : Kernel} {s : PrivateScreen} (buf : Nat → UInt8),
      (∀ l ∈ lines, l.Ok fs caller mains) → Shown k s k₁ →
      ∃ k₂, Breaks (fun fuel => shellPass (Typing.shellCalls lay fs us frame env caller halting mains fuel) fuel)
          (buf, ⟨keys, k₁, lines.flatMap ShellLine.typed ++ [exitCodes]⟩) (0, ⟨keys, k₂, []⟩) ∧
        Shown k (PrivateScreen.typeLine (promptText.foldl PrivateScreen.putc
          (lines.foldl PrivateScreen.shellLine s)) exitName) k₂ := by
  intro lines
  induction lines with
  | nil =>
      intro k₁ s buf _ h
      have hlen : exitCodes.length ≤ 128 := by
        have hchars : (typedChars exitCodes).length = exitCodes.length := List.length_map _
        rw [← hchars, hname]
        simp [exitName]
      obtain ⟨b, k₂, hb, hshown, hpass⟩ := shellPass_typed lay fs us frame env h hplain [] hexit hlen buf
      rw [hname] at hb hshown
      refine ⟨k₂, .here ?_, hshown⟩
      simp only [Typing.shellCalls, List.flatMap_nil, List.nil_append, hpass]
      exact yields_choice_exit hb
  | cons l lines ih =>
      intro k₁ s buf hok h
      obtain ⟨b, k₂, hpass, hshown⟩ := shellPass_line lay us frame env halting h hplain
        (hok l List.mem_cons_self) (lines.flatMap ShellLine.typed ++ [exitCodes]) buf
      obtain ⟨k₃, hrest, hend⟩ := ih b (fun l' hl' => hok l' (List.mem_cons_of_mem _ hl')) hshown
      refine ⟨k₃, ?_, hend⟩
      rw [List.flatMap_cons, List.append_assoc]
      exact .pass hpass hrest

end Session

/-- **A session of the shell.** Whatever is typed in front of `exit`, if each line is blank or the command of
    a program that ends, by its return or by an exception, with the lines that it reads typed behind its own:
    the shell returns 0, its terminal shows the prompts, the lines, the conversations of the programs and what
    the shell says of their ends; the other screens are untouched, and the kernel is ready for another line. -/
theorem shell_session (lay : Layout) (fs : FileSys) (us : UserSpace) (frame : Frame) (env caller halting : ExecEnv)
    (mains : Nat → List UInt8 → Typing → Option (ProgramEnd × Typing)) (keys : Keys) (hplain : keys.Plain)
    (k : Kernel) (hk : k.AtPrompt) (s : PrivateScreen) (hs : (k.cells k.currTerm).logical = s.logical)
    (lines : List ShellLine) (hok : ∀ l ∈ lines, l.Ok fs caller mains) (exitCodes : List UInt8)
    (hexit : ∀ code ∈ exitCodes, Typeable code) (hname : typedChars exitCodes = exitName) (buf : Nat → UInt8) :
    ∃ k', Yields (fun fuel => shell (Typing.shellCalls lay fs us frame env caller halting mains fuel) buf
        ⟨keys, k, lines.flatMap ShellLine.typed ++ [exitCodes]⟩ fuel) (0, ⟨keys, k', []⟩) ∧
      (k'.cells k.currTerm).logical = (s.session lines).logical ∧
      (∀ t, t ≠ k.currTerm → k'.cells t = k.cells t) ∧ k'.AtPrompt := by
  have hstart := (Shown.refl hk hs).print startingText
  obtain ⟨k', hbreaks, hshown⟩ := breaks_shell lay us frame env halting hplain hexit hname lines buf hok hstart
  refine ⟨k', ?_, hshown.screen, hshown.others, hshown.prompt⟩
  refine hbreaks.yields.congr (fun fuel => ?_)
  have htext : LiteralText startingText := by constructor <;> simp [startingText]
  have hput : ∀ run, (Typing.calls lay fs us frame env run).putLiteral startingText
      ⟨keys, k, lines.flatMap ShellLine.typed ++ [exitCodes]⟩
      = some ⟨keys, startingText.foldl Kernel.emit k, lines.flatMap ShellLine.typed ++ [exitCodes]⟩ :=
    fun run => putLiteral_typing lay fs us frame env run keys htext hk.stdout _
  rw [shell, Typing.shellCalls, hput, Option.bind_some]

/-! ## A machine with `cat` -/

/-- The keys of `cat note` and of `exit`. -/
def catNoteCodes : List UInt8 := [0x2E, 0x1E, 0x14, 0x39, 0x31, 0x18, 0x14, 0x12]
def exitCodes : List UInt8 := [0x12, 0x2D, 0x17, 0x14]

/-- The machine booted from the image with `cat`, with the first shell running. -/
def catShell : Kernel := ((Kernel.boot sampleLayout sampleMemory).execute catFs shellName (sampleEnv 100 101)).2

/-- The only program that runs is `cat`. -/
def catMains (fuel : Nat) (name : List UInt8) (s : Typing) : Option (ProgramEnd × Typing) :=
  if name = catName then Typing.ofKernel (cat (kernelCalls catFs sampleSpace) fun _ => 0) s fuel else none

/-- Enter, then `cat note`. -/
def noteLines : List ShellLine := [⟨[], [], 0⟩, ⟨catNoteCodes, [.print [104, 105, 10], .print []], 0⟩]

theorem noteLines_ok : ∀ l ∈ noteLines, l.Ok catFs (sampleEnv 102 103) catMains := by
  have htext : catText catFs noteDentry.inode.toNat = [104, 105, 10] := by decide +kernel
  have hnote : Prints (cat (kernelCalls catFs sampleSpace) fun _ => 0) noteName [104, 105, 10] 0 := by
    rw [← htext]
    exact prints_file catFs_wellFormed (by decide) readDentryByName_note (by decide +kernel) _
  have hchars : typedChars catNoteCodes = catName ++ (List.replicate 1 32 ++ noteName) := by decide +kernel
  have hsplit : CommandSplit (typedChars catNoteCodes) catName noteName 1 :=
    ⟨by rw [hchars]; decide +kernel, by decide +kernel, fun h => absurd h (by decide), by decide +kernel⟩
  have hexe : IsExe catFs (typedChars catNoteCodes) (sampleEnv 102 103) := by
    have hcheck : ((Kernel.boot sampleLayout sampleMemory).execute catFs (typedChars catNoteCodes)
        (sampleEnv 102 103)).1.isStarted = true := by decide +kernel
    by_contra hnot
    rw [(execute_outcome catFs (Kernel.boot sampleLayout sampleMemory) (typedChars catNoteCodes)
      (sampleEnv 102 103) (by decide +kernel)).2 hnot] at hcheck
    exact Bool.noConfusion hcheck
  intro l hl
  rcases List.mem_cons.1 hl with rfl | hl
  · exact ⟨by simp, by simp, .blank rfl rfl rfl⟩
  · obtain rfl := List.mem_singleton.1 hl
    exact ⟨by decide +kernel, by decide, .command (by decide) (by decide +kernel) hsplit hexe hnote.talks
      (fun fuel s => if_pos rfl) rfl (by decide)⟩

/-- The session of this machine, from boot on: nothing, `cat note`, `exit`. -/
theorem shell_session_note :
    ∃ k', Yields (fun fuel => shell (Typing.shellCalls sampleLayout catFs sampleSpace ⟨0, 0⟩ (sampleEnv 0 0)
        (sampleEnv 102 103) (sampleEnv 104 105) catMains fuel) (fun _ => 0)
        ⟨Keys.loaded, catShell, [[], catNoteCodes, exitCodes]⟩ fuel) (0, ⟨Keys.loaded, k', []⟩) ∧
      (k'.cells 0).logical = (PrivateScreen.blank.session noteLines).logical ∧ k'.AtPrompt := by
  have hstart : ((Kernel.boot sampleLayout sampleMemory).execute catFs shellName (sampleEnv 100 101)).1
      = .started 0x8048000 := by decide +kernel
  obtain ⟨hprompt, hterm, hblank⟩ := atPrompt_booted hstart (by decide)
  have hblank₀ : (catShell.cells catShell.currTerm).logical = PrivateScreen.blank.logical := by
    rw [show catShell.currTerm = 0 from hterm]
    exact hblank 0 (by decide)
  obtain ⟨k', hrun, hscreen, -, hend⟩ := shell_session sampleLayout catFs sampleSpace ⟨0, 0⟩ (sampleEnv 0 0)
    (sampleEnv 102 103) (sampleEnv 104 105) catMains Keys.loaded ⟨rfl, rfl, rfl, rfl, rfl⟩ catShell hprompt
    PrivateScreen.blank hblank₀ noteLines noteLines_ok exitCodes (by decide +kernel) (by decide +kernel) (fun _ => 0)
  rw [show catShell.currTerm = 0 from hterm] at hscreen
  exact ⟨k', hrun, hscreen, hend⟩

end UnixTerminal
