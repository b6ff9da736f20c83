import Mathlib.Logic.Function.Iterate
import UnixTerminal.Proofs.Boot
import UnixTerminal.Proofs.LineReader

set_option autoImplicit false

/-! # The lines typed and the lines read

A run interleaves the keys with the statements of the reader. `Conversing` is its invariant: the lines
typed are the results and the lines that the reader will return next. A key keeps it when it comes while
no line waits (`At.after`), a step of the reader always does, and it brings the next result nearer
(`Advances`). -/

namespace UnixTerminal

/-! ## The keys -/

/-- Keys that form lines: characters, not more than 128 to a line, Enter, and keys that leave the line
    alone. -/
def TypesLine (current : List UInt8) : LineAction → Prop
  | .nothing => True
  | .typed _ => current.length < 128
  | .enter => True
  | _ => False

instance (current : List UInt8) : DecidablePred (TypesLine current)
  | .nothing => isTrue trivial
  | .typed _ => inferInstanceAs (Decidable (current.length < 128))
  | .enter => isTrue trivial
  | .erase => isFalse id
  | .clear => isFalse id
  | .deliver => isFalse id
  | .view _ => isFalse id
  | .openTerminal _ => isFalse id

/-- **The condition on a key** that goes into the line: no line waits, and the reader is not between
    the clearing of the flag and the reset of the index. (An Enter that makes an empty line behind an empty
    one may come as soon as the buffer is cleared.) -/
def Reader.Timely (s : Reader) (a : LineAction) : Prop :=
  a = .nothing ∨
    ((s.kernel.terminals s.kernel.currTerminalNumber).termEnter = 0 ∧
      s.call.map Prod.fst ≠ some .clearBuf ∧
      (s.call.map Prod.fst = some .resetIdx → a = .enter ∧ s.kernel.keyboardIdx = 0))

instance (s : Reader) (a : LineAction) : Decidable (s.Timely a) :=
  inferInstanceAs (Decidable (_ ∨ _))

section Keys

variable {lay : Layout} {fs : FileSys} {k : Kernel} {status keycode : UInt8} {keys : Keys}
  {current : List UInt8}

/-- Both characters of a row with a letter. -/
theorem letter_row {row : UInt8 × UInt8} (hrow : row ∈ keyboardMap)
    (h : (97 ≤ row.1 ∧ row.1 ≤ 122 ∨ 65 ≤ row.1 ∧ row.1 ≤ 90) ∨
      (97 ≤ row.2 ∧ row.2 ≤ 122 ∨ 65 ≤ row.2 ∧ row.2 ≤ 90)) :
    (row.1 ≠ 0 ∧ row.1 ≠ 10) ∧ (row.2 ≠ 0 ∧ row.2 ≠ 10) := by
  have hall : keyboardMap.all (fun row => decide (
      (97 ≤ row.1 ∧ row.1 ≤ 122 ∨ 65 ≤ row.1 ∧ row.1 ≤ 90) ∨
        (97 ≤ row.2 ∧ row.2 ≤ 122 ∨ 65 ≤ row.2 ∧ row.2 ≤ 90) →
      (row.1 ≠ 0 ∧ row.1 ≠ 10) ∧ (row.2 ≠ 0 ∧ row.2 ≠ 10))) = true := by
    decide +kernel
  exact of_decide_eq_true (List.all_eq_true.1 hall row hrow) h

/-- The other character of a letter key is a letter too. -/
theorem keyChar_letter {shift shift' : Bool}
    (h : 97 ≤ keyChar keycode shift ∧ keyChar keycode shift ≤ 122 ∨
      65 ≤ keyChar keycode shift ∧ keyChar keycode shift ≤ 90) :
    keyChar keycode shift' ≠ 0 ∧ keyChar keycode shift' ≠ 10 := by
  unfold keyChar at h ⊢
  by_cases hrow : keycode.toNat < keyboardMap.length
  · rw [List.getD_eq_getElem _ _ hrow] at h ⊢
    have hboth := letter_row (List.getElem_mem hrow)
      (by cases shift with | false => exact Or.inl h | true => exact Or.inr h)
    cases shift' with
    | false => exact hboth.1
    | true => exact hboth.2
  · rw [List.getD_eq_default _ _ (by omega)] at h
    cases shift <;> exact absurd h (by decide)

/-- A key that has a character does not store NUL or a newline. -/
theorem char_of_typedChar {ascii : UInt8} (hascii : ascii = keyChar keycode keys.shift)
    (h0 : ascii ≠ 0) (h10 : ascii ≠ 10) :
    Kernel.typedChar keys keycode ascii ≠ 0 ∧ Kernel.typedChar keys keycode ascii ≠ 10 := by
  unfold Kernel.typedChar
  split_ifs with hcaps
  · rw [hascii] at hcaps
    exact keyChar_letter hcaps.2
  · exact ⟨h0, h10⟩

theorem char_of_keyAction {c : UInt8} (h : k.keyAction status keycode keys = .typed c) :
    c ≠ 0 ∧ c ≠ 10 := by
  unfold Kernel.keyAction asciiAction at h
  dsimp only at h
  generalize hascii : keyChar keycode keys.shift = ascii at h
  split_ifs at h with _ _ _ _ _ h0 _ h10
  obtain rfl := KeyAction.typed.inj h
  exact char_of_typedChar hascii.symm h0 h10

theorem switchAction_ne_typed (newt : Nat) (c : UInt8) : k.switchAction newt ≠ .typed c := by
  unfold Kernel.switchAction
  split_ifs <;> simp

theorem char_of_typed {frame : Frame} {env : ExecEnv} {c : UInt8}
    (h : k.lineAction keys (.key status keycode frame env) = .typed c) : c ≠ 0 ∧ c ≠ 10 := by
  rw [Kernel.lineAction_key] at h
  generalize hact : k.keyAction status keycode keys = a at h
  cases a with
  | typed c' =>
      obtain rfl := LineAction.typed.inj h
      exact char_of_keyAction hact
  | erase =>
      by_cases hkept : k.handleBackspace.keyboardIdx = k.keyboardIdx
      · rw [if_pos hkept] at h
        cases h
      · rw [if_neg hkept] at h
        cases h
  | chord newt => exact absurd h (switchAction_ne_typed newt c)
  | nothing => cases h
  | enter => cases h
  | clear => cases h
  | command => cases h

/-- Such a key does to the lines what its action says, and nothing else. -/
theorem lines_key (frame : Frame) (env : ExecEnv)
    (h : TypesLine current (k.lineAction keys (.key status keycode frame env))) :
    (k.keyboardHandler lay fs status keycode frame env keys).2.lines =
      k.lines.after (k.lineAction keys (.key status keycode frame env)) := by
  by_cases hchord : ∃ newt, k.keyAction status keycode keys = .chord newt
  · obtain ⟨newt, hnewt⟩ := hchord
    rw [Kernel.lineAction_chord frame env hnewt] at h ⊢
    rw [Kernel.keyboardHandler_chord lay fs frame env hnewt]
    unfold Kernel.switchAction at h ⊢
    unfold Kernel.switchTerminal
    -- the chord of the viewed terminal, or none
    split_ifs at h ⊢ <;> first | rfl | exact absurd h id | omega
  · exact Kernel.lines_keyboardHandler lay fs frame env (not_exists.1 hchord)

end Keys

/-! ## A key at any point of the reader -/

section At

variable {l l' : Lines} {current current' : List UInt8} {rest add : List (List UInt8)}
  {call : Option ReadPoint}

/-- While no line waits, a key adds to what the reader has not taken yet. -/
theorem At.key (h : At l current rest call) (henter : (l.terminal l.viewed).termEnter = 0)
    (hclear : call.map Prod.fst ≠ some .clearBuf) (hreset : call.map Prod.fst ≠ some .resetIdx)
    (hviewed : l'.viewed = l.viewed)
    (hbuf : ∀ {rest}, Buffered l current rest → Buffered l' current' (rest ++ add)) :
    At l' current' (rest ++ add) call := by
  rcases call with _ | ⟨stmt, v⟩
  · exact hbuf h
  obtain ⟨hn, h⟩ := h
  refine ⟨hn, ?_⟩
  -- a reader that works on a line has seen the flag
  have hopen : ∀ {line}, ¬ Taken l current rest v line := fun ht => ht.ended.enter henter
  cases stmt with
  | currTerm => exact ⟨h.1, hbuf h.2⟩
  | test => exact ⟨h.1, h.2.1.trans hviewed.symm, hbuf h.2.2⟩
  | getIdx => exact absurd h.choose_spec.1 hopen
  | scan => exact absurd h.choose_spec.1 hopen
  | copyTest => exact absurd h.choose_spec.1 hopen
  | copyStore => exact absurd h.choose_spec.1 hopen
  | nul => exact absurd h.choose_spec.1 hopen
  | clearEnter => exact absurd h.choose_spec.1 hopen
  | clearBuf => exact absurd rfl hclear
  | resetIdx => exact absurd rfl hreset
  | resetLast =>
      obtain ⟨rest', rfl, hrest⟩ := h
      exact ⟨rest' ++ add, rfl, hbuf hrest⟩
  | ret =>
      obtain ⟨rest', rfl, hrest⟩ := h
      exact ⟨rest' ++ add, rfl, hbuf hrest⟩

theorem At.typed (h : At l current rest call) (henter : (l.terminal l.viewed).termEnter = 0)
    (hclear : call.map Prod.fst ≠ some .clearBuf) (hreset : call.map Prod.fst ≠ some .resetIdx)
    {c : UInt8} (hlen : current.length < 128) (hc : c ≠ 0 ∧ c ≠ 10) :
    At (l.after (.typed c)) (current ++ [c]) rest call := by
  have hviewed : (l.after (.typed c)).viewed = l.viewed := by
    simp only [Lines.after]
    split_ifs <;> rfl
  have hbuf : ∀ {rest}, Buffered l current rest →
      Buffered (l.after (.typed c)) (current ++ [c]) (rest ++ []) := by
    intro rest hbuf
    rw [List.append_nil]
    exact hbuf.typed henter hlen hc
  have hkey := h.key henter hclear hreset hviewed hbuf
  rwa [List.append_nil] at hkey

theorem At.enter (h : At l current rest call) (henter : (l.terminal l.viewed).termEnter = 0)
    (hclear : call.map Prod.fst ≠ some .clearBuf)
    (hreset : call.map Prod.fst = some .resetIdx → l.idx = 0) :
    At (l.after .enter) [] (rest ++ [current ++ [10]]) call := by
  by_cases hpoint : call.map Prod.fst = some .resetIdx
  · rcases call with _ | ⟨stmt, v⟩
    · exact absurd hpoint (by simp)
    obtain rfl : stmt = .resetIdx := Option.some.inj hpoint
    obtain ⟨hn, rfl, ⟨-, rfl⟩ | ⟨hended, -⟩⟩ := h
    · -- an empty line behind an empty one
      have hidx : l.idx.toNat = ([] : List UInt8).length := by
        rw [hreset hpoint]
        rfl
      have hended : Ended (l.after .enter) [] :=
        .of_enter hidx (Nat.zero_le _) (fun c hc => absurd hc List.not_mem_nil) Holds.nil
      exact ⟨hn, rfl, Or.inr ⟨hended, rfl⟩⟩
    · exact absurd henter hended.enter
  · exact h.key henter hclear hpoint rfl (fun hbuf => hbuf.enter henter)

theorem TypesLine.cases {a : LineAction} (h : TypesLine current a) :
    a = .nothing ∨ (∃ c, a = .typed c ∧ current.length < 128) ∨ a = .enter := by
  cases a with
  | nothing => exact Or.inl rfl
  | typed c => exact Or.inr (Or.inl ⟨c, rfl, h⟩)
  | enter => exact Or.inr (Or.inr rfl)
  | _ => exact absurd h id

/-- **A key in time.** -/
theorem At.after {a : LineAction} {d : Dialogue} (h : At l d.current rest call)
    (hlines : d.lines = d.results ++ rest) (htypes : TypesLine d.current a)
    (hchar : ∀ c, a = .typed c → c ≠ 0 ∧ c ≠ 10)
    (htimely : a = .nothing ∨ ((l.terminal l.viewed).termEnter = 0 ∧
      call.map Prod.fst ≠ some .clearBuf ∧
      (call.map Prod.fst = some .resetIdx → a = .enter ∧ l.idx = 0))) :
    ∃ rest', (d.key a).lines = (d.key a).results ++ rest' ∧
      At (l.after a) (d.key a).current rest' call := by
  rcases htimely with rfl | ⟨henter, hclear, hreset⟩
  · exact ⟨rest, hlines, h⟩
  rcases htypes.cases with rfl | ⟨c, rfl, hlen⟩ | rfl
  · exact ⟨rest, hlines, h⟩
  · refine ⟨rest, hlines, h.typed henter hclear (fun hpoint => ?_) hlen (hchar c rfl)⟩
    exact absurd (hreset hpoint).1 (by simp)
  · refine ⟨rest ++ [d.current ++ [10]], ?_, h.enter henter hclear (fun hp => (hreset hp).2)⟩
    have hadd : d.lines ++ [d.current ++ [10]] = d.results ++ (rest ++ [d.current ++ [10]]) := by
      rw [hlines, List.append_assoc]
    exact hadd

/-- What no such key changes. -/
theorem TypesLine.seat {a : LineAction} (h : TypesLine current a) :
    (l.after a).executing = l.executing ∧ (l.after a).viewed = l.viewed ∧
      (l.after a).buf (-1) = l.buf (-1) := by
  have hfront : ∀ c, Function.update l.buf l.idx.toNat c (-1) = l.buf (-1) := fun c =>
    Function.update_of_ne (by omega) _ _
  rcases h.cases with rfl | ⟨c, rfl, -⟩ | rfl
  · exact ⟨rfl, rfl, rfl⟩
  · simp only [Lines.after]
    split_ifs
    · exact ⟨rfl, rfl, rfl⟩
    · exact ⟨rfl, rfl, hfront c⟩
  · exact ⟨rfl, rfl, hfront 10⟩

end At

/-! ## Runs -/

/-- The runs in question: keys that form lines, and calls that ask for a whole line. -/
def LineTyping (s : Reader × Dialogue) : ReaderEvent → Prop
  | .key status keycode frame env =>
      TypesLine s.2.current (s.1.kernel.lineAction s.1.keys (.key status keycode frame env))
  | .call nbytes => 129 ≤ nbytes
  | .stmt => True

instance (s : Reader × Dialogue) : DecidablePred (LineTyping s)
  | .key _ _ _ _ => inferInstanceAs (Decidable (TypesLine _ _))
  | .call nbytes => inferInstanceAs (Decidable (129 ≤ nbytes))
  | .stmt => isTrue trivial

/-- The condition on an event of a run. -/
def Timely (s : Reader × Dialogue) : ReaderEvent → Prop
  | .key status keycode frame env =>
      s.1.Timely (s.1.kernel.lineAction s.1.keys (.key status keycode frame env))
  | _ => True

instance (s : Reader × Dialogue) : DecidablePred (Timely s)
  | .key _ _ _ _ => inferInstanceAs (Decidable (s.1.Timely _))
  | .call _ => isTrue trivial
  | .stmt => isTrue trivial

/-- The invariant: the lines typed are the results and the lines that the reader will return next. -/
structure Conversing (s : Reader × Dialogue) : Prop where
  executing : s.1.kernel.currTerm = s.1.kernel.currTerminalNumber
  front : s.1.kernel.keyboardBuf (-1) ≠ 10
  waiting : ∃ rest, s.2.lines = s.2.results ++ rest ∧
    At s.1.kernel.lines s.2.current rest s.1.call

/-- How far the reader is from the last result. -/
def toGo (s : Reader × Dialogue) : Nat :=
  (s.2.lines.length - s.2.results.length) * 3000 + readRank s.1.call

/-- A step of the reader: it types nothing, and gets nearer to a line that waits. -/
structure Advances (s s' : Reader × Dialogue) : Prop where
  conversing : Conversing s'
  lines : s'.2.lines = s.2.lines
  nearer : s.2.results ≠ s.2.lines → toGo s' < toGo s

section Run

variable {lay : Layout} {fs : FileSys} {s s' : Reader × Dialogue}

theorem Conversing.call (h : Conversing s) {nbytes : Nat} (hn : 129 ≤ nbytes)
    (hs : withGhost (Reader.step lay fs) dialogueAfter s (.call nbytes) = some s') : Advances s s' := by
  obtain ⟨hstep, hd⟩ := withGhost_eq_some hs
  obtain ⟨rest, hlines, hat⟩ := h.waiting
  simp only [Reader.step] at hstep
  split_ifs at hstep with hidle
  have hr := Option.some.inj hstep
  rw [hidle] at hat
  constructor
  · refine ⟨?_, ?_, rest, ?_, ?_⟩
    · rw [← hr]
      exact h.executing
    · rw [← hr]
      exact h.front
    · rw [hd]
      exact hlines
    · rw [hd, ← hr]
      exact ⟨hn, rfl, hat⟩
  · rw [hd]
    rfl
  · intro _
    simp only [toGo, hd, ← hr, dialogueAfter, readStart, readRank, hidle]
    omega

theorem Conversing.stmt (h : Conversing s)
    (hs : withGhost (Reader.step lay fs) dialogueAfter s .stmt = some s') : Advances s s' := by
  obtain ⟨hstep, hd⟩ := withGhost_eq_some hs
  obtain ⟨rest, hlines, hat⟩ := h.waiting
  obtain ⟨p, hcall, hr⟩ := Option.map_eq_some_iff.1 hstep
  rw [hcall] at hat
  have hstmt := stmtStep hat h.executing h.front
  have hwaits : s.2.results ≠ s.2.lines → rest ≠ [] := by
    rintro hne rfl
    exact hne (by rw [hlines, List.append_nil])
  simp only [dialogueAfter, hcall, Option.map_some] at hd
  generalize readStmt p s.1.kernel = o at hstmt hr hd
  cases hstmt with
  | next hat' hseat hrank =>
      refine ⟨⟨?_, ?_, rest, ?_, ?_⟩, by rw [hd], fun hne => ?_⟩
      · rw [← hr]
        exact hseat.executing.trans (h.executing.trans hseat.viewed.symm)
      · rw [← hr]
        exact fun hf => h.front (hseat.front.symm.trans hf)
      · rw [hd]
        exact hlines
      · rw [hd, ← hr]
        exact hat'
      · have hless := hrank (hwaits hne)
        simp only [toGo, hd, ← hr, hcall]
        omega
  | @result line rest' hrest hat' =>
      refine ⟨⟨?_, ?_, rest', ?_, ?_⟩, by rw [hd], fun _ => ?_⟩
      · rw [← hr]
        exact h.executing
      · rw [← hr]
        exact h.front
      · rw [hd, hlines, hrest, List.append_assoc, List.singleton_append]
      · rw [hd, ← hr]
        exact hat'
      · have hrank : readRank none < 3000 := by simp [readRank]
        simp only [toGo, hd, ← hr, hlines, hrest, List.length_append, List.length_cons,
          List.length_nil]
        omega

theorem Conversing.key (h : Conversing s) {status keycode : UInt8} {frame : Frame} {env : ExecEnv}
    (htypes : LineTyping s (.key status keycode frame env))
    (htimely : Timely s (.key status keycode frame env))
    (hs : withGhost (Reader.step lay fs) dialogueAfter s (.key status keycode frame env) = some s') :
    Conversing s' := by
  obtain ⟨hstep, hd⟩ := withGhost_eq_some hs
  obtain ⟨rest, hlines, hat⟩ := h.waiting
  have hr := Option.some.inj hstep
  have hkey := @lines_key lay fs _ _ _ _ _ frame env htypes
  obtain ⟨hexec, hview, hfront⟩ := @TypesLine.seat s.1.kernel.lines _ _ htypes
  rw [← hkey] at hexec hview hfront
  obtain ⟨rest', hlines', hat'⟩ := hat.after hlines htypes (fun _ => char_of_typed) htimely
  rw [← hkey] at hat'
  refine ⟨?_, ?_, rest', ?_, ?_⟩
  · rw [← hr]
    exact hexec.trans (h.executing.trans hview.symm)
  · rw [← hr]
    exact fun hf => h.front (hfront.symm.trans hf)
  · rw [hd]
    exact hlines'
  · rw [hd, ← hr]
    exact hat'

/-- **One event of a run.** -/
theorem conversing_step {e : ReaderEvent} (h : Conversing s) (htypes : LineTyping s e)
    (htimely : Timely s e) (hs : withGhost (Reader.step lay fs) dialogueAfter s e = some s') :
    Conversing s' := by
  cases e with
  | key status keycode frame env => exact h.key htypes htimely hs
  | call nbytes => exact (h.call htypes hs).conversing
  | stmt => exact (h.stmt hs).conversing

/-! ## Reading on -/

/-- The reader goes on, with no key in between. -/
def readOn (lay : Layout) (fs : FileSys) (s : Reader × Dialogue) : Reader × Dialogue :=
  (withGhost (Reader.step lay fs) dialogueAfter s
    (match s.1.call with | none => .call 129 | some _ => .stmt)).getD s

theorem advances_readOn (h : Conversing s) : Advances s (readOn lay fs s) := by
  unfold readOn
  cases hcall : s.1.call with
  | none =>
      have hstep : withGhost (Reader.step lay fs) dialogueAfter s (.call 129)
          = some ({ s.1 with call := some (readStart 129) }, s.2) := by
        simp only [withGhost, Reader.step, hcall, if_true, Option.map_some]
        rfl
      rw [hstep]
      exact h.call (Nat.le_refl _) hstep
  | some p =>
      have hsome : (withGhost (Reader.step lay fs) dialogueAfter s .stmt).isSome = true := by
        rw [isSome_withGhost, Reader.step, hcall]
        rfl
      obtain ⟨s', hs'⟩ := Option.isSome_iff_exists.1 hsome
      rw [hs']
      exact h.stmt hs'

/-- The reader comes to the last line. -/
theorem exists_readOn (h : Conversing s) :
    ∃ n, ((readOn lay fs)^[n] s).2.results = s.2.lines := by
  induction hgo : toGo s using Nat.strongRecOn generalizing s with
  | ind m ih =>
      by_cases hdone : s.2.results = s.2.lines
      · exact ⟨0, hdone⟩
      · have hnext := @advances_readOn lay fs _ h
        obtain ⟨n, hn⟩ := ih _ (hgo ▸ hnext.nearer hdone) hnext.conversing rfl
        refine ⟨n + 1, ?_⟩
        rw [Function.iterate_succ_apply, hn, hnext.lines]

end Run

/-- No line is lost, merged or duplicated: the results are the first of the lines typed, in order, and a
    reader that goes on returns the others. -/
def Delivered (lay : Layout) (fs : FileSys) (s : Reader × Dialogue) : Prop :=
  s.2.results <+: s.2.lines ∧ ∃ n, ((readOn lay fs)^[n] s).2.results = s.2.lines

theorem Conversing.delivered {lay : Layout} {fs : FileSys} {s : Reader × Dialogue}
    (h : Conversing s) : Delivered lay fs s := by
  obtain ⟨rest, hlines, -⟩ := h.waiting
  refine ⟨?_, exists_readOn h⟩
  rw [hlines]
  exact List.prefix_append _ _

/-- A reader at a terminal where nothing is typed. -/
structure Reader.Ready (s : Reader) : Prop where
  executing : s.kernel.currTerm = s.kernel.currTerminalNumber
  enter : (s.kernel.terminals s.kernel.currTerminalNumber).termEnter = 0
  idx : s.kernel.keyboardIdx = 0
  call : s.call = none

/-- No history. -/
def Dialogue.empty : Dialogue := ⟨[], [], []⟩

theorem conversing_start {s : Reader} (h : s.Ready) (hfront : s.kernel.keyboardBuf (-1) ≠ 10) :
    Conversing (s, .empty) := by
  have hidx : s.kernel.lines.idx.toNat = ([] : List UInt8).length := congrArg UInt8.toNat h.idx
  refine ⟨h.executing, hfront, [], rfl, ?_⟩
  dsimp only
  rw [h.call]
  exact .typing h.enter hidx (Nat.zero_le _) (fun c hc => absurd hc List.not_mem_nil) Holds.nil

/-- **The lines typed are the lines read.** In a run in which no byte in front of the buffer is taken
    for a newline, and each key comes in time, the results are the lines typed. -/
theorem typed_lines_read (lay : Layout) (fs : FileSys) (s₀ : Reader) (hready : s₀.Ready)
    (hfront : s₀.kernel.keyboardBuf (-1) ≠ 10) (s : Reader × Dialogue)
    (hrun : Reaches (withGhost (Reader.step lay fs) dialogueAfter)
      (fun s e => LineTyping s e ∧ Timely s e) (s₀, .empty) s) : Delivered lay fs s := by
  have hinv : Conversing s := hrun.invariant (conversing_start hready hfront)
    (fun s e s' hs hok hstep => conversing_step hs hok.1 hok.2 hstep)
  exact hinv.delivered

/-- The first shell is such a reader. -/
theorem ready_shell (lay : Layout) (fs : FileSys) (mem : BootMemory) (command : List UInt8)
    (env : ExecEnv) :
    Reader.Ready ⟨Keys.loaded, ((Kernel.boot lay mem).execute fs command env).2, none⟩ ∧
      ((Kernel.boot lay mem).execute fs command env).2.keyboardBuf (-1) = mem.beforeKeyboardBuf := by
  have hagree := (Kernel.boot lay mem).agree_execute fs command env
  have hvideo := ((Kernel.boot lay mem).core_execute fs command env).video
  generalize ((Kernel.boot lay mem).execute fs command env).2 = k at hagree hvideo
  have hview : k.currTerminalNumber = 0 := hvideo.2.1
  have hterm : k.lines.terminal 0 = (Kernel.boot lay mem).lines.terminal 0 :=
    hagree.terminal 0 (by decide)
  refine ⟨⟨?_, ?_, hagree.idx, rfl⟩, congrFun hagree.buf (-1)⟩
  · exact hvideo.1.trans hvideo.2.1.symm
  · dsimp only
    rw [hview]
    exact congrArg TerminalLine.termEnter hterm

/-! ## Runs of the sample machine -/

/-- The first shell, and a key that is typed. -/
def sampleReader : Reader :=
  ⟨Keys.loaded, ((Kernel.boot sampleLayout sampleMemory).execute sampleFs shellName
    (sampleEnv 100 101)).2, none⟩

def keyPress (keycode : UInt8) : ReaderEvent := .key 1 keycode ⟨200, 201⟩ (sampleEnv 102 103)

def keyStep (s : Reader × Dialogue) (keycode : UInt8) : Reader × Dialogue :=
  (withGhost (Reader.step sampleLayout sampleFs) dialogueAfter s (keyPress keycode)).getD s

section Sample

variable {ok : Reader × Dialogue → ReaderEvent → Prop} {s₀ s : Reader × Dialogue}

theorem reaches_keyStep
    (h : Reaches (withGhost (Reader.step sampleLayout sampleFs) dialogueAfter) ok s₀ s)
    (keycode : UInt8) (hok : ok s (keyPress keycode)) :
    Reaches (withGhost (Reader.step sampleLayout sampleFs) dialogueAfter) ok s₀ (keyStep s keycode) :=
  h.tail_getD _ hok rfl

theorem reaches_readOn
    (h : Reaches (withGhost (Reader.step sampleLayout sampleFs) dialogueAfter) ok s₀ s)
    (hcall : ∀ s, ok s (.call 129)) (hstmt : ∀ s, ok s .stmt) (n : Nat) :
    Reaches (withGhost (Reader.step sampleLayout sampleFs) dialogueAfter) ok s₀
      ((readOn sampleLayout sampleFs)^[n] s) := by
  induction n generalizing s with
  | zero => exact h
  | succ n ih =>
      refine ih ?_
      unfold readOn
      cases hc : s.1.call with
      | none => exact h.tail_getD _ (hcall s) (by simp [isSome_withGhost, Reader.step, hc])
      | some p => exact h.tail_getD _ (hstmt s) (by simp [isSome_withGhost, Reader.step, hc])

end Sample

/-- The letter a is typed, and Enter. -/
def sampleLine : Reader × Dialogue := keyStep (keyStep (sampleReader, .empty) 30) 28

/-- The line is typed in front of the first shell, which reads it. -/
theorem typed_lines_read_one :
    Delivered sampleLayout sampleFs ((readOn sampleLayout sampleFs)^[18] sampleLine) :=
  typed_lines_read sampleLayout sampleFs sampleReader
    (ready_shell sampleLayout sampleFs sampleMemory shellName (sampleEnv 100 101)).1
    (by decide +kernel)
    ((readOn sampleLayout sampleFs)^[18] sampleLine)
    (reaches_readOn
      (reaches_keyStep (reaches_keyStep .refl 30 (by decide +kernel)) 28 (by decide +kernel))
      (fun _ => ⟨Nat.le_refl _, trivial⟩) (fun _ => ⟨trivial, trivial⟩) 18)

/-- The letter b and Enter follow before the line is read. -/
def sampleAhead : Reader × Dialogue := keyStep (keyStep sampleLine 48) 28

/-- Two lines typed ahead come back as one. -/
theorem typed_ahead_lines_merge :
    ¬ ∀ (lay : Layout) (fs : FileSys) (s₀ : Reader), s₀.Ready → ∀ s : Reader × Dialogue,
      Reaches (withGhost (Reader.step lay fs) dialogueAfter) LineTyping (s₀, .empty) s →
      Delivered lay fs s := by
  intro h
  have hrun : Reaches (withGhost (Reader.step sampleLayout sampleFs) dialogueAfter) LineTyping
      (sampleReader, .empty) sampleAhead := by
    refine reaches_keyStep (reaches_keyStep (reaches_keyStep (reaches_keyStep .refl 30 ?_) 28 ?_) 48
      ?_) 28 ?_
    all_goals decide +kernel
  have hdelivered := h sampleLayout sampleFs sampleReader
    (ready_shell sampleLayout sampleFs sampleMemory shellName (sampleEnv 100 101)).1 _
    (reaches_readOn hrun (fun _ => Nat.le_refl _) (fun _ => trivial) 20)
  have hresults : ((readOn sampleLayout sampleFs)^[20] sampleAhead).2.results = [[97, 98, 10]] := by
    decide +kernel
  have hlines : ((readOn sampleLayout sampleFs)^[20] sampleAhead).2.lines = [[97, 10], [98, 10]] := by
    decide +kernel
  rw [Delivered, hresults, hlines] at hdelivered
  exact absurd hdelivered.1 (by decide)

end UnixTerminal
