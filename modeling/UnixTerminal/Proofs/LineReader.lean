import UnixTerminal.Kernel.ReadStatements
import UnixTerminal.Library.Holds
import UnixTerminal.Library.Interleave
import UnixTerminal.Proofs.InputLines

set_option autoImplicit false

/-! # One terminal: the lines typed and the lines read

The keyboard interrupt fills the line buffer, `keyboard_read` empties it, and the flag `term_enter`
tells the one from the other: while it is 0 the buffer holds the characters typed since the last line
(`Buffered.typing`), afterwards a whole line (`Buffered.ended`). The reader owns the buffer from its
test of the flag to the reset of the index. As long as no key is typed in that time, nor while a line
waits, each result is the next line. -/

namespace UnixTerminal

/-! ## The system -/

/-- The keyboard, the kernel, and where the reading process is in a call of `keyboard_read`. -/
structure Reader where
  keys : Keys
  kernel : Kernel
  call : Option ReadPoint

inductive ReaderEvent
  | key (status keycode : UInt8) (frame : Frame) (env : ExecEnv)
  | call (nbytes : Nat)
  | stmt

/-- One key, the start of a call, or one statement of the call in progress. -/
def Reader.step (lay : Layout) (fs : FileSys) (s : Reader) : ReaderEvent → Option Reader
  | .key status keycode frame env =>
      let r := s.kernel.keyboardHandler lay fs status keycode frame env s.keys
      some { s with keys := r.1, kernel := r.2 }
  | .call nbytes => if s.call = none then some { s with call := some (readStart nbytes) } else none
  | .stmt => s.call.map (fun p =>
      match readStmt p s.kernel with
      | (.inl p', k) => { s with kernel := k, call := some p' }
      | (.inr _, k) => { s with kernel := k, call := none })

/-- The history: what was typed since the last Enter, the lines that were typed, and the results of the
    calls. -/
structure Dialogue where
  current : List UInt8
  lines : List (List UInt8)
  results : List (List UInt8)
deriving DecidableEq, Repr

/-- The history after a key. -/
def Dialogue.key (d : Dialogue) : LineAction → Dialogue
  | .typed c => { d with current := d.current ++ [c] }
  | .enter => { d with current := [], lines := d.lines ++ [d.current ++ [10]] }
  | _ => d

/-- The history after one more event. -/
def dialogueAfter (s : Reader) (e : ReaderEvent) (_ : Reader) (d : Dialogue) : Dialogue :=
  match e with
  | .key status keycode frame env =>
      d.key (s.kernel.lineAction s.keys (.key status keycode frame env))
  | .call _ => d
  | .stmt =>
      match s.call.map (fun p => (readStmt p s.kernel).1) with
      | some (.inr line) => { d with results := d.results ++ [line] }
      | _ => d

/-! ## The statements are the atomic `keyboard_read` -/

section Sequential

variable {gap : ReadPoint → Kernel → Kernel → Prop} {k k' : Kernel} {v : ReadLocals}
  {line : List UInt8}

/-- The backward scan. -/
theorem interleaved_scan (hgap : ∀ p k, gap p k k) (i count : Nat)
    (h : ∀ n, Interleaved readStmt gap (.copyTest, { v with
      i := Kernel.lineStart k.keyboardBuf i count
      j := Kernel.lineStart k.keyboardBuf i count
      count := n }) k line k') :
    Interleaved readStmt gap (.scan, { v with i := i, j := 0, count := count }) k line k' := by
  induction i generalizing count with
  | zero => exact .step (hgap _ _) rfl (h count)
  | succ i ih =>
      simp only [Kernel.lineStart] at h
      split_ifs at h with hnewline hsecond
      · exact .step (hgap _ _) (by simp only [readStmt, hnewline, hsecond, if_true]) (h 2)
      · exact .step (hgap _ _) (by simp only [readStmt, hnewline, hsecond, if_true, if_false])
          (ih (count + 1) h)
      · exact .step (hgap _ _) (by simp only [readStmt, hnewline, if_false]) (ih count h)

/-- The copy loop. -/
theorem interleaved_copy (hgap : ∀ p k, gap p k k) (room i : Nat) (stored : List UInt8)
    (hroom : i - v.j + room = v.nbytes) (hj : v.j ≤ i)
    (h : Interleaved readStmt gap (.nul, { v with
      i := i + (Kernel.copyLine k.keyboardBuf room i).length
      stored := stored ++ Kernel.copyLine k.keyboardBuf room i }) k line k') :
    Interleaved readStmt gap (.copyTest, { v with i := i, stored := stored }) k line k' := by
  induction room generalizing i stored with
  | zero =>
      simp only [Kernel.copyLine, List.append_nil] at h
      exact .step (hgap _ _) (if_neg (fun hgo => hgo.2.2 hroom)) h
  | succ room ih =>
      simp only [Kernel.copyLine] at h
      split_ifs at h with hgo
      · have hmore : i - v.j ≠ v.nbytes := by omega
        refine .step (hgap _ _) (if_pos ⟨hgo.1, hgo.2, hmore⟩) (.step (hgap _ _) rfl ?_)
        refine ih (i + 1) (stored ++ [k.keyboardBuf i]) (by omega) (by omega) ?_
        simp only [List.append_assoc, List.singleton_append, List.length_cons] at h ⊢
        rwa [Nat.add_right_comm, Nat.add_assoc]
      · simp only [List.append_nil] at h
        exact .step (hgap _ _) (if_neg (fun hall => hgo ⟨hall.1, hall.2.1⟩)) h

/-- **Without interrupts the statements of `keyboard_read` are the atomic `keyboard_read`.** -/
theorem interleaved_keyboardRead (hgap : ∀ p k, gap p k k) {nbytes : Nat} {r : Transfer}
    (h : k.keyboardRead nbytes = some (r, k')) :
    ∃ line, r = ⟨line.length, r.start, line ++ [0]⟩ ∧
      Interleaved readStmt gap (readStart nbytes) k line k' := by
  unfold Kernel.keyboardRead at h
  split_ifs at h with henter
  simp only [Option.some.injEq, Prod.mk.injEq] at h
  obtain ⟨rfl, rfl⟩ := h
  refine ⟨_, rfl, ?_⟩
  refine .step (hgap _ _) rfl (.step (hgap _ _) (if_neg henter) (.step (hgap _ _) rfl ?_))
  generalize hj : Kernel.lineStart k.keyboardBuf k.keyboardIdx.toNat 0 = j
  refine interleaved_scan (v := ⟨nbytes, k.currTerm, 0, 0, 0, []⟩) hgap _ _ (fun n => ?_)
  rw [hj]
  refine interleaved_copy (v := ⟨nbytes, k.currTerm, j, j, n, []⟩) hgap nbytes j [] ?_ (Nat.le_refl _) ?_
  · simp only [Nat.sub_self, Nat.zero_add]
  · exact .step (hgap _ _) rfl (.step (hgap _ _) rfl (.step (hgap _ _) rfl (.step (hgap _ _) rfl
      (.step (hgap _ _) rfl (.done (hgap _ _) rfl)))))

end Sequential

/-! ## The line buffer -/

/-- What a key that has a character stores. -/
def Chars (l : List UInt8) : Prop := ∀ c ∈ l, c ≠ 0 ∧ c ≠ 10

/-- A line waits in the buffer. -/
structure Ended (l : Lines) (line : List UInt8) : Prop where
  enter : (l.terminal l.viewed).termEnter ≠ 0
  idx : l.idx.toNat = line.length
  len : line.length ≤ 128
  chars : Chars line
  holds : Holds (fun i : Nat => l.buf i) 0 (line ++ [10])

namespace Ended

variable {l : Lines} {line : List UInt8} {i : Nat}

theorem byte (h : Ended l line) (hi : i ≤ line.length) : l.buf i = (line ++ [10]).getD i 0 := by
  have hb := h.holds i (by rw [List.length_append, List.length_singleton]; omega)
  rwa [Nat.zero_add] at hb

theorem char (h : Ended l line) (hi : i < line.length) : l.buf i ≠ 0 ∧ l.buf i ≠ 10 := by
  rw [h.byte (Nat.le_of_lt hi), List.getD_append _ _ _ _ hi, List.getD_eq_getElem _ _ hi]
  exact h.chars _ (List.getElem_mem hi)

theorem newline (h : Ended l line) : l.buf line.length = 10 := by
  rw [h.byte (Nat.le_refl _), List.getD_append_right _ _ _ _ (Nat.le_refl _), Nat.sub_self]
  rfl

theorem ne_zero (h : Ended l line) (hi : i ≤ line.length) : l.buf i ≠ 0 := by
  rcases Nat.lt_or_eq_of_le hi with hlt | rfl
  · exact (h.char hlt).1
  · rw [h.newline]
    decide

/-- Enter behind the characters of a line. -/
theorem of_enter (hidx : l.idx.toNat = line.length) (hlen : line.length ≤ 128) (hchars : Chars line)
    (hholds : Holds (fun i : Nat => l.buf i) 0 line) : Ended (l.after .enter) line := by
  refine ⟨?_, hidx, hlen, hchars, ?_⟩
  · simp [Lines.after]
  · have hpush := hholds.push 10
    rw [Nat.zero_add, ← hidx, ← update_natCast] at hpush
    exact hpush

end Ended

/-- The characters typed since the last line, and the lines that wait. -/
inductive Buffered (l : Lines) : List UInt8 → List (List UInt8) → Prop
  | typing {current : List UInt8} (enter : (l.terminal l.viewed).termEnter = 0)
      (idx : l.idx.toNat = current.length) (len : current.length ≤ 128) (chars : Chars current)
      (holds : Holds (fun i : Nat => l.buf i) 0 current) : Buffered l current []
  | ended {line : List UInt8} (h : Ended l line) : Buffered l [] [line ++ [10]]

namespace Buffered

variable {l : Lines} {current : List UInt8} {rest : List (List UInt8)}

theorem typed (h : Buffered l current rest) (henter : (l.terminal l.viewed).termEnter = 0) {c : UInt8}
    (hlen : current.length < 128) (hc : c ≠ 0 ∧ c ≠ 10) :
    Buffered (l.after (.typed c)) (current ++ [c]) rest := by
  cases h with
  | ended h => exact absurd henter h.enter
  | typing _ hidx _ hchars hholds =>
      have hfull : l.idx ≠ 128 := by
        rintro he
        rw [he] at hidx
        have h128 : (128 : UInt8).toNat = 128 := rfl
        omega
      have hnext : (l.idx + 1).toNat = l.idx.toNat + 1 := by
        rw [UInt8.toNat_add, UInt8.toNat_one]
        omega
      rw [Lines.after, if_neg hfull]
      refine .typing henter ?_ ?_ ?_ ?_
      · rw [hnext, hidx, List.length_append, List.length_singleton]
      · rw [List.length_append, List.length_singleton]
        omega
      · intro d hd
        rcases List.mem_append.1 hd with hd | hd
        · exact hchars d hd
        · rw [List.mem_singleton.1 hd]
          exact hc
      · have hpush := hholds.push c
        rw [Nat.zero_add, ← hidx, ← update_natCast] at hpush
        exact hpush

theorem enter (h : Buffered l current rest) (henter : (l.terminal l.viewed).termEnter = 0) :
    Buffered (l.after .enter) [] (rest ++ [current ++ [10]]) := by
  cases h with
  | ended h => exact absurd henter h.enter
  | typing _ hidx hlen hchars hholds => exact .ended (.of_enter hidx hlen hchars hholds)

end Buffered

/-! ## The reader -/

/-- The reader has seen the flag: it works on the line that waits. -/
structure Taken (l : Lines) (current : List UInt8) (rest : List (List UInt8)) (v : ReadLocals)
    (line : List UInt8) : Prop where
  current : current = []
  rest : rest = [line ++ [10]]
  ended : Ended l line
  currTerm : v.currTerm = l.viewed

/-- The other local variables do not count. -/
theorem Taken.keep {l : Lines} {current : List UInt8} {rest : List (List UInt8)} {v v' : ReadLocals}
    {line : List UInt8} (h : Taken l current rest v line) (hv : v'.currTerm = v.currTerm) :
    Taken l current rest v' line :=
  ⟨h.current, h.rest, h.ended, hv.trans h.currTerm⟩

/-- Where the reader can be at a statement with local variables `v`, with `rest` the lines typed whose
    results are still to come. -/
def AtStmt (l : Lines) (current : List UInt8) (rest : List (List UInt8)) (v : ReadLocals) :
    ReadStmt → Prop
  | .currTerm => v.stored = [] ∧ Buffered l current rest
  | .test => v.stored = [] ∧ v.currTerm = l.viewed ∧ Buffered l current rest
  | .getIdx => ∃ line, Taken l current rest v line ∧ v.stored = []
  | .scan => ∃ line, Taken l current rest v line ∧ v.stored = [] ∧ v.i ≤ line.length ∧ v.j = 0 ∧
      v.count = 0
  | .copyTest => ∃ line, Taken l current rest v line ∧ v.j = 0 ∧ v.i ≤ line.length + 1 ∧
      v.stored = (line ++ [10]).take v.i
  | .copyStore => ∃ line, Taken l current rest v line ∧ v.j = 0 ∧ v.i ≤ line.length ∧
      v.stored = (line ++ [10]).take v.i
  | .nul => ∃ line, Taken l current rest v line ∧ v.stored = line ++ [10]
  | .clearEnter => ∃ line, Taken l current rest v line ∧ v.stored = line ++ [10]
  | .clearBuf => (l.terminal l.viewed).termEnter = 0 ∧ current = [] ∧ rest = [v.stored]
  | .resetIdx => current = [] ∧ ((l.terminal l.viewed).termEnter = 0 ∧ rest = [v.stored] ∨
      Ended l [] ∧ rest = [v.stored, [10]])
  | .resetLast => ∃ rest', rest = v.stored :: rest' ∧ Buffered l current rest'
  | .ret => ∃ rest', rest = v.stored :: rest' ∧ Buffered l current rest'

/-- The same for a reader that may be between two calls. A call asks for a whole line. -/
def At (l : Lines) (current : List UInt8) (rest : List (List UInt8)) : Option ReadPoint → Prop
  | none => Buffered l current rest
  | some (stmt, v) => 129 ≤ v.nbytes ∧ AtStmt l current rest v stmt

/-- How far the reader is from its result. -/
def readRank : Option ReadPoint → Nat
  | none => 2000
  | some (.currTerm, _) => 1900
  | some (.test, _) => 1800
  | some (.getIdx, _) => 1700
  | some (.scan, v) => 1000 + v.i
  | some (.copyTest, v) => 501 - 2 * v.i
  | some (.copyStore, v) => 500 - 2 * v.i
  | some (.nul, _) => 9
  | some (.clearEnter, _) => 8
  | some (.clearBuf, _) => 7
  | some (.resetIdx, _) => 6
  | some (.resetLast, _) => 5
  | some (.ret, _) => 4

/-- What no statement of the reader changes. -/
structure SameSeat (k k' : Kernel) : Prop where
  executing : k'.currTerm = k.currTerm
  viewed : k'.currTerminalNumber = k.currTerminalNumber
  front : k'.keyboardBuf (-1) = k.keyboardBuf (-1)

theorem SameSeat.refl (k : Kernel) : SameSeat k k := ⟨rfl, rfl, rfl⟩

/-- What a statement leaves: the next point, nearer to the result if a line waits; or the result, which
    is the next line. -/
inductive StmtStep (k : Kernel) (current : List UInt8) (rest : List (List UInt8)) (p : ReadPoint) :
    (ReadPoint ⊕ List UInt8) × Kernel → Prop
  | next {p' : ReadPoint} {k' : Kernel} (hat : At k'.lines current rest (some p'))
      (hseat : SameSeat k k') (hrank : rest ≠ [] → readRank (some p') < readRank (some p)) :
      StmtStep k current rest p (.inl p', k')
  | result {line : List UInt8} {rest' : List (List UInt8)} (hrest : rest = line :: rest')
      (hat : At k.lines current rest' none) : StmtStep k current rest p (.inr line, k)

section Statements

variable {k : Kernel} {current : List UInt8} {rest : List (List UInt8)} {v : ReadLocals}

/-- The reader goes on only when a line waits. -/
theorem stmtStep_test (hn : 129 ≤ v.nbytes) (h : AtStmt k.lines current rest v .test) :
    StmtStep k current rest (.test, v) (readStmt (.test, v) k) := by
  obtain ⟨hstored, hterm, hbuf⟩ := h
  have hflag : (k.terminals v.currTerm).termEnter = (k.lines.terminal k.lines.viewed).termEnter := by
    rw [hterm]
    rfl
  simp only [readStmt, hflag]
  cases hbuf with
  | typing henter hidx hlen hchars hholds =>
      rw [if_pos henter]
      exact .next ⟨hn, hstored, hterm, .typing henter hidx hlen hchars hholds⟩ (.refl k)
        (fun hrest => absurd rfl hrest)
  | ended hended =>
      rw [if_neg hended.enter]
      exact .next ⟨hn, _, ⟨rfl, rfl, hended, hterm⟩, hstored⟩ (.refl k)
        (fun _ => by simp [readRank])

/-- The scan finds no newline in front of the index: the line starts at 0. -/
theorem stmtStep_scan (hn : 129 ≤ v.nbytes) (h : AtStmt k.lines current rest v .scan) :
    StmtStep k current rest (.scan, v) (readStmt (.scan, v) k) := by
  obtain ⟨line, htaken, hstored, hle, hj, hcount⟩ := h
  simp only [readStmt]
  split
  · exact .next ⟨hn, line, htaken.keep rfl, hj, by simp [hj], by simp [hstored, hj]⟩ (.refl k)
      (fun _ => by simp only [readRank, hj]; omega)
  · next i hi =>
      -- the characters of the line are no newlines
      have hchar : k.keyboardBuf i ≠ 10 := (htaken.ended.char (i := i) (by omega)).2
      rw [if_neg hchar]
      exact .next ⟨hn, line, htaken.keep rfl, hstored, by simp only; omega, hj, hcount⟩ (.refl k)
        (fun _ => by simp only [readRank]; omega)

/-- The copy ends behind the newline. -/
theorem stmtStep_copyTest (hn : 129 ≤ v.nbytes) (hfront : k.keyboardBuf (-1) ≠ 10)
    (h : AtStmt k.lines current rest v .copyTest) :
    StmtStep k current rest (.copyTest, v) (readStmt (.copyTest, v) k) := by
  obtain ⟨line, htaken, hj, hle, hstored⟩ := h
  have hlen := htaken.ended.len
  simp only [readStmt]
  rcases Nat.lt_or_eq_of_le hle with hlt | hend
  · -- the newline is not copied yet
    have hgo : k.keyboardBuf v.i ≠ 0 ∧ k.keyboardBuf (v.i - 1) ≠ 10 ∧ v.i - v.j ≠ v.nbytes := by
      refine ⟨htaken.ended.ne_zero (by omega), ?_, by omega⟩
      by_cases h0 : v.i = 0
      · rw [h0]
        exact hfront
      · have hprev := (htaken.ended.char (i := v.i - 1) (by omega)).2
        rwa [show ((v.i - 1 : Nat) : Int) = (v.i : Int) - 1 by omega] at hprev
    rw [if_pos hgo]
    exact .next ⟨hn, line, htaken, hj, by omega, hstored⟩ (.refl k)
      (fun _ => by simp only [readRank]; omega)
  · have hstop : k.keyboardBuf (v.i - 1) = 10 := by
      have hnewline : k.keyboardBuf line.length = 10 := htaken.ended.newline
      rw [hend]
      simpa using hnewline
    rw [if_neg (fun hgo => hgo.2.1 hstop)]
    refine .next ⟨hn, line, htaken, ?_⟩ (.refl k) (fun _ => by simp only [readRank]; omega)
    rw [hstored, hend, List.take_of_length_le (by simp)]

/-- The copy stores the bytes of the line. -/
theorem stmtStep_copyStore (hn : 129 ≤ v.nbytes) (h : AtStmt k.lines current rest v .copyStore) :
    StmtStep k current rest (.copyStore, v) (readStmt (.copyStore, v) k) := by
  obtain ⟨line, htaken, hj, hle, hstored⟩ := h
  have hlen := htaken.ended.len
  refine .next ⟨hn, line, htaken.keep rfl, hj, by simp only; omega, ?_⟩
    (.refl k) (fun _ => by simp only [readRank]; omega)
  simp only [hstored]
  have hbyte : k.keyboardBuf v.i = (line ++ [10]).getD v.i 0 := htaken.ended.byte hle
  have hin : v.i < (line ++ [10]).length := by
    rw [List.length_append, List.length_singleton]
    omega
  rw [hbyte, List.getD_eq_getElem _ _ hin, List.take_append_getElem hin]

end Statements

/-- **One statement of the reader.** -/
theorem stmtStep {k : Kernel} {current : List UInt8} {rest : List (List UInt8)} {p : ReadPoint}
    (h : At k.lines current rest (some p)) (hexec : k.currTerm = k.currTerminalNumber)
    (hfront : k.keyboardBuf (-1) ≠ 10) : StmtStep k current rest p (readStmt p k) := by
  obtain ⟨stmt, v⟩ := p
  obtain ⟨hn, h⟩ := h
  cases stmt with
  | currTerm => exact .next ⟨hn, h.1, hexec, h.2⟩ (.refl k) (fun _ => by simp [readRank])
  | test => exact stmtStep_test hn h
  | getIdx =>
      obtain ⟨line, htaken, hstored⟩ := h
      have hidx : k.keyboardIdx.toNat = line.length := htaken.ended.idx
      refine .next ⟨hn, line, htaken.keep rfl, hstored, ?_, rfl, rfl⟩ (.refl k) (fun _ => ?_)
      · exact Nat.le_of_eq hidx
      · have hlen := htaken.ended.len
        simp only [readRank]
        omega
  | scan => exact stmtStep_scan hn h
  | copyTest => exact stmtStep_copyTest hn hfront h
  | copyStore => exact stmtStep_copyStore hn h
  | nul =>
      obtain ⟨line, htaken, hstored⟩ := h
      exact .next ⟨hn, line, htaken, hstored⟩ (.refl k) (fun _ => by simp only [readRank]; omega)
  | clearEnter =>
      obtain ⟨line, htaken, hstored⟩ := h
      refine .next ⟨hn, ?_, htaken.current, by rw [htaken.rest, hstored]⟩ ⟨rfl, rfl, rfl⟩
        (fun _ => by simp only [readRank]; omega)
      have hterm : v.currTerm = k.currTerminalNumber := htaken.currTerm
      simp [Kernel.lines, Kernel.setTerminal, hterm, Terminal.line]
  | clearBuf =>
      exact .next ⟨hn, h.2.1, Or.inl ⟨h.1, h.2.2⟩⟩ ⟨rfl, rfl, rfl⟩
        (fun _ => by simp only [readRank]; omega)
  | resetIdx =>
      obtain ⟨rfl, ⟨henter, rfl⟩ | ⟨hended, rfl⟩⟩ := h
      · refine .next ⟨hn, [], rfl, .typing henter rfl (Nat.zero_le _) ?_ Holds.nil⟩ ⟨rfl, rfl, rfl⟩
          (fun _ => by simp only [readRank]; omega)
        exact fun c hc => absurd hc List.not_mem_nil
      · -- the index was 0 already
        have hreset : Ended { k with keyboardIdx := 0 }.lines [] :=
          ⟨hended.enter, rfl, hended.len, hended.chars, hended.holds⟩
        exact .next ⟨hn, _, rfl, .ended hreset⟩ ⟨rfl, rfl, rfl⟩
          (fun _ => by simp only [readRank]; omega)
  | resetLast => exact .next ⟨hn, h⟩ ⟨rfl, rfl, rfl⟩ (fun _ => by simp only [readRank]; omega)
  | ret =>
      obtain ⟨rest', hrest, hbuf⟩ := h
      exact .result hrest hbuf

end UnixTerminal
