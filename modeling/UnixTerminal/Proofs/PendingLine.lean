import UnixTerminal.Proofs.LineAccesses

set_option autoImplicit false

/-! # A line that waits

The characters of a line lie at the start of the buffer, the newline of Enter right behind them at the
index. Whatever lies behind, a read delivers the line and its newline, or as much of them as it was
asked for. -/

namespace UnixTerminal

/-- The line lies in the buffer, with its newline at the index. The byte before the array is no
    newline. -/
structure PendingLine (k : Kernel) (line : List UInt8) : Prop where
  idx : k.keyboardIdx.toNat = line.length
  len : line.length ≤ 128
  chars : Chars line
  holds : Holds (fun i : Nat => k.keyboardBuf i) 0 (line ++ [10])
  front : k.keyboardBuf (-1) ≠ 10

namespace PendingLine

variable {k : Kernel} {line : List UInt8} {i : Nat}

theorem byte (h : PendingLine k line) (hi : i < (line ++ [10]).length) :
    k.keyboardBuf i = (line ++ [10])[i] := by
  have hb := h.holds i hi
  rwa [Nat.zero_add, List.getD_eq_getElem _ _ hi] at hb

theorem char (h : PendingLine k line) (hi : i < line.length) :
    k.keyboardBuf i ≠ 0 ∧ k.keyboardBuf i ≠ 10 := by
  rw [h.byte (by rw [List.length_append]; omega), List.getElem_append_left hi]
  exact h.chars _ (List.getElem_mem hi)

theorem newline (h : PendingLine k line) : k.keyboardBuf line.length = 10 := by
  rw [h.byte (by rw [List.length_append, List.length_singleton]; omega)]
  simp

/-- Inside the line and at its newline the copy goes on. -/
theorem goes (h : PendingLine k line) (hi : i ≤ line.length) :
    k.keyboardBuf i ≠ 0 ∧ k.keyboardBuf (i - 1) ≠ 10 := by
  constructor
  · rcases Nat.lt_or_eq_of_le hi with hlt | rfl
    · exact (h.char hlt).1
    · rw [h.newline]
      decide
  · cases i with
    | zero => exact h.front
    | succ i =>
        have hfront : ((i + 1 : Nat) : Int) - 1 = (i : Nat) := by omega
        rw [hfront]
        exact (h.char (Nat.lt_of_succ_le hi)).2

/-- The copy from index `i` on, by induction on the room in the caller's buffer. -/
theorem copyLine_eq (h : PendingLine k line) (room : Nat) (hi : i ≤ line.length + 1) :
    Kernel.copyLine k.keyboardBuf room i = ((line ++ [10]).drop i).take room := by
  induction room generalizing i with
  | zero => simp [Kernel.copyLine]
  | succ room ih =>
      rw [Kernel.copyLine]
      rcases Nat.lt_or_eq_of_le hi with hlt | rfl
      · have hin : i < (line ++ [10]).length := by
          rw [List.length_append, List.length_singleton]
          exact hlt
        rw [if_pos (h.goes (Nat.le_of_lt_succ hlt)), List.drop_eq_getElem_cons hin, List.take_succ_cons,
          ih (Nat.succ_le_of_lt hlt), h.byte hin]
      · -- the newline is just in front
        have hstop : k.keyboardBuf (((line.length + 1 : Nat) : Int) - 1) = 10 := by
          rw [show (((line.length + 1 : Nat) : Int) - 1) = (line.length : Nat) by omega]
          exact h.newline
        have hend : (line ++ [10]).length ≤ line.length + 1 := by
          rw [List.length_append, List.length_singleton]
        rw [if_neg (fun hgo => hgo.2 hstop), List.drop_eq_nil_of_le hend, List.take_nil]

end PendingLine

/-- The line buffer after a read. -/
structure Kernel.LineEmpty (k : Kernel) : Prop where
  enter : (k.terminals k.currTerm).termEnter = 0
  blank : ∀ i : Nat, i < 128 → k.keyboardBuf i = 32
  idx : k.keyboardIdx = 0
  lastIdx : k.lastIdx = 0

theorem lineEmpty_lineTaken (k : Kernel) : (k.lineTaken k.currTerm).LineEmpty where
  enter := by simp [Kernel.lineTaken, Kernel.setTerminal]
  blank i hi := by
    simp only [Kernel.lineTaken, inBuf hi, and_self, if_true]
  idx := rfl
  lastIdx := rfl

/-- **A read of a line that waits.** With the Enter flag set, the statements of `keyboard_read` end, with
    the first `nbytes` bytes of the line and its newline in the caller's buffer, from its start and with
    a NUL behind them; as many as are there are returned, and the line buffer is empty. Without the flag
    the call waits. -/
theorem pending_line_delivered (k : Kernel) (line : List UInt8) (h : PendingLine k line) (nbytes : Nat) :
    (k.EnterPressed → ∃ k', k'.LineEmpty ∧
      k.keyboardRead nbytes =
        some (⟨(min nbytes (line.length + 1) : Nat), 0, (line ++ [10]).take nbytes ++ [0]⟩, k') ∧
      ∃ n accesses, ReadEnds n (readStart nbytes) k ((line ++ [10]).take nbytes, k', accesses)) ∧
    (¬ k.EnterPressed → k.keyboardRead nbytes = none) := by
  refine ⟨fun henter => ⟨_, lineEmpty_lineTaken k, ?_, ?_⟩, fun hwait => if_pos (not_not.1 hwait)⟩
  all_goals
    have hline : ∀ i : Nat, i < k.keyboardIdx.toNat → k.keyboardBuf i ≠ 10 :=
      fun i hi => (h.char (h.idx ▸ hi)).2
    have hcopy : Kernel.copyLine k.keyboardBuf nbytes 0 = (line ++ [10]).take nbytes :=
      h.copyLine_eq nbytes (Nat.zero_le _)
  · rw [keyboardRead_of_line hline henter, hcopy, List.length_take, List.length_append,
      List.length_singleton]
  · have hends := readEnds_of_line hline henter nbytes
    rw [hcopy] at hends
    exact ⟨_, _, hends⟩

/-- The letter a and Enter, read with room for one byte. -/
theorem pending_line_one_byte :
    ∃ k', k'.LineEmpty ∧
      (samplePressed [0x1E, 0x1C]).2.keyboardRead 1 = some (⟨1, 0, [97, 0]⟩, k') := by
  have hline : PendingLine (samplePressed [0x1E, 0x1C]).2 [97] :=
    ⟨by decide +kernel, by decide, by simp [Chars], by decide +kernel, by decide +kernel⟩
  have henter : (samplePressed [0x1E, 0x1C]).2.EnterPressed := by
    unfold Kernel.EnterPressed
    decide +kernel
  obtain ⟨k', hempty, hread, -⟩ := (pending_line_delivered _ [97] hline 1).1 henter
  exact ⟨k', hempty, hread⟩

end UnixTerminal
