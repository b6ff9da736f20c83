import UnixTerminal.Kernel.Keyboard

set_option autoImplicit false

/-! # `keyboard_read`, statement by statement

`keyboard_read` runs with interrupts on, and the keyboard interrupt may come between any two of its
statements. `readStmt` is its code as a thread, as in `haltStmt`: each statement loads or stores the
shared variables once, but for the condition of the copy loop. The bytes it stores in the caller's
buffer are the local `stored`. -/

namespace UnixTerminal

/-- The local variables of `keyboard_read` and its argument. While the buffer is scanned `i` is one more
    than in the source, where the loop ends at -1. -/
structure ReadLocals where
  nbytes : Nat
  currTerm : Nat
  i : Nat
  j : Nat
  count : Nat
  stored : List UInt8
deriving DecidableEq, Repr

/-- The statements of `keyboard_read`, in their order. -/
inductive ReadStmt
  /-- `curr_term = get_curr_exec_term()` -/
  | currTerm
  /-- `while(terminals[curr_term].term_enter == 0)` -/
  | test
  /-- `get_keyboard_idx(idx)` -/
  | getIdx
  /-- One pass of the loop that looks for the second newline. -/
  | scan
  /-- The condition of the copy loop and its `break`. -/
  | copyTest
  /-- `((char *)buf)[i] = keyboard_buf[i]` -/
  | copyStore
  /-- `((char *)buf)[i] = '\0'` -/
  | nul
  /-- `terminals[curr_term].term_enter = 0` -/
  | clearEnter
  /-- `memset(keyboard_buf, ' ', MAX_BUF_SIZE)` -/
  | clearBuf
  /-- `keyboard_idx = 0` -/
  | resetIdx
  /-- `last_idx = 0` -/
  | resetLast
  /-- `return (i-j)` -/
  | ret
deriving DecidableEq, Repr

/-- A point of `keyboard_read`: the next statement and the local variables. -/
abbrev ReadPoint := ReadStmt × ReadLocals

/-- The point at which a call starts. -/
def readStart (nbytes : Nat) : ReadPoint := (.currTerm, ⟨nbytes, 0, 0, 0, 0, []⟩)

/-- One statement of `keyboard_read`. The result of the call is the bytes it copied, as many as it
    returns. -/
def readStmt (p : ReadPoint) (k : Kernel) : (ReadPoint ⊕ List UInt8) × Kernel :=
  let l := p.2
  match p.1 with
  | .currTerm => (.inl (.test, { l with currTerm := k.currTerm }), k)
  | .test =>
      if (k.terminals l.currTerm).termEnter = 0 then (.inl (.test, l), k) else (.inl (.getIdx, l), k)
  | .getIdx => (.inl (.scan, { l with i := k.keyboardIdx.toNat, j := 0, count := 0 }), k)
  | .scan =>
      match l.i with
      | 0 => (.inl (.copyTest, { l with i := l.j }), k)
      | i + 1 =>
          if k.keyboardBuf i = 10 then
            if l.count + 1 = 2 then
              (.inl (.copyTest, { l with i := i + 1, j := i + 1, count := l.count + 1 }), k)
            else (.inl (.scan, { l with i := i, count := l.count + 1 }), k)
          else (.inl (.scan, { l with i := i }), k)
  | .copyTest =>
      if k.keyboardBuf l.i ≠ 0 ∧ k.keyboardBuf (l.i - 1) ≠ 10 ∧ l.i - l.j ≠ l.nbytes then
        (.inl (.copyStore, l), k)
      else (.inl (.nul, l), k)
  | .copyStore =>
      (.inl (.copyTest, { l with i := l.i + 1, stored := l.stored ++ [k.keyboardBuf l.i] }), k)
  | .nul => (.inl (.clearEnter, l), k)
  | .clearEnter =>
      (.inl (.clearBuf, l), k.setTerminal l.currTerm (fun t => { t with termEnter := 0 }))
  | .clearBuf =>
      (.inl (.resetIdx, l),
        { k with keyboardBuf := fun i => if 0 ≤ i ∧ i < maxBufSize then 32 else k.keyboardBuf i })
  | .resetIdx => (.inl (.resetLast, l), { k with keyboardIdx := 0 })
  | .resetLast => (.inl (.ret, l), { k with lastIdx := 0 })
  | .ret => (.inr l.stored, k)

end UnixTerminal
