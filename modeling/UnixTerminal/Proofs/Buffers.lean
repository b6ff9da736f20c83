import UnixTerminal.Proofs.Boot

set_option autoImplicit false

/-! # The caller's buffer

`read`, `write` and `getargs` are given a buffer and its size. Each driver behind `fops_table` has
its own way to stop: a counter (`file_read`), the end of a string (`dir_readnew`, `getargs`, and the
`strlen` of `terminal_write`), the end of a line (`keyboard_read`) or the indices of the line buffer
(`keyboard_write`). Only the counter is compared with `nbytes`, so each of the others stays inside
the buffer exactly when what it copies is short enough. -/

namespace UnixTerminal

/-- All stores go to `buf[0]`, …, `buf[n-1]`, and the value returned is at most `n`. -/
def Transfer.Within (r : Transfer) (n : Nat) : Prop :=
  (∀ i < r.bytes.length, r.start + i < n) ∧ r.ret ≤ n

theorem Transfer.within_fail {v : Int} (hv : v ≤ 0) (n : Nat) : (Transfer.fail v).Within n :=
  ⟨fun i hi => absurd hi (by simp [Transfer.fail]), by simp only [Transfer.fail]; omega⟩

/-- A transfer that ends with a NUL behind its `r.ret` bytes. -/
theorem Transfer.within_terminated {start : Nat} {line : List UInt8} {n : Nat} :
    (Transfer.mk line.length start (line ++ [0])).Within n ↔ start + line.length < n := by
  constructor
  · rintro ⟨h, -⟩
    exact h line.length (by simp)
  · intro h
    refine ⟨fun i hi => ?_, by simp only; omega⟩
    simp only [List.length_append, List.length_singleton] at hi
    simp only
    omega

/-! ## Regular files -/

/-- The copy loop stores at most the bytes asked for. -/
theorem FileSys.length_readDataLoop (fs : FileSys) (inode currLength : Nat) :
    ∀ todo i currDataIdx currBlockByte count,
      (fs.readDataLoop inode currLength todo i currDataIdx currBlockByte count).2.length ≤ todo := by
  intro todo
  induction todo with
  | zero =>
      intro i currDataIdx currBlockByte count
      exact Nat.le_refl 0
  | succ todo ih =>
      intro i currDataIdx currBlockByte count
      simp only [FileSys.readDataLoop]
      split_ifs <;> simp [ih]

theorem FileSys.readData_within (fs : FileSys) (inode offset length : Nat) :
    (Transfer.mk (fs.readData inode offset length).1 0
      (fs.readData inode offset length).2).Within length := by
  unfold FileSys.readData
  by_cases h1 : inode ≥ fs.numInodes
  · rw [if_pos h1]
    exact Transfer.within_fail (by omega) length
  rw [if_neg h1]
  by_cases h2 : offset > fs.inodeWord inode 0
  · rw [if_pos h2]
    exact Transfer.within_fail (by omega) length
  rw [if_neg h2]
  by_cases h3 : offset = fs.inodeWord inode 0
  · rw [if_pos h3]
    exact Transfer.within_fail (by omega) length
  rw [if_neg h3]
  -- the loop runs: what is returned is the count of what it stored, or -1
  simp only
  generalize hr : fs.readDataLoop inode _ length _ _ _ _ = r
  have hlen : r.2.length ≤ length := hr ▸ fs.length_readDataLoop ..
  refine ⟨fun i hi => by simp only at hi ⊢; omega, ?_⟩
  simp only
  split <;> omega

/-! ## Lines -/

/-- Index `m` ends the copy of a line: it holds a NUL, or the newline is just in front of it. -/
def LineStop (buf : Int → UInt8) (m : Nat) : Prop := buf m = 0 ∨ buf (m - 1) = 10

/-- The copy is shorter than the room it has exactly when it meets a stop in that room. -/
theorem length_copyLine_lt (buf : Int → UInt8) {room i n : Nat} (hn : n ≤ i + room) :
    i + (Kernel.copyLine buf room i).length < n ↔ ∃ m, i ≤ m ∧ m < n ∧ LineStop buf m := by
  induction room generalizing i with
  | zero =>
      simp only [Kernel.copyLine, List.length_nil]
      constructor
      · intro h
        omega
      · rintro ⟨m, h1, h2, -⟩
        omega
  | succ room ih =>
      rw [Kernel.copyLine]
      split
      · next hgo =>
          rw [List.length_cons, Nat.add_comm _ 1, ← Nat.add_assoc, ih (by omega)]
          constructor
          · rintro ⟨m, h1, h2, hm⟩
            exact ⟨m, by omega, h2, hm⟩
          · rintro ⟨m, h1, h2, hm⟩
            rcases Nat.lt_or_eq_of_le h1 with hlt | rfl
            · exact ⟨m, hlt, h2, hm⟩
            · -- the loop went on at `i`, so `i` is no stop
              rcases hm with h0 | h10
              · exact absurd h0 hgo.1
              · exact absurd h10 hgo.2
      · next hstop =>
          have hi : LineStop buf i := by
            by_cases h0 : buf i = 0
            · exact Or.inl h0
            · refine Or.inr ?_
              by_contra h10
              exact hstop ⟨h0, h10⟩
          rw [List.length_nil, Nat.add_zero]
          constructor
          · intro h
            exact ⟨i, Nat.le_refl i, h, hi⟩
          · rintro ⟨m, h1, h2, -⟩
            omega

/-- The newlines at the indices `a`, …, `b - 1`. -/
def newlines (buf : Int → UInt8) (a b : Nat) : Nat :=
  (List.range b).countP (fun i => a ≤ i ∧ buf i = 10)

theorem newlines_succ (buf : Int → UInt8) (a b : Nat) :
    newlines buf a (b + 1) = newlines buf a b + if a ≤ b ∧ buf b = 10 then 1 else 0 := by
  simp only [newlines, List.range_succ, List.countP_append, List.countP_singleton, decide_eq_true_eq]

theorem newlines_eq_zero (buf : Int → UInt8) {a b : Nat} (h : b ≤ a) : newlines buf a b = 0 := by
  rw [newlines, List.countP_eq_zero]
  intro i hi
  have hib := List.mem_range.1 hi
  simp only [decide_eq_true_eq]
  rintro ⟨hai, -⟩
  omega

/-- The line to be delivered starts at `j`: one newline lies between `j` and the index, the newline
    of the line before it just in front of `j`; or there are fewer newlines and `j` is 0. `count` of
    the newlines lie behind the index. -/
def LineStartsAt (buf : Int → UInt8) (idx count j : Nat) : Prop :=
  (j = 0 ∧ newlines buf 0 idx + count < 2) ∨
  (0 < j ∧ j ≤ idx ∧ buf (j - 1) = 10 ∧ newlines buf j idx + count = 1)

/-- The backward scan finds the start of the line. -/
theorem lineStart_eq_iff (buf : Int → UInt8) (idx : Nat) {count j : Nat} (hc : count < 2) :
    Kernel.lineStart buf idx count = j ↔ LineStartsAt buf idx count j := by
  induction idx generalizing count with
  | zero =>
      simp only [Kernel.lineStart, LineStartsAt, newlines_eq_zero buf (Nat.zero_le _)]
      omega
  | succ i ih =>
      rw [Kernel.lineStart]
      simp only [LineStartsAt, newlines_succ]
      by_cases h10 : buf i = 10
      · rw [if_pos h10]
        by_cases h2 : count + 1 = 2
        · -- the second newline: every start in front of it has two behind
          rw [if_pos h2]
          have hlast : newlines buf (i + 1) i = 0 := newlines_eq_zero buf (Nat.le_succ i)
          have hat : buf (((i + 1 : Nat) : Int) - 1) = 10 := by simpa using h10
          constructor
          · rintro rfl
            exact Or.inr ⟨by omega, by omega, hat, by rw [hlast, if_neg (by omega)]; omega⟩
          · rintro (⟨-, h⟩ | ⟨h0, hle, -, h⟩)
            · rw [if_pos ⟨Nat.zero_le i, h10⟩] at h
              omega
            · by_contra hne
              rw [if_pos ⟨by omega, h10⟩] at h
              omega
        · rw [if_neg h2, ih (by omega)]
          simp only [LineStartsAt]
          constructor
          · rintro (⟨h0, h⟩ | ⟨h0, hle, hb, h⟩)
            · exact Or.inl ⟨h0, by rw [if_pos ⟨Nat.zero_le i, h10⟩]; omega⟩
            · exact Or.inr ⟨h0, by omega, hb, by rw [if_pos ⟨hle, h10⟩]; omega⟩
          · rintro (⟨h0, h⟩ | ⟨h0, hle, hb, h⟩)
            · rw [if_pos ⟨Nat.zero_le i, h10⟩] at h
              exact Or.inl ⟨h0, by omega⟩
            · by_cases hji : j ≤ i
              · rw [if_pos ⟨hji, h10⟩] at h
                exact Or.inr ⟨h0, hji, hb, by omega⟩
              · rw [if_neg (by omega), newlines_eq_zero buf (by omega)] at h
                omega
      · rw [if_neg h10, ih hc]
        simp only [LineStartsAt, h10, and_false, if_false, Nat.add_zero]
        constructor
        · rintro (h | ⟨h0, hle, hb, h⟩)
          · exact Or.inl h
          · exact Or.inr ⟨h0, by omega, hb, h⟩
        · rintro (h | ⟨h0, hle, hb, h⟩)
          · exact Or.inl h
          · -- a start at `i + 1` would have a newline at `i`
            refine Or.inr ⟨h0, ?_, hb, h⟩
            by_contra hji
            obtain rfl : j = i + 1 := by omega
            exact h10 (by simpa using hb)

/-- Two strings that agree up to the NUL of the first have one length. -/
theorem strlen_congr {s s' : List UInt8} (h : ∀ i ≤ strlen s, s'.getD i 0 = s.getD i 0) :
    strlen s' = strlen s := by
  induction s generalizing s' with
  | nil =>
      cases s' with
      | nil => rfl
      | cons c' t' =>
          have h0 : c' = 0 := by simpa using h 0 (Nat.zero_le _)
          simp [strlen, h0]
  | cons c t ih =>
      have h0 := h 0 (Nat.zero_le _)
      rw [strlen] at h ⊢
      cases s' with
      | nil =>
          rw [if_pos (by simpa using h0.symm)]
          rfl
      | cons c' t' =>
          obtain rfl : c' = c := by simpa using h0
          rw [strlen]
          by_cases hc : c' = 0
          · rw [if_pos hc, if_pos hc]
          · rw [if_neg hc] at h
            rw [if_neg hc, if_neg hc, ih (fun i hi => by simpa using h (i + 1) (by omega))]

namespace Kernel

variable (fs : FileSys) (k : Kernel)

/-! ## `read` -/

/-- What `keyboard_read` may ask of the line buffer: it still waits for Enter, or the line to be
    delivered and its NUL end in front of index `n`. -/
def LineFits (n : Nat) : Prop :=
  (k.terminals k.currTerm).termEnter = 0 ∨
  ∃ j m, LineStartsAt k.keyboardBuf k.keyboardIdx.toNat 0 j ∧
    j ≤ m ∧ m < n ∧ LineStop k.keyboardBuf m

theorem keyboardRead_within (n : Nat) :
    (∀ r k', k.keyboardRead n = some (r, k') → r.Within n) ↔ k.LineFits n := by
  unfold keyboardRead LineFits
  by_cases henter : (k.terminals k.currTerm).termEnter = 0
  · simp [henter]
  rw [if_neg henter]
  simp only [Option.some.injEq, Prod.mk.injEq, and_imp, henter, false_or]
  generalize hj : lineStart k.keyboardBuf k.keyboardIdx.toNat 0 = j
  have hstart : ∀ i, LineStartsAt k.keyboardBuf k.keyboardIdx.toNat 0 i ↔ j = i := by
    intro i
    rw [← lineStart_eq_iff _ _ (by omega), hj]
  constructor
  · intro h
    have hlt := Transfer.within_terminated.1 (h _ _ rfl rfl)
    obtain ⟨m, hm⟩ := (length_copyLine_lt _ (by omega)).1 hlt
    exact ⟨j, m, (hstart j).2 rfl, hm⟩
  · rintro ⟨i, m, hi, hm⟩ r k' rfl -
    obtain rfl := (hstart i).1 hi
    exact Transfer.within_terminated.2 ((length_copyLine_lt _ (by omega)).2 ⟨m, hm⟩)

/-- What `dir_readnew` may ask of the directory: there is no entry left, or its name and the NUL
    have `n` bytes at most. -/
def NameFits (n : Nat) : Prop :=
  fs.numDentries ≤ k.dirReadIdxNew ∨ strlen (fs.myDentry k.dirReadIdxNew).fileName < n

theorem dirReadnew_within (n : Nat) : (k.dirReadnew fs).1.Within n ↔ k.NameFits fs n := by
  unfold dirReadnew NameFits
  by_cases hend : k.dirReadIdxNew ≥ fs.numDentries
  · rw [if_pos hend]
    exact iff_of_true (Transfer.within_fail (Int.le_refl 0) n) (Or.inl hend)
  · rw [if_neg hend]
    simp only [strlen_eq_length_cstr, Transfer.within_terminated, Nat.zero_add]
    constructor
    · exact Or.inr
    · rintro (h | h)
      · exact absurd h hend
      · exact h

theorem fileReadSetup_within (fd n : Nat) : (k.fileReadSetup fs fd n).1.Within n := by
  simp only [fileReadSetup, FileSys.fileRead]
  split
  · exact fs.readData_within ..
  · exact Transfer.within_fail (by omega) n

theorem rtcRead_within (n : Nat) {r : Transfer} {k' : Kernel} (h : k.rtcRead = some (r, k')) :
    r.Within n := by
  unfold rtcRead at h
  split at h
  · simp only [Option.some.injEq, Prod.mk.injEq] at h
    obtain ⟨rfl, -⟩ := h
    exact Transfer.within_fail (Int.le_refl 0) n
  · exact absurd h (by simp)

/-- The `flags` of a descriptor of `current_pcb`: which driver `read` and `write` call. -/
def kindOf (fd : Int) : UInt32 := ((k.pcb k.currentPcb).fdsArray fd.toNat).flags

/-- The arguments that `read` and `write` pass on to a driver. -/
def Passed (fd : Int) (buf : UInt32) : Prop := buf ≠ 0 ∧ 0 ≤ fd ∧ fd < maxFile

/-- The tests in front of the call in `read`, and in the other order in `write`. -/
theorem refused_iff {fd : Int} {buf : UInt32} (nbytes : Nat) :
    ((nbytes : Int) < 0 ∨ buf = 0 ∨ fd > maxFile - 1 ∨ fd < 0) ↔ ¬ Passed fd buf := by
  unfold Passed maxFile
  by_cases hbuf : buf = 0
  · simp [hbuf]
  · simp only [hbuf, ne_eq, not_false_eq_true, true_and, false_or]
    omega

/-- A call of `read` that completes stays inside the buffer. -/
def ReadWithin (fd : Int) (buf : UInt32) (nbytes : Nat) : Prop :=
  ∀ r k', k.read fs fd buf nbytes = some (r, k') → r.Within nbytes

/-- The condition for `read`: the line (stdin) or the name (a directory) is short enough. -/
def ReadFits (fd : Int) (buf : UInt32) (nbytes : Nat) : Prop :=
  Passed fd buf →
    (k.kindOf fd = stdinFlag → k.LineFits nbytes) ∧ (k.kindOf fd = dirFlag → k.NameFits fs nbytes)

/-- A driver that does not wait has one transfer. -/
theorem within_some {x : Transfer × Kernel} {n : Nat} :
    (∀ r k', some x = some (r, k') → r.Within n) ↔ x.1.Within n := by
  constructor
  · intro h
    exact h x.1 x.2 rfl
  · rintro h r k' hx
    obtain rfl := Option.some.inj hx
    exact h

theorem readWithin_iff (fd : Int) (buf : UInt32) (nbytes : Nat) :
    k.ReadWithin fs fd buf nbytes ↔ k.ReadFits fs fd buf nbytes := by
  unfold ReadWithin ReadFits read
  by_cases hpass : Passed fd buf
  · rw [if_neg (fun h => (refused_iff nbytes).1 h hpass)]
    simp only [Int.toNat_natCast, hpass, true_implies, ← UInt32.toNat_inj]
    -- one case for each row of `fops_table`
    unfold kindOf
    rcases hkind : ((k.pcb k.currentPcb).fdsArray fd.toNat).flags.toNat with _ | _ | _ | _ | _ | _ | n
    · simp [stdinFlag, dirFlag, Transfer.within_fail]
    · simp [stdinFlag, dirFlag, keyboardRead_within]
    · simp [stdinFlag, dirFlag, Transfer.within_fail]
    · simp only [stdinFlag, dirFlag]
      exact iff_of_true (fun r k' h => k.rtcRead_within nbytes h) (by simp)
    · simp only [within_some, fileReadSetup_within]
      simp [stdinFlag, dirFlag]
    · simp only [within_some, dirReadnew_within]
      simp [stdinFlag, dirFlag]
    · simp [stdinFlag, dirFlag]
  · rw [if_pos ((refused_iff nbytes).2 hpass)]
    simp [hpass, Transfer.within_fail]

/-! ## `write` -/

/-- `write` loads nothing outside the buffer. -/
def WriteWithin (fd : Int) (buf : UInt32) (bytes : List UInt8) (nbytes : Nat) : Prop :=
  ∀ i ∈ k.writeLoads fd buf bytes nbytes, i < nbytes

/-- The condition for `write`: the characters not echoed yet lie in the buffer (stdin), the string
    has its NUL in the buffer (stdout). -/
def WriteFits (fd : Int) (buf : UInt32) (bytes : List UInt8) (nbytes : Nat) : Prop :=
  Passed fd buf →
    (k.kindOf fd = stdinFlag → k.keyboardIdx ≤ k.lastIdx ∨ k.keyboardIdx.toNat ≤ nbytes) ∧
    (k.kindOf fd = stdoutFlag → strlen bytes < nbytes)

theorem keyboardWriteLoads_within (n : Nat) :
    (∀ i ∈ k.keyboardWriteLoads, i < n) ↔ k.keyboardIdx ≤ k.lastIdx ∨ k.keyboardIdx.toNat ≤ n := by
  have hmem : ∀ i, i ∈ k.keyboardWriteLoads ↔ k.lastIdx.toNat ≤ i ∧ i < k.keyboardIdx.toNat := by
    intro i
    unfold keyboardWriteLoads
    split
    · rw [List.range_eq_range', List.drop_range', List.mem_range'_1]
      omega
    · next h =>
        rw [not_not.1 h]
        simp
  simp only [hmem, UInt8.le_iff_toNat_le]
  constructor
  · intro h
    by_contra hno
    have hlast := h (k.keyboardIdx.toNat - 1) (by omega)
    omega
  · intro h i hi
    omega

theorem terminalWriteLoads_within (bytes : List UInt8) (n : Nat) :
    (∀ i ∈ terminalWriteLoads bytes n, i < n) ↔ strlen bytes < n := by
  constructor
  · intro h
    exact h (strlen bytes) (List.mem_append_left _ (List.mem_range.2 (Nat.lt_succ_self _)))
  · intro h i hi
    rw [terminalWriteLoads, if_pos h, List.mem_append, List.mem_range, List.mem_range] at hi
    omega

theorem writeWithin_iff (fd : Int) (buf : UInt32) (bytes : List UInt8) (nbytes : Nat) :
    k.WriteWithin fd buf bytes nbytes ↔ k.WriteFits fd buf bytes nbytes := by
  unfold WriteWithin WriteFits writeLoads
  by_cases hpass : Passed fd buf
  · rw [if_neg (fun h => (refused_iff nbytes).1 (by tauto) hpass)]
    simp only [Int.toNat_natCast, hpass, true_implies, ← UInt32.toNat_inj]
    unfold kindOf
    rcases hkind : ((k.pcb k.currentPcb).fdsArray fd.toNat).flags.toNat with _ | _ | _ | _ | n
    · simp [stdinFlag, stdoutFlag]
    · simp [stdinFlag, stdoutFlag, keyboardWriteLoads_within]
    · simp [stdinFlag, stdoutFlag, terminalWriteLoads_within]
    · -- the word is loaded only when there are four bytes
      by_cases h4 : nbytes = 4 <;> simp [stdinFlag, stdoutFlag, rtcWriteLoads, h4]
    · simp [stdinFlag, stdoutFlag]
  · have hrefused := (refused_iff nbytes).2 hpass
    rw [if_pos (by tauto)]
    simp [hpass]

theorem keyboardWrite_congr {bytes bytes' : List UInt8}
    (h : ∀ i ∈ k.keyboardWriteLoads, bytes'.getD i 0 = bytes.getD i 0) :
    k.keyboardWrite bytes' = k.keyboardWrite bytes := by
  unfold keyboardWriteLoads at h
  simp only [keyboardWrite]
  split
  · next hne =>
      rw [if_pos hne] at h
      rw [List.foldl_ext _ _ _ (fun k' i hi => by rw [h i hi])]
  · rfl

/-- What `write` does is determined by the bytes at the indices it loads. -/
theorem write_congr {fd : Int} {buf : UInt32} {bytes bytes' : List UInt8} {nbytes : Int}
    (h : ∀ i ∈ k.writeLoads fd buf bytes nbytes, bytes'.getD i 0 = bytes.getD i 0) :
    k.write fd buf bytes' nbytes = k.write fd buf bytes nbytes := by
  unfold write
  unfold writeLoads at h
  by_cases hrefused : nbytes < 0 ∨ buf = 0 ∨ fd < 0 ∨ fd > maxFile - 1
  · rw [if_pos hrefused, if_pos hrefused]
  rw [if_neg hrefused] at h
  rw [if_neg hrefused, if_neg hrefused]
  rcases hkind : ((k.pcb k.currentPcb).fdsArray fd.toNat).flags.toNat with _ | _ | _ | _ | _ | _ | n
    <;> rw [hkind] at h
  case succ.zero => exact congrArg some (k.keyboardWrite_congr h)
  case succ.succ.zero =>
    have hlen : strlen bytes' = strlen bytes :=
      strlen_congr (fun i hi => h i (List.mem_append_left _ (List.mem_range.2 (by omega))))
    simp only [terminalWrite, hlen]
    rw [List.foldl_ext _ _ _ (fun k' i hi => by rw [h i (List.mem_append_right _ hi)])]
  case succ.succ.succ.zero =>
    simp only [rtcWriteLoads] at h
    simp only [rtcWrite]
    split
    · rfl
    · next h4 =>
        rw [if_neg h4] at h
        simp only [wordAt]
        rw [h 0 (by simp), h 1 (by simp), h 2 (by simp), h 3 (by simp)]
  all_goals rfl

/-! ## `getargs` -/

/-- `getargs` stores into the buffer only, and fails when the arguments and their NUL do not fit. -/
def GetargsWithin (behind : List UInt8) (buf : UInt32) (nbytes : Nat) : Prop :=
  (∀ i < (k.getargs behind buf nbytes).bytes.length,
    (k.getargs behind buf nbytes).start + i < nbytes) ∧
  (nbytes < strlen ((k.pcbOf k.currProcess).argsBytes ++ behind) + 1 →
    (k.getargs behind buf nbytes).ret = -1)

theorem getargsWithin_iff (behind : List UInt8) (buf : UInt32) (nbytes : Nat) :
    k.GetargsWithin behind buf nbytes ↔
      buf = 0 ∨ strlen ((k.pcbOf k.currProcess).argsBytes ++ behind) < nbytes := by
  unfold GetargsWithin getargs
  by_cases hbuf : buf = 0
  · simp [hbuf, Transfer.fail]
  · simp only [hbuf, if_false, false_or, strlen_eq_length_cstr, List.length_append,
      List.length_singleton, Nat.zero_add]
    constructor
    · rintro ⟨h, -⟩
      exact h _ (Nat.lt_succ_self _)
    · intro h
      exact ⟨fun i hi => by omega, fun hlt => by omega⟩

end Kernel

/-! ## The three calls -/

/-- **A call stays inside the caller's buffer exactly when what it copies is short enough**: `read`
    for the line and for the directory entry that is next, `write` for the string and for the
    characters not echoed yet, `getargs` for the arguments. -/
theorem buffer_size_respected_iff (fs : FileSys) (k : Kernel) (fd : Int) (buf : UInt32)
    (bytes behind : List UInt8) (nbytes : Nat) :
    (k.ReadWithin fs fd buf nbytes ↔ k.ReadFits fs fd buf nbytes) ∧
    (k.WriteWithin fd buf bytes nbytes ↔ k.WriteFits fd buf bytes nbytes) ∧
    (k.GetargsWithin behind buf nbytes ↔
      buf = 0 ∨ strlen ((k.pcbOf k.currProcess).argsBytes ++ behind) < nbytes) :=
  ⟨k.readWithin_iff fs fd buf nbytes, k.writeWithin_iff fd buf bytes nbytes,
    k.getargsWithin_iff behind buf nbytes⟩

/-- The first shell has opened the directory `.` and asks for one byte; the name and its NUL are two.
    Its `write` of one character looks for a NUL behind it, and its `getargs` stores the NUL of the
    empty arguments into a buffer of size 0. -/
theorem one_byte_buffers_overrun :
    ¬ Kernel.ReadWithin sampleFs (sampleShell.openFile sampleFs [46]).2 2 0x8048000 1 ∧
    ¬ sampleShell.WriteWithin 1 0x8048000 [108] 1 ∧
    ¬ sampleShell.GetargsWithin [] 0x8048000 0 := by
  have hpass : ∀ fd : Int, 0 ≤ fd → fd < maxFile → Kernel.Passed fd 0x8048000 :=
    fun fd h0 h8 => ⟨by decide, h0, h8⟩
  refine ⟨fun h => ?_, fun h => ?_, fun h => ?_⟩
  · have hfits := ((Kernel.readWithin_iff _ _ _ _ _).1 h (hpass 2 (by decide) (by decide))).2
      (by decide +kernel)
    rcases hfits with hend | hlen
    · exact absurd hend (by decide +kernel)
    · exact absurd hlen (by decide +kernel)
  · have hlen := ((Kernel.writeWithin_iff _ _ _ _ _).1 h (hpass 1 (by decide) (by decide))).2
      (by decide +kernel)
    exact absurd hlen (by decide)
  · rcases (Kernel.getargsWithin_iff _ _ _ _).1 h with h0 | hlen
    · exact absurd h0 (by decide)
    · exact absurd hlen (Nat.not_lt_zero _)

end UnixTerminal
