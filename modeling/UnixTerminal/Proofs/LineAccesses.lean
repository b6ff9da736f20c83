import UnixTerminal.Library.Interleave
import UnixTerminal.Proofs.LineFootprint
import UnixTerminal.Proofs.LineIndices
import UnixTerminal.Proofs.TypedInput
import UnixTerminal.Proofs.TypedLines

set_option autoImplicit false

/-! # The line buffer is accessed inside, but for one character

Every index that the handler and `keyboard_read` compute is one of the buffer: the line has no newline
below its index, so that a read starts at 0, and the last byte is a NUL or a newline, so that it ends.
But the condition of the copy loop looks at the character in front of the index, and at the start of the
line this is the byte before the array. -/

namespace UnixTerminal

/-! ## The statements of a read -/

section Read

variable {k k' : Kernel} {v : ReadLocals} {n m : Nat} {line : List UInt8} {l : List Int}

/-- `keyboard_read` alone: its result, the state it leaves and its accesses, in `n` statements. -/
abbrev ReadEnds (n : Nat) (p : ReadPoint) (k : Kernel) (r : List UInt8 × Kernel × List Int) : Prop :=
  SoloEnds readStmt readAccesses n p k r

/-- The accesses of the copy loop from index `i` on. -/
def copyAccesses (buf : Int → UInt8) : Nat → Nat → List Int
  | 0, i => if buf i ≠ 0 then [(i : Int), i - 1] else [(i : Int)]
  | room + 1, i =>
      if buf i ≠ 0 then
        if buf (i - 1) ≠ 10 then (i : Int) :: (i - 1) :: (i : Int) :: copyAccesses buf room (i + 1)
        else [(i : Int), i - 1]
      else [(i : Int)]

/-- Below the index there is no newline: the scan goes down to 0. -/
theorem readEnds_scan (hline : ∀ i : Nat, i < n → k.keyboardBuf i ≠ 10)
    (h : ReadEnds m (.copyTest, { v with i := 0, j := 0 }) k (line, k', l)) :
    ReadEnds (m + n + 1) (.scan, { v with i := n, j := 0 }) k
      (line, k', (List.range n).reverse.map (fun (i : Nat) => (i : Int)) ++ l) := by
  induction n with
  | zero => exact .step rfl h
  | succ n ih =>
      have hstep := ih (fun i hi => hline i (Nat.lt_succ_of_lt hi))
      have hexec : readStmt (.scan, { v with i := n + 1, j := 0 }) k =
          (.inl (.scan, { v with i := n, j := 0 }), k) := by
        simp only [readStmt, hline n (Nat.lt_succ_self n), if_false]
      rw [List.range_succ, List.reverse_append]
      exact .step hexec hstep

/-- The copy loop. -/
theorem readEnds_copy (room i : Nat) (stored : List UInt8) (hroom : i - v.j + room = v.nbytes)
    (hj : v.j ≤ i)
    (h : ReadEnds m (.nul, { v with
      i := i + (Kernel.copyLine k.keyboardBuf room i).length
      stored := stored ++ Kernel.copyLine k.keyboardBuf room i }) k (line, k', l)) :
    ReadEnds (m + 2 * (Kernel.copyLine k.keyboardBuf room i).length + 1)
      (.copyTest, { v with i := i, stored := stored }) k (line, k', copyAccesses k.keyboardBuf room i ++ l) := by
  induction room generalizing i stored with
  | zero =>
      simp only [Kernel.copyLine, List.append_nil] at h
      exact .step (if_neg (fun hgo => hgo.2.2 hroom)) h
  | succ room ih =>
      have haccess : readAccesses (.copyTest, { v with i := i, stored := stored }) k =
          if k.keyboardBuf i ≠ 0 then [(i : Int), i - 1] else [(i : Int)] := rfl
      simp only [Kernel.copyLine, copyAccesses] at h ⊢
      by_cases h0 : k.keyboardBuf i ≠ 0
      · rw [if_pos h0] at haccess
        by_cases h10 : k.keyboardBuf (i - 1) ≠ 10
        · rw [if_pos ⟨h0, h10⟩] at h ⊢
          rw [if_pos h0, if_pos h10]
          have hmore : i - v.j ≠ v.nbytes := by omega
          have htest : readStmt (.copyTest, { v with i := i, stored := stored }) k =
              (.inl (.copyStore, { v with i := i, stored := stored }), k) := if_pos ⟨h0, h10, hmore⟩
          rw [List.length_cons] at h ⊢
          have hrest := ih (i + 1) (stored ++ [k.keyboardBuf i]) (by omega) (by omega) (by
            rwa [List.append_assoc, List.singleton_append, Nat.add_right_comm, Nat.add_assoc])
          have hpass := SoloEnds.step htest (.step rfl hrest)
          rw [haccess] at hpass
          exact hpass
        · rw [if_neg (fun hgo => h10 hgo.2)] at h ⊢
          rw [if_pos h0, if_neg h10, ← haccess]
          rw [List.append_nil] at h
          exact .step (if_neg (fun hgo => h10 hgo.2.1)) h
      · rw [if_neg h0] at haccess
        rw [if_neg (fun hgo => h0 hgo.1)] at h ⊢
        rw [if_neg h0, ← haccess]
        rw [List.append_nil] at h
        exact .step (if_neg (fun hgo => h0 hgo.1)) h

/-- The state that a read leaves on terminal `t`. -/
def Kernel.lineTaken (k : Kernel) (t : Nat) : Kernel :=
  { k.setTerminal t (fun t => { t with termEnter := 0 }) with
    keyboardBuf := fun i => if 0 ≤ i ∧ i < maxBufSize then 32 else k.keyboardBuf i
    keyboardIdx := 0
    lastIdx := 0 }

/-- The statements behind the copy. -/
theorem readEnds_reset (v : ReadLocals) (k : Kernel) :
    ReadEnds 6 (.nul, v) k (v.stored, k.lineTaken v.currTerm, Kernel.wholeLine) := by
  have h : ReadEnds 6 (.nul, v) k (v.stored, _, Kernel.wholeLine ++ []) :=
    .step rfl (.step rfl (.step rfl (.step rfl (.step rfl (.done rfl)))))
  rwa [List.append_nil] at h

/-- Without a newline below the index, the line starts at 0. -/
theorem lineStart_eq_zero {buf : Int → UInt8} (h : ∀ i : Nat, i < n → buf i ≠ 10) (count : Nat) :
    Kernel.lineStart buf n count = 0 := by
  induction n with
  | zero => rfl
  | succ n ih =>
      rw [Kernel.lineStart, if_neg (h n (Nat.lt_succ_self n))]
      exact ih (fun i hi => h i (Nat.lt_succ_of_lt hi))

theorem keyboardRead_of_line (hline : ∀ i : Nat, i < k.keyboardIdx.toNat → k.keyboardBuf i ≠ 10)
    (henter : (k.terminals k.currTerm).termEnter ≠ 0) (nbytes : Nat) :
    k.keyboardRead nbytes =
      some (⟨(Kernel.copyLine k.keyboardBuf nbytes 0).length, 0,
        Kernel.copyLine k.keyboardBuf nbytes 0 ++ [0]⟩, k.lineTaken k.currTerm) := by
  rw [Kernel.keyboardRead, if_neg henter, lineStart_eq_zero hline 0]
  rfl

/-- **A read of a line without newlines below its index** ends, in the state of the atomic
    `keyboard_read` and with its bytes, and these are its accesses. -/
theorem readEnds_of_line (hline : ∀ i : Nat, i < k.keyboardIdx.toNat → k.keyboardBuf i ≠ 10)
    (henter : (k.terminals k.currTerm).termEnter ≠ 0) (nbytes : Nat) :
    ReadEnds (6 + 2 * (Kernel.copyLine k.keyboardBuf nbytes 0).length + 1 + k.keyboardIdx.toNat + 1 + 3)
      (readStart nbytes) k
      (Kernel.copyLine k.keyboardBuf nbytes 0, k.lineTaken k.currTerm,
        (List.range k.keyboardIdx.toNat).reverse.map (fun (i : Nat) => (i : Int)) ++
          (copyAccesses k.keyboardBuf nbytes 0 ++ Kernel.wholeLine)) := by
  -- the locals behind the first three statements
  generalize hv : (⟨nbytes, k.currTerm, 0, 0, 0, []⟩ : ReadLocals) = v
  have hcopy := readEnds_copy (v := v) nbytes 0 [] (by rw [← hv]; simp) (by rw [← hv])
    (readEnds_reset _ k)
  have hscan := readEnds_scan (v := v) hline (by rw [← hv] at hcopy ⊢; exact hcopy)
  rw [← hv] at hscan
  exact .step rfl (.step (if_neg henter) (.step rfl hscan))

/-! ## What is accessed -/

/-- The indices of `keyboard_buf`. -/
def InLine (i : Int) : Prop := 0 ≤ i ∧ i ≤ 128

/-- The copy loop stays inside exactly when it stops at once. -/
theorem copyAccesses_inLine (buf : Int → UInt8) (room : Nat) :
    (∀ i ∈ copyAccesses buf room 0, InLine i) ↔ buf 0 = 0 := by
  constructor
  · intro h
    by_contra h0
    have hfront : (-1 : Int) ∈ copyAccesses buf room 0 := by
      cases room with
      | zero => simp [copyAccesses, h0]
      | succ room =>
          rw [copyAccesses, if_pos (by simpa using h0)]
          split_ifs <;> simp
    exact absurd (h _ hfront).1 (by decide)
  · intro h0 i hi
    have hone : copyAccesses buf room 0 = [((0 : Nat) : Int)] := by
      cases room <;> simp [copyAccesses, h0]
    rw [hone, List.mem_singleton] at hi
    rw [hi]
    exact ⟨by decide, by decide⟩

theorem wholeLine_inLine : ∀ i ∈ Kernel.wholeLine, InLine i := by
  intro i hi
  have hi := Kernel.mem_wholeLine.1 hi
  simp only [maxBufSize] at hi
  exact ⟨hi.1, by omega⟩

end Read

/-! ## What the buffer holds -/

/-- Below its index a line has no newline. -/
structure Unbroken (byte : Nat → UInt8) (idx : UInt8) : Prop where
  idx_le : idx ≤ 128
  line : ∀ i, i < idx.toNat → byte i ≠ 10

theorem Unbroken.congr {byte byte' : Nat → UInt8} {idx : UInt8} (h : Unbroken byte idx)
    (hbyte : ∀ i, i < 128 → byte' i = byte i) : Unbroken byte' idx := by
  refine ⟨h.idx_le, fun i hi => ?_⟩
  have hle : idx.toNat ≤ 128 := UInt8.le_iff_toNat_le.1 h.idx_le
  rw [hbyte i (by omega)]
  exact h.line i hi

theorem Unbroken.empty (byte : Nat → UInt8) : Unbroken byte 0 :=
  ⟨by decide, fun i hi => absurd hi (Nat.not_lt_zero i)⟩

/-- All lines are, and behind the line buffer's 128 bytes is a NUL or a newline. -/
structure Lines.Sound (l : Lines) : Prop where
  line : Unbroken (fun i => l.buf i) l.idx
  saved : ∀ t, t < 3 → Unbroken (l.terminal t).inputBuf (l.terminal t).keyboardIndex
  last : l.buf 128 = 0 ∨ l.buf 128 = 10

namespace Lines.Sound

variable {l : Lines}

theorem of_agree {l' : Lines} (h : l.Sound) (ha : l.Agree l') : l'.Sound where
  line := by
    rw [ha.buf, ha.idx]
    exact h.line
  saved t ht := by
    rw [ha.terminal t ht]
    exact h.saved t ht
  last := by
    rw [ha.buf]
    exact h.last

theorem typed (h : l.Sound) {c : UInt8} (hc : c ≠ 10) : (l.after (.typed c)).Sound := by
  have hle : l.idx.toNat ≤ 128 := UInt8.le_iff_toNat_le.1 h.line.idx_le
  rw [Lines.after]
  by_cases hfull : l.idx = 128
  · rw [if_pos hfull]
    exact h
  · rw [if_neg hfull]
    have hlt : l.idx.toNat < 128 := Nat.lt_of_le_of_ne hle (fun he => hfull (UInt8.toNat_inj.1 he))
    have hnext : (l.idx + 1).toNat = l.idx.toNat + 1 := by
      rw [UInt8.toNat_add, UInt8.toNat_one]
      omega
    refine ⟨⟨?_, fun i hi => ?_⟩, h.saved, ?_⟩
    · exact UInt8.le_iff_toNat_le.2 (hnext.trans_le hlt)
    · dsimp only at hi ⊢
      rw [hnext] at hi
      rcases Nat.lt_or_eq_of_le (Nat.le_of_lt_succ hi) with hlow | rfl
      · rw [Function.update_of_ne (by omega)]
        exact h.line.line i hlow
      · rw [Function.update_self]
        exact hc
    · dsimp only
      rw [Function.update_of_ne (by omega)]
      exact h.last

theorem enter (h : l.Sound) : (l.after .enter).Sound := by
  have hle : l.idx.toNat ≤ 128 := UInt8.le_iff_toNat_le.1 h.line.idx_le
  refine ⟨⟨h.line.idx_le, fun i hi => ?_⟩, fun t ht => ?_, ?_⟩
  · simp only [Lines.after] at hi ⊢
    rw [Function.update_of_ne (by omega)]
    exact h.line.line i hi
  · simp only [Lines.after, Function.update_apply]
    split_ifs with hview
    · exact hview ▸ h.saved t ht
    · exact h.saved t ht
  · simp only [Lines.after, Function.update_apply]
    split_ifs
    · exact Or.inr rfl
    · exact h.last

theorem erase (h : l.Sound) : (l.after .erase).Sound := by
  have hle : l.idx.toNat ≤ 128 := UInt8.le_iff_toNat_le.1 h.line.idx_le
  rw [Lines.after]
  by_cases h0 : l.idx = 0
  · rw [if_pos h0]
    exact h
  · rw [if_neg h0]
    have hone : (1 : UInt8) ≤ l.idx :=
      UInt8.le_iff_toNat_le.2 (Nat.one_le_iff_ne_zero.2 (fun he => h0 (UInt8.toNat_inj.1 he)))
    have hprev : (l.idx - 1).toNat = l.idx.toNat - 1 := UInt8.toNat_sub_of_le _ _ hone
    refine ⟨⟨?_, fun i hi => ?_⟩, h.saved, ?_⟩
    · exact UInt8.le_iff_toNat_le.2 (hprev.trans_le (Nat.le_trans (Nat.sub_le _ _) hle))
    · dsimp only at hi ⊢
      rw [hprev] at hi
      rw [Function.update_of_ne (by omega)]
      exact h.line.line i (by omega)
    · dsimp only
      rw [Function.update_of_ne (by omega)]
      exact h.last

/-- The buffer is wiped, and perhaps a flag cleared. -/
theorem wipe (h : l.Sound) {terminal : Nat → TerminalLine}
    (hterm : ∀ t, (terminal t).inputBuf = (l.terminal t).inputBuf ∧
      (terminal t).keyboardIndex = (l.terminal t).keyboardIndex) :
    ({ l with buf := blankBuf l.buf, idx := 0, terminal := terminal } : Lines).Sound := by
  refine ⟨.empty _, fun t ht => ?_, h.last⟩
  dsimp only
  rw [(hterm t).1, (hterm t).2]
  exact h.saved t ht

theorem deliver (h : l.Sound) : (l.after .deliver).Sound := by
  refine h.wipe (fun t => ?_)
  rw [Function.update_apply]
  split_ifs with ht
  · rw [ht]
    exact ⟨rfl, rfl⟩
  · exact ⟨rfl, rfl⟩

theorem save (h : l.Sound) : l.saved.Sound := by
  refine ⟨h.line, fun t ht => ?_, h.last⟩
  simp only [Lines.saved, Function.update_apply]
  split_ifs with hview
  · exact h.line.congr (fun i hi => by simp only [maxBufSize, hi, if_true])
  · exact h.saved t ht

theorem view (h : l.Sound) {newt : Nat} (hlt : newt < 3) : (l.after (.view newt)).Sound := by
  refine ⟨(h.saved newt hlt).congr (fun i hi => ?_), h.save.saved, h.last⟩
  simp only [Lines.after, inBuf hi, and_self, if_true, Int.toNat_natCast]

/-- **One action.** -/
theorem step (h : l.Sound) {a : LineAction} (hswitch : l.SwitchOk a)
    (htyped : ∀ c, a = .typed c → c ≠ 10) : (l.after a).Sound := by
  cases a with
  | nothing => exact h
  | typed c => exact h.typed (htyped c rfl)
  | enter => exact h.enter
  | erase => exact h.erase
  | clear => exact h.wipe (fun _ => ⟨rfl, rfl⟩)
  | deliver => exact h.deliver
  | view newt => exact h.view hswitch.2
  | openTerminal newt => exact ⟨h.line, h.save.saved, h.last⟩

theorem boot (lay : Layout) (mem : BootMemory) : (Kernel.boot lay mem).lines.Sound := by
  refine ⟨.empty _, fun t ht => ?_, Or.inl rfl⟩
  have hzero : ((Kernel.boot lay mem).lines.terminal t).keyboardIndex = 0 := by
    simp [Kernel.boot, Kernel.entry, Kernel.clearProcess, Kernel.terminalInit, Kernel.pagingInit,
      Kernel.keyboardInit, Kernel.clear, Kernel.loaded, Kernel.lines, Terminal.line, ht]
  rw [hzero]
  exact .empty _

end Lines.Sound

/-- **One event** keeps the lines sound. -/
theorem sound_lineStep {lay : Layout} {fs : FileSys} {s s' : Keys × Kernel} {e : LineEvent}
    (h : s.2.lines.Sound) (hs : lineStep lay fs s e = some s') : s'.2.lines.Sound := by
  obtain ⟨keys, k⟩ := s
  match e with
  | .keyboardRead nbytes =>
      obtain ⟨r, hr, rfl⟩ := Option.map_eq_some_iff.1 hs
      have hlines : r.2.lines = k.lines.after .deliver := k.lines_keyboardRead hr
      dsimp only
      rw [hlines]
      exact h.deliver
  | .console (.print cs) =>
      obtain rfl := Option.some.inj hs
      exact Kernel.quietField_lines.screen.puts k cs ▸ h
  | .console (.terminalWrite buf nbytes) =>
      obtain rfl := Option.some.inj hs
      exact k.lines_terminalWrite buf nbytes ▸ h
  | .console .clear =>
      obtain rfl := Option.some.inj hs
      exact k.lines_clear ▸ h
  | .console (.input e) =>
      have hinput : inputStep lay fs (keys, k) e = some s' := hs
      refine (h.step (switchOk_lineAction k keys e) (fun c hc => ?_)).of_agree (lines_inputStep hinput)
      cases e with
      | key status keycode frame env => exact (char_of_typed hc).2
      | call e =>
          cases e with
          | read fd buf nbytes =>
              rw [Kernel.lineAction] at hc
              split_ifs at hc
          | switchTerminal newt frame env => exact absurd hc (switchAction_ne_typed newt c)
          | _ => cases hc

/-! ## The handler -/

namespace Kernel

variable {k : Kernel}

/-- The echo loads below the index. -/
theorem echoAccesses_inLine (h : k.keyboardIdx ≤ 128) : ∀ i ∈ k.echoAccesses, InLine i := by
  have hle : k.keyboardIdx.toNat ≤ 128 := UInt8.le_iff_toNat_le.1 h
  intro i hi
  obtain ⟨j, hj, rfl⟩ := List.mem_map.1 hi
  have hlt : j < k.keyboardIdx.toNat := by
    unfold keyboardWriteLoads at hj
    split_ifs at hj
    · exact List.mem_range.1 (List.mem_of_mem_drop hj)
    · exact absurd hj List.not_mem_nil
  exact ⟨by omega, by omega⟩

theorem typeCharAccesses_inLine (h : k.indices.Level) : ∀ i ∈ k.typeCharAccesses, InLine i := by
  have hle : k.keyboardIdx.toNat ≤ 128 := UInt8.le_iff_toNat_le.1 h.line.2
  unfold typeCharAccesses
  split_ifs with hfull
  · exact fun i hi => absurd hi List.not_mem_nil
  · have hlt : k.keyboardIdx.toNat < 128 := Nat.lt_of_le_of_ne hle (fun he => hfull (UInt8.toNat_inj.1 he))
    have hnext : k.keyboardIdx + 1 ≤ 128 := by
      rw [UInt8.le_iff_toNat_le, UInt8.toNat_add]
      exact Nat.le_trans (Nat.mod_le _ _) hlt
    refine List.forall_mem_cons.2 ⟨⟨by omega, by omega⟩, echoAccesses_inLine hnext⟩

theorem handleBackspaceAccesses_inLine (h : k.indices.Level) :
    ∀ i ∈ k.handleBackspaceAccesses, InLine i := by
  have hle : k.keyboardIdx.toNat ≤ 128 := UInt8.le_iff_toNat_le.1 h.line.2
  unfold handleBackspaceAccesses
  dsimp only
  split_ifs with h0 hrow
  · exact fun i hi => absurd hi List.not_mem_nil
  · have hpos : k.keyboardIdx.toNat ≠ 0 := fun he => h0 (UInt8.toNat_inj.1 he)
    exact List.forall_mem_cons.2 ⟨⟨by omega, by omega⟩,
      echoAccesses_inLine (k := { k with lastIdx := k.lastIdx - 1 }) h.line.2⟩
  · exact fun i hi => absurd hi List.not_mem_nil

theorem inLine_ite {c : Prop} [Decidable c] {l l' : List Int} (h : ∀ i ∈ l, InLine i)
    (h' : ∀ i ∈ l', InLine i) : ∀ i ∈ if c then l else l', InLine i := by
  split_ifs
  · exact h
  · exact h'

/-- Each branch of the handler. -/
theorem keyboardHandlerAccesses_inLine (h : k.indices.Level) (status keycode : UInt8) (keys : Keys) :
    ∀ i ∈ k.keyboardHandlerAccesses status keycode keys, InLine i := by
  have hnone : ∀ i ∈ ([] : List Int), InLine i := fun i hi => absurd hi List.not_mem_nil
  have hle : k.keyboardIdx.toNat ≤ 128 := UInt8.le_iff_toNat_le.1 h.line.2
  have henter : ∀ i ∈ k.enterLineAccesses, InLine i :=
    List.forall_mem_singleton.2 ⟨by omega, by omega⟩
  have hascii : ∀ i ∈ k.handleAsciiAccesses keycode keys, InLine i :=
    inLine_ite hnone (inLine_ite wholeLine_inLine (inLine_ite henter (inLine_ite hnone
      (typeCharAccesses_inLine h))))
  have hswitch : ∀ i ∈ k.switchAccesses (keycode - f1).toNat, InLine i :=
    inLine_ite hnone (inLine_ite hnone wholeLine_inLine)
  exact inLine_ite hnone (inLine_ite hnone (inLine_ite (handleBackspaceAccesses_inLine h) (inLine_ite hnone
    (inLine_ite hnone (inLine_ite hswitch hascii)))))

end Kernel

/-! ## Runs -/

/-- `keyboard_read` is past its wait. -/
def Kernel.EnterPressed (k : Kernel) : Prop := (k.terminals k.currTerm).termEnter ≠ 0

/-- The next key, and a read that does not wait, access the buffer inside. -/
structure LineAccessesWithin (s : Keys × Kernel) : Prop where
  key : ∀ status keycode, ∀ i ∈ s.2.keyboardHandlerAccesses status keycode s.1, InLine i
  read : s.2.EnterPressed → ∀ nbytes, ∃ n r, ReadEnds n (readStart nbytes) s.2 r ∧ ∀ i ∈ r.2.2, InLine i

section Sound

variable {k : Kernel}

theorem length_copyLine_le_room (buf : Int → UInt8) (room i : Nat) :
    (Kernel.copyLine buf room i).length ≤ room := by
  induction room generalizing i with
  | zero => exact Nat.le_refl 0
  | succ room ih =>
      rw [Kernel.copyLine]
      split_ifs
      · exact Nat.succ_le_succ (ih (i + 1))
      · exact Nat.zero_le _

/-- The copy ends at byte 128 or behind it. -/
theorem length_copyLine_le (h : k.lines.Sound) (nbytes : Nat) :
    (Kernel.copyLine k.keyboardBuf nbytes 0).length ≤ 129 := by
  have hstop : ∃ m, 0 ≤ m ∧ m < 130 ∧ LineStop k.keyboardBuf m := by
    rcases h.last with h0 | h10
    · exact ⟨128, Nat.zero_le _, by decide, Or.inl h0⟩
    · exact ⟨129, Nat.zero_le _, by decide, Or.inr h10⟩
  by_cases hn : 130 ≤ nbytes
  · have hlt : 0 + (Kernel.copyLine k.keyboardBuf nbytes 0).length < 130 :=
      (length_copyLine_lt k.keyboardBuf (by omega)).2 hstop
    omega
  · have hle := length_copyLine_le_room k.keyboardBuf nbytes 0
    omega

/-- A read accesses the buffer inside exactly when the line begins with a NUL. -/
theorem readAccesses_inLine (h : k.lines.Sound) (henter : k.EnterPressed) (nbytes : Nat) :
    (∃ n r, ReadEnds n (readStart nbytes) k r ∧ ∀ i ∈ r.2.2, InLine i) ↔ k.keyboardBuf 0 = 0 := by
  have hends := readEnds_of_line h.line.line henter nbytes
  have hle : k.keyboardIdx.toNat ≤ 128 := UInt8.le_iff_toNat_le.1 h.line.idx_le
  constructor
  · rintro ⟨n, r, hr, hin⟩
    obtain rfl := hr.unique hends
    exact (copyAccesses_inLine k.keyboardBuf nbytes).1
      (fun i hi => hin i (List.mem_append_right _ (List.mem_append_left _ hi)))
  · intro h0
    refine ⟨_, _, hends, fun i hi => ?_⟩
    rcases List.mem_append.1 hi with hscan | hi
    · obtain ⟨j, hj, rfl⟩ := List.mem_map.1 hscan
      have hj := List.mem_range.1 (List.mem_reverse.1 hj)
      exact ⟨by omega, by omega⟩
    · rcases List.mem_append.1 hi with hcopy | hwhole
      · exact (copyAccesses_inLine k.keyboardBuf nbytes).2 h0 i hcopy
      · exact wholeLine_inLine i hwhole

end Sound

/-- **The accesses to the line buffer, in every state that keys, reads and terminal switches reach.** A
    read that does not wait ends, behind at most 129 characters. The handler stays inside the buffer; a
    read does exactly when the line begins with a NUL. -/
theorem line_accesses_within_iff (lay : Layout) (fs : FileSys) (mem : BootMemory) (s : Keys × Kernel)
    (hreach : Reaches (lineStep lay fs) (fun _ _ => True) (Keys.loaded, Kernel.boot lay mem) s) :
    (s.2.EnterPressed → ∀ nbytes, ∃ n line k' accesses,
      ReadEnds n (readStart nbytes) s.2 (line, k', accesses) ∧ line.length ≤ 129 ∧
      s.2.keyboardRead nbytes = some (⟨line.length, 0, line ++ [0]⟩, k')) ∧
    (LineAccessesWithin s ↔ (s.2.EnterPressed → s.2.keyboardBuf 0 = 0)) := by
  obtain ⟨hlevel, hsound⟩ := hreach.invariant (I := fun s => s.2.indices.Level ∧ s.2.lines.Sound)
    ⟨level_boot lay mem, .boot lay mem⟩
    (fun _ _ _ h _ hs => ⟨level_lineStep h.1 hs, sound_lineStep h.2 hs⟩)
  refine ⟨fun henter nbytes => ?_, fun h henter => ?_, fun h => ⟨fun status keycode => ?_, fun henter nbytes => ?_⟩⟩
  · exact ⟨_, _, _, _, readEnds_of_line hsound.line.line henter nbytes, length_copyLine_le hsound nbytes,
      keyboardRead_of_line hsound.line.line henter nbytes⟩
  · exact (readAccesses_inLine hsound henter 0).1 (h.read henter 0)
  · exact Kernel.keyboardHandlerAccesses_inLine hlevel status keycode s.1
  · exact (readAccesses_inLine hsound henter nbytes).2 (h henter)

/-- A line is typed in front of the shell: the keys, one after the other. -/
def samplePressed (keycodes : List UInt8) : Keys × Kernel :=
  keycodes.foldl (fun s keycode =>
    s.2.keyboardHandler sampleLayout sampleFs 1 keycode ⟨0, 0⟩ (sampleEnv 0 0) s.1) (Keys.loaded, sampleShell)

theorem reaches_samplePressed (keycodes : List UInt8) :
    Reaches (lineStep sampleLayout sampleFs) (fun _ _ => True)
      (Keys.loaded, Kernel.boot sampleLayout sampleMemory) (samplePressed keycodes) := by
  have hshell : Reaches (lineStep sampleLayout sampleFs) (fun _ _ => True)
      (Keys.loaded, Kernel.boot sampleLayout sampleMemory) (Keys.loaded, sampleShell) :=
    Reaches.refl.tail (e := .console (.input (.call (.execute shellName (sampleEnv 100 101))))) trivial rfl
  unfold samplePressed
  generalize (Keys.loaded, sampleShell) = s at hshell ⊢
  induction keycodes generalizing s with
  | nil => exact hshell
  | cons keycode keycodes ih =>
      refine ih _ (hshell.tail (e := .console (.input (.key 1 keycode ⟨0, 0⟩ (sampleEnv 0 0)))) trivial ?_)
      rfl

/-- The letter a, Enter and Backspace leave an Enter flag and a NUL at the start of the line. -/
theorem line_accesses_within_erased : LineAccessesWithin (samplePressed [0x1E, 0x1C, 0x0E]) :=
  (line_accesses_within_iff sampleLayout sampleFs sampleMemory _ (reaches_samplePressed _)).2.2
    (fun _ => by decide +kernel)

/-- Enter alone: the read of the empty line looks at the byte before `keyboard_buf`. -/
theorem enter_reads_before_line :
    ¬ ∀ (lay : Layout) (fs : FileSys) (mem : BootMemory) (s : Keys × Kernel),
      Reaches (lineStep lay fs) (fun _ _ => True) (Keys.loaded, Kernel.boot lay mem) s →
      LineAccessesWithin s := by
  intro h
  have hwithin := h sampleLayout sampleFs sampleMemory _ (reaches_samplePressed [0x1C])
  have henter : (samplePressed [0x1C]).2.EnterPressed := by
    unfold Kernel.EnterPressed
    decide +kernel
  have hsound : (samplePressed [0x1C]).2.lines.Sound :=
    (reaches_samplePressed [0x1C]).invariant (I := fun s => s.2.lines.Sound)
      (.boot sampleLayout sampleMemory) (fun _ _ _ h _ hs => sound_lineStep h hs)
  have hnul := (readAccesses_inLine hsound henter 1).1 (hwithin.read henter 1)
  exact absurd hnul (by decide +kernel)

end UnixTerminal
