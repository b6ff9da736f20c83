import UnixTerminal.Proofs.InputLines
import UnixTerminal.Proofs.Buffers
import Mathlib.Data.List.GetD

set_option autoImplicit false

/-! # Typed input stays with its terminal

A history variable tags each byte of the line buffer and of the saved lines with the terminal that was
viewed when it was typed. The buffer belongs to the viewed terminal and the saved lines to the others
(`Owned`); this is an invariant as long as the buffer is read for the viewed terminal only, and as
long as it is not handed on: to a terminal that is opened, or with a newline in byte 128, which is
neither saved nor restored nor cleared. -/

namespace UnixTerminal

/-! ## The history -/

/-- For each byte of the line buffer and of the saved lines, the terminal that was viewed when it was
    typed; `none` for the blanks of `memset` and for what Backspace leaves. -/
structure Tags where
  buf : Int → Option Nat
  saved : Nat → Nat → Option Nat

namespace Tags

variable (l : Lines) (g : Tags)

/-- A byte was typed at the index. -/
def mark : Tags := { g with buf := Function.update g.buf l.idx.toNat (some l.viewed) }

/-- The buffer was cleared. -/
def wipe : Tags := { g with buf := fun i => if 0 ≤ i ∧ i < maxBufSize then none else g.buf i }

/-- The buffer was saved. -/
def save : Tags :=
  { g with
    saved := Function.update g.saved l.viewed
      (fun i => if i < maxBufSize then g.buf i else g.saved l.viewed i) }

/-- The tags after an event. -/
def after : LineAction → Tags
  | .nothing => g
  | .typed _ => if l.idx = 128 then g else g.mark l
  | .enter => g.mark l
  | .erase =>
      if l.idx = 0 then g else { g with buf := Function.update g.buf (l.idx.toNat - 1) none }
  | .clear => g.wipe
  | .deliver => g.wipe
  | .view newt =>
      { g.save l with
        buf := fun i => if 0 ≤ i ∧ i < maxBufSize then g.saved newt i.toNat else g.buf i }
  | .openTerminal _ => g.save l

end Tags

/-- The history after one more event. -/
def tagsAfter (s : Keys × Kernel) (e : InputEvent) (_ : Keys × Kernel) (g : Tags) : Tags :=
  g.after s.2.lines (s.2.lineAction s.1 e)

/-! ## The line of one terminal -/

/-- A line of terminal `t`: its bytes were typed at `t` or not at all, and from the index on there is
    nothing typed but a newline. -/
structure LineOk (t : Nat) (byte : Nat → UInt8) (tag : Nat → Option Nat) (idx : Nat) : Prop where
  idx_le : idx ≤ 128
  own : ∀ i, i < 128 → (tag i = none ∧ (byte i = 32 ∨ byte i = 0)) ∨ tag i = some t
  tail : ∀ i, i < 128 → idx ≤ i → tag i = none ∨ byte i = 10

namespace LineOk

variable {t idx : Nat} {byte byte' : Nat → UInt8} {tag tag' : Nat → Option Nat}

/-- Only the first 128 bytes count. -/
theorem congr (h : LineOk t byte tag idx) (hbyte : ∀ i, i < 128 → byte' i = byte i)
    (htag : ∀ i, i < 128 → tag' i = tag i) : LineOk t byte' tag' idx := by
  refine ⟨h.idx_le, fun i hi => ?_, fun i hi hle => ?_⟩
  · rw [hbyte i hi, htag i hi]
    exact h.own i hi
  · rw [hbyte i hi, htag i hi]
    exact h.tail i hi hle

/-- A line that was cleared. -/
theorem blank (hbyte : ∀ i, i < 128 → byte i = 32) (htag : ∀ i, i < 128 → tag i = none) :
    LineOk t byte tag 0 :=
  ⟨Nat.zero_le _, fun i hi => Or.inl ⟨htag i hi, Or.inl (hbyte i hi)⟩, fun i hi _ => Or.inl (htag i hi)⟩

/-- A character is typed. -/
theorem typed (h : LineOk t byte tag idx) (hidx : idx < 128) (c : UInt8) :
    LineOk t (Function.update byte idx c) (Function.update tag idx (some t)) (idx + 1) := by
  refine ⟨hidx, fun i hi => ?_, fun i hi hle => ?_⟩
  · by_cases he : i = idx
    · subst he
      exact Or.inr (Function.update_self _ _ _)
    · rw [Function.update_of_ne he, Function.update_of_ne he]
      exact h.own i hi
  · have he : i ≠ idx := by omega
    rw [Function.update_of_ne he, Function.update_of_ne he]
    exact h.tail i hi (by omega)

/-- Enter is pressed. -/
theorem enter (h : LineOk t byte tag idx) :
    LineOk t (Function.update byte idx 10) (Function.update tag idx (some t)) idx := by
  refine ⟨h.idx_le, fun i hi => ?_, fun i hi hle => ?_⟩
  · by_cases he : i = idx
    · subst he
      exact Or.inr (Function.update_self _ _ _)
    · rw [Function.update_of_ne he, Function.update_of_ne he]
      exact h.own i hi
  · by_cases he : i = idx
    · subst he
      exact Or.inr (Function.update_self _ _ _)
    · rw [Function.update_of_ne he, Function.update_of_ne he]
      exact h.tail i hi hle

/-- The last character is taken off. -/
theorem erase (h : LineOk t byte tag (idx + 1)) :
    LineOk t (Function.update byte idx 0) (Function.update tag idx none) idx := by
  refine ⟨Nat.le_of_succ_le h.idx_le, fun i hi => ?_, fun i hi hle => ?_⟩
  · by_cases he : i = idx
    · subst he
      exact Or.inl ⟨Function.update_self _ _ _, Or.inr (Function.update_self _ _ _)⟩
    · rw [Function.update_of_ne he, Function.update_of_ne he]
      exact h.own i hi
  · by_cases he : i = idx
    · subst he
      exact Or.inl (Function.update_self _ _ _)
    · rw [Function.update_of_ne he, Function.update_of_ne he]
      exact h.tail i hi (by omega)

/-- An empty line belongs to any terminal. -/
theorem handOn {s : Nat} (h : LineOk t byte tag 0) (hline : ∀ i, i < 128 → byte i ≠ 10) :
    LineOk s byte tag 0 := by
  have hnone : ∀ i, i < 128 → tag i = none := fun i hi =>
    (h.tail i hi (Nat.zero_le _)).resolve_right (hline i hi)
  refine ⟨Nat.zero_le _, fun i hi => Or.inl ⟨hnone i hi, ?_⟩, fun i hi _ => Or.inl (hnone i hi)⟩
  rcases h.own i hi with ⟨-, hb⟩ | htag
  · exact hb
  · rw [hnone i hi] at htag
    cases htag

end LineOk

/-! ## All lines -/

/-- The invariant: the buffer is a line of the viewed terminal, the saved lines are lines of the others.
    Byte 128 of the buffer holds a NUL, or the newline of a full line. -/
structure Owned (l : Lines) (g : Tags) : Prop where
  viewed_lt : l.viewed < 3
  viewedLine : LineOk l.viewed (fun i => l.buf i) (fun i => g.buf i) l.idx.toNat
  savedLine : ∀ t, t < 3 → t ≠ l.viewed →
    LineOk t (l.terminal t).inputBuf (g.saved t) (l.terminal t).keyboardIndex.toNat
  last : (l.buf 128 = 0 ∧ g.buf 128 = none) ∨ (l.buf 128 = 10 ∧ g.buf 128 = some l.viewed)

/-- The condition on an event: the buffer is read for the viewed terminal; no newline stands in byte 128
    when the view changes; and the line is empty when a terminal is opened. -/
def Lines.Kept (l : Lines) : LineAction → Prop
  | .deliver => l.executing = l.viewed
  | .view _ => l.buf 128 ≠ 10
  | .openTerminal _ => l.buf 128 ≠ 10 ∧ l.idx = 0 ∧ ∀ i : Nat, i < 128 → l.buf i ≠ 10
  | _ => True

/-- A switch goes to another of the three terminals. -/
def Lines.SwitchOk (l : Lines) : LineAction → Prop
  | .view newt => newt ≠ l.viewed ∧ newt < 3
  | .openTerminal newt => newt ≠ l.viewed ∧ newt < 3
  | _ => True

namespace Owned

variable {l : Lines} {g : Tags}

/-- The invariant does not see the executing terminal, nor what lies behind the array. -/
theorem of_agree {l' : Lines} (h : Owned l g) (ha : l.Agree l') : Owned l' g := by
  refine ⟨by rw [ha.viewed]; exact h.viewed_lt, ?_, fun t ht hne => ?_, ?_⟩
  · rw [ha.viewed, ha.buf, ha.idx]
    exact h.viewedLine
  · rw [ha.viewed] at hne
    rw [ha.terminal t ht]
    exact h.savedLine t ht hne
  · rw [ha.buf, ha.viewed]
    exact h.last

theorem typed (h : Owned l g) (c : UInt8) : Owned (l.after (.typed c)) (g.after l (.typed c)) := by
  simp only [Lines.after, Tags.after]
  by_cases hfull : l.idx = 128
  · rw [if_pos hfull, if_pos hfull]
    exact h
  rw [if_neg hfull, if_neg hfull]
  have hlt : l.idx.toNat < 128 := by
    have hle := h.viewedLine.idx_le
    have hne : l.idx.toNat ≠ 128 := fun he => hfull (UInt8.toNat_inj.1 he)
    omega
  have hnext : (l.idx + 1).toNat = l.idx.toNat + 1 := by
    rw [UInt8.toNat_add, UInt8.toNat_one]
    omega
  have h128 : (128 : Int) ≠ l.idx.toNat := by omega
  refine ⟨h.viewed_lt, ?_, h.savedLine, ?_⟩
  · simp only [Tags.mark, update_natCast, hnext]
    exact h.viewedLine.typed hlt c
  · simp only [Tags.mark, Function.update_of_ne h128]
    exact h.last

theorem enter (h : Owned l g) : Owned (l.after .enter) (g.after l .enter) := by
  refine ⟨h.viewed_lt, ?_, fun t ht hne => ?_, ?_⟩
  · simp only [Lines.after, Tags.after, Tags.mark, update_natCast]
    exact h.viewedLine.enter
  · have hterm : (l.after .enter).terminal t = l.terminal t := Function.update_of_ne hne _ _
    rw [hterm]
    exact h.savedLine t ht hne
  · -- only the Enter of a full line reaches byte 128
    by_cases h128 : (128 : Int) = l.idx.toNat
    · exact Or.inr (by simp [Lines.after, Tags.after, Tags.mark, ← h128])
    · simp only [Lines.after, Tags.after, Tags.mark, Function.update_of_ne h128]
      exact h.last

theorem erase (h : Owned l g) : Owned (l.after .erase) (g.after l .erase) := by
  simp only [Lines.after, Tags.after]
  by_cases h0 : l.idx = 0
  · rw [if_pos h0, if_pos h0]
    exact h
  rw [if_neg h0, if_neg h0]
  have hpos : l.idx.toNat ≠ 0 := fun he => h0 (UInt8.toNat_inj.1 he)
  have hle := h.viewedLine.idx_le
  have hprev : (l.idx - 1).toNat = l.idx.toNat - 1 := by
    rw [UInt8.toNat_sub_of_le]
    · rfl
    · exact UInt8.le_iff_toNat_le.2 (by rw [UInt8.toNat_one]; omega)
  have hcast : ((l.idx.toNat : Int) - 1) = ((l.idx.toNat - 1 : Nat) : Int) := by omega
  have h128 : (128 : Int) ≠ ((l.idx.toNat - 1 : Nat) : Int) := by omega
  refine ⟨h.viewed_lt, ?_, h.savedLine, ?_⟩
  · simp only [hcast, update_natCast, hprev]
    refine LineOk.erase ?_
    rw [Nat.sub_add_cancel (Nat.one_le_iff_ne_zero.2 hpos)]
    exact h.viewedLine
  · simp only [hcast, Function.update_of_ne h128]
    exact h.last

/-- The buffer is cleared, and the terminal structs keep their lines. -/
theorem wipe (h : Owned l g) {terminal : Nat → TerminalLine}
    (hterm : ∀ t, (terminal t).inputBuf = (l.terminal t).inputBuf ∧
      (terminal t).keyboardIndex = (l.terminal t).keyboardIndex) :
    Owned { l with buf := blankBuf l.buf, idx := 0, terminal := terminal } g.wipe := by
  refine ⟨h.viewed_lt, ?_, fun t ht hne => ?_, ?_⟩
  · refine LineOk.blank (fun i hi => ?_) (fun i hi => ?_)
    · simp only [blankBuf, inBuf hi, and_self, if_true]
    · simp only [Tags.wipe, inBuf hi, and_self, if_true]
  · rw [(hterm t).1, (hterm t).2]
    exact h.savedLine t ht hne
  · have hout : ¬ ((0 : Int) ≤ 128 ∧ (128 : Int) < maxBufSize) := by decide
    simp only [blankBuf, Tags.wipe, hout, if_false]
    exact h.last

/-- `save_terminal_state`: the saved line of the viewed terminal is the buffer. -/
theorem saved_self (h : Owned l g) :
    LineOk l.viewed (l.saved.terminal l.viewed).inputBuf ((g.save l).saved l.viewed)
      (l.saved.terminal l.viewed).keyboardIndex.toNat := by
  simp only [Lines.saved, Tags.save, Function.update_self]
  refine h.viewedLine.congr (fun i hi => ?_) (fun i hi => ?_)
  · exact if_pos hi
  · exact if_pos hi

theorem saved_other (h : Owned l g) {t : Nat} (ht : t < 3) (hne : t ≠ l.viewed) :
    LineOk t (l.saved.terminal t).inputBuf ((g.save l).saved t)
      (l.saved.terminal t).keyboardIndex.toNat := by
  simp only [Lines.saved, Tags.save, Function.update_of_ne hne]
  exact h.savedLine t ht hne

theorem saved (h : Owned l g) {t : Nat} (ht : t < 3) :
    LineOk t (l.saved.terminal t).inputBuf ((g.save l).saved t)
      (l.saved.terminal t).keyboardIndex.toNat := by
  by_cases hne : t = l.viewed
  · rw [hne]
    exact h.saved_self
  · exact h.saved_other ht hne

/-- Without a newline in byte 128 nobody typed it. -/
theorem last_none (h : Owned l g) (h128 : l.buf 128 ≠ 10) : l.buf 128 = 0 ∧ g.buf 128 = none :=
  h.last.resolve_right (fun hl => h128 hl.1)

theorem view (h : Owned l g) {newt : Nat} (hlt : newt < 3) (hne : newt ≠ l.viewed)
    (h128 : l.buf 128 ≠ 10) : Owned (l.after (.view newt)) (g.after l (.view newt)) := by
  refine ⟨hlt, ?_, fun t ht _ => h.saved ht, Or.inl (h.last_none h128)⟩
  refine (h.savedLine newt hlt hne).congr (fun i hi => ?_) (fun i hi => ?_)
  · simp only [Lines.after, inBuf hi, and_self, if_true, Int.toNat_natCast]
  · simp only [Tags.after, inBuf hi, and_self, if_true, Int.toNat_natCast]

theorem openTerminal (h : Owned l g) {newt : Nat} (hlt : newt < 3) (h128 : l.buf 128 ≠ 10)
    (h0 : l.idx = 0) (hline : ∀ i : Nat, i < 128 → l.buf i ≠ 10) :
    Owned (l.after (.openTerminal newt)) (g.after l (.openTerminal newt)) := by
  refine ⟨hlt, ?_, fun t ht _ => h.saved ht, Or.inl (h.last_none h128)⟩
  have hempty := h.viewedLine
  rw [h0] at hempty
  have hnew := hempty.handOn (s := newt) hline
  simp only [Lines.after, Tags.after, Lines.saved, Tags.save, h0]
  exact hnew

/-- **One event.** -/
theorem step (h : Owned l g) {a : LineAction} (hswitch : l.SwitchOk a) (hkept : l.Kept a) :
    Owned (l.after a) (g.after l a) := by
  cases a with
  | nothing => exact h
  | typed c => exact h.typed c
  | enter => exact h.enter
  | erase => exact h.erase
  | clear => exact h.wipe (fun t => ⟨rfl, rfl⟩)
  | deliver =>
      refine h.wipe (fun t => ?_)
      by_cases ht : t = l.executing
      · subst ht
        simp
      · simp [Function.update_of_ne ht]
  | view newt => exact h.view hswitch.2 hswitch.1 hkept
  | openTerminal newt => exact h.openTerminal hswitch.2 hkept.1 hkept.2.1 hkept.2.2

end Owned

/-! ## Runs -/

/-- The condition on an event of a run. -/
def InputKept (s : (Keys × Kernel) × Tags) (e : InputEvent) : Prop :=
  s.1.2.lines.Kept (s.1.2.lineAction s.1.1 e)

theorem switchOk_switchAction (k : Kernel) (newt : Nat) : k.lines.SwitchOk (k.switchAction newt) := by
  unfold Kernel.switchAction
  split_ifs with hstay
  · trivial
  · exact ⟨fun h => hstay (Or.inl h), by omega⟩
  · exact ⟨fun h => hstay (Or.inl h), by omega⟩

theorem switchOk_lineAction (k : Kernel) (keys : Keys) (e : InputEvent) :
    k.lines.SwitchOk (k.lineAction keys e) := by
  cases e with
  | call e =>
      cases e with
      | read fd buf nbytes =>
          have hread : k.lineAction keys (.call (.read fd buf nbytes))
            = if k.ReadsLine fd buf nbytes then .deliver else .nothing := rfl
          rw [hread]
          by_cases hline : k.ReadsLine fd buf nbytes
          · rw [if_pos hline]
            trivial
          · rw [if_neg hline]
            trivial
      | switchTerminal newt _ _ => exact switchOk_switchAction k newt
      | _ => trivial
  | key status keycode frame env =>
      rw [Kernel.lineAction_key]
      generalize k.keyAction status keycode keys = a
      cases a with
      | chord newt => exact switchOk_switchAction k newt
      | erase =>
          by_cases hkept : k.handleBackspace.keyboardIdx = k.keyboardIdx
          · rw [if_pos hkept]
            trivial
          · rw [if_neg hkept]
            trivial
      | _ => trivial

/-- The state from which the system runs: nothing is typed. -/
def typedStart (lay : Layout) (mem : BootMemory) : (Keys × Kernel) × Tags :=
  ((Keys.loaded, Kernel.boot lay mem), ⟨fun _ => none, fun _ _ => none⟩)

theorem owned_start (lay : Layout) (mem : BootMemory) :
    Owned (typedStart lay mem).1.2.lines (typedStart lay mem).2 := by
  have hbuf : ∀ i : Int, (Kernel.boot lay mem).keyboardBuf i
      = if 0 ≤ i ∧ i < maxBufSize then 32 else if i < 0 then mem.beforeKeyboardBuf else 0 :=
    fun _ => rfl
  have hidx : (Kernel.boot lay mem).keyboardIdx = 0 := rfl
  have hview : (Kernel.boot lay mem).currTerminalNumber = 0 := rfl
  have hterm : ∀ t, t < 3 → ((Kernel.boot lay mem).terminals t).line.keyboardIndex = 0 ∧
      ∀ i, i < 128 → ((Kernel.boot lay mem).terminals t).line.inputBuf i = 32 := by
    intro t ht
    simp [Kernel.boot, Kernel.entry, Kernel.clearProcess, Kernel.terminalInit, Kernel.pagingInit,
      Kernel.keyboardInit, Kernel.clear, Kernel.loaded, Terminal.line, ht, maxBufSize]
  unfold typedStart
  generalize Kernel.boot lay mem = k at hbuf hidx hview hterm
  refine ⟨?_, ?_, fun t ht _ => ?_, Or.inl ⟨?_, rfl⟩⟩
  · simp only [Kernel.lines, hview]
    decide
  · simp only [Kernel.lines, hidx]
    refine LineOk.blank (fun i hi => ?_) (fun i _ => rfl)
    simp only [hbuf, inBuf hi, and_self, if_true]
  · obtain ⟨h0, hblank⟩ := hterm t ht
    simp only [Kernel.lines, h0]
    exact LineOk.blank hblank (fun _ _ => rfl)
  · simp only [Kernel.lines, hbuf]
    rw [if_neg (by decide), if_neg (by decide)]

/-- Every state of a run that meets the condition. -/
theorem owned_run {lay : Layout} {fs : FileSys} {mem : BootMemory} {s : (Keys × Kernel) × Tags}
    (hrun : Reaches (withGhost (inputStep lay fs) tagsAfter) InputKept (typedStart lay mem) s) :
    Owned s.1.2.lines s.2 := by
  refine hrun.invariant (I := fun s => Owned s.1.2.lines s.2) (owned_start lay mem) ?_
  intro s e s' hs hok hstep
  obtain ⟨hk, hg⟩ := withGhost_eq_some hstep
  rw [hg]
  exact (hs.step (switchOk_lineAction _ _ e) hok).of_agree (lines_inputStep hk)

/-! ## What a read delivers -/

/-- The copy of `keyboard_read` goes over bytes that do not stop it. -/
theorem copyLine_spec (buf : Int → UInt8) (room i : Nat) {m : Nat}
    (hm : m < (Kernel.copyLine buf room i).length) :
    (Kernel.copyLine buf room i).getD m 0 = buf (i + m : Nat) ∧ ¬ LineStop buf (i + m) := by
  induction room generalizing i m with
  | zero => exact absurd hm (Nat.not_lt_zero m)
  | succ room ih =>
      rw [Kernel.copyLine] at hm ⊢
      split at hm
      · next hgo =>
          rw [if_pos hgo]
          cases m with
          | zero => exact ⟨rfl, not_or.2 ⟨hgo.1, hgo.2⟩⟩
          | succ m =>
              have hnext := ih (i + 1) (Nat.lt_of_succ_lt_succ hm)
              rw [show i + (m + 1) = i + 1 + m by omega]
              exact hnext
      · exact absurd hm (Nat.not_lt_zero m)

/-- The line of terminal `t` that is not delivered yet, wherever it is. -/
def Lines.pending (l : Lines) (t i : Nat) : UInt8 :=
  if t = l.viewed then l.buf i else (l.terminal t).inputBuf i

def Lines.pendingIndex (l : Lines) (t : Nat) : UInt8 :=
  if t = l.viewed then l.idx else (l.terminal t).keyboardIndex

/-- A read of the executing terminal, from `k` to `k'`: each byte delivered is one of the buffer that
    was typed at this terminal, or a padding blank, and the other terminals keep their lines. -/
structure ReadPrivate (k k' : Kernel) (g : Tags) (r : Transfer) : Prop where
  own : ∀ m : Nat, m < r.ret.toNat → r.bytes.getD m 0 = k.keyboardBuf (r.start + m : Nat) ∧
    (g.buf (r.start + m : Nat) = some k.currTerm ∨
      (g.buf (r.start + m : Nat) = none ∧ r.bytes.getD m 0 = 32))
  others : ∀ t, t ≠ k.currTerm →
    (∀ i, i < maxBufSize → k'.lines.pending t i = k.lines.pending t i) ∧
    k'.lines.pendingIndex t = k.lines.pendingIndex t ∧
    (k'.terminals t).termEnter = (k.terminals t).termEnter

/-- A byte that the copy of a line goes over belongs to the viewed terminal: the copy, from the start of
    the line on, goes no further than byte 128. -/
theorem Owned.copied {k : Kernel} {g : Tags} {j m : Nat} (h : Owned k.lines g)
    (hj : Kernel.lineStart k.keyboardBuf k.keyboardIdx.toNat 0 = j)
    (hgo : ∀ i, i ≤ m → ¬ LineStop k.keyboardBuf (j + i)) :
    g.buf (j + m : Nat) = some k.currTerminalNumber ∨
      (g.buf (j + m : Nat) = none ∧ k.keyboardBuf (j + m : Nat) = 32) := by
  by_cases hlt : j + m < 128
  · rcases h.viewedLine.own (j + m) hlt with ⟨htag, hblank | hzero⟩ | htag
    · exact Or.inr ⟨htag, hblank⟩
    · exact absurd (Or.inl hzero) (hgo m (Nat.le_refl m))
    · exact Or.inl htag
  · have hj128 : j ≤ 128 := by
      have hle : k.keyboardIdx.toNat ≤ 128 := h.viewedLine.idx_le
      have hstart := (lineStart_eq_iff k.keyboardBuf k.keyboardIdx.toNat (by omega)).1 hj
      rcases hstart with ⟨h0, -⟩ | ⟨-, hle', -, -⟩ <;> omega
    have h128 : ¬ LineStop k.keyboardBuf 128 := by
      have hs := hgo (128 - j) (by omega)
      rwa [show j + (128 - j) = 128 by omega] at hs
    have hlast : k.keyboardBuf 128 = 10 ∧ g.buf 128 = some k.currTerminalNumber :=
      h.last.resolve_left (fun h0 => h128 (Or.inl h0.1))
    have hend : j + m = 128 := by
      by_contra hne
      have hs := hgo (129 - j) (by omega)
      rw [show j + (129 - j) = 129 by omega] at hs
      exact hs (Or.inr hlast.1)
    rw [hend]
    exact Or.inl hlast.2

/-- A read leaves the lines of the terminals alone that do not execute. -/
theorem lines_others {k k' : Kernel} (h : k'.lines = k.lines.after .deliver)
    (hexec : k.currTerm = k.currTerminalNumber) {t : Nat} (ht : t ≠ k.currTerm) :
    (∀ i, i < maxBufSize → k'.lines.pending t i = k.lines.pending t i) ∧
      k'.lines.pendingIndex t = k.lines.pendingIndex t ∧
      (k'.terminals t).termEnter = (k.terminals t).termEnter := by
  have hview : t ≠ k.lines.viewed := fun he => ht (he.trans hexec.symm)
  have hterm : k'.lines.terminal t = k.lines.terminal t := by
    rw [h]
    exact Function.update_of_ne ht _ _
  have hview' : t ≠ k'.lines.viewed := by
    rw [h]
    exact hview
  refine ⟨fun i _ => ?_, ?_, congrArg TerminalLine.termEnter hterm⟩
  · rw [Lines.pending, Lines.pending, if_neg hview, if_neg hview', hterm]
  · rw [Lines.pendingIndex, Lines.pendingIndex, if_neg hview, if_neg hview', hterm]

/-- A read for the viewed terminal. -/
theorem readPrivate_of_owned {k k' : Kernel} {g : Tags} {n : Nat} {r : Transfer}
    (h : Owned k.lines g) (hexec : k.currTerm = k.currTerminalNumber)
    (hread : k.keyboardRead n = some (r, k')) : ReadPrivate k k' g r := by
  have hlines := k.lines_keyboardRead hread
  refine ⟨?_, fun t ht => lines_others hlines hexec ht⟩
  unfold Kernel.keyboardRead at hread
  split at hread
  · exact absurd hread (by simp)
  simp only [Option.some.injEq, Prod.mk.injEq] at hread
  obtain ⟨rfl, -⟩ := hread
  intro m hm
  simp only [Int.toNat_natCast] at hm ⊢
  generalize hj : Kernel.lineStart k.keyboardBuf k.keyboardIdx.toNat 0 = j at hm ⊢
  rw [List.getD_append _ _ _ _ hm, (copyLine_spec _ _ _ hm).1, hexec]
  exact ⟨rfl, h.copied hj (fun i hi => (copyLine_spec _ _ _ (Nat.lt_of_le_of_lt hi hm)).2)⟩

/-- **Typed input stays with its terminal.** In a run in which the line buffer is read for the viewed
    terminal only, the view does not change while byte 128 holds a newline, and a terminal is opened
    while the line is empty, a read delivers what was typed at its own terminal, and blanks; and it
    leaves the lines of the other terminals as they are. -/
theorem typed_input_private (lay : Layout) (fs : FileSys) (mem : BootMemory)
    (s : (Keys × Kernel) × Tags)
    (hrun : Reaches (withGhost (inputStep lay fs) tagsAfter) InputKept (typedStart lay mem) s)
    (fd : Int) (buf : UInt32) (nbytes : Int) (r : Transfer) (k' : Kernel)
    (hline : s.1.2.ReadsLine fd buf nbytes) (hread : s.1.2.read fs fd buf nbytes = some (r, k'))
    (hkept : InputKept s (.call (.read fd buf nbytes))) : ReadPrivate s.1.2 k' s.2 r := by
  have hexec : s.1.2.lines.Kept
      (if s.1.2.ReadsLine fd buf nbytes then .deliver else .nothing) := hkept
  rw [if_pos hline] at hexec
  rw [Kernel.read, if_neg hline.1, hline.2] at hread
  exact readPrivate_of_owned (owned_run hrun) hexec hread

/-! ## Runs of the sample machine -/

/-- One event of the sample machine. -/
def typedStep (s : (Keys × Kernel) × Tags) (e : InputEvent) : (Keys × Kernel) × Tags :=
  (withGhost (inputStep sampleLayout sampleFs) tagsAfter s e).getD s

theorem reaches_typedStep {ok : (Keys × Kernel) × Tags → InputEvent → Prop} {s₀ s : (Keys × Kernel) × Tags}
    (h : Reaches (withGhost (inputStep sampleLayout sampleFs) tagsAfter) ok s₀ s) (e : InputEvent)
    (hok : ok s e) (hsome : (inputStep sampleLayout sampleFs s.1 e).isSome = true) :
    Reaches (withGhost (inputStep sampleLayout sampleFs) tagsAfter) ok s₀ (typedStep s e) := by
  exact h.tail_getD e hok (by rw [isSome_withGhost]; exact hsome)

/-- A key that is pressed without Alt. -/
def press (keycode : UInt8) : InputEvent := .key 1 keycode ⟨200, 201⟩ (sampleEnv 102 103)

/-- The first shell runs, and the letter a is typed. -/
def sampleTyped : (Keys × Kernel) × Tags :=
  typedStep (typedStep (typedStart sampleLayout sampleMemory)
    (.call (.execute shellName (sampleEnv 100 101)))) (press 30)

theorem reaches_sampleTyped {ok : (Keys × Kernel) × Tags → InputEvent → Prop}
    (hexec : ∀ s env, ok s (.call (.execute shellName env)))
    (hkey : ok (typedStep (typedStart sampleLayout sampleMemory)
      (.call (.execute shellName (sampleEnv 100 101)))) (press 30)) :
    Reaches (withGhost (inputStep sampleLayout sampleFs) tagsAfter) ok
      (typedStart sampleLayout sampleMemory) sampleTyped :=
  reaches_typedStep (reaches_typedStep .refl _ (hexec _ _) (by decide +kernel)) _ hkey rfl

/-- The shell of the viewed terminal reads into a buffer of five bytes. -/
def sampleDelivery (s : (Keys × Kernel) × Tags) : Transfer × Kernel :=
  (s.1.2.read sampleFs 0 0x8048000 5).getD (Transfer.fail 0, s.1.2)

theorem read_sampleDelivery {s : (Keys × Kernel) × Tags}
    (h : (s.1.2.read sampleFs 0 0x8048000 5).isSome = true) :
    s.1.2.read sampleFs 0 0x8048000 5 = some ((sampleDelivery s).1, (sampleDelivery s).2) := by
  obtain ⟨r, hr⟩ := Option.isSome_iff_exists.1 h
  rw [sampleDelivery, hr]
  rfl

/-- An action that no condition restricts. -/
theorem inputKept_of_action {s : (Keys × Kernel) × Tags} {e : InputEvent} {a : LineAction}
    (h : s.1.2.lineAction s.1.1 e = a) (ha : s.1.2.lines.Kept a) : InputKept s e := by
  rw [InputKept, h]
  exact ha

/-- The shell reads the line that was typed in front of it. -/
theorem typed_input_private_one :
    ReadPrivate (typedStep sampleTyped (press 28)).1.2
      (sampleDelivery (typedStep sampleTyped (press 28))).2 (typedStep sampleTyped (press 28)).2
      (sampleDelivery (typedStep sampleTyped (press 28))).1 :=
  typed_input_private sampleLayout sampleFs sampleMemory (typedStep sampleTyped (press 28))
    (reaches_typedStep (reaches_sampleTyped (fun _ _ => trivial)
      (@inputKept_of_action _ _ (.typed 97) (by decide +kernel) trivial))
      (press 28) (@inputKept_of_action _ _ .enter (by decide +kernel) trivial) rfl)
    0 0x8048000 5 _ _ (by decide +kernel) (read_sampleDelivery (by decide +kernel))
    (@inputKept_of_action _ _ .deliver (by decide +kernel) (show (_ : Nat) = _ by decide +kernel))

/-- The letter a is typed at terminal 0; Alt-F2 opens terminal 1, and Enter is pressed there. -/
def sampleHandedOn : (Keys × Kernel) × Tags :=
  typedStep (typedStep (typedStep sampleTyped (press 0x38)) (press 0x3C)) (press 28)

/-- The shell of terminal 1 reads the letter that was typed at terminal 0. -/
theorem opened_terminal_reads_other_line :
    ¬ ∀ (lay : Layout) (fs : FileSys) (mem : BootMemory) (s : (Keys × Kernel) × Tags),
      Reaches (withGhost (inputStep lay fs) tagsAfter) (fun _ _ => True) (typedStart lay mem) s →
      ∀ fd buf nbytes r k', s.1.2.ReadsLine fd buf nbytes →
        s.1.2.read fs fd buf nbytes = some (r, k') → ReadPrivate s.1.2 k' s.2 r := by
  intro h
  have hrun := reaches_typedStep (reaches_typedStep (reaches_typedStep
    (@reaches_sampleTyped (fun _ _ => True) (fun _ _ => trivial) trivial)
    (press 0x38) trivial rfl) (press 0x3C) trivial rfl) (press 28) trivial rfl
  have hown := (h sampleLayout sampleFs sampleMemory sampleHandedOn hrun 0 0x8048000 5 _ _
    (by decide +kernel) (read_sampleDelivery (by decide +kernel))).own 0 (by decide +kernel)
  exact absurd hown.2 (by decide +kernel)

end UnixTerminal
