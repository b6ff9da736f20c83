import UnixTerminal.Kernel.I8259
import Mathlib.Data.List.Induction

set_option autoImplicit false

/-! # Interrupt masking, line by line

A call of `enable_irq` or `disable_irq` names one line. For the lines of the first controller the last
call that names a line decides whether it is delivered. The lines of the second one are delivered only
while the cascade line is open, and `disable_irq` closes it for all of them. -/

namespace UnixTerminal

/-- One call. -/
inductive IrqCall
  | enable (irqNum : UInt32)
  | disable (irqNum : UInt32)
deriving DecidableEq

namespace IrqCall

/-- The line that the call names. -/
def irqNum : IrqCall → UInt32
  | enable n => n
  | disable n => n

/-- The value that the call gives the mask bit of its line. -/
def masks : IrqCall → Bool
  | enable _ => false
  | disable _ => true

/-- A line of the second controller. -/
def SlaveLine (n : UInt32) : Prop := 8 ≤ n ∧ n < 16

/-- The calls that write the bit of the cascade line. -/
def Cascades (c : IrqCall) : Prop := c.irqNum = 2 ∨ SlaveLine c.irqNum

instance (n : UInt32) : Decidable (SlaveLine n) := inferInstanceAs (Decidable (_ ∧ _))

instance (c : IrqCall) : Decidable c.Cascades := inferInstanceAs (Decidable (_ ∨ _))

/-- The last of the calls that meets a condition. -/
def last (P : IrqCall → Prop) [DecidablePred P] (calls : List IrqCall) : Option IrqCall :=
  (calls.filter (fun c => P c)).getLast?

/-- The last call that names a line. -/
def lastNaming (n : UInt32) (calls : List IrqCall) : Option IrqCall := last (fun c => c.irqNum = n) calls

theorem last_append (P : IrqCall → Prop) [DecidablePred P] (calls : List IrqCall) (c : IrqCall) :
    last P (calls ++ [c]) = if P c then some c else last P calls := by
  unfold last
  rw [List.filter_append]
  by_cases h : P c <;> simp [h]

theorem lastNaming_append (n : UInt32) (calls : List IrqCall) (c : IrqCall) :
    lastNaming n (calls ++ [c]) = if c.irqNum = n then some c else lastNaming n calls :=
  last_append _ calls c

/-- The last call for the line asks for it. -/
def Wanted (n : UInt32) (calls : List IrqCall) : Prop := lastNaming n calls = some (enable n)

instance (n : UInt32) (calls : List IrqCall) : Decidable (Wanted n calls) :=
  inferInstanceAs (Decidable (_ = _))

theorem wanted_append (n : UInt32) (calls : List IrqCall) (c : IrqCall) :
    Wanted n (calls ++ [c]) ↔ if c.irqNum = n then c.masks = false else Wanted n calls := by
  unfold Wanted
  rw [lastNaming_append]
  split_ifs with h
  · subst h
    cases c <;> simp [masks, irqNum]
  · rfl

/-- The last call for the cascade line or a line behind it asks for its line. -/
def CascadeOpen (calls : List IrqCall) : Prop := ∃ c, last Cascades calls = some c ∧ c.masks = false

theorem cascadeOpen_append (calls : List IrqCall) (c : IrqCall) :
    CascadeOpen (calls ++ [c]) ↔ if c.Cascades then c.masks = false else CascadeOpen calls := by
  unfold CascadeOpen
  rw [last_append]
  split_ifs
  · simp
  · rfl

end IrqCall

/-- The bit of a line is clear in a mask. -/
def BitClear (mask : UInt8) (n : UInt32) : Prop := mask.toBitVec.getLsbD n.toNat = false

instance (mask : UInt8) (n : UInt32) : Decidable (BitClear mask n) := inferInstanceAs (Decidable (_ = _))

namespace Pic

variable (p : Pic)

/-- The controllers deliver the interrupts of the line. -/
def Delivered (n : UInt32) : Prop :=
  if n < 8 then BitClear p.masterMask n else BitClear p.slaveMask (n - 8) ∧ BitClear p.masterMask 2

instance (n : UInt32) : Decidable (p.Delivered n) :=
  inferInstanceAs (Decidable (if n < 8 then _ else _ ∧ _))

/-- One call, and any sequence of calls. -/
def call (p : Pic) : IrqCall → Pic
  | .enable n => p.enableIrq n
  | .disable n => p.disableIrq n

def run (calls : List IrqCall) : Pic := calls.foldl call p

theorem run_append (calls : List IrqCall) (c : IrqCall) : p.run (calls ++ [c]) = (p.run calls).call c :=
  List.foldl_append

/-! ## One bit of a mask -/

/-- `op` gives the bit of a line the value `v`. -/
def GivesBit (op : UInt8 → UInt8 → UInt8) (v : Bool) : Prop :=
  ∀ (mask : UInt8) (n i : UInt32), n < 8 → i < 8 →
    (BitClear (op mask (1 <<< n.toUInt8)) i ↔ if n = i then v = false else BitClear mask i)

theorem bit_one {n : UInt32} (hn : n < 8) (i : Nat) :
    (1 <<< n.toUInt8 : UInt8).toBitVec.getLsbD i = decide (n.toNat = i) := by
  have hlt : n.toNat < 8 := hn
  have hmod : n.toUInt8.toNat % 8 = n.toNat := by
    rw [UInt32.toNat_toUInt8]
    omega
  have hshift : (1 <<< n.toUInt8 : UInt8).toBitVec = BitVec.twoPow 8 n.toNat := by
    rw [BitVec.twoPow_eq, UInt8.toBitVec_shiftLeft, ← hmod]
    rfl
  rw [hshift, BitVec.getLsbD_twoPow]
  simp [hlt]

theorem givesBit_clearBit : GivesBit clearBit false := by
  intro mask n i hn hi
  have hlt : i.toNat < 8 := hi
  unfold BitClear clearBit
  rw [UInt8.toBitVec_and, UInt8.toBitVec_not, BitVec.getLsbD_and, BitVec.getLsbD_not, bit_one hn]
  by_cases h : n = i
  · simp [h]
  · have hne : n.toNat ≠ i.toNat := fun he => h (UInt32.toNat_inj.1 he)
    simp [h, hne, hlt]

theorem givesBit_setBit : GivesBit setBit true := by
  intro mask n i hn hi
  unfold BitClear setBit
  rw [UInt8.toBitVec_or, BitVec.getLsbD_or, bit_one hn]
  by_cases h : n = i
  · simp [h]
  · have hne : n.toNat ≠ i.toNat := fun he => h (UInt32.toNat_inj.1 he)
    simp [h, hne]

/-- What a call writes into a mask. -/
theorem call_eq (c : IrqCall) : ∃ op, GivesBit op c.masks ∧ p.call c = p.maskIrq op c.irqNum := by
  cases c with
  | enable n => exact ⟨clearBit, givesBit_clearBit, rfl⟩
  | disable n => exact ⟨setBit, givesBit_setBit, rfl⟩

/-! ## What the calls so far leave in the masks -/

/-- The data ports hold the masks. -/
structure PortsHoldMasks : Prop where
  master : p.ports (master8259Port + 1) = p.masterMask
  slave : p.ports (slave8259Port + 1) = p.slaveMask

/-- The masks behind a history of calls. The bit of the cascade line belongs to the last call that names
    this line or a line of the second controller. -/
structure Follows (calls : List IrqCall) : Prop where
  master : ∀ n < 8, n ≠ 2 → (BitClear p.masterMask n ↔ IrqCall.Wanted n calls)
  slave : ∀ n, IrqCall.SlaveLine n → (BitClear p.slaveMask (n - 8) ↔ IrqCall.Wanted n calls)
  cascade : BitClear p.masterMask 2 ↔ IrqCall.CascadeOpen calls
  ports : p.PortsHoldMasks

theorem not_bitClear_ff {n : UInt32} (hn : n < 8) : ¬ BitClear 0xff n := by
  have hlt : n.toNat < 8 := hn
  have hones : (0xff : UInt8).toBitVec = BitVec.allOnes 8 := rfl
  unfold BitClear
  rw [hones, BitVec.getLsbD_allOnes]
  simp [hlt]

theorem lt_of_slaveLine {n : UInt32} (hn : IrqCall.SlaveLine n) : n - 8 < 8 := by
  have hle : 8 ≤ n.toNat := hn.1
  have hlt : n.toNat < 16 := hn.2
  have hsub : (n - 8).toNat = n.toNat - 8 := UInt32.toNat_sub_of_le _ _ hn.1
  rw [UInt32.lt_iff_toNat_lt, hsub]
  exact (by omega : n.toNat - 8 < 8)

/-- Behind `i8259_init` everything is masked. -/
theorem follows_i8259Init : p.i8259Init.Follows [] where
  master n hn _ := iff_of_false (not_bitClear_ff hn) (by simp [IrqCall.Wanted, IrqCall.lastNaming, IrqCall.last])
  slave n hn := iff_of_false (not_bitClear_ff (lt_of_slaveLine hn))
    (by simp [IrqCall.Wanted, IrqCall.lastNaming, IrqCall.last])
  cascade := iff_of_false (not_bitClear_ff (by decide)) (by simp [IrqCall.CascadeOpen, IrqCall.last])
  ports := ⟨rfl, rfl⟩

variable {p}

theorem PortsHoldMasks.maskMaster (h : p.PortsHoldMasks) (op : UInt8 → UInt8 → UInt8) (n : UInt32) :
    (p.maskMaster op n).PortsHoldMasks := by
  have hne : slave8259Port + 1 ≠ master8259Port + 1 := by decide
  refine ⟨?_, ?_⟩
  · simp only [Pic.maskMaster, outb, Function.update_self]
  · simp only [Pic.maskMaster, outb, Function.update_of_ne hne]
    exact h.slave

theorem PortsHoldMasks.storeSlave (h : p.PortsHoldMasks) (mask : UInt8) :
    (({ p with slaveMask := mask } : Pic).outb mask (slave8259Port + 1)).PortsHoldMasks := by
  have hne : master8259Port + 1 ≠ slave8259Port + 1 := by decide
  refine ⟨?_, ?_⟩
  · simp only [outb, Function.update_of_ne hne]
    exact h.master
  · simp only [outb, Function.update_self]

/-- **One call.** -/
theorem Follows.call {calls : List IrqCall} (h : p.Follows calls) (c : IrqCall) :
    (p.call c).Follows (calls ++ [c]) := by
  obtain ⟨op, hop, hcall⟩ := p.call_eq c
  rw [hcall]
  unfold maskIrq
  split_ifs with hmaster hslave
  · -- a line of the first controller
    have hnot : ¬ IrqCall.SlaveLine c.irqNum := fun hs => UInt32.not_lt.2 hs.1 hmaster
    refine ⟨fun n hn hne => ?_, fun n hn => ?_, ?_, h.ports.maskMaster op _⟩
    · rw [IrqCall.wanted_append, ← h.master n hn hne]
      exact hop _ _ _ hmaster hn
    · have hne : c.irqNum ≠ n := fun he => hnot (he ▸ hn)
      rw [IrqCall.wanted_append, if_neg hne]
      exact h.slave n hn
    · have hiff : c.Cascades ↔ c.irqNum = 2 := or_iff_left hnot
      rw [IrqCall.cascadeOpen_append, ← h.cascade]
      simp only [hiff]
      exact hop _ _ _ hmaster (by decide)
  · -- a line of the second one: its bit, and the bit of the cascade line
    have hline : IrqCall.SlaveLine c.irqNum := ⟨UInt32.not_lt.1 hmaster, hslave⟩
    refine ⟨fun n hn hne => ?_, fun n hn => ?_, ?_, (h.ports.storeSlave _).maskMaster op _⟩
    · have hother : c.irqNum ≠ n := fun he => hmaster (he ▸ hn)
      rw [IrqCall.wanted_append, if_neg hother, ← h.master n hn hne]
      refine (hop _ _ _ (by decide) hn).trans ?_
      rw [if_neg (show slaveIdx ≠ n from Ne.symm hne)]
      rfl
    · rw [IrqCall.wanted_append, ← h.slave n hn]
      refine (hop _ _ _ (lt_of_slaveLine hline) (lt_of_slaveLine hn)).trans ?_
      have hiff : c.irqNum - intsPerPic = n - 8 ↔ c.irqNum = n := UInt32.sub_left_inj _
      exact iff_of_eq (if_congr hiff rfl rfl)
    · rw [IrqCall.cascadeOpen_append, if_pos (show c.Cascades from Or.inr hline)]
      refine (hop _ _ _ (by decide) (by decide)).trans ?_
      rw [if_pos (show slaveIdx = 2 from rfl)]
  · -- no line
    have hnum : 16 ≤ c.irqNum := UInt32.not_lt.1 hslave
    have hnone : ∀ n, n < 16 → c.irqNum ≠ n := fun n hn he => hslave (he ▸ hn)
    have hcasc : ¬ c.Cascades := not_or.2 ⟨hnone 2 (by decide), fun hs => hslave hs.2⟩
    refine ⟨fun n hn hne => ?_, fun n hn => ?_, ?_, h.ports⟩
    · rw [IrqCall.wanted_append, if_neg (hnone n (UInt32.lt_trans hn (by decide)))]
      exact h.master n hn hne
    · rw [IrqCall.wanted_append, if_neg (hnone n hn.2)]
      exact h.slave n hn
    · rw [IrqCall.cascadeOpen_append, if_neg hcasc]
      exact h.cascade

theorem follows_run (p : Pic) (calls : List IrqCall) : (p.i8259Init.run calls).Follows calls := by
  induction calls using List.reverseRecOn with
  | nil => exact p.follows_i8259Init
  | append_singleton calls c ih =>
      rw [run_append]
      exact ih.call c

/-- A byte for a command port. -/
theorem PortsHoldMasks.outb (h : p.PortsHoldMasks) {port : UInt16} (hm : master8259Port + 1 ≠ port)
    (hs : slave8259Port + 1 ≠ port) (data : UInt8) : (p.outb data port).PortsHoldMasks := by
  refine ⟨?_, ?_⟩
  · simp only [Pic.outb, Function.update_of_ne hm]
    exact h.master
  · simp only [Pic.outb, Function.update_of_ne hs]
    exact h.slave

/-- An end-of-interrupt goes to the command ports. -/
theorem sendEoi_keeps (h : p.PortsHoldMasks) (irqNum : UInt32) :
    (p.sendEoi irqNum).masterMask = p.masterMask ∧ (p.sendEoi irqNum).slaveMask = p.slaveMask
    ∧ (p.sendEoi irqNum).PortsHoldMasks := by
  unfold sendEoi
  split_ifs
  · exact ⟨rfl, rfl, h.outb (by decide) (by decide) _⟩
  · exact ⟨rfl, rfl, (h.outb (by decide) (by decide) _).outb (by decide) (by decide) _⟩
  · exact ⟨rfl, rfl, h⟩

/-! ## Line by line -/

/-- Each line but the cascade line is delivered when the last call for it asks for it, calls for no line
    change nothing, and the data ports hold the masks. -/
structure PerLine (q : Pic) (calls : List IrqCall) : Prop where
  line : ∀ n < 16, n ≠ 2 → (q.Delivered n ↔ IrqCall.Wanted n calls)
  outside : ∀ c : IrqCall, 16 ≤ c.irqNum → q.call c = q
  ports : q.PortsHoldMasks

theorem call_outside (q : Pic) {c : IrqCall} (hc : 16 ≤ c.irqNum) : q.call c = q := by
  obtain ⟨op, -, hcall⟩ := q.call_eq c
  have hmax : ¬ c.irqNum < intMax := UInt32.not_lt.2 hc
  have hfirst : ¬ c.irqNum < intsPerPic := fun h => hmax (UInt32.lt_trans h (by decide))
  rw [hcall, maskIrq, if_neg hfirst, if_neg hmax]

/-- The lines of the second controller are the exception: they are delivered while the cascade line is
    open. -/
theorem delivered_run_iff (p : Pic) (calls : List IrqCall) {n : UInt32} (hn : n < 16) (h2 : n ≠ 2) :
    (p.i8259Init.run calls).Delivered n ↔
      IrqCall.Wanted n calls ∧ (IrqCall.SlaveLine n → IrqCall.CascadeOpen calls) := by
  have h := p.follows_run calls
  unfold Delivered
  split_ifs with hmaster
  · have hnot : ¬ IrqCall.SlaveLine n := fun hs => UInt32.not_lt.2 hs.1 hmaster
    rw [h.master n hmaster h2]
    exact (and_iff_left (fun hs => absurd hs hnot)).symm
  · have hline : IrqCall.SlaveLine n := ⟨UInt32.not_lt.1 hmaster, hn⟩
    rw [h.slave n hline, h.cascade]
    exact and_congr_right (fun _ => ⟨fun hopen _ => hopen, fun hopen => hopen hline⟩)

theorem perLine_run_iff (p : Pic) (calls : List IrqCall) :
    (p.i8259Init.run calls).PerLine calls ↔
      (IrqCall.CascadeOpen calls ∨ ∀ n, IrqCall.SlaveLine n → ¬ IrqCall.Wanted n calls) := by
  constructor
  · intro h
    by_contra hnot
    obtain ⟨hclosed, hwanted⟩ := not_or.1 hnot
    refine hwanted (fun n hn hw => hclosed ?_)
    have h2 : n ≠ 2 := by
      rintro rfl
      exact absurd hn (by decide)
    exact ((p.delivered_run_iff calls hn.2 h2).1 ((h.line n hn.2 h2).2 hw)).2 hn
  · intro h
    refine ⟨fun n hn h2 => ?_, fun c hc => call_outside _ hc, (p.follows_run calls).ports⟩
    rw [p.delivered_run_iff calls hn h2]
    refine and_iff_left_of_imp (fun hw hs => ?_)
    exact h.resolve_right (fun hnone => hnone n hs hw)

end Pic

namespace IrqCall

/-- A call that masks the cascade line is made while no other line behind it is wanted. -/
def Isolated (before : List IrqCall) (c : IrqCall) : Prop :=
  c.masks = true → c.Cascades → ∀ n, SlaveLine n → n ≠ c.irqNum → ¬ Wanted n before

/-- What keeps the lines apart behind one more call. -/
theorem Isolated.step {before : List IrqCall} {c : IrqCall} (hc : Isolated before c)
    (h : CascadeOpen before ∨ ∀ n, SlaveLine n → ¬ Wanted n before) :
    CascadeOpen (before ++ [c]) ∨ ∀ n, SlaveLine n → ¬ Wanted n (before ++ [c]) := by
  rw [cascadeOpen_append]
  simp only [wanted_append]
  by_cases hcasc : c.Cascades
  · rw [if_pos hcasc]
    by_cases hmask : c.masks = true
    · -- the cascade line is masked, and its lines were not wanted
      refine Or.inr (fun n hn => ?_)
      split_ifs with hnum
      · simp [hmask]
      · exact hc hmask hcasc n hn (Ne.symm hnum)
    · exact Or.inl (Bool.eq_false_iff.2 hmask)
  · rw [if_neg hcasc]
    refine h.imp_right (fun hnone n hn => ?_)
    have hne : c.irqNum ≠ n := fun he => hcasc (Or.inr (he ▸ hn))
    rw [if_neg hne]
    exact hnone n hn

end IrqCall

/-- **The lines are independent exactly as long as the cascade line stays open.** In every state that a
    sequence of calls goes through, the lines of the first controller, the calls for no line and the data
    ports are as they should be; the lines of the second one are, in all these states, if and only if each
    call that masks the cascade line is made while no other line behind it is wanted. -/
theorem irq_lines_per_line_iff (p : Pic) (calls : List IrqCall) :
    (∀ before, before <+: calls →
      (∀ n < 8, n ≠ 2 → ((p.i8259Init.run before).Delivered n ↔ IrqCall.Wanted n before))
      ∧ (∀ c : IrqCall, 16 ≤ c.irqNum → (p.i8259Init.run before).call c = p.i8259Init.run before)
      ∧ (p.i8259Init.run before).PortsHoldMasks)
    ∧ ((∀ before, before <+: calls → (p.i8259Init.run before).PerLine before) ↔
      ∀ before c, before ++ [c] <+: calls → IrqCall.Isolated before c) := by
  refine ⟨fun before _ => ⟨fun n hn h2 => ?_, fun c hc => Pic.call_outside _ hc, (p.follows_run before).ports⟩,
    fun h before c hpre hmask hcasc n hn hne hw => ?_, fun h before hpre => ?_⟩
  · have hnot : ¬ IrqCall.SlaveLine n := fun hs => UInt32.not_lt.2 hs.1 hn
    rw [p.delivered_run_iff before (UInt32.lt_trans hn (by decide)) h2]
    exact and_iff_left (fun hs => absurd hs hnot)
  · -- behind the call the cascade line is closed, but the line is still wanted
    have hwanted : IrqCall.Wanted n (before ++ [c]) := by
      rw [IrqCall.wanted_append, if_neg (Ne.symm hne)]
      exact hw
    rcases (p.perLine_run_iff _).1 (h _ hpre) with hopen | hnone
    · rw [IrqCall.cascadeOpen_append, if_pos hcasc, hmask] at hopen
      exact Bool.noConfusion hopen
    · exact hnone n hn hwanted
  · rw [Pic.perLine_run_iff]
    induction before using List.reverseRecOn with
    | nil => exact Or.inr (fun n _ => by simp [IrqCall.Wanted, IrqCall.lastNaming, IrqCall.last])
    | append_singleton before c ih =>
        exact (h before c hpre).step (ih ((List.prefix_append before [c]).trans hpre))

/-- Line 8 is wanted, and masked by the call for line 9. -/
theorem disable_irq_masks_other_lines :
    IrqCall.Wanted 8 [.enable 8, .disable 9]
    ∧ ¬ (Pic.run (Pic.i8259Init ⟨0, 0, fun _ => 0⟩) [.enable 8, .disable 9]).Delivered 8
    ∧ ¬ (Pic.run (Pic.i8259Init ⟨0, 0, fun _ => 0⟩) [.enable 8, .disable 9]).PerLine
      [.enable 8, .disable 9] := by
  have hwanted : IrqCall.Wanted 8 [.enable 8, .disable 9] := by decide
  have hmasked : ¬ (Pic.run (Pic.i8259Init ⟨0, 0, fun _ => 0⟩) [.enable 8, .disable 9]).Delivered 8 := by
    decide
  exact ⟨hwanted, hmasked, fun h => hmasked ((h.line 8 (by decide) (by decide)).2 hwanted)⟩

end UnixTerminal
