import UnixTerminal.Proofs.Descriptors
import UnixTerminal.Proofs.Image

set_option autoImplicit false

/-! # The names in the `file_name` slots

Every read of a regular file looks its name up again, in the slot that `open` copied it to. The
slots have 32 bytes and lie side by side; a name of 32 characters puts its NUL into the slot behind
it. `HasName` says what a slot holds, and the lemmas say which copies keep it. -/

namespace UnixTerminal

/-- The slot `fd` holds the string `name`, with its NUL. -/
def HasName (p : Pcb) (fd : Nat) (name : List UInt8) : Prop :=
  ∀ j, j ≤ name.length → p.loadByte (32 * fd + j) = name.getD j 0

/-! ## Bytes -/

theorem toUInt32_shiftRight (b : UInt8) {n : UInt32} (hn : 8 ≤ n.toNat % 32) :
    b.toUInt32 >>> n = 0 := by
  rw [← UInt32.toNat_inj, UInt32.toNat_shiftRight, UInt8.toNat_toUInt32, Nat.shiftRight_eq_div_pow]
  refine Nat.div_eq_of_lt (Nat.lt_of_lt_of_le b.toNat_lt ?_)
  exact Nat.pow_le_pow_right (by decide) hn

/-- Writing the lowest byte of a word. -/
theorem byteOf_setByte (w : UInt32) (b : UInt8) {j : Nat} (hj : j < 4) :
    byteOf (setByte w 0 b) j = if j = 0 then b else byteOf w j := by
  have hmask : ~~~(255 : UInt8) = 0 := by decide
  have hand : ∀ (x : UInt8) (m : UInt32), m.toUInt8 = -1 → x &&& m.toUInt8 = x := fun x m hm => by
    rw [hm, UInt8.and_neg_one]
  obtain rfl | rfl | rfl | rfl : j = 0 ∨ j = 1 ∨ j = 2 ∨ j = 3 := by omega
  · simp [byteOf, setByte, hmask]
  · have hupper := hand (w >>> 8).toUInt8 (~~~(255 : UInt32) >>> 8) (by decide)
    simpa [byteOf, setByte, UInt32.shiftRight_or, UInt32.shiftRight_and, toUInt32_shiftRight] using hupper
  · have hupper := hand (w >>> 16).toUInt8 (~~~(255 : UInt32) >>> 16) (by decide)
    simpa [byteOf, setByte, UInt32.shiftRight_or, UInt32.shiftRight_and, toUInt32_shiftRight] using hupper
  · have hupper := hand (w >>> 24).toUInt8 (~~~(255 : UInt32) >>> 24) (by decide)
    simpa [byteOf, setByte, UInt32.shiftRight_or, UInt32.shiftRight_and, toUInt32_shiftRight] using hupper

/-- The slots, and the byte behind them, are plain memory. -/
theorem Pcb.loadByte_storeByte (p : Pcb) {off : Nat} (off' : Nat) (b : UInt8) (h : off ≤ 256) :
    (p.storeByte off b).loadByte off' = if off' = off then b else p.loadByte off' := by
  rcases Nat.lt_or_ge off 256 with hlt | hge
  · -- a byte of the slots
    rw [storeByte, if_pos hlt]
    rcases Nat.lt_or_ge off' 256 with hlt' | hge'
    · simp [loadByte, hlt', Function.update_apply]
    · have hne : off' ≠ off := by omega
      have hout : ¬ off' < 256 := by omega
      simp [loadByte, hout, hne]
  · -- the first byte of `ESP0`
    have h256 : off = 256 := by omega
    subst h256
    by_cases hword : 256 ≤ off' ∧ off' < 260
    · have hbyte := byteOf_setByte p.esp0 b (j := off' - 256) (by omega)
      have hout : ¬ off' < 256 := by omega
      have heq : (off' - 256 = 0) = (off' = 256) := by
        rw [eq_iff_iff]
        omega
      simpa [storeByte, loadByte, hout, hword.2, heq] using hbyte
    · have hne : off' ≠ 256 := by omega
      rcases Nat.lt_or_ge off' 256 with hlt' | hge'
      · simp [storeByte, loadByte, hlt', hne]
      · have hout : ¬ off' < 256 ∧ ¬ off' < 260 := by omega
        simp [storeByte, loadByte, hout.1, hout.2, hne]

/-- A copy that stays in front of byte 257 changes the bytes it writes and no other. -/
theorem loadByte_strcpy (s : List UInt8) : ∀ (p : Pcb) (i : Nat), i + strlen s ≤ 256 →
    ∀ off, (strcpy Pcb.storeByte p i s).loadByte off
      = if i ≤ off ∧ off ≤ i + strlen s then (cstr s).getD (off - i) 0 else p.loadByte off := by
  induction s with
  | nil =>
      intro p i hi off
      rw [strcpy, Pcb.loadByte_storeByte _ _ _ (by simpa [strlen] using hi)]
      by_cases h : off = i
      · simp [h, cstr]
      · have h' : ¬ (i ≤ off ∧ off ≤ i + strlen []) := by simp only [strlen]; omega
        rw [if_neg h, if_neg h']
  | cons c s ih =>
      intro p i hi off
      by_cases hc : c = 0
      · -- the NUL ends the copy
        subst hc
        have hlen : strlen (0 :: s) = 0 := by simp [strlen]
        have hcstr : cstr (0 :: s) = [] := by simp [cstr_cons]
        rw [strcpy, if_pos rfl, Pcb.loadByte_storeByte _ _ _ (by omega), hlen, hcstr]
        by_cases h : off = i
        · simp [h]
        · have h' : ¬ (i ≤ off ∧ off ≤ i + 0) := by omega
          rw [if_neg h, if_neg h']
      · have hlen : strlen (c :: s) = strlen s + 1 := by rw [strlen, if_neg hc]
        rw [strcpy, if_neg hc, ih _ (i + 1) (by omega) off, cstr_cons, if_neg hc, hlen]
        by_cases hrest : i + 1 ≤ off ∧ off ≤ i + 1 + strlen s
        · have hin : i ≤ off ∧ off ≤ i + (strlen s + 1) := by omega
          have hsub : off - i = off - (i + 1) + 1 := by omega
          rw [if_pos hrest, if_pos hin, hsub, List.getD_cons_succ]
        · rw [if_neg hrest, Pcb.loadByte_storeByte _ _ _ (by omega)]
          by_cases h : off = i
          · simp [h]
          · have hout : ¬ (i ≤ off ∧ off ≤ i + (strlen s + 1)) := by omega
            rw [if_neg h, if_neg hout]

/-! ## Slots -/

/-- After `strcpy` into a slot the slot holds the name. -/
theorem hasName_setName (p : Pcb) {i : Nat} {name : List UInt8} (hi : i < 8) (hlen : strlen name ≤ 32) :
    HasName (p.setName i name) i (cstr name) := by
  intro j hj
  rw [← strlen_eq_length_cstr] at hj
  have hin : maxFileChar * i ≤ 32 * i + j ∧ 32 * i + j ≤ maxFileChar * i + strlen name := by
    simp only [maxFileChar]
    omega
  rw [Pcb.setName, loadByte_strcpy name p _ (by simp only [maxFileChar]; omega) _,
    if_pos hin]
  congr 1
  simp only [maxFileChar]
  omega

/-- A copy into slot `i` keeps the name of another slot, unless one of the two names fills its slot
    and the other slot is the one behind it. -/
theorem HasName.setName {p : Pcb} {fd : Nat} {name : List UInt8} (h : HasName p fd name) {i : Nat}
    {filename : List UInt8} (hi : i < 8) (hne : fd ≠ i) (hname : name.length ≤ 32)
    (hlen : strlen filename ≤ 32) (hbefore : fd + 1 = i → name.length < 32)
    (hbehind : i + 1 = fd → strlen filename < 32) : HasName (p.setName i filename) fd name := by
  intro j hj
  have hout : ¬ (maxFileChar * i ≤ 32 * fd + j ∧ 32 * fd + j ≤ maxFileChar * i + strlen filename) := by
    simp only [maxFileChar]
    omega
  rw [Pcb.setName, loadByte_strcpy filename p _ (by simp only [maxFileChar]; omega) _,
    if_neg hout]
  exact h j hj

theorem HasName.setFds {p : Pcb} {fd : Nat} {name : List UInt8} (h : HasName p fd name) (i : Nat)
    (f : Fds → Fds) : HasName (p.setFds i f) fd name := h

/-- Reading the slot as a C string gives the name. -/
theorem cstr_map_range (name : List UInt8) : ∀ (f : Nat → UInt8) (n : Nat), name.length < n →
    (∀ j, j ≤ name.length → f j = name.getD j 0) → (∀ c ∈ name, c ≠ 0) →
    cstr ((List.range n).map f) = name := by
  induction name with
  | nil =>
      intro f n hn hf _
      obtain ⟨m, rfl⟩ : ∃ m, n = m + 1 := ⟨n - 1, by simp at hn; omega⟩
      have h0 : f 0 = 0 := by simpa using hf 0 (Nat.le_refl 0)
      rw [List.range_succ_eq_map, List.map_cons, cstr_cons, if_pos h0]
  | cons c name ih =>
      intro f n hn hf hnul
      obtain ⟨m, rfl⟩ : ∃ m, n = m + 1 := ⟨n - 1, by simp at hn; omega⟩
      have h0 : f 0 = c := by simpa using hf 0 (Nat.zero_le _)
      have hc : c ≠ 0 := hnul c List.mem_cons_self
      rw [List.range_succ_eq_map, List.map_cons, cstr_cons, h0, if_neg hc, List.map_map,
        ih (f ∘ Nat.succ) m (by simpa using hn) (fun j hj => ?_)
          (fun d hd => hnul d (List.mem_cons_of_mem _ hd))]
      simpa using hf (j + 1) (by simpa using hj)

theorem HasName.cstr_nameAt {p : Pcb} {fd : Nat} {name : List UInt8} (h : HasName p fd name)
    (hfd : fd < 8) (hlen : name.length ≤ 32) (hnul : ∀ c ∈ name, c ≠ 0) :
    cstr (p.nameAt fd) = name := by
  refine cstr_map_range name _ _ ?_ h hnul
  simp only [maxFileChar]
  omega

/-- A list that reads as a name holds it, and a NUL behind it. -/
theorem getD_of_cstr_eq (name : List UInt8) : ∀ l : List UInt8, cstr l = name →
    ∀ j, j ≤ name.length → l.getD j 0 = name.getD j 0 := by
  induction name with
  | nil =>
      intro l hl j hj
      obtain rfl : j = 0 := by simpa using hj
      cases l with
      | nil => rfl
      | cons c l =>
          rw [cstr_cons] at hl
          split_ifs at hl with hc
          simpa using hc
  | cons c name ih =>
      intro l hl j hj
      cases l with
      | nil => cases hl
      | cons d l =>
          rw [cstr_cons] at hl
          split_ifs at hl with hd
          obtain ⟨rfl, hrest⟩ := List.cons.inj hl
          cases j with
          | zero => rfl
          | succ j =>
              rw [List.getD_cons_succ, List.getD_cons_succ]
              exact ih l hrest j (by simpa using hj)

/-- A slot that reads as a name of at most 32 characters holds it. -/
theorem hasName_of_cstr_nameAt {p : Pcb} {fd : Nat} {name : List UInt8} (hfd : fd < 8)
    (hlen : name.length ≤ 32) (h : cstr (p.nameAt fd) = name) : HasName p fd name := by
  intro j hj
  have hlt : j < 280 - maxFileChar * fd := by
    simp only [maxFileChar]
    omega
  have hbyte : (p.nameAt fd).getD j 0 = p.loadByte (maxFileChar * fd + j) := by
    rw [Pcb.nameAt, List.getD_eq_getElem?_getD, List.getElem?_map, List.getElem?_range hlt]
    rfl
  rw [← getD_of_cstr_eq name _ h j hj, hbyte]
  rfl

end UnixTerminal
