import UnixTerminal.Kernel.Keyboard
import UnixTerminal.Kernel.Printf
import UnixTerminal.Library.Numeral

set_option autoImplicit false

/-! # Numbers in text

`itoa` writes the digits of a number from the lowest place on and turns them around afterwards. What it
leaves in memory is the numeral of the number and a NUL, and it stores to no other byte. On top of that are
the four ways in which `printf` prints a number, each in a `conv_buf` of its own. -/

namespace UnixTerminal

/-! ## Strings in memory -/

/-- The string `s` and its NUL are at index `i` of a memory. -/
structure StringAt (mem : Nat → UInt8) (i : Nat) (s : List UInt8) : Prop where
  char : ∀ j (h : j < s.length), mem (i + j) = s[j]
  nul : mem (i + s.length) = 0

section Strings

variable {mem : Nat → UInt8} {i fuel : Nat} {s : List UInt8}

theorem StringAt.ne_zero (h : StringAt mem i s) (hs : ∀ c ∈ s, c ≠ 0) {j : Nat} (hj : j < s.length) :
    mem (i + j) ≠ 0 := by
  rw [h.char j hj]
  exact hs _ (List.getElem_mem hj)

theorem strlenAt_eq (h : StringAt mem i s) (hs : ∀ c ∈ s, c ≠ 0) (hfuel : s.length ≤ fuel) :
    strlenAt fuel mem i = some s.length := by
  let after : Nat → Nat := fun n => n
  have hpass : ∀ n, n < s.length → (mem (i + after n) != 0) = true ∧ after n + 1 = after (n + 1) :=
    fun n hn => ⟨by simpa using h.ne_zero hs hn, rfl⟩
  have hstop : (mem (i + after s.length) != 0) = false := by simpa using h.nul
  have hrun : whileRun (fun len => mem (i + len) != 0) (· + 1) fuel (after 0) = some (after s.length) :=
    whileRun_eq hpass hstop hfuel
  exact hrun

theorem putsAt_eq (h : StringAt mem i s) (hs : ∀ c ∈ s, c ≠ 0) (hfuel : s.length ≤ fuel) (k : Kernel) :
    k.putsAt fuel mem i = some (s.length, k.puts s) := by
  let after : Nat → Nat × Kernel := fun n => (n, k.puts (s.take n))
  have hpass : ∀ n, n < s.length → (mem (i + (after n).1) != 0) = true
      ∧ ((after n).1 + 1, (after n).2.putc (mem (i + (after n).1))) = after (n + 1) := by
    intro n hn
    refine ⟨by simpa using h.ne_zero hs hn, ?_⟩
    simp only [after]
    rw [List.take_succ_eq_append_getElem hn, Kernel.puts, Kernel.puts, List.foldl_append, h.char n hn]
    rfl
  have hstop : (mem (i + (after s.length).1) != 0) = false := by simpa using h.nul
  have hrun : whileRun (fun p : Nat × Kernel => mem (i + p.1) != 0)
      (fun p => (p.1 + 1, p.2.putc (mem (i + p.1)))) fuel (after 0) = some (after s.length) :=
    whileRun_eq hpass hstop hfuel
  simp only [after, List.take_length] at hrun
  exact hrun

theorem stringAt_write (a : TracedArray UInt8) (i : Nat) (s : List UInt8) :
    StringAt (a.write i (s ++ [0])).mem i s := by
  refine ⟨fun j hj => ?_, ?_⟩
  · rw [a.mem_write_add (by simp; omega), List.getElem_append_left hj]
  · rw [a.mem_write_add (by simp), List.getElem_append_right (Nat.le_refl _)]
    simp

/-- A character in front of a string. -/
theorem StringAt.cons (h : StringAt mem (i + 1) s) {c : UInt8} (hc : mem i = c) :
    StringAt mem i (c :: s) := by
  refine ⟨fun j hj => ?_, ?_⟩
  · cases j with
    | zero => exact hc
    | succ j =>
        rw [List.getElem_cons_succ, ← h.char j (Nat.lt_of_succ_lt_succ hj), Nat.add_assoc, Nat.add_comm 1]
  · rw [← h.nul, List.length_cons, Nat.add_assoc, Nat.add_comm 1]

/-- More characters written in front of a string. -/
theorem StringAt.prepend {a : TracedArray UInt8} (h : StringAt a.mem i s) (t : List UInt8)
    (ht : t.length ≤ i) : StringAt (a.write (i - t.length) t).mem (i - t.length) (t ++ s) := by
  have hbehind : ∀ j, i ≤ j → (a.write (i - t.length) t).mem j = a.mem j := fun j hj =>
    a.mem_write_of_le t (by omega)
  refine ⟨fun j hj => ?_, ?_⟩
  · rw [List.length_append] at hj
    by_cases hlt : j < t.length
    · rw [a.mem_write_add hlt, List.getElem_append_left hlt]
    · have hshift : i - t.length + j = i + (j - t.length) := by omega
      rw [List.getElem_append_right (by omega), hbehind _ (by omega), hshift, h.char _ (by omega)]
  · have hshift : i - t.length + (t ++ s).length = i + s.length := by
      rw [List.length_append]
      omega
    rw [hshift, hbehind _ (Nat.le_add_right i _), h.nul]

end Strings

/-! ## `strrev` -/

section Strrev

variable {a : TracedArray UInt8} {i fuel : Nat} {s : List UInt8}

theorem strrevAt_eq (h : StringAt a.mem i s) (hs : ∀ c ∈ s, c ≠ 0) (hfuel : s.length ≤ fuel) :
    strrevAt fuel a i = some (a.swaps i s.length (s.length / 2)) := by
  unfold strrevAt
  rw [strlenAt_eq h hs hfuel, Option.bind_some]
  -- `beg` and `end` meet in the middle
  let after : Nat → StrrevLoop := fun n => ⟨n, (s.length : Int) - 1 - n, a.swaps i s.length n⟩
  have hpass : ∀ n, n < s.length / 2 → decide ((after n).beg < (after n).last) = true
      ∧ (after n).pass i = after (n + 1) := by
    intro n hn
    have hlast : ((s.length : Int) - 1 - n).toNat = s.length - 1 - n := by omega
    refine ⟨decide_eq_true (by simp only [after]; omega), ?_⟩
    simp only [after, StrrevLoop.pass]
    rw [Int.toNat_natCast, hlast]
    congr 1
    push_cast
    omega
  have hstop : decide ((after (s.length / 2)).beg < (after (s.length / 2)).last) = false :=
    decide_eq_false (by simp only [after]; omega)
  have hrun : whileRun (fun l : StrrevLoop => decide (l.beg < l.last)) (StrrevLoop.pass i) fuel (after 0)
      = some (after (s.length / 2)) :=
    whileRun_eq hpass hstop (by omega)
  simp only [after, Nat.cast_zero, Int.sub_zero, TracedArray.swaps] at hrun
  exact congrArg (Option.map StrrevLoop.str) hrun

/-- **`strrev` reverses a string where it is.** -/
theorem strrevAt_spec (h : StringAt a.mem i s) (hs : ∀ c ∈ s, c ≠ 0) (hfuel : s.length ≤ fuel) :
    ∃ b, strrevAt fuel a i = some b ∧ StringAt b.mem i s.reverse
      ∧ a.WrittenIn b i (i + s.length) := by
  have hin : a.WrittenIn (a.swaps i s.length (s.length / 2)) i (i + s.length) :=
    a.writtenIn_swaps (by omega)
  refine ⟨_, strrevAt_eq h hs hfuel, ⟨fun j hj => ?_, ?_⟩, hin⟩
  · rw [List.length_reverse] at hj
    rw [a.mem_swaps_half hj, h.char _ (by omega), List.getElem_reverse]
  · rw [List.length_reverse, hin.frame _ (Or.inr (Nat.le_refl _))]
    exact h.nul

end Strrev

/-! ## `itoa` -/

/-- A digit in the table of `itoa`. -/
def digitOf (d : Nat) : UInt8 := lookup.getD d 0

/-- What a character of the table stands for. -/
def digitValue (c : UInt8) : Nat := if c < 65 then c.toNat - 48 else c.toNat - 55

theorem digitValue_digitOf {d : Nat} (hd : d < 36) : digitValue (digitOf d) = d := by
  decide +revert

theorem digitOf_ne_zero {d : Nat} (hd : d < 36) : digitOf d ≠ 0 := by
  decide +revert

section Itoa

variable {r : Nat}

theorem toNat_radix (hr : r ≤ 36) : (Int32.ofNat r).toUInt32.toNat = r := by
  rw [Int32.toUInt32_ofNat', UInt32.toNat_ofNat']
  omega

/-- The digit loop, from the lowest place on. -/
theorem itoaLoop_eq (h2 : 2 ≤ r) (h36 : r ≤ 36) (fuel : Nat) :
    ∀ {v : UInt32} (buf : Nat) (a : TracedArray UInt8), (Nat.digits r v.toNat).length ≤ fuel →
      whileRun (fun l : ItoaLoop => decide (l.newval > 0)) (ItoaLoop.pass (Int32.ofNat r)) fuel
          ⟨v, buf, a⟩
        = some ⟨0, buf + (Nat.digits r v.toNat).length,
            a.write buf ((Nat.digits r v.toNat).map digitOf)⟩ := by
  induction fuel with
  | zero =>
      intro v buf a hfuel
      have hnil : Nat.digits r v.toNat = [] := List.length_eq_zero_iff.1 (by omega)
      obtain rfl : v = 0 := UInt32.toNat_inj.1 (Nat.digits_eq_nil_iff_eq_zero.1 hnil)
      simp [whileRun]
  | succ fuel ih =>
      intro v buf a hfuel
      by_cases hv : v = 0
      · subst hv
        simp [whileRun]
      · have hpos : 0 < v.toNat := Nat.pos_of_ne_zero (fun h => hv (UInt32.toNat_inj.1 h))
        have hdigits := Nat.digits_of_two_le_of_pos h2 hpos
        have hdiv : (v / (Int32.ofNat r).toUInt32).toNat = v.toNat / r := by
          rw [UInt32.toNat_div, toNat_radix h36]
        have hmod : (v % (Int32.ofNat r).toUInt32).toNat = v.toNat % r := by
          rw [UInt32.toNat_mod, toNat_radix h36]
        have hgt : v > 0 := UInt32.lt_iff_toNat_lt.2 hpos
        rw [hdigits, List.length_cons] at hfuel
        have hrest := ih (v := v / (Int32.ofNat r).toUInt32) (buf + 1)
          (a.store buf (digitOf (v.toNat % r))) (by rw [hdiv]; omega)
        rw [hdiv] at hrest
        rw [whileRun, if_pos (decide_eq_true hgt), hdigits, List.length_cons, List.map_cons,
          TracedArray.write, ItoaLoop.pass]
        dsimp only
        rw [hmod, show buf + ((Nat.digits r (v.toNat / r)).length + 1)
          = buf + 1 + (Nat.digits r (v.toNat / r)).length by omega]
        exact hrest

/-- The numeral in the digits of `itoa`. -/
abbrev itoaText (r v : Nat) : List UInt8 := numeral digitOf r v

theorem ne_zero_of_mem_itoaText (h2 : 2 ≤ r) (h36 : r ≤ 36) {v : Nat} {c : UInt8}
    (h : c ∈ itoaText r v) : c ≠ 0 := by
  obtain ⟨d, hd, rfl⟩ := exists_of_mem_numeral h2 h
  exact digitOf_ne_zero (by omega)

/-- A 32-bit value has at most 32 digits. -/
theorem length_itoaText_le (h2 : 2 ≤ r) (v : UInt32) : (itoaText r v.toNat).length ≤ 32 := by
  refine length_numeral_le h2 (by decide) ?_
  exact lt_of_lt_of_le v.toNat_lt (Nat.pow_le_pow_left h2 32)

/-- **`itoa` leaves the numeral of the value in the buffer**, with a NUL behind it, and stores nowhere
    else. -/
theorem itoaAt_spec (h2 : 2 ≤ r) (h36 : r ≤ 36) (v : UInt32) (a : TracedArray UInt8) (buf : Nat)
    {fuel : Nat} (hfuel : 32 ≤ fuel) :
    ∃ b, itoaAt fuel v a buf (Int32.ofNat r) = some b ∧ StringAt b.mem buf (itoaText r v.toNat)
      ∧ a.WrittenIn b buf (buf + (itoaText r v.toNat).length + 1) := by
  have hlen := length_itoaText_le h2 v
  by_cases hv : v = 0
  · subst hv
    refine ⟨_, if_pos rfl, stringAt_write a buf [48], ?_⟩
    exact (TracedArray.WrittenIn.refl a _ _).write (s := [48, 0]) (Nat.le_refl _) (Nat.le_refl _)
  · have hpos : 0 < v.toNat := Nat.pos_of_ne_zero (fun h => hv (UInt32.toNat_inj.1 h))
    have htext : itoaText r v.toNat = ((Nat.digits r v.toNat).map digitOf).reverse :=
      numeral_of_pos hpos
    have hnul : ∀ c ∈ (Nat.digits r v.toNat).map digitOf, c ≠ 0 := fun c hc =>
      ne_zero_of_mem_itoaText h2 h36 (v := v.toNat) (by rw [htext]; exact List.mem_reverse.2 hc)
    have hdlen : (Nat.digits r v.toNat).length = (itoaText r v.toNat).length := by
      rw [htext, List.length_reverse, List.length_map]
    unfold itoaAt
    rw [if_neg hv, itoaLoop_eq h2 h36 fuel buf a (by omega), Option.bind_some,
      TracedArray.store_write a 0 (by rw [List.length_map])]
    have hpasses : ((Nat.digits r v.toNat).map digitOf).length ≤ fuel := by
      rw [List.length_map]
      omega
    obtain ⟨b, hb, hstr, hin⟩ := strrevAt_spec (stringAt_write a buf _) hnul hpasses
    refine ⟨b, hb, by rw [htext]; exact hstr, ?_⟩
    rw [List.length_map, hdlen] at hin
    refine TracedArray.WrittenIn.trans ?_ (hin.mono (Nat.le_refl _) (Nat.le_succ _))
    refine (TracedArray.WrittenIn.refl a _ _).write (Nat.le_refl _) ?_
    rw [List.length_append, List.length_map, List.length_singleton, hdlen]
    omega

/-- The digits of the file listing are those of `itoa`. -/
theorem itoaDigits_eq (fuel : Nat) : ∀ {v : Nat}, (Nat.digits 10 v).length ≤ fuel →
    itoaDigits fuel v = (Nat.digits 10 v).map digitOf := by
  induction fuel with
  | zero =>
      intro v hfuel
      rw [List.length_eq_zero_iff.1 (Nat.le_zero.1 hfuel)]
      rfl
  | succ fuel ih =>
      intro v hfuel
      rcases Nat.eq_zero_or_pos v with rfl | hpos
      · simp [itoaDigits]
      · have hdigit : ∀ d, d < 10 → UInt8.ofNat (48 + d) = digitOf d := by decide
        rw [Nat.digits_of_two_le_of_pos (by decide) hpos] at hfuel ⊢
        rw [itoaDigits, if_pos hpos, ih (Nat.le_of_succ_le_succ hfuel), List.map_cons,
          hdigit _ (Nat.mod_lt _ (by decide))]

theorem itoa_eq_itoaText (v : UInt32) : itoa v.toNat = itoaText 10 v.toNat := by
  have hlen : (Nat.digits 10 v.toNat).length ≤ 10 :=
    (Nat.digits_length_le_iff (by decide) _).2 (lt_of_lt_of_le v.toNat_lt (by decide))
  unfold itoa itoaText numeral
  rw [itoaDigits_eq 10 hlen]
  rfl

end Itoa

/-! ## The numbers of `printf` -/

/-- The text `s` is in a `conv_buf` of `size` bytes, and no store was outside it. -/
structure Converted.Holds (c : Converted) (size : Nat) (s : List UInt8) : Prop where
  text : StringAt c.convBuf.mem c.start s
  ne_zero : ∀ ch ∈ s, ch ≠ 0
  short : s.length ≤ 33
  within : c.convBuf.Within size

/-- What `%#x` prints. -/
def paddedHex (word : UInt32) : List UInt8 :=
  List.replicate (8 - (itoaText 16 word.toNat).length) 48 ++ itoaText 16 word.toNat

/-- What `%d` prints. -/
def signedText (value : Int) : List UInt8 :=
  if value < 0 then 45 :: itoaText 10 value.natAbs else itoaText 10 value.natAbs

/-- The value of a decimal with a sign. -/
def readSigned : List UInt8 → Int
  | [] => 0
  | c :: s => if c = 45 then -(readNumeral digitValue 10 s : Int) else readNumeral digitValue 10 (c :: s)

section Conversions

variable {fuel : Nat} (word : UInt32) (mem : Nat → UInt8)

theorem length_hex_le : (itoaText 16 word.toNat).length ≤ 8 :=
  length_numeral_le (by decide) (by decide) word.toNat_lt

theorem length_paddedHex : (paddedHex word).length = 8 := by
  have h := length_hex_le word
  rw [paddedHex, List.length_append, List.length_replicate]
  omega

/-- A number at the start of its `conv_buf`. -/
theorem holds_itoaAt {r : Nat} (h2 : 2 ≤ r) (h36 : r ≤ 36) {size : Nat} (hsize : 33 ≤ size)
    (hfuel : 32 ≤ fuel) :
    ∃ a, itoaAt fuel word (.fresh mem) 0 (Int32.ofNat r) = some a
      ∧ Converted.Holds ⟨a, 0⟩ size (itoaText r word.toNat) := by
  have hlen := length_itoaText_le h2 word
  obtain ⟨a, ha, hstr, hin⟩ := itoaAt_spec h2 h36 word (.fresh mem) 0 hfuel
  refine ⟨a, ha, hstr, fun c hc => ne_zero_of_mem_itoaText h2 h36 hc, by omega, ?_⟩
  exact hin.within (TracedArray.within_fresh mem size) (by omega)

theorem convUnsigned_spec (hfuel : 32 ≤ fuel) :
    ∃ c, convUnsigned fuel (.fresh mem) word = some c ∧ c.Holds 36 (itoaText 10 word.toNat) := by
  obtain ⟨a, ha, hheld⟩ := holds_itoaAt (r := 10) word mem (by decide) (by decide)
    (by decide : 33 ≤ 36) hfuel
  exact ⟨⟨a, 0⟩, congrArg (Option.map _) ha, hheld⟩

/-- The zeros of `%#x` go in front of the number that is in place already. -/
theorem padLoop_eq (a : TracedArray UInt8) {len : Nat} (hlen : len ≤ 8) (hfuel : 8 ≤ fuel) :
    whileRun (fun s : Nat × TracedArray UInt8 => decide (s.1 < 8))
        (fun s => (s.1 + 1, s.2.store s.1 48)) fuel (len, a)
      = some (8, a.write len (List.replicate (8 - len) 48)) := by
  let after : Nat → Nat × TracedArray UInt8 := fun n => (len + n, a.write len (List.replicate n 48))
  have hpass : ∀ n, n < 8 - len → decide ((after n).1 < 8) = true
      ∧ ((after n).1 + 1, (after n).2.store (after n).1 48) = after (n + 1) := by
    intro n hn
    refine ⟨decide_eq_true (by simp only [after]; omega), ?_⟩
    simp only [after]
    rw [List.replicate_succ', a.store_write 48 (by rw [List.length_replicate]), Nat.add_assoc]
  have hstop : decide ((after (8 - len)).1 < 8) = false :=
    decide_eq_false (by simp only [after]; omega)
  have hrun : whileRun (fun s : Nat × TracedArray UInt8 => decide (s.1 < 8))
      (fun s => (s.1 + 1, s.2.store s.1 48)) fuel (after 0) = some (after (8 - len)) :=
    whileRun_eq hpass hstop (by omega)
  simp only [after, Nat.add_sub_cancel' hlen] at hrun
  exact hrun

theorem convHex_spec (alternate : Bool) (hfuel : 32 ≤ fuel) :
    ∃ c, convHex fuel (.fresh mem) alternate word = some c
      ∧ c.Holds 64 (if alternate then paddedHex word else itoaText 16 word.toNat) := by
  cases alternate with
  | false =>
      obtain ⟨a, ha, hheld⟩ := holds_itoaAt (r := 16) word mem (by decide) (by decide)
        (by decide : 33 ≤ 64) hfuel
      exact ⟨⟨a, 0⟩, congrArg (Option.map _) ha, hheld⟩
  | true =>
      have hlen := length_hex_le word
      have hnul : ∀ c ∈ itoaText 16 word.toNat, c ≠ 0 := fun c hc =>
        ne_zero_of_mem_itoaText (by decide) (by decide) hc
      obtain ⟨a, ha, hstr, hin⟩ := itoaAt_spec (r := 16) (by decide) (by decide) word (.fresh mem) 8 hfuel
      -- the zeros end where the number starts
      have hpad := hstr.prepend (List.replicate (8 - (itoaText 16 word.toNat).length) 48)
        (by rw [List.length_replicate]; omega)
      rw [List.length_replicate, Nat.sub_sub_self hlen] at hpad
      refine ⟨⟨a.write (itoaText 16 word.toNat).length
        (List.replicate (8 - (itoaText 16 word.toNat).length) 48), (itoaText 16 word.toNat).length⟩,
        ?_, hpad, fun c hc => ?_, ?_, ?_⟩
      · have hsixteen : itoaAt fuel word (.fresh mem) 8 16 = some a := ha
        have hstrlen : strlenAt fuel a.mem 8 = some (itoaText 16 word.toNat).length :=
          strlenAt_eq hstr hnul (by omega)
        simp only [convHex, hsixteen, hstrlen, padLoop_eq a hlen (show 8 ≤ fuel by omega),
          Bool.not_true, Bool.false_eq_true, if_false, Option.bind_some, Option.map_some]
      · rcases List.mem_append.1 hc with hc | hc
        · rw [(List.mem_replicate.1 hc).2]
          decide
        · exact hnul c hc
      · exact (Nat.le_of_eq (length_paddedHex word)).trans (by decide)
      · have hzeros : TracedArray.WrittenIn (.fresh mem) (a.write (itoaText 16 word.toNat).length
            (List.replicate (8 - (itoaText 16 word.toNat).length) 48)) 0 64 := by
          refine (hin.mono (Nat.zero_le _) (by omega)).write (Nat.zero_le _) ?_
          rw [List.length_replicate]
          omega
        exact hzeros.within (TracedArray.within_fresh mem 64) (Nat.le_refl _)

theorem toNat_toUInt32_of_nonneg {value : Int32} (h : ¬ value < 0) :
    value.toUInt32.toNat = value.toInt.natAbs := by
  have hle : 0 ≤ value := Int32.not_lt.1 h
  have hint : 0 ≤ value.toInt := Int32.le_iff_toInt_le.1 hle
  rw [Int32.toNat_toUInt32_of_le hle, ← Int.toNat_of_nonneg hint]
  rfl

/-- The negation wraps for the smallest value only, and its bits are the absolute value all the same. -/
theorem toNat_toUInt32_neg {value : Int32} (h : value < 0) :
    (-value).toUInt32.toNat = value.toInt.natAbs := by
  have hint : value.toInt < 0 := Int32.lt_iff_toInt_lt.1 h
  have hcond : value.toInt = if 2 * value.toUInt32.toNat < 2 ^ 32 then (value.toUInt32.toNat : Int)
      else (value.toUInt32.toNat : Int) - ((2 ^ 32 : Nat) : Int) :=
    BitVec.toInt_eq_toNat_cond value.toBitVec
  have hlt := value.toUInt32.toNat_lt
  rw [Int32.toUInt32_neg, UInt32.toNat_neg]
  simp only [UInt32.size]
  split at hcond
  · omega
  · omega

theorem convSigned_spec (hfuel : 32 ≤ fuel) :
    ∃ c, convSigned fuel (.fresh mem) word = some c ∧ c.Holds 36 (signedText word.toInt32.toInt) := by
  have hsign : word.toInt32 < 0 ↔ word.toInt32.toInt < 0 := Int32.lt_iff_toInt_lt
  by_cases hneg : word.toInt32 < 0
  · obtain ⟨a, ha, hstr, hin⟩ := itoaAt_spec (r := 10) (by decide) (by decide)
      (-word.toInt32).toUInt32 ((TracedArray.fresh mem).store 0 45) 1 hfuel
    rw [toNat_toUInt32_neg hneg] at hstr hin
    have hlen := length_itoaText_le (r := 10) (by decide) (-word.toInt32).toUInt32
    rw [toNat_toUInt32_neg hneg] at hlen
    have hminus : a.mem 0 = 45 := 
      (hin.frame 0 (Or.inl (by decide))).trans (Function.update_self 0 45 mem)
    refine ⟨⟨a, 0⟩, ?_, ?_⟩
    · unfold convSigned
      exact (if_pos hneg).trans (congrArg (Option.map _) ha)
    · rw [signedText, if_pos (hsign.1 hneg)]
      refine ⟨hstr.cons hminus, fun c hc => ?_, ?_, ?_⟩
      · rcases List.mem_cons.1 hc with rfl | hc
        · decide
        · exact ne_zero_of_mem_itoaText (by decide) (by decide) hc
      · rw [List.length_cons]
        omega
      · refine hin.within ?_ (by omega)
        exact (TracedArray.within_fresh mem 36).store (by decide) 45
  · obtain ⟨a, ha, hheld⟩ := holds_itoaAt (r := 10) word.toInt32.toUInt32 mem (by decide)
      (by decide) (by decide : 33 ≤ 36) hfuel
    refine ⟨⟨a, 0⟩, ?_, ?_⟩
    · unfold convSigned
      exact (if_neg hneg).trans (congrArg (Option.map _) ha)
    · rw [signedText, if_neg (fun h => hneg (hsign.2 h)), ← toNat_toUInt32_of_nonneg hneg]
      exact hheld

end Conversions

/-! ## Reading numbers back -/

theorem readNumeral_itoaText {r : Nat} (h2 : 2 ≤ r) (h36 : r ≤ 36) (v : Nat) :
    readNumeral digitValue r (itoaText r v) = v :=
  readNumeral_numeral h2 (fun _ hd => digitValue_digitOf (hd.trans_le h36)) v

theorem itoaText_injective {r : Nat} (h2 : 2 ≤ r) (h36 : r ≤ 36) : Function.Injective (itoaText r) :=
  numeral_injective h2 (fun _ hd => digitValue_digitOf (hd.trans_le h36))

theorem head?_itoaText_ne {r : Nat} (h2 : 2 ≤ r) (h36 : r ≤ 36) {v : Nat} (hv : v ≠ 0) :
    (itoaText r v).head? ≠ some 48 := by
  intro h
  obtain ⟨d, hpos, hd, hhead⟩ := head?_numeral h2 (Nat.pos_of_ne_zero hv)
  rw [itoaText, hhead] at h
  have hzero : digitValue (digitOf d) = 0 := congrArg digitValue (Option.some.inj h)
  rw [digitValue_digitOf (by omega)] at hzero
  exact hpos.ne' hzero

/-- The text `s` is the numeral of `v` in base `r`: digits of the table, no zero in front, and the right
    value. -/
structure IsNumeral (r v : Nat) (s : List UInt8) : Prop where
  digits : ∀ c ∈ s, ∃ d, d < r ∧ c = digitOf d
  leading : v ≠ 0 → s.head? ≠ some 48
  zero : v = 0 → s = [48]
  value : readNumeral digitValue r s = v

theorem isNumeral_itoaText {r : Nat} (h2 : 2 ≤ r) (h36 : r ≤ 36) (v : Nat) :
    IsNumeral r v (itoaText r v) where
  digits _ hc := exists_of_mem_numeral h2 hc
  leading := head?_itoaText_ne h2 h36
  zero hv := by
    rw [hv]
    rfl
  value := readNumeral_itoaText h2 h36 v

theorem digits_paddedHex (word : UInt32) {c : UInt8} (hc : c ∈ paddedHex word) :
    ∃ d, d < 16 ∧ c = digitOf d := by
  rcases List.mem_append.1 hc with hc | hc
  · exact ⟨0, by decide, (List.mem_replicate.1 hc).2⟩
  · exact exists_of_mem_numeral (by decide) hc

theorem readNumeral_paddedHex (word : UInt32) :
    readNumeral digitValue 16 (paddedHex word) = word.toNat :=
  (readNumeral_replicate_append (by decide) _ _).trans
    (readNumeral_itoaText (by decide) (by decide) word.toNat)

theorem readSigned_signedText (value : Int) : readSigned (signedText value) = value := by
  have hread := readNumeral_itoaText (r := 10) (by decide) (by decide) value.natAbs
  unfold signedText
  split_ifs with hneg
  · simp only [readSigned, if_true, hread]
    omega
  · -- no digit is a minus sign
    have hhead : ∀ c ∈ itoaText 10 value.natAbs, c ≠ 45 := by
      intro c hc
      obtain ⟨d, hd, rfl⟩ := exists_of_mem_numeral (by decide) hc
      have hminus : ∀ d, d < 10 → digitOf d ≠ 45 := by decide
      exact hminus d hd
    cases htext : itoaText 10 value.natAbs with
    | nil => exact absurd htext (numeral_ne_nil _)
    | cons c s =>
        rw [htext] at hread hhead
        rw [readSigned, if_neg (hhead c List.mem_cons_self), hread]
        omega

end UnixTerminal
