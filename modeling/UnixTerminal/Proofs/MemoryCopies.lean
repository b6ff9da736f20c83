import UnixTerminal.Kernel.MemRoutines
import UnixTerminal.Library.Bits

set_option autoImplicit false

/-! # Copies and fills, byte by byte

What `memset`, `memcpy` and `memmove` leave in memory, for every alignment and length. The first two fill
and copy whole doublewords between single bytes; the last one chooses its direction. -/

namespace UnixTerminal

/-! ## What is expected -/

/-- The `n` bytes from `dest` on are `c`, and the others are as before. -/
structure Filled (m m' : UInt32 → UInt8) (dest : UInt32) (n : UInt32) (c : UInt8) : Prop where
  bytes : ∀ k < n.toNat, m' (dest + UInt32.ofNat k) = c
  frame : ∀ x, (∀ k < n.toNat, x ≠ dest + UInt32.ofNat k) → m' x = m x

/-- The `n` bytes from `dest` on are those that were at `src`, and the others are as before. -/
structure Copied (m m' : UInt32 → UInt8) (dest src n : UInt32) : Prop where
  bytes : ∀ k < n.toNat, m' (dest + UInt32.ofNat k) = m (src + UInt32.ofNat k)
  frame : ∀ x, (∀ k < n.toNat, x ≠ dest + UInt32.ofNat k) → m' x = m x

theorem copied_written (m : UInt32 → UInt8) (dest src n : UInt32) :
    Copied m (written m dest (fun i => m (src + UInt32.ofNat i)) 0 n.toNat) dest src n where
  bytes k hk := written_at (Nat.zero_le k) hk (Nat.lt_trans hk n.toNat_lt)
  frame _ hx := written_frame (fun k _ hk => hx k hk)

theorem filled_written (m : UInt32 → UInt8) (dest n : UInt32) (c : UInt8) :
    Filled m (written m dest (fun _ => c) 0 n.toNat) dest n c where
  bytes k hk := written_at (Nat.zero_le k) hk (Nat.lt_trans hk n.toNat_lt)
  frame _ hx := written_frame (fun k _ hk => hx k hk)

/-! ## Bytes, doublewords, bytes -/

namespace StringMachine

/-- A byte and a doubleword of one piece of work: `At k` is true of the machine behind `k` bytes of it,
    whatever the counters are. -/
structure Works (At : Nat → StringMachine → Prop) (byte dword : StringMachine → StringMachine) (n : Nat) :
    Prop where
  counters : ∀ k s ecx edx df, At k s → At k { s with ecx := ecx, edx := edx, df := df }
  step : ∀ k s, k < n → At k s → At (k + 1) (byte s)
  stepEcx : ∀ s, (byte s).ecx = s.ecx
  stepEdx : ∀ s, (byte s).edx = s.edx
  reps : ∀ k s, k + s.ecx.toNat * 4 ≤ n → s.df = false → At k s → At (k + s.ecx.toNat * 4) (rep dword s)
  repsEdx : ∀ s, (rep dword s).edx = s.edx

/-- A loop over single bytes with test `t` and body `b`, by the register `c` that counts what is left. -/
theorem byteLoop {At : Nat → StringMachine → Prop} {n : Nat} {t : StringMachine → Bool}
    {b : StringMachine → StringMachine} {c : StringMachine → UInt32}
    (hbody : ∀ k s, k < n → At k s → At (k + 1) (b s)) (hcount : ∀ s, c (b s) = c s - 1)
    (htest : ∀ s, t s = true → c s ≠ 0) {k : Nat} {s : StringMachine} (hs : At k s)
    (hk : k + (c s).toNat = n) :
    ∃ s' k', (∀ fuel, n ≤ fuel → whileRun t b fuel s = some s')
      ∧ At k' s' ∧ k' + (c s').toNat = n ∧ t s' = false := by
  have hpass : ∀ s, (∃ k, At k s ∧ k + (c s).toNat = n) → t s = true →
      (∃ k, At k (b s) ∧ k + (c (b s)).toNat = n) ∧ (c (b s)).toNat < (c s).toNat := by
    rintro s ⟨k, hs, hk⟩ htrue
    have hpos : (c s).toNat ≠ 0 := fun he => htest s htrue (UInt32.toNat_inj.1 he)
    have hdec : (c (b s)).toNat = (c s).toNat - 1 := by
      have hlt := (c s).toNat_lt
      rw [hcount, UInt32.toNat_sub, UInt32.toNat_one]
      omega
    exact ⟨⟨k + 1, hbody k s (by omega) hs, by omega⟩, by omega⟩
  obtain ⟨s', hrun, ⟨k', hs', hk'⟩, hstop⟩ :=
    whileRun_total (n := n) (fun s => (c s).toNat) hpass ⟨k, hs, hk⟩ (by omega)
  exact ⟨s', k', hrun, hs', hk', hstop⟩

/-- **The three loops do the whole work.** -/
theorem Works.all {At : Nat → StringMachine → Prop} {byte dword : StringMachine → StringMachine} {n : Nat}
    (h : Works At byte dword n) {s : StringMachine} (hs : At 0 s) (hn : s.ecx.toNat = n) :
    ∃ s', (∀ fuel, n ≤ fuel → bytesAndDwords byte dword fuel s = some s') ∧ At n s' := by
  obtain ⟨s₁, k, hrun, hk, hcount, -⟩ := byteLoop
    (t := fun s => s.ecx ≠ 0 ∧ s.edi &&& 3 ≠ 0) (b := fun s => { byte s with ecx := (byte s).ecx - 1 })
    (c := StringMachine.ecx) (fun k s hlt hk => h.counters _ _ _ (byte s).edx (byte s).df (h.step k s hlt hk))
    (fun s => by rw [h.stepEcx]) (fun s hs => (of_decide_eq_true hs).1) hs (by omega)
  by_cases hzero : s₁.ecx = 0
  · -- nothing is left
    rw [hzero] at hcount
    obtain rfl : k = n := hcount
    refine ⟨s₁, fun fuel hfuel => ?_, hk⟩
    rw [bytesAndDwords, hrun fuel hfuel, Option.bind_some, if_pos hzero]
  · let s₂ : StringMachine := { s₁ with edx := s₁.ecx &&& 3, ecx := s₁.ecx >>> 2, df := false }
    have hquot : s₂.ecx.toNat = s₁.ecx.toNat / 4 := by
      rw [UInt32.toNat_shiftRight]
      exact Nat.shiftRight_eq_div_pow _ 2
    have hrest : s₂.edx.toNat = s₁.ecx.toNat % 4 := toNat_and_low (n := 2) rfl
    have hdwords := h.reps k s₂ (by omega) rfl (h.counters k s₁ _ _ _ hk)
    obtain ⟨s', k', hrun', hk', hcount', hstop⟩ := byteLoop
      (t := fun s => s.edx ≠ 0) (b := fun s => { byte s with edx := (byte s).edx - 1 })
      (c := StringMachine.edx) (fun k s hlt hk => h.counters _ _ (byte s).ecx _ (byte s).df (h.step k s hlt hk))
      (fun s => by rw [h.stepEdx]) (fun s hs => of_decide_eq_true hs) hdwords (by rw [h.repsEdx]; omega)
    have hzero' : s'.edx = 0 := not_not.1 (of_decide_eq_false hstop)
    rw [hzero'] at hcount'
    obtain rfl : k' = n := hcount'
    refine ⟨s', fun fuel hfuel => ?_, hk'⟩
    rw [bytesAndDwords, hrun fuel hfuel, Option.bind_some, if_neg hzero]
    exact hrun' fuel hfuel

/-! ## `memset` -/

/-- The pattern of `memset`: the low byte of the argument, four times. -/
theorem dwordBytes_fill (c : UInt32) :
    dwordBytes ((c &&& 0xFF) <<< 24 ||| (c &&& 0xFF) <<< 16 ||| (c &&& 0xFF) <<< 8 ||| (c &&& 0xFF))
      = List.replicate 4 c.toUInt8 := by
  have hall : ∀ i : Fin 256, dwordBytes (UInt32.ofNat i <<< 24 ||| UInt32.ofNat i <<< 16
      ||| UInt32.ofNat i <<< 8 ||| UInt32.ofNat i) = List.replicate 4 (UInt8.ofNat i) := by
    decide +kernel
  have hlow : (c &&& 0xFF).toNat = c.toNat % 256 := toNat_and_low (n := 8) rfl
  have hlt : c.toNat % 256 < 256 := Nat.mod_lt _ (by decide)
  have hc : c &&& 0xFF = UInt32.ofNat (c.toNat % 256) := by rw [← hlow, UInt32.ofNat_toNat]
  have hbyte : c.toUInt8 = UInt8.ofNat (c.toNat % 256) := by
    rw [← UInt8.toNat_inj, UInt32.toNat_toUInt8, UInt8.toNat_ofNat', Nat.mod_mod]
  rw [hc, hbyte]
  exact hall ⟨c.toNat % 256, hlt⟩

theorem worksFill (m : UInt32 → UInt8) (dest n : UInt32) (c : UInt8) :
    Works (FilledTo m dest c) fillByte stosl n.toNat where
  counters k s ecx edx df h := ⟨h.mem, h.edi, h.eax⟩
  step k s hk h := by
    have hn := n.toNat_lt
    have hal : s.eax.toUInt8 = c := (List.cons.inj h.eax).1
    refine ⟨?_, ?_, h.eax⟩
    · simp only [fillByte, storeAl]
      rw [h.mem, h.edi, hal]
      refine storeBytes_written_up (l := [c]) (fun i hi => ?_) (Nat.zero_le k) ?_
      · obtain rfl : i = 0 := Nat.lt_one_iff.1 hi
        rfl
      · exact (by omega : k + 1 ≤ 2 ^ 32)
    · simp only [fillByte, storeAl, h.edi, UInt32.ofNat_add, UInt32.add_assoc]
      rfl
  stepEcx s := rfl
  stepEdx s := rfl
  reps k s hk hdf h := h.rep hdf (by have hn := n.toNat_lt; omega)
  repsEdx s := rep_edx stosl (fun _ => rfl) s

/-! ## `memcpy` -/

theorem worksCopy {dest src n : UInt32} (m : UInt32 → UInt8) (hsafe : ForwardSafe dest src n.toNat) :
    Works (CopiedTo m dest src) copyByte (movs 4) n.toNat where
  counters k s ecx edx df h := ⟨h.mem, h.esi, h.edi⟩
  step k s hk h := by
    have hn := n.toNat_lt
    have hal : ((s.eax &&& 0xFFFFFF00) ||| (s.mem s.esi).toUInt32).toUInt8 = s.mem s.esi := by
      rw [UInt32.toUInt8_or, UInt32.toUInt8_and, UInt8.toUInt8_toUInt32,
        show (0xFFFFFF00 : UInt32).toUInt8 = 0 from rfl, UInt8.and_zero, UInt8.zero_or]
    have hload : loadBytes s.mem s.esi 1 = [s.mem s.esi] :=
      congrArg (fun p => [s.mem p]) (UInt32.add_zero s.esi)
    refine ⟨?_, ?_, ?_⟩
    · simp only [copyByte, storeAl, loadAl]
      rw [hal, ← hload]
      exact h.store hsafe hk (Nat.le_of_lt hn)
    · simp only [copyByte, storeAl, loadAl, h.esi, UInt32.ofNat_add, UInt32.add_assoc]
      rfl
    · simp only [copyByte, storeAl, loadAl, h.edi, UInt32.ofNat_add, UInt32.add_assoc]
      rfl
  stepEcx s := rfl
  stepEdx s := rfl
  reps k s hk hdf h := h.rep hdf hsafe hk (Nat.le_of_lt n.toNat_lt)
  repsEdx s := rep_edx (movs 4) (fun _ => rfl) s

/-- Regions apart, or the destination below the source. -/
theorem forwardSafe_of_le {dest src : UInt32} {n : Nat} (hd : dest.toNat + n ≤ 2 ^ 32)
    (hs : src.toNat + n ≤ 2 ^ 32)
    (h : dest.toNat + n ≤ src.toNat ∨ src.toNat + n ≤ dest.toNat ∨ dest ≤ src) : ForwardSafe dest src n := by
  intro i j hji hin he
  have hnat := congrArg UInt32.toNat he
  have hle : dest ≤ src ↔ dest.toNat ≤ src.toNat := UInt32.le_iff_toNat_le
  simp only [UInt32.toNat_add, UInt32.toNat_ofNat'] at hnat
  rw [hle] at h
  omega

theorem backwardSafe_of_lt {dest src : UInt32} {n : Nat} (hd : dest.toNat + n ≤ 2 ^ 32)
    (hs : src.toNat + n ≤ 2 ^ 32) (h : src.toNat < dest.toNat) : BackwardSafe dest src n := by
  intro i j hij hjn he
  have hnat := congrArg UInt32.toNat he
  simp only [UInt32.toNat_add, UInt32.toNat_ofNat'] at hnat
  omega

end StringMachine

open StringMachine

/-- **`memset` and `memcpy` are the byte-wise routines.** `memset` fills the region with the low byte of its
    argument; `memcpy` copies, when the regions do not overlap or the destination lies below the source. -/
theorem memory_routines_bytewise (m : StringMachine) :
    (∀ s c n : UInt32, s.toNat + n.toNat ≤ 2 ^ 32 →
      ∃ m', (∀ fuel, n.toNat ≤ fuel → memset fuel s c n m = some m') ∧ Filled m.mem m'.mem s n c.toUInt8)
    ∧ (∀ dest src n : UInt32, dest.toNat + n.toNat ≤ 2 ^ 32 → src.toNat + n.toNat ≤ 2 ^ 32 →
      (dest.toNat + n.toNat ≤ src.toNat ∨ src.toNat + n.toNat ≤ dest.toNat ∨ dest < src) →
      ∃ m', (∀ fuel, n.toNat ≤ fuel → memcpy fuel dest src n m = some m') ∧ Copied m.mem m'.mem dest src n) := by
  refine ⟨fun s c n _ => ?_, fun dest src n hd hs hover => ?_⟩
  · let m₀ : StringMachine := { m with
      eax := (c &&& 0xFF) <<< 24 ||| (c &&& 0xFF) <<< 16 ||| (c &&& 0xFF) <<< 8 ||| (c &&& 0xFF)
      edi := s
      ecx := n }
    have hstart : FilledTo m.mem s c.toUInt8 0 m₀ :=
      ⟨(written_empty _ _ _ _).symm, (UInt32.add_zero s).symm, dwordBytes_fill c⟩
    obtain ⟨m', hrun, hm'⟩ := (worksFill m.mem s n c.toUInt8).all hstart rfl
    refine ⟨m', hrun, ?_⟩
    rw [hm'.mem]
    exact filled_written _ _ _ _
  · have hsafe : ForwardSafe dest src n.toNat :=
      forwardSafe_of_le hd hs (hover.imp_right (Or.imp_right UInt32.le_of_lt))
    let m₀ : StringMachine := { m with esi := src, edi := dest, ecx := n }
    have hstart : CopiedTo m.mem dest src 0 m₀ :=
      ⟨(written_empty _ _ _ _).symm, (UInt32.add_zero src).symm, (UInt32.add_zero dest).symm⟩
    obtain ⟨m', hrun, hm'⟩ := (worksCopy m.mem hsafe).all hstart rfl
    refine ⟨m', hrun, ?_⟩
    rw [hm'.mem]
    exact copied_written _ _ _ _

/-- A machine whose memory holds the low byte of each address. -/
def sampleMachine : StringMachine := ⟨fun x => x.toUInt8, 0, 0, 0, 0, 0, true⟩

/-- A fill from an odd address, and a copy of overlapping regions. -/
theorem memory_routines_bytewise_sample :
    (∃ m', memset 9 0x1003 0x141 9 sampleMachine = some m' ∧ m'.mem 0x100B = 0x41)
    ∧ (∃ m', memcpy 9 0x1001 0x1003 9 sampleMachine = some m' ∧ m'.mem 0x1009 = 0x0B) := by
  obtain ⟨m₁, hrun₁, hfill⟩ := (memory_routines_bytewise sampleMachine).1 0x1003 0x141 9 (by decide)
  obtain ⟨m₂, hrun₂, hcopy⟩ := (memory_routines_bytewise sampleMachine).2 0x1001 0x1003 9 (by decide)
    (by decide) (by decide)
  exact ⟨⟨m₁, hrun₁ 9 (Nat.le_refl 9), hfill.bytes 8 (by decide)⟩,
    ⟨m₂, hrun₂ 9 (Nat.le_refl 9), hcopy.bytes 8 (by decide)⟩⟩

/-! ## `memmove` -/

/-- The regions are moved, the direction flag is clear, and the next string instructions go upwards. -/
structure MovedAndReady (m : UInt32 → UInt8) (dest src n : UInt32) (m' : StringMachine) : Prop where
  copied : Copied m m'.mem dest src n
  flag : m'.df = false
  upwards : (m'.movs 1).edi = m'.edi + 1 ∧ m'.stosl.edi = m'.edi + 4

theorem memmove_up (m : StringMachine) {dest src : UInt32} (n : UInt32) (hd : dest.toNat + n.toNat ≤ 2 ^ 32)
    (hs : src.toNat + n.toNat ≤ 2 ^ 32) (hle : dest ≤ src) :
    Copied m.mem (memmove dest src n m).mem dest src n ∧ (memmove dest src n m).df = false := by
  let m₀ : StringMachine := { m with edi := dest, esi := src, ecx := n, df := false }
  have hrun : memmove dest src n m = rep (movs 1) m₀ := by
    unfold memmove
    dsimp only
    rw [if_pos hle]
  have hstart : CopiedTo m.mem dest src 0 m₀ :=
    ⟨(written_empty _ _ _ _).symm, (UInt32.add_zero src).symm, (UInt32.add_zero dest).symm⟩
  have hsafe : ForwardSafe dest src n.toNat := forwardSafe_of_le hd hs (Or.inr (Or.inr hle))
  have hall : 0 + m₀.ecx.toNat * 1 = n.toNat := by
    rw [Nat.zero_add, Nat.mul_one]
  have hdone := hstart.rep rfl hsafe (Nat.le_of_eq hall) (Nat.le_of_lt n.toNat_lt)
  rw [hall] at hdone
  rw [hrun, hdone.mem]
  exact ⟨copied_written _ _ _ _, rep_df (movs 1) (fun _ => rfl) m₀⟩

theorem memmove_down (m : StringMachine) {dest src : UInt32} (n : UInt32) (hd : dest.toNat + n.toNat ≤ 2 ^ 32)
    (hs : src.toNat + n.toNat ≤ 2 ^ 32) (hlt : ¬ dest ≤ src) :
    Copied m.mem (memmove dest src n m).mem dest src n ∧ (memmove dest src n m).df = true := by
  let m₀ : StringMachine := { m with edi := dest + n - 1, esi := src + n - 1, ecx := n, df := true }
  have hrun : memmove dest src n m = rep (movs 1) m₀ := by
    unfold memmove
    dsimp only
    rw [if_neg hlt]
  have hstart : CopiedFrom m.mem dest src m₀.ecx.toNat m₀.ecx.toNat m₀ := by
    refine ⟨(written_empty _ _ _ _).symm, ?_, ?_⟩
    · exact congrArg (fun x => src + x - 1) UInt32.ofNat_toNat.symm
    · exact congrArg (fun x => dest + x - 1) UInt32.ofNat_toNat.symm
  have hsafe : BackwardSafe dest src n.toNat :=
    backwardSafe_of_lt hd hs (UInt32.lt_iff_toNat_lt.1 (UInt32.not_le.1 hlt))
  have hdone := hstart.rep rfl hsafe
  rw [hrun, hdone.mem]
  exact ⟨copied_written _ _ _ _, rep_df (movs 1) (fun _ => rfl) m₀⟩

/-- **`memmove` always moves the bytes, and leaves the direction flag clear only on its way upwards.** Nothing
    clears the flag behind the way downwards. -/
theorem memmove_ready_iff (m : StringMachine) {dest src n : UInt32} (hd : dest.toNat + n.toNat ≤ 2 ^ 32)
    (hs : src.toNat + n.toNat ≤ 2 ^ 32) :
    Copied m.mem (memmove dest src n m).mem dest src n
    ∧ (MovedAndReady m.mem dest src n (memmove dest src n m) ↔ dest ≤ src) := by
  by_cases hle : dest ≤ src
  · obtain ⟨hcopied, hflag⟩ := memmove_up m n hd hs hle
    refine ⟨hcopied, iff_of_true ⟨hcopied, hflag, ?_, ?_⟩ hle⟩
    · simp only [movs, advance, hflag, Bool.false_eq_true, if_false]
      rfl
    · simp only [stosl, advance, hflag, Bool.false_eq_true, if_false]
  · obtain ⟨hcopied, hflag⟩ := memmove_down m n hd hs hle
    exact ⟨hcopied, iff_of_false (fun h => absurd (hflag.symm.trans h.flag) (by decide)) hle⟩

/-- The way upwards, with overlapping regions. -/
theorem memmove_ready_sample :
    MovedAndReady sampleMachine.mem 0x1000 0x1002 8 (memmove 0x1000 0x1002 8 sampleMachine) :=
  (memmove_ready_iff sampleMachine (by decide) (by decide)).2.2 (by decide)

/-- The way downwards: the flag stays set, and the next string instruction goes downwards. -/
theorem memmove_leaves_flag_set :
    (memmove 0x1001 0x1000 2 sampleMachine).df = true
    ∧ ((memmove 0x1001 0x1000 2 sampleMachine).movs 1).edi = (memmove 0x1001 0x1000 2 sampleMachine).edi - 1
    ∧ ¬ MovedAndReady sampleMachine.mem 0x1001 0x1000 2 (memmove 0x1001 0x1000 2 sampleMachine) := by
  have hflag : (memmove 0x1001 0x1000 2 sampleMachine).df = true := by decide
  exact ⟨hflag, by decide, fun h => absurd (hflag.symm.trans h.flag) (by decide)⟩

end UnixTerminal
