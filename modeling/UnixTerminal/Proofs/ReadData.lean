import UnixTerminal.Kernel.ReadDataLoop
import UnixTerminal.Proofs.Image
import Mathlib.Data.List.GetD

set_option autoImplicit false

/-! # The bytes that `read_data` delivers

Byte by byte, the answer of `read_data` is right from every offset but 4096. The second half is about
the loop as it is written, with signed counters, unsigned bounds and a buffer in memory: it ends after
the right number of passes, and writes and consults nothing but what it should. -/

namespace UnixTerminal

namespace FileSys

variable (fs : FileSys)

/-- The bytes one by one. -/
theorem getElem?_readData {inode : Nat} (hgood : fs.GoodInode inode) {offset : Nat}
    (hlt : offset < fs.fileLength inode) {length k : Nat}
    (hk : k < min length (fs.fileLength inode - offset)) :
    (fs.readData inode offset length).2[k]? = some (fs.fileByte inode (deliveredFrom offset + k)) := by
  have hle := deliveredFrom_le offset
  have hin : deliveredFrom offset + k < fs.fileLength inode := by omega
  rw [fs.readData_deliveredFrom hgood hlt, List.getElem?_take_of_lt hk, List.getElem?_drop]
  simp [contents, hin]

/-- **`read_data` returns the right bytes** if and only if the offset is not 4096, or the bytes asked
    for there are the same as those at the start of the file. -/
theorem readData_right_iff {inode : Nat} (hgood : fs.GoodInode inode) {offset : Nat}
    (hlt : offset < fs.fileLength inode) (length : Nat) :
    ((fs.readData inode offset length).1 = (min length (fs.fileLength inode - offset) : Nat) ∧
      ∀ k, k < min length (fs.fileLength inode - offset) →
        (fs.readData inode offset length).2[k]?
          = some (fs.dataByte (fs.inodeWord inode (1 + (offset + k) / 4096)) ((offset + k) % 4096))) ↔
    (offset ≠ 4096 ∨ ∀ k, k < min length (fs.fileLength inode - 4096) →
      fs.fileByte inode k = fs.fileByte inode (4096 + k)) := by
  have hret : (fs.readData inode offset length).1
      = (min length (fs.fileLength inode - offset) : Nat) := by
    rw [fs.readData_deliveredFrom hgood hlt]
  constructor
  · rintro ⟨-, hbytes⟩
    by_cases hoff : offset = 4096
    · subst hoff
      refine Or.inr (fun k hk => ?_)
      have hk' := fs.getElem?_readData hgood hlt hk
      rw [hbytes k hk, deliveredFrom, if_pos rfl, Nat.zero_add, Option.some.injEq] at hk'
      exact hk'.symm
    · exact Or.inl hoff
  · intro h
    refine ⟨hret, fun k hk => ?_⟩
    rw [fs.getElem?_readData hgood hlt hk, Option.some.injEq, deliveredFrom]
    split_ifs with hoff
    · subst hoff
      rw [Nat.zero_add]
      exact (h.resolve_left (fun hne => hne rfl)) k hk
    · rfl

end FileSys

/-- Two bytes over the end of the first block. -/
theorem readData_right_data :
    (sampleFs.readData 1 4095 2).1 = (min 2 (sampleFs.fileLength 1 - 4095) : Nat) ∧
      ∀ k, k < min 2 (sampleFs.fileLength 1 - 4095) →
        (sampleFs.readData 1 4095 2).2[k]?
          = some (sampleFs.dataByte (sampleFs.inodeWord 1 (1 + (4095 + k) / 4096)) ((4095 + k) % 4096)) :=
  (sampleFs.readData_right_iff (sampleFs_goodInode (by decide)) (by decide +kernel) 2).2
    (Or.inl (by decide))

/-- The byte at offset 4096 of `data` is `b`, and `read_data` delivers the `a` at offset 0. -/
theorem readData_at_block_size :
    ¬ ∀ (fs : FileSys) (inode offset length : Nat), fs.GoodInode inode → offset < fs.fileLength inode →
      (fs.readData inode offset length).1 = (min length (fs.fileLength inode - offset) : Nat) ∧
      ∀ k, k < min length (fs.fileLength inode - offset) →
        (fs.readData inode offset length).2[k]?
          = some (fs.dataByte (fs.inodeWord inode (1 + (offset + k) / 4096)) ((offset + k) % 4096)) := by
  intro h
  have hbyte := (h sampleFs 1 4096 1 (sampleFs_goodInode (by decide)) (by decide +kernel)).2 0
    (by decide +kernel)
  exact absurd hbyte (by decide +kernel)

/-! ## The loop with its machine integers

All counters stay far below 2^31, so that the signed ones mean what they say. `AtPass n` is the state
behind pass `n`; the loop makes exactly as many passes as bytes are asked for and left. -/

theorem wordAt_lt (image : Nat → UInt8) (off : Nat) : wordAt image off < 2 ^ 32 := by
  have h0 := (image off).toNat_lt
  have h1 := (image (off + 1)).toNat_lt
  have h2 := (image (off + 2)).toNat_lt
  have h3 := (image (off + 3)).toNat_lt
  simp only [wordAt]
  omega

theorem ofNat_succ (n : Nat) : Int32.ofNat n + 1 = Int32.ofNat (n + 1) :=
  (Int32.ofNat_add n 1).symm

theorem toInt32_eq_ofNat (v : UInt32) : v.toInt32 = Int32.ofNat v.toNat := by
  rw [← UInt32.toInt32_ofNat', UInt32.ofNat_toNat]

namespace FileSys

variable (fs : FileSys)

/-- The loop behind pass `n` of a call for `offset`. -/
structure AtPass (inode offset : UInt32) (buf : Int → UInt8) (n : Nat) (s : CopyLoop) : Prop where
  copied : s.copied = Int32.ofNat n
  count : s.count = Int32.ofNat (offset.toNat + n)
  block : ∃ i b, s.i = Int32.ofNat i ∧ s.currBlockByte = Int32.ofNat b ∧ 1 ≤ i ∧ b ≤ 4096 ∧
    4096 * (i - 1) + b = deliveredFrom offset.toNat + n ∧ i ≤ 1023 ∧
    s.currDataIdx = (UInt32.ofNat (fs.inodeWord inode.toNat i)).toInt32
  ended : s.fileReachedEnd = decide (offset.toNat + n = fs.fileLength inode.toNat)
  stored : ∀ j, s.buf j =
    if 0 ≤ j ∧ j < n then fs.fileByte inode.toNat (deliveredFrom offset.toNat + j.toNat) else buf j
  consulted : ∀ w ∈ s.consulted, 1 ≤ w ∧ w ≤ (fs.fileLength inode.toNat + 4095) / 4096

variable {fs} {inode offset : UInt32} {buf : Int → UInt8}

theorem toInt_ofNat_small {n : Nat} (h : n < 2 ^ 31) : (Int32.ofNat n).toInt = n :=
  Int32.toInt_ofNat_of_lt h

/-- A block word of the file, as it is loaded. -/
theorem loadIdx_eq (s : CopyLoop) {i : Nat} (hi : s.i = Int32.ofNat i) (hsmall : i ≤ 1023) :
    s.loadIdx fs inode = { s with
      currDataIdx := (UInt32.ofNat (fs.inodeWord inode.toNat i)).toInt32
      consulted := s.consulted ++ [(i : Int)] } := by
  rw [CopyLoop.loadIdx, hi, toInt_ofNat_small (by omega), Int.toNat_natCast]

theorem atPass_start (hgood : fs.GoodInode inode.toNat) (hlt : offset.toNat < fs.fileLength inode.toNat) :
    fs.AtPass inode offset buf 0 (fs.startCopy inode offset buf) := by
  have hlen := hgood.length_le
  have hle := deliveredFrom_le offset.toNat
  obtain ⟨hi, hb⟩ := startBlock_eq offset.toNat
  have hword : (if offset > 4096 then 1 + offset / 4096 else 1).toInt32
      = Int32.ofNat (1 + deliveredFrom offset.toNat / 4096) := by
    have hcond : offset > 4096 ↔ offset.toNat > blockSize := UInt32.lt_iff_toNat_lt
    rw [toInt32_eq_ofNat]
    congr 1
    rw [show deliveredFrom offset.toNat / 4096 = deliveredFrom offset.toNat / blockSize from rfl, ← hi]
    by_cases hbig : offset > 4096
    · have hdiv : (1 + offset / 4096).toNat = 1 + offset.toNat / 4096 := by
        rw [UInt32.toNat_add, UInt32.toNat_div]
        change (1 + offset.toNat / 4096) % 2 ^ 32 = _
        omega
      rw [if_pos hbig, if_pos (hcond.1 hbig), hdiv]
      rfl
    · rw [if_neg hbig, if_neg (fun h => hbig (hcond.2 h))]
      rfl
  have hbyte : (offset % 4096).toInt32 = Int32.ofNat (deliveredFrom offset.toNat % 4096) := by
    rw [toInt32_eq_ofNat, UInt32.toNat_mod]
    exact congrArg Int32.ofNat hb
  have hsmall : 1 + deliveredFrom offset.toNat / 4096 ≤ 1023 := by omega
  unfold startCopy
  dsimp only
  rw [loadIdx_eq _ hword hsmall]
  refine ⟨rfl, toInt32_eq_ofNat offset, ⟨_, _, hword, hbyte, ?_⟩, ?_, fun j => ?_, fun w hw => ?_⟩
  · exact ⟨by omega, by omega, by omega, hsmall, rfl⟩
  · simp only [Nat.add_zero, Bool.false_eq, decide_eq_false_iff_not]
    omega
  · have hnone : ¬ (0 ≤ j ∧ j < ((0 : Nat) : Int)) := by omega
    rw [if_neg hnone]
  · obtain rfl := List.mem_singleton.1 hw
    omega

/-- The step to the next block: `p` is the position in the file of the byte that is copied next. -/
theorem nextBlock_eq {n : Nat} {s : CopyLoop} (hgood : fs.GoodInode inode.toNat)
    (hs : fs.AtPass inode offset buf n s) {p : Nat} (hp : p = deliveredFrom offset.toNat + n)
    (hin : p < fs.fileLength inode.toNat) :
    ∃ consulted : List Int,
      (∀ w ∈ consulted, 1 ≤ w ∧ w ≤ (fs.fileLength inode.toNat + 4095) / 4096) ∧
      s.nextBlock fs inode = { s with
        i := Int32.ofNat (1 + p / 4096)
        currDataIdx := (UInt32.ofNat (fs.inodeWord inode.toNat (1 + p / 4096))).toInt32
        currBlockByte := Int32.ofNat (p % 4096)
        consulted := consulted } := by
  have hlen := hgood.length_le
  obtain ⟨i, b, hi, hb, hi1, hb4096, hpos, hi1023, hidx⟩ := hs.block
  have hge : s.currBlockByte ≥ 4096 ↔ b = 4096 := by
    rw [hb, ge_iff_le, Int32.le_iff_toInt_le, toInt_ofNat_small (by omega)]
    change (4096 : Int) ≤ b ↔ _
    omega
  unfold CopyLoop.nextBlock
  by_cases hfull : b = 4096
  · -- the last byte was the last of its block
    have hnext : i + 1 = 1 + p / 4096 := by omega
    have hzero : p % 4096 = 0 := by omega
    have hnextI : s.i + 1 = Int32.ofNat (i + 1) := by rw [hi, ofNat_succ]
    rw [if_pos (hge.2 hfull), ← hnext, hzero, ← hnextI, loadIdx_eq _ hnextI (by omega)]
    refine ⟨_, fun w hw => ?_, rfl⟩
    rcases List.mem_append.1 hw with hw | hw
    · exact hs.consulted w hw
    · obtain rfl := List.mem_singleton.1 hw
      omega
  · have hsame : i = 1 + p / 4096 := by omega
    have hmod : b = p % 4096 := by omega
    rw [if_neg (fun h => hfull (hge.1 h)), ← hsame, ← hmod, ← hi, ← hb, ← hidx]
    exact ⟨s.consulted, hs.consulted, rfl⟩

variable (fs inode)

/-- `curr_length` -/
def currLength : UInt32 := UInt32.ofNat (fs.inodeWord inode.toNat 0)

theorem toNat_currLength : (fs.currLength inode).toNat = fs.fileLength inode.toNat :=
  UInt32.toNat_ofNat_of_lt' (wordAt_lt _ _)

variable {fs inode}

/-- The count behind one more pass. -/
theorem AtPass.count_succ {n : Nat} {s : CopyLoop} (hs : fs.AtPass inode offset buf n s) :
    s.count + 1 = Int32.ofNat (offset.toNat + (n + 1)) := by
  rw [hs.count, ofNat_succ, Nat.add_assoc]

/-- The end is reached when the file is used up. -/
theorem AtPass.ended_succ {n : Nat} {s : CopyLoop} (hs : fs.AtPass inode offset buf n s)
    (hgood : fs.GoodInode inode.toNat) (hn : offset.toNat + n < fs.fileLength inode.toNat) :
    (if (s.count + 1).toUInt32 ≥ fs.currLength inode then true else s.fileReachedEnd)
      = decide (offset.toNat + (n + 1) = fs.fileLength inode.toNat) := by
  have hlen := hgood.length_le
  have hsize : offset.toNat + (n + 1) < UInt32.size := by
    simp only [UInt32.size]
    omega
  have hreached : (s.count + 1).toUInt32 ≥ fs.currLength inode
      ↔ offset.toNat + (n + 1) = fs.fileLength inode.toNat := by
    rw [hs.count_succ, Int32.toUInt32_ofNat', ge_iff_le, UInt32.le_iff_toNat_le,
      toNat_currLength, UInt32.toNat_ofNat_of_lt' hsize]
    omega
  have hbefore : s.fileReachedEnd = false := by
    rw [hs.ended, decide_eq_false_iff_not]
    omega
  rw [hbefore]
  by_cases h : (s.count + 1).toUInt32 ≥ fs.currLength inode
  · rw [if_pos h, decide_eq_true (hreached.1 h)]
  · rw [if_neg h, decide_eq_false (fun he => h (hreached.2 he))]

/-- **One pass** inside the file copies the next byte. -/
theorem atPass_body {n : Nat} {s : CopyLoop} (hgood : fs.GoodInode inode.toNat)
    (hs : fs.AtPass inode offset buf n s) (hn : offset.toNat + n < fs.fileLength inode.toNat) :
    ∃ s', s.body fs inode (fs.currLength inode) = .inr s' ∧ fs.AtPass inode offset buf (n + 1) s' := by
  have hlen := hgood.length_le
  have hle := deliveredFrom_le offset.toNat
  obtain ⟨p, hp⟩ : ∃ p, p = deliveredFrom offset.toNat + n := ⟨_, rfl⟩
  have hin : p < fs.fileLength inode.toNat := by omega
  obtain ⟨consulted, hconsulted, hblock⟩ := nextBlock_eq hgood hs hp hin
  have hgoodBlock : fs.inodeWord inode.toNat (1 + p / 4096) < fs.numDataBlocks :=
    hgood.block_lt p hin
  have hword : ((UInt32.ofNat (fs.inodeWord inode.toNat (1 + p / 4096))).toInt32).toUInt32.toNat
      = fs.inodeWord inode.toNat (1 + p / 4096) :=
    UInt32.toNat_ofNat_of_lt' (wordAt_lt _ _)
  have hbyte : (Int32.ofNat (p % 4096)).toInt.toNat = p % 4096 := by
    rw [toInt_ofNat_small (by omega), Int.toNat_natCast]
  unfold CopyLoop.body
  dsimp only
  rw [hblock]
  dsimp only
  rw [hword, if_neg (Nat.not_le.2 hgoodBlock)]
  have hcopied : s.copied + 1 = Int32.ofNat (n + 1) := by rw [hs.copied, ofNat_succ]
  refine ⟨_, rfl, hcopied, hs.count_succ, ?_, hs.ended_succ hgood hn, fun j => ?_, hconsulted⟩
  · exact ⟨1 + p / 4096, p % 4096 + 1, rfl, ofNat_succ _, by omega, by omega, by omega, by omega, rfl⟩
  · -- one more byte is stored
    change Function.update s.buf s.copied.toInt (fs.dataByte _ (Int32.ofNat (p % 4096)).toInt.toNat) j = _
    rw [hs.copied, toInt_ofNat_small (by omega), hbyte, hword]
    by_cases hj : j = n
    · subst hj
      rw [Function.update_self, if_pos (by omega), Int.toNat_natCast, ← hp]
      rfl
    · have hrange : (0 ≤ j ∧ j < ((n + 1 : Nat) : Int)) ↔ (0 ≤ j ∧ j < (n : Int)) := by omega
      rw [Function.update_of_ne hj, hs.stored j]
      simp only [hrange]

/-- The test of the loop behind pass `n`. -/
theorem goesOn_eq {n : Nat} {s : CopyLoop} (hgood : fs.GoodInode inode.toNat)
    (hs : fs.AtPass inode offset buf n s) (length : UInt32)
    (hn : offset.toNat + n ≤ fs.fileLength inode.toNat) :
    s.goesOn length = decide (n < min length.toNat (fs.fileLength inode.toNat - offset.toNat)) := by
  have hlen := hgood.length_le
  have hsize : n < UInt32.size := by
    simp only [UInt32.size]
    omega
  have htest : s.copied.toUInt32 < length ↔ n < length.toNat := by
    rw [hs.copied, Int32.toUInt32_ofNat', UInt32.lt_iff_toNat_lt, UInt32.toNat_ofNat_of_lt' hsize]
  unfold CopyLoop.goesOn
  rw [hs.ended, Bool.eq_iff_iff, Bool.and_eq_true, Bool.not_eq_true', decide_eq_true_eq,
    decide_eq_false_iff_not, decide_eq_true_eq, htest]
  omega

/-- **The loop** of a call from inside a file makes one pass for each byte that is asked for and left. -/
theorem loopRun_copy (hgood : fs.GoodInode inode.toNat) (hlt : offset.toNat < fs.fileLength inode.toNat)
    (buf : Int → UInt8) (length : UInt32) :
    ∃ s, fs.AtPass inode offset buf (min length.toNat (fs.fileLength inode.toNat - offset.toNat)) s ∧
      ∀ fuel, min length.toNat (fs.fileLength inode.toNat - offset.toNat) ≤ fuel →
        loopRun (fun s => s.goesOn length) (fun s => s.body fs inode (fs.currLength inode)) fuel
          (fs.startCopy inode offset buf)
          = some (min length.toNat (fs.fileLength inode.toNat - offset.toNat), .inr s) := by
  refine @loopRun_counted _ _ _ _ (fs.AtPass inode offset buf) _ ?_ ?_ _ (atPass_start hgood hlt)
  · intro n s hn hs
    refine ⟨?_, atPass_body hgood hs (by omega)⟩
    rw [goesOn_eq hgood hs length (by omega), decide_eq_true hn]
  · intro s hs
    rw [goesOn_eq hgood hs length (by omega), decide_eq_false (Nat.lt_irrefl _)]

/-- What a call delivers, whatever `length`. -/
structure Delivers (fs : FileSys) (inode offset : UInt32) (buf : Int → UInt8) (n : Nat)
    (r : ReadDataResult) : Prop where
  ret : r.ret.toInt = n
  passes : r.passes = n
  stored : ∀ k, k < n → (fs.contents inode.toNat)[deliveredFrom offset.toNat + k]? = some (r.buf k)
  kept : ∀ j : Int, ¬ (0 ≤ j ∧ j < n) → r.buf j = buf j
  consulted : ∀ w ∈ r.consulted, 1 ≤ w ∧ w ≤ (fs.fileLength inode.toNat + 4095) / 4096

theorem readDataWords_inside (hgood : fs.GoodInode inode.toNat)
    (hlt : offset.toNat < fs.fileLength inode.toNat) (buf : Int → UInt8) (length : UInt32) :
    ∃ r, fs.Delivers inode offset buf
        (min length.toNat (fs.fileLength inode.toNat - offset.toNat)) r ∧
      ∀ fuel, min length.toNat (fs.fileLength inode.toNat - offset.toNat) ≤ fuel →
        fs.readDataWords inode offset buf length fuel = some r := by
  have hlen := hgood.length_le
  have hle := deliveredFrom_le offset.toNat
  obtain ⟨s, hs, hrun⟩ := loopRun_copy hgood hlt buf length
  have hbounds : ¬ offset > fs.currLength inode ∧ ¬ offset = fs.currLength inode := by
    rw [gt_iff_lt, UInt32.lt_iff_toNat_lt, ← UInt32.toNat_inj, toNat_currLength]
    omega
  refine ⟨⟨s.copied, s.buf, _, s.consulted⟩, ⟨?_, rfl, fun k hk => ?_, fun j hj => ?_, hs.consulted⟩,
    fun fuel hfuel => ?_⟩
  · dsimp only
    rw [hs.copied, toInt_ofNat_small (by omega)]
  · have hin : deliveredFrom offset.toNat + k < fs.fileLength inode.toNat := by omega
    dsimp only
    rw [hs.stored, if_pos (by omega), Int.toNat_natCast]
    simp [contents, hin]
  · dsimp only
    rw [hs.stored, if_neg hj]
  · unfold readDataWords
    dsimp only
    rw [if_neg (Nat.not_le.2 hgood.lt), ← currLength, if_neg hbounds.1, if_neg hbounds.2, hrun fuel hfuel]
    rfl

/-- The bytes stored are those of the model that counts in natural numbers. -/
theorem Delivers.readData_eq (hgood : fs.GoodInode inode.toNat)
    (hlt : offset.toNat < fs.fileLength inode.toNat) {length : UInt32} {r : ReadDataResult}
    (h : fs.Delivers inode offset buf (min length.toNat (fs.fileLength inode.toNat - offset.toNat)) r) :
    fs.readData inode.toNat offset.toNat length.toNat
      = (r.ret.toInt, (List.range r.passes).map (fun (k : Nat) => r.buf k)) := by
  have hle := deliveredFrom_le offset.toNat
  rw [fs.readData_deliveredFrom hgood hlt, h.ret, h.passes]
  congr 1
  refine List.ext_getElem? (fun k => ?_)
  by_cases hk : k < min length.toNat (fs.fileLength inode.toNat - offset.toNat)
  · rw [List.getElem?_take_of_lt hk, List.getElem?_drop, h.stored k hk]
    simp [hk]
  · rw [List.getElem?_eq_none (by simp; omega), List.getElem?_eq_none (by simp; omega)]

/-- A shorter read delivers a prefix. -/
theorem Delivers.shorter {n n' : Nat} {r r' : ReadDataResult} (h : fs.Delivers inode offset buf n r)
    (h' : fs.Delivers inode offset buf n' r') (hle : n' ≤ n) :
    r'.ret.toInt ≤ r.ret.toInt ∧ ∀ j, 0 ≤ j → j < r'.ret.toInt → r'.buf j = r.buf j := by
  rw [h.ret, h'.ret]
  refine ⟨Int.ofNat_le.2 hle, fun j hj0 hj => ?_⟩
  obtain ⟨k, rfl⟩ := Int.eq_ofNat_of_zero_le hj0
  have hk : k < n' := Int.ofNat_lt.1 hj
  exact Option.some.inj ((h'.stored k hk).symm.trans (h.stored k (Nat.lt_of_lt_of_le hk hle)))

/-- **`read_data` accounts exactly and stays inside the file**, with its 32-bit counters and for every
    32-bit length. -/
theorem readDataWords_exact (fs : FileSys) (inode offset : UInt32) (buf : Int → UInt8) :
    (∀ length fuel, (fs.numInodes ≤ inode.toNat ∨ fs.fileLength inode.toNat < offset.toNat) →
      fs.readDataWords inode offset buf length fuel = some ⟨-1, buf, 0, []⟩) ∧
    (∀ length fuel, inode.toNat < fs.numInodes → offset.toNat = fs.fileLength inode.toNat →
      fs.readDataWords inode offset buf length fuel = some ⟨0, buf, 0, []⟩) ∧
    (fs.GoodInode inode.toNat → offset.toNat < fs.fileLength inode.toNat → ∀ length, ∃ r,
      fs.Delivers inode offset buf (min length.toNat (fs.fileLength inode.toNat - offset.toNat)) r ∧
      (∀ fuel, min length.toNat (fs.fileLength inode.toNat - offset.toNat) ≤ fuel →
        fs.readDataWords inode offset buf length fuel = some r) ∧
      fs.readData inode.toNat offset.toNat length.toNat
        = (r.ret.toInt, (List.range r.passes).map (fun (k : Nat) => r.buf k)) ∧
      ∀ length', length' ≤ length → ∃ r',
        (∀ fuel, min length'.toNat (fs.fileLength inode.toNat - offset.toNat) ≤ fuel →
          fs.readDataWords inode offset buf length' fuel = some r') ∧
        r'.ret.toInt ≤ r.ret.toInt ∧ ∀ j, 0 ≤ j → j < r'.ret.toInt → r'.buf j = r.buf j) := by
  refine ⟨fun length fuel h => ?_, fun length fuel hino hend => ?_, fun hgood hlt length => ?_⟩
  · unfold readDataWords
    by_cases hino : fs.numInodes ≤ inode.toNat
    · rw [if_pos hino]
    · have hpast : offset > fs.currLength inode :=
        UInt32.lt_iff_toNat_lt.2 (by rw [toNat_currLength]; exact h.resolve_left hino)
      dsimp only
      rw [if_neg hino, ← currLength, if_pos hpast]
  · have heq : offset = fs.currLength inode :=
      UInt32.toNat_inj.1 (by rw [toNat_currLength]; exact hend)
    have hnot : ¬ offset > fs.currLength inode := by
      rw [← heq]
      exact UInt32.lt_irrefl offset
    unfold readDataWords
    dsimp only
    rw [if_neg (Nat.not_le.2 hino), ← currLength, if_neg hnot, if_pos heq]
  · obtain ⟨r, hr, hrun⟩ := readDataWords_inside hgood hlt buf length
    refine ⟨r, hr, hrun, hr.readData_eq hgood hlt, fun length' hle => ?_⟩
    obtain ⟨r', hr', hrun'⟩ := readDataWords_inside hgood hlt buf length'
    have hle' := UInt32.le_iff_toNat_le.1 hle
    exact ⟨r', hrun', hr.shorter hr' (by omega)⟩

end FileSys

/-- All 4097 bytes of `data`, and more asked for than a signed number can say. -/
theorem readDataWords_data : ∃ r : ReadDataResult, r.ret.toInt = 4097 ∧
    sampleFs.readDataWords 1 0 (fun _ => 0) 0xFFFFFFFF 5000 = some r := by
  have hlen : sampleFs.fileLength (1 : UInt32).toNat = 4097 := by decide +kernel
  obtain ⟨r, hr, hrun, -⟩ := (sampleFs.readDataWords_exact 1 0 (fun _ => 0)).2.2
    (sampleFs_goodInode (by decide)) (by rw [hlen]; decide) 0xFFFFFFFF
  rw [hlen] at hr hrun
  exact ⟨r, hr.ret, hrun 5000 (by decide)⟩

end UnixTerminal
