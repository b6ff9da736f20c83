import UnixTerminal.Kernel.Files
import Mathlib.Algebra.Group.Nat.Defs
import Mathlib.Data.List.Basic

set_option autoImplicit false

/-! # What an image means

The contents of a file, as the layout of the image defines them, and what `read_data` delivers of
them: the asked-for part, from every offset but one. `read_data` enters the file at the block that
holds `offset`, found by a test against 4096 and a division. `deliveredFrom` is the place where it
really enters: at offset 4096 exactly the test `offset > BLOCK_SIZE` picks the first block where the
second is meant, and the byte in it is number 0. The number of bytes is right all the same, because
the loop counts from `offset`.

`WellFormed` is the property of an image that everything about reading rests on. -/

namespace UnixTerminal

namespace FileSys

variable (fs : FileSys)

/-- The length of the file of an inode. -/
def fileLength (inode : Nat) : Nat := fs.inodeWord inode 0

/-- Byte `n` of the file: it lies in data block `n / 4096`, whose number is in the inode block. -/
def fileByte (inode n : Nat) : UInt8 :=
  fs.dataByte (fs.inodeWord inode (1 + n / blockSize)) (n % blockSize)

/-- The bytes of a file. -/
def contents (inode : Nat) : List UInt8 := (List.range (fs.fileLength inode)).map (fs.fileByte inode)

/-- The name of directory entry `i`. -/
def entryName (i : Nat) : List UInt8 := cstr (fs.myDentry i).fileName

/-- An inode block that describes a file: a possible length, and block numbers of the image. -/
structure GoodInode (inode : Nat) : Prop where
  lt : inode < fs.numInodes
  length_le : fs.fileLength inode ≤ 1023 * 4096
  block_lt : ∀ n, n < fs.fileLength inode → fs.inodeWord inode (1 + n / blockSize) < fs.numDataBlocks

/-- A well-formed image. -/
structure WellFormed : Prop where
  file : ∀ i, i < fs.numDentries → (fs.myDentry i).fileType = fileType →
    fs.GoodInode (fs.myDentry i).inode.toNat
  name_length : ∀ i, i < fs.numDentries →
    1 ≤ (fs.entryName i).length ∧ (fs.entryName i).length ≤ 32
  name_inj : ∀ i j, i < fs.numDentries → j < fs.numDentries → fs.entryName i = fs.entryName j → i = j

variable {fs} in
/-- A file of `n` blocks, from the numbers of these. -/
theorem goodInode_of_blocks {inode n : Nat} (hinode : inode < fs.numInodes) (hn : n ≤ 1023)
    (hlen : fs.fileLength inode ≤ n * 4096)
    (hblocks : ∀ w, w < n → w * 4096 < fs.fileLength inode → fs.inodeWord inode (1 + w) < fs.numDataBlocks) :
    fs.GoodInode inode := by
  refine ⟨hinode, hlen.trans (Nat.mul_le_mul_right 4096 hn), fun m hm => hblocks _ ?_ ?_⟩
  · simp only [blockSize]
    omega
  · simp only [blockSize]
    omega

@[simp] theorem length_contents (inode : Nat) : (fs.contents inode).length = fs.fileLength inode := by
  simp [contents]

/-- The part of a file from a position inside it on starts with the byte there. -/
theorem drop_contents {inode n : Nat} (h : n < fs.fileLength inode) :
    (fs.contents inode).drop n = fs.fileByte inode n :: (fs.contents inode).drop (n + 1) := by
  rw [List.drop_eq_getElem_cons (by simpa using h)]
  simp [contents]

/-! ## `read_data` -/

/-- One pass of the copy loop at position `pos` of the file, after the step to the next block if one is
    due: the loop may stand behind the last byte of a block (`currBlockByte = 4096`). -/
theorem readDataLoop_succ {inode currLength todo i currBlockByte pos count : Nat} (hi : 1 ≤ i)
    (hb : currBlockByte ≤ 4096) (hpos : pos = 4096 * (i - 1) + currBlockByte) :
    fs.readDataLoop inode currLength (todo + 1) i (fs.inodeWord inode i) currBlockByte count
      = if fs.inodeWord inode (1 + pos / blockSize) ≥ fs.numDataBlocks then (false, [])
        else if count + 1 ≥ currLength then (true, [fs.fileByte inode pos])
        else
          ((fs.readDataLoop inode currLength todo (1 + pos / blockSize)
              (fs.inodeWord inode (1 + pos / blockSize)) (pos % blockSize + 1) (count + 1)).1,
            fs.fileByte inode pos :: (fs.readDataLoop inode currLength todo (1 + pos / blockSize)
              (fs.inodeWord inode (1 + pos / blockSize)) (pos % blockSize + 1) (count + 1)).2) := by
  rw [readDataLoop, fileByte]
  by_cases hfull : currBlockByte = 4096
  · have hblock : i + 1 = 1 + pos / blockSize := by
      simp only [blockSize]
      omega
    have hbyte : pos % blockSize = 0 := by
      simp only [blockSize]
      omega
    have hge : decide (currBlockByte ≥ blockSize) = true := decide_eq_true hfull.ge
    simp only [hge, if_true, hblock, hbyte]
  · have hblock : i = 1 + pos / blockSize := by
      simp only [blockSize]
      omega
    have hbyte : currBlockByte = pos % blockSize := by
      simp only [blockSize]
      omega
    have hlt : ¬ currBlockByte ≥ blockSize := by
      simp only [blockSize]
      omega
    simp only [decide_eq_false hlt, Bool.false_eq_true, if_false, ← hblock, ← hbyte]

/-- A position, as the block word of its block and the byte in the block. -/
theorem position_eq (pos : Nat) :
    pos % blockSize < 4096 ∧ pos = 4096 * (1 + pos / blockSize - 1) + pos % blockSize := by
  simp only [blockSize]
  omega

/-- The copy loop delivers the bytes of the file from `pos` on, up to what `count`, the position it
    keeps for itself, leaves of the file, if their blocks exist. -/
theorem readDataLoop_eq {inode : Nat} (todo : Nat) :
    ∀ (i currBlockByte pos count : Nat), 1 ≤ i → currBlockByte ≤ 4096 →
      pos = 4096 * (i - 1) + currBlockByte → pos ≤ count → count < fs.fileLength inode →
      (∀ m, m < min todo (fs.fileLength inode - count) →
        fs.inodeWord inode (1 + (pos + m) / 4096) < fs.numDataBlocks) →
      fs.readDataLoop inode (fs.fileLength inode) todo i (fs.inodeWord inode i) currBlockByte count
        = (true, ((fs.contents inode).drop pos).take (min todo (fs.fileLength inode - count))) := by
  induction todo with
  | zero => intro i b pos count _ _ _ _ _ _; simp [readDataLoop]
  | succ todo ih =>
      intro i b pos count hi hb hpos hle hlt hblocks
      have hposlt : pos < fs.fileLength inode := by omega
      have hmin : min (todo + 1) (fs.fileLength inode - count)
          = min todo (fs.fileLength inode - (count + 1)) + 1 := by omega
      obtain ⟨hmod, hdiv⟩ := position_eq pos
      have hnext : pos + 1 = 4096 * (1 + pos / blockSize - 1) + (pos % blockSize + 1) := by omega
      have hblock : fs.inodeWord inode (1 + pos / blockSize) < fs.numDataBlocks :=
        hblocks 0 (by omega)
      rw [fs.readDataLoop_succ hi hb hpos, if_neg (Nat.not_le.2 hblock),
        fs.drop_contents hposlt, hmin, List.take_succ_cons]
      split_ifs with hend
      · -- the end of the file
        have hnone : fs.fileLength inode - (count + 1) = 0 := by omega
        rw [hnone, Nat.min_zero, List.take_zero]
      · rw [ih _ _ (pos + 1) (count + 1) (Nat.le_add_right 1 _) hmod hnext (by omega) (by omega)
          (fun m hm => ?_)]
        have hm' := hblocks (m + 1) (by omega)
        rwa [Nat.add_assoc, Nat.add_comm 1 m]

/-- With the length of the file as the bound, `take` needs no other one. -/
theorem take_min_drop_contents (inode offset length : Nat) :
    ((fs.contents inode).drop offset).take (min length (fs.fileLength inode - offset))
      = ((fs.contents inode).drop offset).take length := by
  rw [List.take_eq_take_iff, List.length_drop, length_contents]
  omega

/-- The position of the file from which `read_data` copies. -/
def deliveredFrom (offset : Nat) : Nat := if offset = 4096 then 0 else offset

theorem deliveredFrom_le (offset : Nat) : deliveredFrom offset ≤ offset := by
  unfold deliveredFrom
  split_ifs
  · exact Nat.zero_le offset
  · exact Nat.le_refl offset

/-- The block word and the byte in the block at which the copy starts. -/
theorem startBlock_eq (offset : Nat) :
    (if offset > blockSize then 1 + offset / blockSize else 1) = 1 + deliveredFrom offset / blockSize ∧
    offset % blockSize = deliveredFrom offset % blockSize := by
  unfold deliveredFrom blockSize
  split_ifs with h1 h2 h2 <;> omega

/-- A read of `length` bytes from `offset` finds everything it needs: the inode, a position in the file,
    and the block of each byte that it copies. -/
structure ReadDataOk (inode offset length : Nat) : Prop where
  inode_lt : inode < fs.numInodes
  offset_le : offset ≤ fs.fileLength inode
  block_lt : ∀ m, m < min length (fs.fileLength inode - offset) →
    fs.inodeWord inode (1 + (deliveredFrom offset + m) / 4096) < fs.numDataBlocks

variable {fs} in
theorem GoodInode.readDataOk {inode offset : Nat} (hgood : fs.GoodInode inode)
    (hle : offset ≤ fs.fileLength inode) (length : Nat) : fs.ReadDataOk inode offset length := by
  have hfrom := deliveredFrom_le offset
  exact ⟨hgood.lt, hle, fun m hm => hgood.block_lt (deliveredFrom offset + m) (by omega)⟩

/-- **What `read_data` delivers** from inside a file. -/
theorem readData_delivers {inode offset length : Nat} (hok : fs.ReadDataOk inode offset length)
    (hlt : offset < fs.fileLength inode) :
    fs.readData inode offset length
      = (((min length (fs.fileLength inode - offset) : Nat) : Int),
          ((fs.contents inode).drop (deliveredFrom offset)).take
            (min length (fs.fileLength inode - offset))) := by
  have hle := deliveredFrom_le offset
  have hnot : ¬ offset > fs.inodeWord inode 0 := Nat.not_lt.2 hlt.le
  have hne : ¬ offset = fs.inodeWord inode 0 := hlt.ne
  obtain ⟨hmod, hdiv⟩ := position_eq (deliveredFrom offset)
  unfold readData
  rw [if_neg (Nat.not_le.2 hok.inode_lt), if_neg hnot, if_neg hne]
  dsimp only
  rw [(startBlock_eq offset).1, (startBlock_eq offset).2, ← fileLength,
    fs.readDataLoop_eq length _ _ _ _ (Nat.le_add_right 1 _) hmod.le hdiv hle hlt hok.block_lt]
  dsimp only
  rw [if_pos rfl, List.length_take, List.length_drop, length_contents]
  congr 2
  omega

theorem readData_deliveredFrom {inode : Nat} (hgood : fs.GoodInode inode) {offset : Nat}
    (hlt : offset < fs.fileLength inode) (length : Nat) :
    fs.readData inode offset length
      = (((min length (fs.fileLength inode - offset) : Nat) : Int),
          ((fs.contents inode).drop (deliveredFrom offset)).take
            (min length (fs.fileLength inode - offset))) :=
  fs.readData_delivers (hgood.readDataOk hlt.le length) hlt

/-- **`read_data` delivers the asked-for part of the file**, from every offset but 4096 (and from
    there too when nothing is asked for or nothing is left). -/
theorem readData_eq {inode : Nat} (hgood : fs.GoodInode inode) {offset length : Nat}
    (hle : offset ≤ fs.fileLength inode)
    (hoff : length = 0 ∨ offset ≠ 4096 ∨ fs.fileLength inode = 4096) :
    fs.readData inode offset length
      = (((((fs.contents inode).drop offset).take length).length : Int),
          ((fs.contents inode).drop offset).take length) := by
  rcases hle.lt_or_eq with hlt | hend
  · rw [fs.readData_deliveredFrom hgood hlt, List.length_take, List.length_drop, length_contents]
    rcases Nat.eq_zero_or_pos length with rfl | hpos
    · simp only [Nat.zero_min, List.take_zero]
    · have hne : offset ≠ 4096 := by omega
      rw [deliveredFrom, if_neg hne, take_min_drop_contents]
  · -- the end of the file
    have hlen : offset = fs.inodeWord inode 0 := hend
    have hdrop : (fs.contents inode).drop offset = [] :=
      List.drop_eq_nil_of_le (by rw [length_contents]; exact hend.ge)
    rw [readData, if_neg (Nat.not_le.2 hgood.lt), if_neg (Nat.not_lt.2 hlen.le), if_pos hlen, hdrop]
    simp

/-- A copy loop that ends well has found the block of every byte it copied. -/
theorem block_lt_of_readDataLoop {inode currLength : Nat} (todo : Nat) :
    ∀ (i currBlockByte pos count : Nat), 1 ≤ i → currBlockByte ≤ 4096 →
      pos = 4096 * (i - 1) + currBlockByte →
      (fs.readDataLoop inode currLength todo i (fs.inodeWord inode i) currBlockByte count).1 = true →
      ∀ m, m < min todo (currLength - count) →
        fs.inodeWord inode (1 + (pos + m) / 4096) < fs.numDataBlocks := by
  induction todo with
  | zero =>
      intro i b pos count _ _ _ _ m hm
      exact absurd hm (by omega)
  | succ todo ih =>
      intro i b pos count hi hb hpos hdone m hm
      obtain ⟨hmod, hdiv⟩ := position_eq pos
      have hnext : pos + 1 = 4096 * (1 + pos / blockSize - 1) + (pos % blockSize + 1) := by omega
      rw [fs.readDataLoop_succ hi hb hpos] at hdone
      split_ifs at hdone with hbad hend
      · -- the last byte of the file
        obtain rfl : m = 0 := by omega
        exact Nat.not_le.1 hbad
      · cases m with
        | zero => exact Nat.not_le.1 hbad
        | succ m =>
            have hm' := ih _ _ (pos + 1) (count + 1) (Nat.le_add_right 1 _) hmod hnext hdone m (by omega)
            rwa [Nat.add_assoc, Nat.add_comm 1 m] at hm'

/-- **`read_data` fails or returns the number of bytes that are left**, up to `length`. -/
theorem readData_ret (inode offset length : Nat) :
    (fs.ReadDataOk inode offset length → (fs.readData inode offset length).1
      = (min length (fs.fileLength inode - offset) : Nat)) ∧
    (¬ fs.ReadDataOk inode offset length → (fs.readData inode offset length).1 = -1) := by
  constructor
  · intro hok
    rcases hok.offset_le.lt_or_eq with hlt | hend
    · rw [fs.readData_delivers hok hlt]
    · have hnone : min length (fs.fileLength inode - offset) = 0 := by omega
      have hlen : offset = fs.inodeWord inode 0 := hend
      have hnot : ¬ offset > fs.inodeWord inode 0 := Nat.not_lt.2 hlen.le
      rw [readData, if_neg (Nat.not_le.2 hok.inode_lt), if_neg hnot, if_pos hlen, hnone]
      rfl
  · intro hnot
    unfold readData
    by_cases hinode : inode ≥ fs.numInodes
    · rw [if_pos hinode]
    by_cases hover : offset > fs.inodeWord inode 0
    · rw [if_neg hinode, if_pos hover]
    rw [if_neg hinode, if_neg hover]
    by_cases hend : offset = fs.inodeWord inode 0
    · -- nothing is left
      refine absurd ⟨Nat.not_le.1 hinode, Nat.le_of_eq hend, fun m hm => ?_⟩ hnot
      have hlen : fs.fileLength inode = offset := hend.symm
      exact absurd hm (by omega)
    rw [if_neg hend]
    dsimp only
    obtain ⟨hmod, hdiv⟩ := position_eq (deliveredFrom offset)
    rw [(startBlock_eq offset).1, (startBlock_eq offset).2]
    refine if_neg (fun hdone => hnot ⟨Nat.not_le.1 hinode, Nat.not_lt.1 hover, ?_⟩)
    exact fs.block_lt_of_readDataLoop length _ _ _ _ (Nat.le_add_right 1 _) hmod.le hdiv hdone

/-- Inside the file a read of some bytes never answers 0. -/
theorem readData_ne_zero {inode offset length : Nat} (hlt : offset < fs.fileLength inode)
    (hpos : 0 < length) : (fs.readData inode offset length).1 ≠ 0 := by
  obtain ⟨hok, hfail⟩ := fs.readData_ret inode offset length
  by_cases h : fs.ReadDataOk inode offset length
  · rw [hok h]
    omega
  · rw [hfail h]
    decide

/-! ## The directory -/

/-- The search looks at the strings alone. -/
theorem dentryMatches_iff (fname : List UInt8) (i : Nat) :
    fs.dentryMatches fname i = true ↔ fs.entryName i = cstr fname := by
  unfold dentryMatches entryName
  rw [Bool.and_eq_true, beq_iff_eq, beq_iff_eq, strncmp_eq_zero, strlen_eq_length_cstr,
    strlen_eq_length_cstr]
  constructor
  · rintro ⟨h1, h2⟩
    rwa [h2, List.take_length, ← h2, List.take_length] at h1
  · intro h
    rw [h]
    exact ⟨rfl, rfl⟩

/-- What is found under a name: the string matters, not what lies behind its NUL. -/
theorem readDentryByName_congr {s t : List UInt8} (h : cstr s = cstr t) :
    fs.readDentryByName s = fs.readDentryByName t := by
  have hm : fs.dentryMatches s = fs.dentryMatches t := by
    funext i
    rw [Bool.eq_iff_iff, dentryMatches_iff, dentryMatches_iff, h]
  unfold readDentryByName
  rw [strlen_eq_length_cstr, strlen_eq_length_cstr, h, hm]

/-- The entry found is the one of that name. -/
theorem readDentryByName_spec {s : List UInt8} {d : Dentry} (h : fs.readDentryByName s = some d) :
    ∃ i, i < fs.numDentries ∧ fs.entryName i = cstr s ∧ d.fileType = (fs.myDentry i).fileType
      ∧ d.inode = (fs.myDentry i).inode := by
  unfold readDentryByName at h
  split_ifs at h with h1 h2
  obtain ⟨i, hi, rfl⟩ := Option.map_eq_some_iff.1 h
  exact ⟨i, List.mem_range.1 (List.mem_of_find?_eq_some hi),
    (fs.dentryMatches_iff s i).1 (List.find?_some hi), rfl, rfl⟩

/-- The entry of a name, from a lookup that was evaluated. -/
theorem exists_dentry {s : List UInt8} {type inode : UInt32}
    (h : (fs.readDentryByName s).map (fun d => (d.fileType, d.inode)) = some (type, inode)) :
    ∃ d, fs.readDentryByName s = some d ∧ d.fileType = type ∧ d.inode = inode := by
  obtain ⟨d, hd, hfields⟩ := Option.map_eq_some_iff.1 h
  obtain ⟨htype, hinode⟩ := Prod.mk.inj hfields
  exact ⟨d, hd, htype, hinode⟩

theorem WellFormed.goodInode {fs : FileSys} (hwf : fs.WellFormed) {s : List UInt8} {d : Dentry}
    (h : fs.readDentryByName s = some d) (htype : d.fileType = fileType) :
    fs.GoodInode d.inode.toNat := by
  obtain ⟨i, hi, -, hty, hino⟩ := fs.readDentryByName_spec h
  rw [hino]
  exact hwf.file i hi (hty ▸ htype)

end FileSys

/-! ## An image -/

/-- The four bytes of a word. -/
def wordBytes (w : Nat) : List UInt8 := (List.range 4).map (fun i => UInt8.ofNat (w / 256 ^ i))

/-- Put `bytes` at offset `off` of an image. -/
def place (off : Nat) (bytes : List UInt8) (image : Nat → UInt8) : Nat → UInt8 :=
  fun n => if off ≤ n then bytes.getD (n - off) (image n) else image n

/-- A directory entry: the name over 32 zeros, type and inode. -/
def entryBytes (name : List UInt8) (type inode : Nat) : List UInt8 :=
  name ++ List.replicate (32 - name.length) 0 ++ wordBytes type ++ wordBytes inode

/-- `"data"`, a file of 4097 bytes in two blocks, and `"note"`, a short text. -/
def dataName : List UInt8 := [100, 97, 116, 97]
def noteName : List UInt8 := [110, 111, 116, 101]

/-- The image used in the examples: an executable `shell` of 28 bytes with entry address
    `0x8048000`, `data` with 4096 times `a` and one `b`, and `note`. -/
def sampleImage : Nat → UInt8 :=
  place 0 (wordBytes 4 ++ wordBytes 3 ++ wordBytes 4) <|
  place 64 (entryBytes [46] 1 0) <|
  place 128 (entryBytes [115, 104, 101, 108, 108] 2 0) <|
  place 192 (entryBytes dataName 2 1) <|
  place 256 (entryBytes noteName 2 2) <|
  place 4096 (wordBytes 28 ++ wordBytes 0) <|
  place 8192 (wordBytes 4097 ++ wordBytes 1 ++ wordBytes 2) <|
  place 12288 (wordBytes 3 ++ wordBytes 3) <|
  place 16384 ([0x7F, 0x45, 0x4C, 0x46] ++ List.replicate 20 0 ++ wordBytes 0x8048000) <|
  place 28672 [104, 105, 10] <|
  fun n => if 20480 ≤ n ∧ n < 24576 then 97 else if 24576 ≤ n ∧ n < 28672 then 98 else 0

/-- The file system on it. -/
def sampleFs : FileSys := fileInit sampleImage

theorem sampleFs_goodInode {inode : Nat} (h : inode < 3) : sampleFs.GoodInode inode := by
  have hlen : ∀ i < 3, sampleFs.fileLength i ≤ 2 * 4096 := by decide +kernel
  have hblocks : ∀ i < 3, ∀ w < 2, w * 4096 < sampleFs.fileLength i →
      sampleFs.inodeWord i (1 + w) < sampleFs.numDataBlocks := by decide +kernel
  have hnum : sampleFs.numInodes = 3 := by decide +kernel
  exact FileSys.goodInode_of_blocks (hnum ▸ h) (by decide) (hlen inode h) (hblocks inode h)

theorem sampleFs_wellFormed : sampleFs.WellFormed := by
  have hnum : sampleFs.numDentries = 4 := by decide +kernel
  have hinode : ∀ i < 4, (sampleFs.myDentry i).inode.toNat < 3 := by decide +kernel
  have hname : ∀ i < 4, 1 ≤ (sampleFs.entryName i).length ∧ (sampleFs.entryName i).length ≤ 32 := by
    decide +kernel
  have hinj : ∀ i < 4, ∀ j < 4, sampleFs.entryName i = sampleFs.entryName j → i = j := by
    decide +kernel
  refine ⟨fun i hi _ => sampleFs_goodInode (hinode i (hnum ▸ hi)), fun i hi => hname i (hnum ▸ hi),
    fun i j hi hj => hinj i (hnum ▸ hi) j (hnum ▸ hj)⟩

end UnixTerminal
