import UnixTerminal.Library.Holds
import UnixTerminal.Proofs.Image

set_option autoImplicit false

/-! # Images and what they encode

`Volume` is what an image is made from: the directory entries with the contents of the regular files,
and the data blocks that each file is given. `Volume.LaidOut` is the format, written from the side of
the encoder: which bytes stand where. `file_init` and the three read functions decode every image of
that format to the volume it was made from. -/

namespace UnixTerminal

/-- A directory entry, and the contents of the file where it is one. -/
structure Entry where
  name : List UInt8
  type : Nat
  inode : Nat
  contents : List UInt8
deriving DecidableEq

/-- An entry the format has room for. -/
structure Entry.Fits (e : Entry) : Prop where
  name_pos : 1 ≤ e.name.length
  name_le : e.name.length ≤ 32
  name_nul : ∀ c ∈ e.name, c ≠ 0
  type_le : e.type ≤ 2
  inode_lt : e.inode < 2 ^ 32

/-- A volume: the entries, the numbers of inodes and data blocks, and the number `block inode b` of
    the data block that holds the `b`-th 4096 bytes of the file of `inode`. -/
structure Volume where
  entries : List Entry
  numInodes : Nat
  numDataBlocks : Nat
  block : Nat → Nat → Nat
  length_le : entries.length ≤ 63
  numInodes_lt : numInodes < 2 ^ 32
  numDataBlocks_lt : numDataBlocks < 2 ^ 32
  fits : ∀ e ∈ entries, e.Fits
  names_nodup : (entries.map Entry.name).Nodup
  file_inode : ∀ e ∈ entries, e.type = 2 → e.inode < numInodes
  file_length : ∀ e ∈ entries, e.type = 2 → e.contents.length ≤ 1023 * 4096
  file_block : ∀ e ∈ entries, e.type = 2 → ∀ b, 4096 * b < e.contents.length →
    block e.inode b < numDataBlocks

namespace Volume

variable (v : Volume)

/-- The words of an inode block: the length of the file and the numbers of its data blocks. -/
def inodeBytes (e : Entry) : List UInt8 :=
  wordBytes e.contents.length
    ++ (List.range ((e.contents.length + 4095) / 4096)).flatMap (fun b => wordBytes (v.block e.inode b))

/-- The image is laid out as the format says: the three counts in the boot block, 64 bytes for each
    entry from byte 64 on, a block for each inode, and the data blocks behind them. -/
structure LaidOut (image : Nat → UInt8) : Prop where
  counts : Holds image 0
    (wordBytes v.entries.length ++ wordBytes v.numInodes ++ wordBytes v.numDataBlocks)
  entry : ∀ i e, v.entries[i]? = some e →
    Holds image (64 + 64 * i) (entryBytes e.name e.type e.inode)
  inode : ∀ e ∈ v.entries, e.type = 2 → Holds image (4096 + 4096 * e.inode) (v.inodeBytes e)
  data : ∀ e ∈ v.entries, e.type = 2 → ∀ b,
    Holds image (4096 * (1 + v.numInodes) + 4096 * v.block e.inode b)
      ((e.contents.drop (4096 * b)).take 4096)

end Volume

/-! ## Words and names -/

theorem length_wordBytes (w : Nat) : (wordBytes w).length = 4 := rfl

/-- A word reads back. -/
theorem wordAt_of_holds {image : Nat → UInt8} {off w : Nat} (h : Holds image off (wordBytes w))
    (hw : w < 2 ^ 32) : wordAt image off = w := by
  have hbyte : ∀ i, i < 4 → (image (off + i)).toNat = w / 256 ^ i % 256 := by
    intro i hi
    rw [h i hi, wordBytes, List.getD_eq_getElem _ _ (by simpa using hi), List.getElem_map,
      List.getElem_range, UInt8.toNat_ofNat']
  have h0 := hbyte 0 (by decide)
  have h1 := hbyte 1 (by decide)
  have h2 := hbyte 2 (by decide)
  have h3 := hbyte 3 (by decide)
  rw [Nat.add_zero] at h0
  rw [wordAt, h0, h1, h2, h3]
  omega

section Decode

variable {v : Volume} {image : Nat → UInt8}

/-- The 33 bytes of `file_name`, from the 32 of the entry. -/
theorem cstr_dentryAt {e : Entry} (hfits : e.Fits) {i : Nat}
    (h : Holds image (64 + 64 * i) (entryBytes e.name e.type e.inode)) :
    cstr (dentryAt image i).fileName = e.name := by
  have hlen : (e.name ++ List.replicate (32 - e.name.length) (0 : UInt8)).length = 32 := by
    rw [List.length_append, List.length_replicate]
    have := hfits.name_le
    omega
  have hbytes : (List.range maxFileChar).map (fun j => image (64 + 64 * i + j))
      = e.name ++ List.replicate (32 - e.name.length) 0 := by
    refine List.ext_getElem (by rw [hlen, List.length_map, List.length_range]; rfl) ?_
    intro j hj hj'
    rw [List.getElem_map, List.getElem_range, h.left.left j hj', List.getD_eq_getElem _ _ hj']
  rw [dentryAt, hbytes, List.append_assoc, ← List.replicate_succ', List.replicate_succ]
  exact cstr_append_nul hfits.name_nul _

/-- The type and the inode behind the name. -/
theorem words_dentryAt {e : Entry} (hfits : e.Fits) {i : Nat}
    (h : Holds image (64 + 64 * i) (entryBytes e.name e.type e.inode)) :
    (dentryAt image i).fileType = UInt32.ofNat e.type
      ∧ (dentryAt image i).inode = UInt32.ofNat e.inode := by
  have hlen : (e.name ++ List.replicate (32 - e.name.length) (0 : UInt8)).length = 32 := by
    rw [List.length_append, List.length_replicate]
    have := hfits.name_le
    omega
  have htype := h.left.right
  have hinode := h.right
  rw [hlen] at htype
  rw [List.length_append, hlen, length_wordBytes] at hinode
  have htypeLt : e.type < 2 ^ 32 := Nat.lt_of_le_of_lt hfits.type_le (by decide)
  exact ⟨congrArg UInt32.ofNat (wordAt_of_holds htype htypeLt),
    congrArg UInt32.ofNat (wordAt_of_holds hinode hfits.inode_lt)⟩

namespace Volume.LaidOut

theorem numDentries (h : v.LaidOut image) : (fileInit image).numDentries = v.entries.length :=
  wordAt_of_holds h.counts.left.left (Nat.lt_of_le_of_lt v.length_le (by decide))

theorem numInodes (h : v.LaidOut image) : (fileInit image).numInodes = v.numInodes :=
  wordAt_of_holds h.counts.left.right v.numInodes_lt

theorem numDataBlocks (h : v.LaidOut image) : (fileInit image).numDataBlocks = v.numDataBlocks :=
  wordAt_of_holds h.counts.right v.numDataBlocks_lt

/-- Entry `i` of the table is entry `i` of the volume. -/
theorem myDentry (h : v.LaidOut image) {i : Nat} {e : Entry} (he : v.entries[i]? = some e) :
    (fileInit image).entryName i = e.name
      ∧ ((fileInit image).myDentry i).fileType = UInt32.ofNat e.type
      ∧ ((fileInit image).myDentry i).inode = UInt32.ofNat e.inode := by
  have hfits := v.fits e (List.mem_of_getElem? he)
  have hwords := words_dentryAt hfits (h.entry i e he)
  exact ⟨cstr_dentryAt hfits (h.entry i e he), hwords.1, hwords.2⟩

/-! ## Files -/

theorem fileLength (h : v.LaidOut image) {e : Entry} (he : e ∈ v.entries) (htype : e.type = 2) :
    (fileInit image).fileLength e.inode = e.contents.length :=
  wordAt_of_holds (h.inode e he htype).left
    (Nat.lt_of_le_of_lt (v.file_length e he htype) (by decide))

/-- Word `b + 1` of an inode block is the number of the file's data block `b`. -/
theorem inodeWord (h : v.LaidOut image) {e : Entry} (he : e ∈ v.entries) (htype : e.type = 2)
    {b : Nat} (hb : 4096 * b < e.contents.length) :
    (fileInit image).inodeWord e.inode (1 + b) = v.block e.inode b := by
  have hword := (h.inode e he htype).right.piece (fun _ => length_wordBytes _)
    (show b < (e.contents.length + 4095) / 4096 by omega)
  rw [length_wordBytes] at hword
  have hlt : v.block e.inode b < 2 ^ 32 :=
    (v.file_block e he htype b hb).trans v.numDataBlocks_lt
  rw [FileSys.inodeWord, Nat.mul_add, ← Nat.add_assoc]
  exact wordAt_of_holds hword hlt

theorem goodInode (h : v.LaidOut image) {e : Entry} (he : e ∈ v.entries) (htype : e.type = 2) :
    (fileInit image).GoodInode e.inode where
  lt := h.numInodes ▸ v.file_inode e he htype
  length_le := h.fileLength he htype ▸ v.file_length e he htype
  block_lt n hn := by
    rw [h.fileLength he htype] at hn
    have hb : 4096 * (n / 4096) < e.contents.length := by omega
    rw [h.numDataBlocks, show blockSize = 4096 from rfl, h.inodeWord he htype hb]
    exact v.file_block e he htype _ hb

/-- Byte `n` of a file is where the format puts it. -/
theorem fileByte (h : v.LaidOut image) {e : Entry} (he : e ∈ v.entries) (htype : e.type = 2)
    {n : Nat} (hn : n < e.contents.length) :
    (fileInit image).fileByte e.inode n = e.contents.getD n 0 := by
  have hb : 4096 * (n / 4096) < e.contents.length := by omega
  have hmod : n % 4096 < 4096 := Nat.mod_lt _ (by decide)
  have hlen : n % 4096 < ((e.contents.drop (4096 * (n / 4096))).take 4096).length := by
    rw [List.length_take, List.length_drop]
    omega
  have hbyte := h.data e he htype (n / 4096) (n % 4096) hlen
  rw [FileSys.fileByte, show blockSize = 4096 from rfl, h.inodeWord he htype hb, FileSys.dataByte,
    h.numInodes]
  refine hbyte.trans ?_
  rw [List.getD_eq_getElem _ _ hlen, List.getElem_take, List.getElem_drop,
    List.getD_eq_getElem _ _ hn]
  congr 1
  omega

/-- The contents of a file, put together from its blocks. -/
theorem contents (h : v.LaidOut image) {e : Entry} (he : e ∈ v.entries) (htype : e.type = 2) :
    (fileInit image).contents e.inode = e.contents := by
  have hlen := h.fileLength he htype
  refine List.ext_getElem (by rw [FileSys.length_contents, hlen]) ?_
  intro n hn hn'
  rw [← List.getD_eq_getElem _ 0 hn', ← h.fileByte he htype hn']
  simp only [FileSys.contents, List.getElem_map, List.getElem_range]

end Volume.LaidOut

end Decode

/-! ## The read functions -/

/-- What a read of entry `e` delivers. -/
structure Entry.ReadAs (e : Entry) (d : Dentry) : Prop where
  name : cstr d.fileName = e.name
  type : d.fileType = UInt32.ofNat e.type
  inode : d.inode = UInt32.ofNat e.inode

section Read

variable {v : Volume} {image : Nat → UInt8}

/-- `read_dentry_by_index`. -/
theorem readDentryByIndex_laidOut (h : v.LaidOut image) {i : Nat} {e : Entry}
    (he : v.entries[i]? = some e) (dentry : Dentry) :
    ∃ d, (fileInit image).readDentryByIndex i dentry = some d ∧ e.ReadAs d := by
  have hlt : i < (fileInit image).numDentries := by
    rw [h.numDentries]
    exact (List.getElem?_eq_some_iff.1 he).1
  obtain ⟨hname, htype, hinode⟩ := h.myDentry he
  refine ⟨_, if_neg (Nat.not_le.2 hlt), ?_, htype, hinode⟩
  refine (cstr_append_nul (fun c hc => ne_zero_of_mem_cstr hc) _).trans hname

/-- `read_dentry_by_name`: names are distinct, so the first match is the entry. -/
theorem readDentryByName_laidOut (h : v.LaidOut image) {e : Entry} (he : e ∈ v.entries)
    {fname : List UInt8} (hfname : cstr fname = e.name) :
    ∃ d, (fileInit image).readDentryByName fname = some d ∧ e.ReadAs d := by
  obtain ⟨i, hi⟩ := List.mem_iff_getElem?.1 he
  have hlt : i < v.entries.length := (List.getElem?_eq_some_iff.1 hi).1
  have hlen : strlen fname = e.name.length := by rw [strlen_eq_length_cstr, hfname]
  have hfits := v.fits e he
  have hfind : ((List.range (fileInit image).numDentries).find?
      ((fileInit image).dentryMatches fname)) = some i := by
    refine List.find?_eq_some_iff_getElem.2 ⟨?_, i, ?_, ?_, ?_⟩
    · rw [FileSys.dentryMatches_iff, hfname]
      exact (h.myDentry hi).1
    · rw [List.length_range, h.numDentries]
      exact hlt
    · exact List.getElem_range _
    · intro j hj
      rw [List.getElem_range, Bool.not_eq_true', Bool.eq_false_iff, Ne, FileSys.dentryMatches_iff,
        hfname]
      intro hname
      have hj' : v.entries[j]? = some v.entries[j] := List.getElem?_eq_getElem (hj.trans hlt)
      rw [(h.myDentry hj').1] at hname
      -- two entries of one name are one
      have hsame : (v.entries.map Entry.name)[j]? = (v.entries.map Entry.name)[i]? := by
        rw [List.getElem?_map, List.getElem?_map, hj', hi, Option.map_some, Option.map_some, hname]
      have hji := (List.getElem?_inj (by rw [List.length_map]; omega) v.names_nodup).1 hsame
      exact absurd hji (Nat.ne_of_lt hj)
  have hpos : ¬ strlen fname < 1 := by
    rw [hlen]
    exact Nat.not_lt.2 hfits.name_pos
  have hle : ¬ strlen fname > maxFileChar := by
    rw [hlen]
    exact Nat.not_lt.2 hfits.name_le
  obtain ⟨-, htype, hinode⟩ := h.myDentry hi
  rw [FileSys.readDentryByName, if_neg hpos, if_neg hle, hfind, Option.map_some]
  exact ⟨_, rfl, (cstr_append_nul (fun c hc => ne_zero_of_mem_cstr hc) _).trans hfname, htype, hinode⟩

/-- `read_data` of the whole file. -/
theorem readData_laidOut (h : v.LaidOut image) {e : Entry} (he : e ∈ v.entries) (htype : e.type = 2)
    {n : Nat} (hn : e.contents.length ≤ n) :
    (fileInit image).readData e.inode 0 n = ((e.contents.length : Int), e.contents) := by
  have hread := @FileSys.readData_eq (fileInit image) e.inode (h.goodInode he htype) 0 n
    (Nat.zero_le _) (Or.inr (Or.inl (by decide)))
  rwa [List.drop_zero, h.contents he htype, List.take_of_length_le hn] at hread

end Read

/-- **An image decodes to what was encoded.** On every image that is laid out as the format says,
    `read_dentry_by_index` gives the entries in their order, `read_dentry_by_name` finds each entry by
    its name, and `read_data` from offset 0 of at least the length gives the contents. -/
theorem image_decodes (v : Volume) (image : Nat → UInt8) (h : v.LaidOut image) :
    (∀ i e, v.entries[i]? = some e → ∀ dentry, ∃ d,
      (fileInit image).readDentryByIndex i dentry = some d ∧ e.ReadAs d)
    ∧ (∀ e ∈ v.entries, ∀ fname, cstr fname = e.name → ∃ d,
      (fileInit image).readDentryByName fname = some d ∧ e.ReadAs d)
    ∧ ∀ e ∈ v.entries, e.type = 2 → ∀ n, e.contents.length ≤ n →
      (fileInit image).readData e.inode 0 n = ((e.contents.length : Int), e.contents) :=
  ⟨fun _ _ he dentry => readDentryByIndex_laidOut h he dentry,
    fun _ he _ hfname => readDentryByName_laidOut h he hfname,
    fun _ he htype _ hn => readData_laidOut h he htype hn⟩

/-- The directory itself, and the file `note` in the second of two data blocks. -/
def noteVolume : Volume where
  entries := [⟨[46], 1, 0, []⟩, ⟨noteName, 2, 0, [104, 105, 10]⟩]
  numInodes := 1
  numDataBlocks := 2
  block _ _ := 1
  length_le := by decide
  numInodes_lt := by decide
  numDataBlocks_lt := by decide
  fits := by
    intro e he
    rcases List.mem_pair.1 he with rfl | rfl
    · constructor <;> decide +kernel
    · constructor <;> decide +kernel
  names_nodup := by decide
  file_inode := by decide
  file_length := by decide
  file_block _ _ _ _ _ := by decide

/-- Its image. -/
def noteImage : Nat → UInt8 :=
  place 0 (wordBytes 2 ++ wordBytes 1 ++ wordBytes 2) <|
  place 64 (entryBytes [46] 1 0) <|
  place 128 (entryBytes noteName 2 0) <|
  place 4096 (wordBytes 3 ++ wordBytes 1) <|
  place 12288 [104, 105, 10] <|
  fun _ => 0

theorem noteImage_laidOut : noteVolume.LaidOut noteImage where
  counts := by decide +kernel
  entry i e he := by
    have hlt : i < 2 := (List.getElem?_eq_some_iff.1 he).1
    obtain rfl | rfl : i = 0 ∨ i = 1 := by omega
    · cases he
      decide +kernel
    · cases he
      decide +kernel
  inode e he _ := by
    revert e
    decide +kernel
  data e he htype b := by
    rcases List.mem_pair.1 he with rfl | rfl
    · cases htype
    · rcases Nat.eq_zero_or_pos b with rfl | hb
      · show Holds noteImage 12288 [104, 105, 10]
        decide +kernel
      · rw [List.drop_eq_nil_of_le (show 3 ≤ 4096 * b by omega)]
        exact Holds.nil

/-- The text of `note` is read back. -/
theorem image_decodes_note : (fileInit noteImage).readData 0 0 100 = (3, [104, 105, 10]) :=
  (image_decodes noteVolume noteImage noteImage_laidOut).2.2
    ⟨noteName, 2, 0, [104, 105, 10]⟩ (by decide) rfl 100 (by decide)

end UnixTerminal
