import UnixTerminal.Kernel.Lib

set_option autoImplicit false

/-! # The read-only file system (`files.c`)

The image is the memory that starts at the address given to `file_init`, as a function from byte
offsets to bytes. Its layout is fixed by the constants of `files.h`: a boot block with the three
counts and the directory entries, one 4096-byte block per inode, then the data blocks. Byte offsets
into the image and the counters of `read_data` are natural numbers: an image lies in memory, so none
of the offsets computed for an existing block wraps. -/

namespace UnixTerminal

/-- `BLOCK_SIZE`. -/
def blockSize : Nat := 4096

/-- `MAX_FILE_CHAR`. -/
def maxFileChar : Nat := 32

/-- `RTCTYPE`, `DIRTYPE`, `FILETYPE`. -/
def rtcType : UInt32 := 0
def dirType : UInt32 := 1
def fileType : UInt32 := 2

/-- `dentry_t`: the 33 bytes of `file_name`, the type and the inode. -/
structure Dentry where
  fileName : List UInt8
  fileType : UInt32
  inode : UInt32

/-- The little-endian 32-bit word at byte offset `off`. -/
def wordAt (image : Nat → UInt8) (off : Nat) : Nat :=
  (image off).toNat + 256 * (image (off + 1)).toNat + 65536 * (image (off + 2)).toNat
    + 16777216 * (image (off + 3)).toNat

/-- What `file_init` leaves in the globals of `files.c`: the image itself (`inodes` and
    `data_blocks` are offsets into it), the counts of `my_boot_block` and the table `my_dentry`. -/
structure FileSys where
  image : Nat → UInt8
  numDentries : Nat
  numInodes : Nat
  numDataBlocks : Nat
  myDentry : Nat → Dentry

/-- The directory entry `i` of the image: 64 bytes each from byte 64 on, the type 8 and the inode 9
    words behind the name. The 33rd byte of `file_name` is never written and stays 0. -/
def dentryAt (image : Nat → UInt8) (i : Nat) : Dentry where
  fileName := (List.range maxFileChar).map (fun j => image (64 + 64 * i + j)) ++ [0]
  fileType := UInt32.ofNat (wordAt image (64 + 64 * i + 32))
  inode := UInt32.ofNat (wordAt image (64 + 64 * i + 36))

/-- `file_init`. -/
def fileInit (image : Nat → UInt8) : FileSys where
  image := image
  numDentries := wordAt image 0
  numInodes := wordAt image 4
  numDataBlocks := wordAt image 8
  myDentry := dentryAt image

namespace FileSys

variable (fs : FileSys)

/-- Word `i` of the block of inode `inode` (`inodes + inode*BLOCK_ADDR_SIZE + i`): word 0 is the
    file's length, word `i + 1` the number of its `i`-th data block. -/
def inodeWord (inode i : Nat) : Nat := wordAt fs.image (4096 + 4096 * inode + 4 * i)

/-- Byte `j` of data block `idx`. -/
def dataByte (idx j : Nat) : UInt8 := fs.image (4096 * (1 + fs.numInodes) + 4096 * idx + j)

/-- The test of the search loop of `read_dentry_by_name` on entry `i`. -/
def dentryMatches (fname : List UInt8) (i : Nat) : Bool :=
  strncmp (fs.myDentry i).fileName fname (strlen fname) == 0
    && strlen fname == strlen (fs.myDentry i).fileName

/-- `read_dentry_by_name`: `none` stands for -1. The name it delivers is `fname` over blanks. -/
def readDentryByName (fname : List UInt8) : Option Dentry :=
  if strlen fname < 1 then none
  else if strlen fname > maxFileChar then none
  else
    ((List.range fs.numDentries).find? (fs.dentryMatches fname)).map fun i =>
      { fileName := cstr fname ++ 0 :: List.replicate (maxFileChar - strlen fname) 32
        fileType := (fs.myDentry i).fileType
        inode := (fs.myDentry i).inode }

/-- `read_dentry_by_index`: `none` stands for -1. The name goes over the start of what `dentry` holds. -/
def readDentryByIndex (index : Nat) (dentry : Dentry) : Option Dentry :=
  if index ≥ fs.numDentries then none
  else
    let name := (fs.myDentry index).fileName
    some
      { fileName := cstr name ++ 0 :: dentry.fileName.drop (strlen name + 1)
        fileType := (fs.myDentry index).fileType
        inode := (fs.myDentry index).inode }

/-! The same lookups with the memory behind the pointer `dentry`: the value returned and what
`*dentry` holds afterwards. -/

/-- What the loop of `read_dentry_by_name` does on a match: `memset`, `strcpy` and two assignments. -/
def fillDentry (fname : List UInt8) (i : Nat) : Dentry where
  fileName := strcpy List.set (List.replicate (maxFileChar + 1) 32) 0 fname
  fileType := (fs.myDentry i).fileType
  inode := (fs.myDentry i).inode

/-- The search loop from entry `i` on, with `todo` entries left. -/
def dentryLoop (fname : List UInt8) (dentry : Dentry) : Nat → Nat → Int × Dentry
  | 0, _ => (-1, dentry)
  | todo + 1, i =>
      if fs.dentryMatches fname i then (0, fs.fillDentry fname i) else dentryLoop fname dentry todo (i + 1)

/-- `read_dentry_by_name`. -/
def readDentryByNameInto (fname : List UInt8) (dentry : Dentry) : Int × Dentry :=
  if strlen fname < 1 then (-1, dentry)
  else if strlen fname > maxFileChar then (-1, dentry)
  else fs.dentryLoop fname dentry fs.numDentries 0

/-- `read_dentry_by_index`. -/
def readDentryByIndexInto (index : Nat) (dentry : Dentry) : Int × Dentry :=
  if index ≥ fs.numDentries then (-1, dentry)
  else
    (0,
      { fileName := strcpy List.set dentry.fileName 0 (fs.myDentry index).fileName
        fileType := (fs.myDentry index).fileType
        inode := (fs.myDentry index).inode })

/-- The copy loop of `read_data`, with `todo` bytes still asked for. The counters are `i` (the word
    of the inode block that names the current data block), `currDataIdx`, `currBlockByte` and `count`
    (the position in the file). The result says whether the loop ended without meeting a bad block
    number, and lists the bytes stored from `buf + copied` on. -/
def readDataLoop (inode currLength : Nat) : Nat → Nat → Nat → Nat → Nat → Bool × List UInt8
  | 0, _, _, _, _ => (true, [])
  | todo + 1, i, currDataIdx, currBlockByte, count =>
      -- the last block has reached its end: go to the next one
      let next := decide (currBlockByte ≥ blockSize)
      let i := if next then i + 1 else i
      let currDataIdx := if next then fs.inodeWord inode i else currDataIdx
      let currBlockByte := if next then 0 else currBlockByte
      if currDataIdx ≥ fs.numDataBlocks then (false, [])
      else if count + 1 ≥ currLength then (true, [fs.dataByte currDataIdx currBlockByte])
      else
        let rest := readDataLoop inode currLength todo i currDataIdx (currBlockByte + 1) (count + 1)
        (rest.1, fs.dataByte currDataIdx currBlockByte :: rest.2)

/-- `read_data`: the value returned and the bytes stored into `buf[0]`, `buf[1]`, … -/
def readData (inode offset length : Nat) : Int × List UInt8 :=
  if inode ≥ fs.numInodes then (-1, [])
  else if offset > fs.inodeWord inode 0 then (-1, [])
  else if offset = fs.inodeWord inode 0 then (0, [])
  else
    let i := if offset > blockSize then 1 + offset / blockSize else 1
    let r := fs.readDataLoop inode (fs.inodeWord inode 0) length i (fs.inodeWord inode i)
      (offset % blockSize) offset
    (if r.1 then (r.2.length : Int) else -1, r.2)

/-- `file_read`. -/
def fileRead (fname : List UInt8) (offset length : Nat) : Int × List UInt8 :=
  match fs.readDentryByName fname with
  | some d => fs.readData d.inode.toNat offset length
  | none => (-1, [])

/-- A name that is found has 1 to 32 characters. -/
theorem strlen_of_readDentryByName {fname : List UInt8} {d : Dentry}
    (h : fs.readDentryByName fname = some d) : 1 ≤ strlen fname ∧ strlen fname ≤ 32 := by
  unfold readDentryByName maxFileChar at h
  split_ifs at h with h1 h2
  omega

end FileSys

end UnixTerminal
