import UnixTerminal.Kernel.Files
import UnixTerminal.Library.CountedLoop

set_option autoImplicit false

/-! # `read_data` with its machine integers

`FileSys.readData` counts in natural numbers. Here is the same function with the variables of the
source: signed 32-bit counters that are compared with unsigned bounds, a block number that is read
into an `int`, and the destination as memory behind the pointer `buf`. -/

namespace UnixTerminal

/-- The variables of the copy loop. `consulted` is no variable of the source: it lists the words of the
    inode block that were loaded as block numbers. -/
structure CopyLoop where
  i : Int32
  currDataIdx : Int32
  currBlockByte : Int32
  count : Int32
  copied : Int32
  fileReachedEnd : Bool
  buf : Int → UInt8
  consulted : List Int

namespace CopyLoop

variable (fs : FileSys) (inode : UInt32) (s : CopyLoop)

/-- `memcpy(&curr_data_idx,curr_inode+i,4)` -/
def loadIdx : CopyLoop :=
  { s with
    currDataIdx := (UInt32.ofNat (fs.inodeWord inode.toNat s.i.toInt.toNat)).toInt32
    consulted := s.consulted ++ [s.i.toInt] }

/-- The condition of the loop: `copied` is converted to the type of `length`. -/
def goesOn (length : UInt32) : Bool := s.copied.toUInt32 < length && !s.fileReachedEnd

/-- The step to the next block, if the last one has reached its end. -/
def nextBlock : CopyLoop :=
  if s.currBlockByte ≥ 4096 then loadIdx fs inode { s with currBlockByte := 0, i := s.i + 1 } else s

/-- Copy one byte. -/
def copyByte (currLength : UInt32) : CopyLoop :=
  { s with
    buf := Function.update s.buf s.copied.toInt
      (fs.dataByte s.currDataIdx.toUInt32.toNat s.currBlockByte.toInt.toNat)
    copied := s.copied + 1
    count := s.count + 1
    currBlockByte := s.currBlockByte + 1
    fileReachedEnd := if (s.count + 1).toUInt32 ≥ currLength then true else s.fileReachedEnd }

/-- The body of the loop; a bad block number returns from the function. -/
def body (currLength : UInt32) : CopyLoop ⊕ CopyLoop :=
  let s := s.nextBlock fs inode
  if s.currDataIdx.toUInt32.toNat ≥ fs.numDataBlocks then .inl s else .inr (s.copyByte fs currLength)

end CopyLoop

/-- What a call of `read_data` leaves: the value returned, the destination, the passes of the loop and
    the words of the inode block that were used. -/
structure ReadDataResult where
  ret : Int32
  buf : Int → UInt8
  passes : Nat
  consulted : List Int

namespace FileSys

variable (fs : FileSys)

/-- The variables in front of the loop. -/
def startCopy (inode offset : UInt32) (buf : Int → UInt8) : CopyLoop :=
  let i := if offset > 4096 then 1 + offset / 4096 else 1
  CopyLoop.loadIdx fs inode
    { i := i.toInt32
      currDataIdx := 0
      currBlockByte := (offset % 4096).toInt32
      count := offset.toInt32
      copied := 0
      fileReachedEnd := false
      buf
      consulted := [] }

/-- `read_data`; `none` if the loop has not ended after `fuel` passes. -/
def readDataWords (inode offset : UInt32) (buf : Int → UInt8) (length : UInt32) (fuel : Nat) :
    Option ReadDataResult :=
  if inode.toNat ≥ fs.numInodes then some ⟨-1, buf, 0, []⟩
  else
    let currLength := UInt32.ofNat (fs.inodeWord inode.toNat 0)
    if offset > currLength then some ⟨-1, buf, 0, []⟩
    else if offset = currLength then some ⟨0, buf, 0, []⟩
    else
      (loopRun (fun s => s.goesOn length) (fun s => s.body fs inode currLength) fuel
        (fs.startCopy inode offset buf)).map fun r =>
          match r.2 with
          | .inl s => ⟨-1, s.buf, r.1, s.consulted⟩
          | .inr s => ⟨s.copied, s.buf, r.1, s.consulted⟩

end FileSys

end UnixTerminal
