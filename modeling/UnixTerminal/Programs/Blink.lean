import Mathlib.Logic.Function.Basic
import UnixTerminal.Library.Fuel

set_option autoImplicit false

/-! # The blinking characters of `fish`

`blink.S`, the tasklet and the four commands of `mp1_ioctl`, with the allocator and `blink_array` of
`fish.c`. A `struct mp1_blink_struct*` is an index into `blink_array`, `none` the NULL pointer. A loop along
the list has fuel; the model has no result either where it would load through NULL. -/

namespace UnixTerminal

/-- The members of `struct mp1_blink_struct` in front of `next`. -/
structure Blink where
  location : UInt16
  onChar : UInt8
  offChar : UInt8
  onLength : UInt16
  offLength : UInt16
  countdown : UInt16
  status : UInt16
deriving DecidableEq, Repr

/-- `struct mp1_blink_struct` -/
structure BlinkStruct extends Blink where
  next : Option Nat

/-- What a `memset` with 0 leaves. -/
def BlinkStruct.zero : BlinkStruct := ⟨⟨0, 0, 0, 0, 0, 0, 0⟩, none⟩

/-- The slots of `blink_array` and the cells of the screen. -/
def blinkSlots : Nat := 80 * 25

/-- The memory of the program: `blink_array`, `mp1_list_head` and what lies from `vmem_base_addr` on. -/
structure Fish where
  blinkArray : Nat → BlinkStruct
  mp1ListHead : Option Nat
  vmem : Nat → UInt8

/-- `main` behind its `ece391_memset` and `mp1_set_video_mode`. -/
def Fish.start (vmem : Nat → UInt8) : Fish := ⟨fun _ => .zero, none, vmem⟩

/-- The commands, with what `arg` is, or points to. The tasklet is among them. -/
inductive FishCall
  | mp1IoctlAdd (user : BlinkStruct)
  | mp1IoctlRemove (arg : UInt32)
  | mp1IoctlFind (location : UInt16)
  | mp1IoctlSync (arg : UInt32)
  | mp1RtcTasklet

/-- The value returned, and the structure that `find` stores through its argument. -/
structure FishReply where
  value : Int
  found : Option Blink
deriving DecidableEq

/-- A call that returns `value` and stores nothing for its caller. -/
def FishReply.plain (value : Int) : FishReply := ⟨value, none⟩

/-! ## The fields of one structure -/

/-- Where the character of a blink is on the screen. -/
def Blink.offset (b : Blink) : Nat := 2 * b.location.toNat

/-- `mp1_ioctl_add` makes the structure valid, and on. -/
def Blink.fresh (b : Blink) : Blink := { b with status := 1, countdown := b.onLength }

/-- The tasklet at one structure, and the character that it pokes. `jg` is the signed comparison of the
    countdown with 0. -/
def Blink.tick (b : Blink) : Blink × Option UInt8 :=
  let b := { b with countdown := b.countdown - 1 }
  if 0 < b.countdown.toInt16.toInt then (b, none)
  else if b.status &&& 1 ≠ 0 then
    ({ b with countdown := b.offLength, status := b.status ^^^ 1 }, some b.offChar)
  else ({ b with countdown := b.onLength, status := b.status ^^^ 1 }, some b.onChar)

/-- The copies of `sync_copy_loop`. -/
def Blink.syncFrom (b source : Blink) : Blink :=
  { b with
    onLength := source.onLength
    offLength := source.offLength
    countdown := source.countdown
    status := source.status }

/-- The character that `mp1_ioctl_sync` displays: `cmovl` behind `testb $0x1`, which clears the overflow
    flag, moves where the result of the test is negative. -/
def Blink.syncChar (b : Blink) : UInt8 :=
  if (b.status.toUInt8 &&& 1).toInt8 < 0 then b.onChar else b.offChar

namespace Fish

variable (f : Fish)

/-- `mp1_poke` -/
def mp1Poke (offset : Nat) (c : UInt8) : Fish := { f with vmem := Function.update f.vmem offset c }

/-- A store of a structure; `next` stays. -/
def setBlink (i : Nat) (b : Blink) : Fish :=
  { f with blinkArray := Function.update f.blinkArray i { f.blinkArray i with toBlink := b } }

/-! ## `fish.c` -/

/-- `mp1_malloc` -/
def mp1Malloc : Option Nat :=
  (List.range blinkSlots).find? (fun i => (f.blinkArray i).location == 0)

/-- `mp1_free` -/
def mp1Free (i : Nat) : Fish := { f with blinkArray := Function.update f.blinkArray i .zero }

/-! ## `blink.S` -/

/-- One pass of the loop of `mp1_find_helper`. -/
def findPass (ax : UInt16) : Option Nat → Option (Option Nat ⊕ Option Nat)
  | none => some (.inl none)
  | some i =>
      some (if (f.blinkArray i).location = ax then .inl (some i) else .inr (f.blinkArray i).next)

/-- `mp1_find_helper` -/
def mp1FindHelper (fuel : Nat) (ax : UInt16) : Option (Option Nat) :=
  foreverRun (f.findPass ax) fuel f.mp1ListHead

/-- The tasklet at the structure `i`. -/
def blinkAt (i : Nat) : Fish :=
  let (b, poked) := (f.blinkArray i).toBlink.tick
  let f := f.setBlink i b
  match poked with
  | some c => f.mp1Poke b.offset c
  | none => f

/-- One pass of `tasklet_loop`. -/
def taskletPass : Fish × Option Nat → Option (Fish ⊕ Fish × Option Nat)
  | (f, none) => some (.inl f)
  | (f, some i) => some (.inr (f.blinkAt i, ((f.blinkAt i).blinkArray i).next))

/-- `mp1_rtc_tasklet` -/
def mp1RtcTasklet (fuel : Nat) : Option Fish := foreverRun taskletPass fuel (f, f.mp1ListHead)

/-- `mp1_ioctl_add`. The pointer that came with the structure is overwritten. -/
def mp1IoctlAdd (user : BlinkStruct) : Int × Fish :=
  if 80 * 25 ≤ user.location.toNat then (-1, f)
  else
    match f.mp1Malloc with
    | none => (-1, f)
    | some i =>
        let b := user.toBlink.fresh
        let f := { f with
          blinkArray := Function.update f.blinkArray i ⟨b, f.mp1ListHead⟩, mp1ListHead := some i }
        (0, f.mp1Poke b.offset b.onChar)

/-- The link at a place: `mp1_list_head`, or the member `next` of a structure. -/
def link : Option Nat → Option Nat
  | none => f.mp1ListHead
  | some j => (f.blinkArray j).next

/-- A store to such a place. -/
def setLink (place p : Option Nat) : Fish :=
  match place with
  | none => { f with mp1ListHead := p }
  | some j =>
      { f with blinkArray := Function.update f.blinkArray j { f.blinkArray j with next := p } }

/-- One pass of `remove_find_prev`; `eax` has been found in the list. -/
def findPrevPass (eax : Nat) (edx : Option Nat) : Option (Option Nat ⊕ Option Nat) :=
  if f.link edx = some eax then some (.inl edx)
  else (f.link edx).map (fun j => .inr (some j))

/-- `mp1_ioctl_remove` -/
def mp1IoctlRemove (fuel : Nat) (arg : UInt32) : Option (Int × Fish) :=
  (f.mp1FindHelper fuel arg.toUInt16).bind fun
    | none => some (-1, f)
    | some eax =>
        (foreverRun (f.findPrevPass eax) fuel none).map fun edx =>
          (0, (f.setLink edx (f.blinkArray eax).next).mp1Free eax)

/-- `mp1_ioctl_sync`. The high half of the argument says which timing is copied, the low half to where. -/
def mp1IoctlSync (fuel : Nat) (arg : UInt32) : Option (Int × Fish) :=
  (f.mp1FindHelper fuel (arg >>> 16).toUInt16).bind fun
    | none => some (-1, f)
    | some esi =>
        (f.mp1FindHelper fuel arg.toUInt16).map fun
          | none => (-1, f)
          | some edi =>
              let b := (f.blinkArray edi).toBlink.syncFrom (f.blinkArray esi).toBlink
              (0, (f.setBlink edi b).mp1Poke b.offset b.syncChar)

/-- `mp1_ioctl_find`: the value, and the structure copied to the caller. -/
def mp1IoctlFind (fuel : Nat) (location : UInt16) : Option (Int × Option BlinkStruct) :=
  (f.mp1FindHelper fuel location).map fun
    | none => (-1, none)
    | some i => (0, some (f.blinkArray i))

/-! ## Runs -/

/-- One call. -/
def call (fuel : Nat) : FishCall → Option (FishReply × Fish)
  | .mp1IoctlAdd user => some (.plain (f.mp1IoctlAdd user).1, (f.mp1IoctlAdd user).2)
  | .mp1IoctlRemove arg => (f.mp1IoctlRemove fuel arg).map (fun r => (.plain r.1, r.2))
  | .mp1IoctlFind location =>
      (f.mp1IoctlFind fuel location).map (fun r => (⟨r.1, r.2.map BlinkStruct.toBlink⟩, f))
  | .mp1IoctlSync arg => (f.mp1IoctlSync fuel arg).map (fun r => (.plain r.1, r.2))
  | .mp1RtcTasklet => (f.mp1RtcTasklet fuel).map (fun f => (.plain 0, f))

/-- The calls of a program one after the other, and their replies. -/
def run (fuel : Nat) : List FishCall → Fish → Option (List FishReply × Fish)
  | [], f => some ([], f)
  | c :: calls, f =>
      (f.call fuel c).bind fun r => (run fuel calls r.2).map fun rs => (r.1 :: rs.1, rs.2)

end Fish

end UnixTerminal
