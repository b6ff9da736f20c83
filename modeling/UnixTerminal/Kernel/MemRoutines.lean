import UnixTerminal.Library.CountedLoop
import UnixTerminal.Library.StringOps

set_option autoImplicit false

/-! # `memset`, `memcpy` and `memmove` (`lib.c`)

The assembly of the three routines, statement by statement. The segment registers, which the routines make
equal, select one flat segment. -/

namespace UnixTerminal

namespace StringMachine

/-- `movb %al, (%edi)`. -/
def storeAl (s : StringMachine) : StringMachine := { s with mem := storeBytes s.mem s.edi [s.eax.toUInt8] }

/-- `movb (%esi), %al`. -/
def loadAl (s : StringMachine) : StringMachine :=
  { s with eax := (s.eax &&& 0xFFFFFF00) ||| (s.mem s.esi).toUInt32 }

/-- The byte that the loops of `memset` store, and the one that the loops of `memcpy` copy. -/
def fillByte (s : StringMachine) : StringMachine :=
  let s := s.storeAl
  { s with edi := s.edi + 1 }

def copyByte (s : StringMachine) : StringMachine :=
  let s := s.loadAl.storeAl
  { s with edi := s.edi + 1, esi := s.esi + 1 }

/-- The way of both routines: bytes until `edi` is aligned, doublewords, and the bytes that are left in
    `edx`. A loop makes at most `fuel` passes; `none`: more were needed. -/
def bytesAndDwords (byte dword : StringMachine → StringMachine) (fuel : Nat) (s : StringMachine) : Option StringMachine :=
  -- `.memset_top`, `.memcpy_top`
  (whileRun (fun s => s.ecx ≠ 0 ∧ s.edi &&& 3 ≠ 0)
      (fun s => { byte s with ecx := (byte s).ecx - 1 }) fuel s).bind fun s =>
    if s.ecx = 0 then some s
    else
      -- `.memset_aligned`, `.memcpy_aligned`
      let s := { s with edx := s.ecx }
      let s := { s with ecx := s.ecx >>> 2 }
      let s := { s with edx := s.edx &&& 3 }
      let s := rep dword { s with df := false }
      -- `.memset_bottom`, `.memcpy_bottom`
      whileRun (fun s => s.edx ≠ 0) (fun s => { byte s with edx := (byte s).edx - 1 }) fuel s

end StringMachine

open StringMachine

/-- `memset`. -/
def memset (fuel : Nat) (s c n : UInt32) (m : StringMachine) : Option StringMachine :=
  let c := c &&& 0xFF
  bytesAndDwords fillByte stosl fuel
    { m with eax := c <<< 24 ||| c <<< 16 ||| c <<< 8 ||| c, edi := s, ecx := n }

/-- `memcpy`. -/
def memcpy (fuel : Nat) (dest src n : UInt32) (m : StringMachine) : Option StringMachine :=
  bytesAndDwords copyByte (movs 4) fuel { m with esi := src, edi := dest, ecx := n }

/-- `memmove`. -/
def memmove (dest src n : UInt32) (m : StringMachine) : StringMachine :=
  let m := { m with edi := dest, esi := src, ecx := n }
  let m := { m with df := false }
  let m :=
    if dest ≤ src then m
    else
      let m := { m with esi := m.esi + m.ecx - 1 }
      let m := { m with edi := m.edi + m.ecx - 1 }
      { m with df := true }
  -- `.memmove_go`
  rep (movs 1) m

end UnixTerminal
