import Mathlib.Logic.Function.Basic

set_option autoImplicit false

/-! # The interrupt controllers (`i8259.c`)

Two controllers of eight lines each; the second one (lines 8 to 15) hangs on line 2 of the first. The
kernel keeps a copy of both masks, and writes a mask to the data port of its controller whenever it
changes it. A set bit masks the line. -/

namespace UnixTerminal

/-- `INTS_PER_PIC`, `INT_MAX` and `SLAVE_IDX`. -/
def intsPerPic : UInt32 := 8
def intMax : UInt32 := 16
def slaveIdx : UInt32 := 2

/-- The ports of `i8259.h`; the data port of a controller is the next one. -/
def master8259Port : UInt16 := 0x20
def slave8259Port : UInt16 := 0xA0

/-- The initialization words of `i8259.h`, and its end-of-interrupt byte. -/
def icw1 : UInt8 := 0x11
def icw2Master : UInt8 := 0x20
def icw2Slave : UInt8 := 0x28
def icw3Master : UInt8 := 0x04
def icw3Slave : UInt8 := 0x02
def icw4 : UInt8 := 0x01
def eoi : UInt8 := 0x60

/-- The two masks, and the byte that was last written to each I/O port. -/
structure Pic where
  masterMask : UInt8
  slaveMask : UInt8
  ports : UInt16 → UInt8

namespace Pic

variable (p : Pic)

/-- `outb`. -/
def outb (data : UInt8) (port : UInt16) : Pic := { p with ports := Function.update p.ports port data }

/-- `i8259_init`. -/
def i8259Init : Pic :=
  let p := { p with masterMask := 0xff }
  let p := p.outb p.masterMask (master8259Port + 1)
  let p := { p with slaveMask := 0xff }
  let p := p.outb p.slaveMask (slave8259Port + 1)
  let p := p.outb icw1 master8259Port
  let p := p.outb icw2Master (master8259Port + 1)
  let p := p.outb icw3Master (master8259Port + 1)
  let p := p.outb icw4 (master8259Port + 1)
  let p := p.outb icw1 slave8259Port
  let p := p.outb icw2Slave (slave8259Port + 1)
  let p := p.outb icw3Slave (slave8259Port + 1)
  let p := p.outb icw4 (slave8259Port + 1)
  -- the masks again
  let p := p.outb p.masterMask (master8259Port + 1)
  p.outb p.slaveMask (slave8259Port + 1)

/-- The branch for the first controller: `op` puts the bit of the line into its mask. -/
def maskMaster (op : UInt8 → UInt8 → UInt8) (irqNum : UInt32) : Pic :=
  let p := { p with masterMask := op p.masterMask (1 <<< irqNum.toUInt8) }
  p.outb p.masterMask (master8259Port + 1)

/-- The body that `enable_irq` and `disable_irq` share. Both call themselves for `SLAVE_IDX` at the end of
    the second branch, which is their first branch. -/
def maskIrq (op : UInt8 → UInt8 → UInt8) (irqNum : UInt32) : Pic :=
  if irqNum < intsPerPic then p.maskMaster op irqNum
  else if irqNum < intMax then
    let p := { p with slaveMask := op p.slaveMask (1 <<< (irqNum - intsPerPic).toUInt8) }
    let p := p.outb p.slaveMask (slave8259Port + 1)
    p.maskMaster op slaveIdx
  else p

/-- `mask &= ~bit` and `mask |= bit`. -/
def clearBit (mask bit : UInt8) : UInt8 := mask &&& ~~~bit
def setBit (mask bit : UInt8) : UInt8 := mask ||| bit

/-- `enable_irq`. -/
def enableIrq (irqNum : UInt32) : Pic := p.maskIrq clearBit irqNum

/-- `disable_irq`. -/
def disableIrq (irqNum : UInt32) : Pic := p.maskIrq setBit irqNum

/-- `send_eoi`. -/
def sendEoi (irqNum : UInt32) : Pic :=
  if irqNum < intsPerPic then p.outb (eoi ||| irqNum.toUInt8) master8259Port
  else if irqNum < intMax then
    (p.outb (eoi ||| (irqNum - intsPerPic).toUInt8) slave8259Port).outb (eoi ||| slaveIdx.toUInt8)
      master8259Port
  else p

end Pic

end UnixTerminal
