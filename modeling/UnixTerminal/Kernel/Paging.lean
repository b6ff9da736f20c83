import UnixTerminal.Kernel.Console

set_option autoImplicit false

/-! # Paging (`paging.c`, `vidmap`)

The page directory and the two page tables the kernel uses, and the i386 translation through them
with `CR4.PSE` set. Flushing the TLB (the reload of `CR3` in the `map` functions) makes the tables in
memory the ones in force, so the translation reads them directly. -/

namespace UnixTerminal

namespace Kernel

variable (lay : Layout) (k : Kernel)

/-- `paging_init`. -/
def pagingInit : Kernel :=
  { k with
    pageDirectory := fun i =>
      if i = 0 then 0x03 ||| lay.pageTable
      else if i = 1 then 0x87 ||| 0x400000
      else if i < 1024 then 0x02
      else k.pageDirectory i
    pageTable := fun i =>
      if i < 1024 then
        -- the entry of video memory is the one marked present
        UInt32.ofNat (i * 4096) ||| 2 ||| (if i = 0xB8000 / 4096 then 1 else 0)
      else k.pageTable i }

/-- `map`: a 4 MB page. -/
def map (virtAdd physAdd : UInt32) : Kernel :=
  { k with
    pageDirectory :=
      Function.update k.pageDirectory (virtAdd / 0x400000).toNat (physAdd ||| 0x87) }

/-- `map_w_pt`, and `map_video_w_pt` with the same body: a 4 KB page through entry 0 of
    `user_video_page_table`. -/
def mapWPt (virtAdd physAdd : UInt32) : Kernel :=
  { k with
    pageDirectory := Function.update k.pageDirectory (virtAdd / 0x400000).toNat
      (lay.userVideoPageTable ||| 0x7)
    userVideoPageTable := Function.update k.userVideoPageTable 0 (physAdd ||| 0x7) }

/-- `map_video_w_pt`. -/
def mapVideoWPt (virtAdd physAdd : UInt32) : Kernel := k.mapWPt lay virtAdd physAdd

/-- `vidmap`: the value returned and, on success, the pointer stored through `screen_start`. -/
def vidmap (screenStart : UInt32) : Int × Option UInt32 × Kernel :=
  if screenStart = 0 ∨ screenStart < 0x700000 then (-1, none, k)
  else (0, some userVidMem, k.mapWPt lay userVidMem video)

/-- The address of `terminals[t].screen`: the struct has 4168 bytes and `screen` starts at 161. -/
def screenAddr (t : Nat) : UInt32 := lay.terminals + 4168 * UInt32.ofNat t + 161

/-! ## Address translation -/

/-- The page table a directory entry points to. Only the tables of `paging.c` are known; another
    address would read memory that holds no page table. -/
def tableAt (base : UInt32) : Nat → UInt32 :=
  if base = lay.userVideoPageTable then k.userVideoPageTable
  else if base = lay.pageTable then k.pageTable
  else fun _ => 0

/-- The checks of a user-mode access on one entry: present, user, and writable for a write. -/
def userPermits (entry : UInt32) (write : Bool) : Bool :=
  entry &&& 1 ≠ 0 && entry &&& 4 ≠ 0 && (!write || entry &&& 2 ≠ 0)

/-- The physical address of a permitted user-mode access to `a`, or `none` (a page fault). -/
def userTranslate (a : UInt32) (write : Bool) : Option UInt32 :=
  let pde := k.pageDirectory (a >>> 22).toNat
  if !userPermits pde write then none
  else if pde &&& 0x80 ≠ 0 then some ((pde &&& 0xFFC00000) ||| (a &&& 0x3FFFFF))
  else
    let pte := k.tableAt lay (pde &&& 0xFFFFF000) ((a >>> 12) &&& 0x3FF).toNat
    if !userPermits pte write then none
    else some ((pte &&& 0xFFFFF000) ||| (a &&& 0xFFF))

end Kernel

end UnixTerminal
