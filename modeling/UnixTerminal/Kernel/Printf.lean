import UnixTerminal.Kernel.Console
import UnixTerminal.Library.CountedLoop
import UnixTerminal.Library.TracedArray

set_option autoImplicit false

/-! # `printf`

`printf` of `lib.c`, with the functions that print its numbers. They work on memory: the loops run until
they find a NUL or a value of 0, so each has a `fuel` for its passes and is `none` if it has not ended by
then. The bytes loaded from the format string, the words loaded from the stack behind it and the stores to
each `conv_buf` are kept in their order. -/

namespace UnixTerminal

/-! ## Strings in memory -/

/-- `strlen` of the string at `s`. -/
def strlenAt (fuel : Nat) (mem : Nat → UInt8) (s : Nat) : Option Nat :=
  whileRun (fun len => mem (s + len) != 0) (· + 1) fuel 0

/-- The variables of `strrev`: `beg`, `end` and the string. -/
structure StrrevLoop where
  beg : Int
  last : Int
  str : TracedArray UInt8

/-- `tmp = s[end]; s[end] = s[beg]; s[beg] = tmp; beg++; end--;` -/
def StrrevLoop.pass (s : Nat) (l : StrrevLoop) : StrrevLoop :=
  ⟨l.beg + 1, l.last - 1, l.str.swap (s + l.beg.toNat) (s + l.last.toNat)⟩

/-- `strrev` of the string at `s`. -/
def strrevAt (fuel : Nat) (a : TracedArray UInt8) (s : Nat) : Option (TracedArray UInt8) :=
  (strlenAt fuel a.mem s).bind fun len =>
    (whileRun (fun l : StrrevLoop => decide (l.beg < l.last)) (StrrevLoop.pass s) fuel
      ⟨0, (len : Int) - 1, a⟩).map StrrevLoop.str

/-- `"0123456789ABCDEFGHIJKLMNOPQRSTUVWXYZ"` -/
def lookup : List UInt8 :=
  [48, 49, 50, 51, 52, 53, 54, 55, 56, 57, 65, 66, 67, 68, 69, 70, 71, 72, 73, 74, 75, 76, 77, 78, 79,
    80, 81, 82, 83, 84, 85, 86, 87, 88, 89, 90]

/-- The variables of the loop of `itoa`. -/
structure ItoaLoop where
  newval : UInt32
  newbuf : Nat
  str : TracedArray UInt8

/-- One digit. The radix is signed, the value is not, so the arithmetic is unsigned. -/
def ItoaLoop.pass (radix : Int32) (l : ItoaLoop) : ItoaLoop :=
  let i := l.newval % radix.toUInt32
  ⟨l.newval / radix.toUInt32, l.newbuf + 1, l.str.store l.newbuf (lookup.getD i.toNat 0)⟩

/-- `itoa(value, &a[buf], radix)` -/
def itoaAt (fuel : Nat) (value : UInt32) (a : TracedArray UInt8) (buf : Nat) (radix : Int32) :
    Option (TracedArray UInt8) :=
  if value = 0 then some ((a.store buf 48).store (buf + 1) 0)
  else
    (whileRun (fun l : ItoaLoop => decide (l.newval > 0)) (ItoaLoop.pass radix) fuel
      ⟨value, buf, a⟩).bind fun l => strrevAt fuel (l.str.store l.newbuf 0) buf

/-- `puts` of the string at `s`. -/
def Kernel.putsAt (fuel : Nat) (mem : Nat → UInt8) (s : Nat) (k : Kernel) : Option (Nat × Kernel) :=
  whileRun (fun p : Nat × Kernel => mem (s + p.1) != 0)
    (fun p => (p.1 + 1, p.2.putc (mem (s + p.1)))) fuel (0, k)

/-! ## Numbers -/

/-- A `conv_buf`, and where in it the text starts. -/
structure Converted where
  convBuf : TracedArray UInt8
  start : Nat

/-- `%x`, and `%#x` with its zeros in front of the number. -/
def convHex (fuel : Nat) (convBuf : TracedArray UInt8) (alternate : Bool) (word : UInt32) :
    Option Converted :=
  if !alternate then (itoaAt fuel word convBuf 0 16).map fun a => ⟨a, 0⟩
  else
    (itoaAt fuel word convBuf 8 16).bind fun a =>
      (strlenAt fuel a.mem 8).bind fun startingIndex =>
        (whileRun (fun s : Nat × TracedArray UInt8 => decide (s.1 < 8))
          (fun s => (s.1 + 1, s.2.store s.1 48)) fuel (startingIndex, a)).map
          fun s => ⟨s.2, startingIndex⟩

/-- `%u`. -/
def convUnsigned (fuel : Nat) (convBuf : TracedArray UInt8) (word : UInt32) : Option Converted :=
  (itoaAt fuel word convBuf 0 10).map fun a => ⟨a, 0⟩

/-- `%d`. The negation of a 32-bit value wraps. -/
def convSigned (fuel : Nat) (convBuf : TracedArray UInt8) (word : UInt32) : Option Converted :=
  let value := word.toInt32
  if value < 0 then
    (itoaAt fuel (-value).toUInt32 (convBuf.store 0 45) 1 10).map fun a => ⟨a, 0⟩
  else (itoaAt fuel value.toUInt32 convBuf 0 10).map fun a => ⟨a, 0⟩

/-! ## The scanner -/

/-- What `printf` is called with: the memory from `format` on, the words on the stack behind it, the
    strings that such a word points to, and what is in the `conv_buf` for each of the words before. -/
structure PrintfCall where
  format : Nat → UInt8
  args : Nat → UInt32
  strings : UInt32 → List UInt8
  convBuf : Nat → Nat → UInt8

/-- The variables of `printf` (`buf` and `esp` by their distance from the start), the kernel, the indices
    of `format` and the arguments loaded so far, and the size and the stores of each `conv_buf`. -/
structure Printf where
  buf : Nat
  esp : Nat
  kernel : Kernel
  loads : List Nat
  words : List Nat
  convBufs : List (Nat × List Nat)

namespace Printf

variable (call : PrintfCall) (fuel : Nat) (p : Printf)

/-- `*buf` -/
def load : Printf := { p with loads := p.loads ++ [p.buf] }

/-- `*esp` and `esp++` -/
def word : Printf := { p with words := p.words ++ [p.esp], esp := p.esp + 1 }

/-- Print the text of a number, whose `conv_buf` has `size` bytes. -/
def putsConverted (size : Nat) (c : Converted) : Option Printf :=
  (p.kernel.putsAt fuel c.convBuf.mem c.start).map fun r =>
    { p.word with kernel := r.2, convBufs := p.convBufs ++ [(size, c.convBuf.stores)] }

/-- The conversion specifiers but for `#`. -/
def conversion (alternate : Bool) : Option Printf :=
  let c := call.format p.buf
  let p := p.load
  let arg := call.args p.esp
  let convBuf := TracedArray.fresh (call.convBuf p.esp)
  if c = 37 then some { p with kernel := p.kernel.putc 37 }
  else if c = 120 then (convHex fuel convBuf alternate arg).bind (p.putsConverted fuel 64)
  else if c = 117 then (convUnsigned fuel convBuf arg).bind (p.putsConverted fuel 36)
  else if c = 100 then (convSigned fuel convBuf arg).bind (p.putsConverted fuel 36)
  else if c = 99 then some { p.word with kernel := p.kernel.putc arg.toUInt8 }
  else if c = 115 then some { p.word with kernel := p.kernel.puts (cstr (call.strings arg)) }
  else some p

/-- `case '#'`: `alternate = 1; buf++; goto format_char_switch;` -/
def hash (s : Bool × Printf) : Bool × Printf := (true, { s.2.load with buf := s.2.buf + 1 })

/-- The outer `switch`, and the `buf++` behind it. -/
def pass : Option Printf :=
  let c := call.format p.buf
  let p := p.load
  if c = 37 then
    (whileRun (fun s : Bool × Printf => call.format s.2.buf == 35) hash fuel
      (false, { p with buf := p.buf + 1 })).bind fun s =>
        (s.2.conversion call fuel s.1).map fun p => { p with buf := p.buf + 1 }
  else some { p.load with kernel := p.kernel.putc c, buf := p.buf + 1 }

/-- `while (*buf != '\0')`, at most `n` times. -/
def loop (n : Nat) (p : Printf) : Option Printf :=
  if call.format p.buf = 0 then some p.load
  else
    match n with
    | 0 => none
    | n + 1 => (p.load.pass call fuel).bind (loop n)

/-- `return (buf - format);` -/
def ret : Int := p.buf

end Printf

/-- `printf`. -/
def printf (fuel : Nat) (call : PrintfCall) (k : Kernel) : Option Printf :=
  Printf.loop call fuel fuel ⟨0, 0, k, [], [], []⟩

end UnixTerminal
