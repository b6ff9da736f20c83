import UnixTerminal.Kernel.Printf
import UnixTerminal.Library.Fuel

set_option autoImplicit false

/-! # `grep`

`do_one_file` of the user program `grep`, with what it uses of `ece391support.c`. It reads a file into the
1025 bytes of `data`, at most 1024 at a time and behind what is left of the last line, and searches the
lines that are there.

The system calls are a parameter, over a state `σ` of the system. What the program prints on descriptor 1 is
kept as bytes; the result of `ece391_write` is not looked at. Strings are memory from an index on, and the
loops over them have fuel. -/

namespace UnixTerminal

/-! ## Strings -/

/-- `ece391_strlen`: the loop of the kernel's `strlen`. -/
def ece391Strlen (fuel : Nat) (mem : Nat → UInt8) (s : Nat) : Option Nat := strlenAt fuel mem s

/-- The bytes that `ece391_fdputs` writes. -/
def ece391Fdputs (fuel : Nat) (mem : Nat → UInt8) (s : Nat) : Option (List UInt8) :=
  (ece391Strlen fuel mem s).map (fun len => (List.range len).map (fun j => mem (s + j)))

/-- The variables of `ece391_strcpy`, where both strings are in one memory. -/
structure StrcpyLoop where
  mem : Nat → UInt8
  dst : Nat
  src : Nat

/-- `'\0' != (*dst++ = *src++)`: the byte is tested behind the store. -/
def StrcpyLoop.pass (l : StrcpyLoop) : Option ((Nat → UInt8) ⊕ StrcpyLoop) :=
  let c := l.mem l.src
  let mem := Function.update l.mem l.dst c
  some (if c ≠ 0 then .inr ⟨mem, l.dst + 1, l.src + 1⟩ else .inl mem)

/-- `ece391_strcpy` -/
def ece391Strcpy (fuel : Nat) (mem : Nat → UInt8) (dst src : Nat) : Option (Nat → UInt8) :=
  foreverRun StrcpyLoop.pass fuel ⟨mem, dst, src⟩

/-- `ece391_strncmp` of the strings at `i` and `j`. With no byte left to compare they are equal, at the
    start and behind `--n` alike. -/
def ece391Strncmp (m₁ m₂ : Nat → UInt8) : Nat → Nat → Nat → Int
  | _, _, 0 => 0
  | i, j, n + 1 =>
      if m₁ i = m₂ j then
        if m₁ i = 0 ∨ n = 0 then 0 else ece391Strncmp m₁ m₂ (i + 1) (j + 1) n
      else ((m₁ i).toNat : Int) - ((m₂ j).toNat : Int)

/-! ## System calls -/

/-- The calls of `do_one_file`. Each takes the state of the system to the next one. -/
structure GrepCalls (σ : Type) where
  /-- A descriptor, or `none` for −1. -/
  ece391Open : (Nat → UInt8) → σ → Option Nat × σ
  /-- At most so many bytes, which the call stores; it returns their number. `none`: −1. -/
  ece391Read : Nat → Nat → σ → Option (List UInt8) × σ
  /-- `false`: −1. -/
  ece391Close : Nat → σ → Bool × σ

/-- `"file open failed\n"` -/
def openFailedText : List UInt8 :=
  [102, 105, 108, 101, 32, 111, 112, 101, 110, 32, 102, 97, 105, 108, 101, 100, 10]

/-- `"file read failed\n"` -/
def readFailedText : List UInt8 :=
  [102, 105, 108, 101, 32, 114, 101, 97, 100, 32, 102, 97, 105, 108, 101, 100, 10]

/-- `"file close failed\n"` -/
def closeFailedText : List UInt8 :=
  [102, 105, 108, 101, 32, 99, 108, 111, 115, 101, 32, 102, 97, 105, 108, 101, 100, 10]

/-! ## `do_one_file` -/

/-- `BUFSIZE`; `data` has one byte more. -/
def bufsize : Nat := 1024

/-- The variables that live from one read to the next, and the output so far. -/
structure GrepVars where
  data : Nat → UInt8
  last : Nat
  out : List UInt8

/-- `data` with the bytes of a read in it, from `data + last` on. -/
def GrepVars.store (v : GrepVars) (bytes : List UInt8) : Nat → UInt8 :=
  fun i => if v.last ≤ i then bytes.getD (i - v.last) (v.data i) else v.data i

/-- What `do_one_file` returns and prints. -/
structure GrepEnd (σ : Type) where
  value : Int
  out : List UInt8
  sys : σ

/-- The arguments `s` and `fname`, and `s_len`. -/
structure GrepArgs where
  s : Nat → UInt8
  sLen : Nat
  fname : Nat → UInt8

section Loops

variable (fuel : Nat) (a : GrepArgs)

/-- `line_end`: the first newline from `line_start` on, or `last`. -/
def lineEndFrom (v : GrepVars) (lineStart : Nat) : Option Nat :=
  whileRun (fun lineEnd => decide (lineEnd < v.last) && v.data lineEnd != 10) (· + 1) fuel lineStart

/-- `fname`, `:`, the line, and a newline. -/
def printLine (data : Nat → UInt8) (lineStart : Nat) : Option (List UInt8) :=
  (ece391Fdputs fuel a.fname 0).bind fun name =>
    (ece391Fdputs fuel data lineStart).map fun line => name ++ 58 :: (line ++ [10])

/-- One pass of `for (check = line_start; check < line_end; check++)`. It breaks behind the first match. -/
def checkPass (data : Nat → UInt8) (lineStart lineEnd check : Nat) : Option (List UInt8 ⊕ Nat) :=
  if check < lineEnd then
    if a.s 0 = data check ∧ ece391Strncmp data a.s check 0 a.sLen = 0 then
      (printLine fuel a data lineStart).map .inl
    else some (.inr (check + 1))
  else some (.inl [])

/-- What the search of a line prints. -/
def searchLine (data : Nat → UInt8) (lineStart lineEnd : Nat) : Option (List UInt8) :=
  foreverRun (checkPass fuel a data lineStart lineEnd) fuel lineStart

/-- One pass of the loop over the lines, from `line_start`. The test of `data[line_end]` is made for
    `line_end = last` too. -/
def linePass (cnt : Nat) : GrepVars × Nat → Option (GrepVars ⊕ GrepVars × Nat)
  | (v, lineStart) =>
      (lineEndFrom fuel v lineStart).bind fun lineEnd =>
        let data := Function.update v.data lineEnd 0
        if v.data lineEnd ≠ 10 ∧ cnt ≠ 0 ∧ lineStart ≠ 0 then
          (ece391Strcpy fuel data 0 lineStart).map fun copied =>
            .inl { v with data := copied, last := v.last - lineStart }
        else
          (searchLine fuel a data lineStart lineEnd).map fun line =>
            if lineEnd + 1 ≥ v.last then .inl ⟨data, 0, v.out ++ line⟩
            else .inr (⟨data, v.last, v.out ++ line⟩, lineEnd + 1)

variable {σ : Type} (calls : GrepCalls σ) (fd : Nat)

/-- Behind the loop. -/
def closeFile (out : List UInt8) (sys : σ) : GrepEnd σ :=
  match calls.ece391Close fd sys with
  | (true, sys) => ⟨0, out, sys⟩
  | (false, sys) => ⟨-1, out ++ closeFailedText, sys⟩

/-- One pass of the loop over the reads. -/
def readPass : GrepVars × σ → Option (GrepEnd σ ⊕ GrepVars × σ)
  | (v, sys) =>
      match calls.ece391Read fd (bufsize - v.last) sys with
      | (none, sys) => some (.inl ⟨-1, v.out ++ readFailedText, sys⟩)
      | (some bytes, sys) =>
          (foreverRun (linePass fuel a bytes.length) fuel
            (⟨v.store bytes, v.last + bytes.length, v.out⟩, 0)).map fun v =>
              if bytes.length = 0 then .inl (closeFile calls fd v.out sys) else .inr (v, sys)

end Loops

/-- `do_one_file (s, fname)`, where `data` is what the buffer holds before anything is read. -/
def doOneFile {σ : Type} (calls : GrepCalls σ) (data s fname : Nat → UInt8) (sys : σ) (fuel : Nat) :
    Option (GrepEnd σ) :=
  (ece391Strlen fuel s 0).bind fun sLen =>
    match calls.ece391Open fname sys with
    | (none, sys) => some ⟨-1, openFailedText, sys⟩
    | (some fd, sys) => foreverRun (readPass fuel ⟨s, sLen, fname⟩ calls fd) fuel (⟨data, 0, []⟩, sys)

end UnixTerminal
