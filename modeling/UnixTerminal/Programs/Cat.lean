import UnixTerminal.Programs.Calls

set_option autoImplicit false

/-! # `cat` and `ls`

The `main` functions of `ece391cat.c` and `ece391ls.c`. Both read a descriptor until a read answers 0 and
write what they read to descriptor 1. `ls` puts a newline behind each name, at `buf[cnt]`. -/

namespace UnixTerminal

/-- `"could not read arguments\n"` -/
def noArgumentsText : List UInt8 :=
  [99, 111, 117, 108, 100, 32, 110, 111, 116, 32, 114, 101, 97, 100, 32, 97, 114, 103, 117, 109, 101, 110,
   116, 115, 10]

/-- `"file not found\n"` -/
def fileNotFoundText : List UInt8 :=
  [102, 105, 108, 101, 32, 110, 111, 116, 32, 102, 111, 117, 110, 100, 10]

/-- `"directory open failed\n"` -/
def dirOpenFailedText : List UInt8 :=
  [100, 105, 114, 101, 99, 116, 111, 114, 121, 32, 111, 112, 101, 110, 32, 102, 97, 105, 108, 101, 100, 10]

/-- `"directory entry read failed\n"` -/
def dirReadFailedText : List UInt8 :=
  [100, 105, 114, 101, 99, 116, 111, 114, 121, 32, 101, 110, 116, 114, 121, 32, 114, 101, 97, 100, 32, 102,
   97, 105, 108, 101, 100, 10]

/-- `"."` -/
def dotName : List UInt8 := [46]

/-- What the loops of the two programs differ in: how much they read at a time, the message for a read that
    fails, and what they put behind the bytes of a read. -/
structure PrintLoop where
  nbytes : Int
  failedText : List UInt8
  suffix : Option UInt8

section Print

variable {σ : Type} (calls : UserCalls σ)

/-- One pass of `while (0 != (cnt = ece391_read (fd, buf, nbytes)))`. -/
def printPass (l : PrintLoop) (fd : Int) :
    (Nat → UInt8) × σ → Option ((Int × σ) ⊕ (Nat → UInt8) × σ)
  | (buf, sys) =>
      (calls.ece391Read fd l.nbytes sys).bind fun (t, sys) =>
        let buf := t.store buf
        if t.ret = 0 then some (.inl (0, sys))
        else if t.ret = -1 then (calls.putLiteral l.failedText sys).map fun sys => .inl (3, sys)
        else
          let out := match l.suffix with
            | some c => (Function.update buf t.ret.toNat c, t.ret + 1)
            | none => (buf, t.ret)
          (calls.ece391Write 1 out.1 out.2 sys).map fun (r, sys) =>
            if r = -1 then .inl (3, sys) else .inr (out.1, sys)

/-- The loop of `cat`. -/
def catLoop : PrintLoop := ⟨1024, readFailedText, none⟩

/-- The loop of `ls`. -/
def lsLoop : PrintLoop := ⟨32, dirReadFailedText, some 10⟩

/-- `main` of `cat`, where `buf` is what the buffer holds at the start. -/
def cat (buf : Nat → UInt8) (sys : σ) (fuel : Nat) : Option (Int × σ) :=
  (calls.ece391Getargs 1024 sys).bind fun (t, sys) =>
    let buf := t.store buf
    if t.ret ≠ 0 then (calls.putLiteral noArgumentsText sys).map fun sys => (3, sys)
    else
      (calls.ece391Open buf sys).bind fun (fd, sys) =>
        if fd = -1 then (calls.putLiteral fileNotFoundText sys).map fun sys => (2, sys)
        else foreverRun (printPass calls catLoop fd) fuel (buf, sys)

/-- `main` of `ls`. -/
def ls (buf : Nat → UInt8) (sys : σ) (fuel : Nat) : Option (Int × σ) :=
  (calls.ece391Open (literal dotName) sys).bind fun (fd, sys) =>
    if fd = -1 then (calls.putLiteral dirOpenFailedText sys).map fun sys => (2, sys)
    else foreverRun (printPass calls lsLoop fd) fuel (buf, sys)

end Print

end UnixTerminal
