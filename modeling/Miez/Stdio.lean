import Miez.CString

/-!
# `Miez.Stdio`: the scanning and printing functions of the C library

What `network_server.c` uses of `<stdio.h>`, `<stdlib.h>` and `<ctype.h>`, in the "C" locale:
the conversions `%Ns` and `%zu` of `sscanf`, `strtoull` with base 10, and the conversions `%lu`
and `%zu` of `snprintf`. A number that does not fit into 64 bits gives the largest one, and a
minus sign negates modulo 2^64, as `strtoull` does.
-/

set_option autoImplicit false

namespace Miez.Stdio

/-- The bytes of a string literal. -/
def ascii (s : String) : List UInt8 := s.toList.map fun c => UInt8.ofNat c.toNat

/-- `isspace`: blank, `\t`, `\n`, `\v`, `\f` and `\r`. -/
def isSpace (b : UInt8) : Bool := b == 32 || (9 ≤ b && b ≤ 13)

/-- `isdigit`. -/
def isDigit (b : UInt8) : Bool := 48 ≤ b && b ≤ 57

/-- A white-space directive of `sscanf`. -/
def skipSpace (bs : List UInt8) : List UInt8 := bs.dropWhile isSpace

/-- The conversion `%Ns`: the next bytes that are no white space, at most `width` of them, and
the rest of the input. It fails at the end of the input. -/
def scanString (width : Nat) (bs : List UInt8) : Option (List UInt8 × List UInt8) :=
  let bs := skipSpace bs
  let token := (bs.takeWhile fun b => !isSpace b).take width
  if token = [] then none else some (token, bs.drop token.length)

/-- The value of a list of decimal digits. -/
def digitsValue (ds : List UInt8) : Nat := ds.foldl (fun n d => 10 * n + (d.toNat - 48)) 0

/-- An optional sign. -/
def scanSign : List UInt8 → Bool × List UInt8
  | 43 :: bs => (false, bs)
  | 45 :: bs => (true, bs)
  | bs => (false, bs)

/-- The conversion `%zu`. It fails when there is no digit. -/
def scanSize (bs : List UInt8) : Option UInt64 :=
  let (negative, bs) := scanSign (skipSpace bs)
  let ds := bs.takeWhile isDigit
  if ds = [] then none
  else if 2 ^ 64 ≤ digitsValue ds then some (UInt64.ofNat (2 ^ 64 - 1))
  else some (if negative then 0 - UInt64.ofNat (digitsValue ds) else UInt64.ofNat (digitsValue ds))

/-- `strtoull(s, NULL, 10)`. -/
def strtoull (s : CString) : UInt64 := (scanSize s.bytes).getD 0

/-- The conversions `%lu` and `%zu` of `snprintf`. -/
def decimal (n : Nat) : List UInt8 := (Nat.toDigits 10 n).map fun c => UInt8.ofNat c.toNat

end Miez.Stdio
