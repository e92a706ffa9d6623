import Mathlib

/-!
# `Miez.CString`: strings of the C library

A C string is the bytes before the terminating NUL, so no byte of it is NUL. The broker
copies names and contents with `strlen` and `memcpy`, compares them with `strcmp` and hashes
them byte by byte. All of these see the bytes before the first NUL only.
-/

set_option autoImplicit false

namespace Miez

/-- The value of a NUL-terminated `char*`. -/
structure CString where
  bytes : List UInt8
  not_nul : 0 ∉ bytes
deriving DecidableEq

namespace CString

/-- Two C strings with the same bytes are the same. -/
@[ext] theorem ext {a b : CString} (h : a.bytes = b.bytes) : a = b := by
  cases a
  cases b
  simpa using h

/-- `strlen`. -/
def strlen (s : CString) : Nat := s.bytes.length

/-- `strcmp`: 0 for equal strings, else the sign of the first difference. -/
def strcmp (a b : CString) : Int :=
  if a = b then 0 else if a.bytes < b.bytes then -1 else 1

/-- `strcmp` gives 0 on equal strings and on no others. -/
@[simp] theorem strcmp_eq_zero_iff (a b : CString) : strcmp a b = 0 ↔ a = b := by
  unfold strcmp
  by_cases hab : a = b
  · simp [hab]
  · by_cases hlt : a.bytes < b.bytes <;> simp [hab, hlt]

/-- The C string at the start of a buffer: what `strlen` and `memcpy` see of it. -/
def ofBuffer (buffer : List UInt8) : CString where
  bytes := buffer.takeWhile (· ≠ 0)
  not_nul := fun h => by simpa using List.mem_takeWhile_imp h

end CString

end Miez
