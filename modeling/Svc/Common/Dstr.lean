import Mathlib.Data.List.Basic
import Mathlib.Data.List.TakeWhile
import Mathlib.Tactic.Common

/-!
# Byte strings

A dstring is the list of its bytes, of any length, and a C string literal is the
list of the codes of its characters.
-/

namespace Svc.Common

/-- A dstring, or any other buffer of bytes with its length -/
abbrev Bytes := List UInt8

def chr (c : Char) : UInt8 := c.toUInt8

/-- A string literal, without the terminating zero -/
def cstr (s : String) : Bytes := s.toList.map chr

def memcmp : Bytes → Bytes → Int
  | a :: as, b :: bs => if a = b then memcmp as bs else (a.toNat : Int) - b.toNat
  | _, _ => 0

theorem memcmp_eq_zero_iff : ∀ {a b : Bytes}, a.length = b.length → (memcmp a b = 0 ↔ a = b)
  | [], b, h => by simp [memcmp, List.eq_nil_of_length_eq_zero h.symm]
  | x :: a, [], h => by simp at h
  | x :: a, y :: b, h => by
      rw [memcmp, List.cons.injEq]
      split_ifs with heq
      · rw [memcmp_eq_zero_iff (Nat.succ.inj h)]
        exact (and_iff_right heq).symm
      · refine iff_of_false (fun hsub => heq ?_) (fun hcons => heq hcons.1)
        exact UInt8.toNat_inj.1 (by omega)

/-! ## C strings -/

/-- What a `const char*` argument holds up to its terminating zero. -/
structure CString where
  bytes : Bytes
  nulFree : 0 ∉ bytes
  deriving DecidableEq

theorem CString.bytes_inj {s t : CString} : s.bytes = t.bytes ↔ s = t := by
  cases s
  cases t
  rw [CString.mk.injEq]

/-- A dstring's `data` read as a C string: the bytes before the first zero. -/
def asCString (data : Bytes) : CString where
  bytes := data.takeWhile (· ≠ 0)
  nulFree h := by simpa using List.mem_takeWhile_imp h

theorem asCString_of_nulFree {data : Bytes} (h : 0 ∉ data) : (asCString data).bytes = data := by
  rw [asCString, List.takeWhile_eq_self_iff]
  intro b hb
  simp only [ne_eq, decide_not, Bool.not_eq_true', decide_eq_false_iff_not]
  rintro rfl
  exact h hb

@[simp] theorem asCString_bytes (s : CString) : asCString s.bytes = s := by
  cases s with
  | mk bytes nulFree =>
      rw [CString.mk.injEq]
      exact asCString_of_nulFree nulFree

end Svc.Common
