import Mathlib.Algebra.Group.Nat.Defs
import Svc.Common.Dstr.Buffer

/-!
# What strings hold

The bytes of a string in memory are a list, and what `dstr.c` does in memory is what
the list says: a copy has the same bytes and an append puts bytes behind them.
-/

namespace Svc.Common

open Svc.Lib

def Dstring.bytes (s : Dstring) : Bytes := Block.first s.data s.len

theorem first_memory (b : Bytes) : Block.first b.memory b.length = b := by
  apply List.ext_getElem
  · simp
  · intro i hi hb
    simp [Block.first, Bytes.memory, hb]

section Bytes

variable {dst src : Dstring} {mem : Memory}

@[simp] theorem length_bytes (s : Dstring) : s.bytes.length = s.len := Block.length_first _ _

theorem bytes_eq_nil_iff {s : Dstring} : s.bytes = [] ↔ s.len = 0 := by
  rw [← List.length_eq_zero_iff, length_bytes]

@[simp] theorem bytes_dnew : (dnew.run mem).1.bytes = [] := rfl

/-- A block that begins with the bytes of a string and their zero. -/
theorem first_copyOf (s : Dstring) (block : Nat → UInt8) :
    Block.first (Block.copy block 0 s.data (s.len + 1)) s.len = s.bytes := by
  have hcopy : Block.first (Block.copy block 0 s.data (s.len + 1)) (0 + s.len) =
      Block.first block 0 ++ s.bytes := Block.first_copy (Nat.le_succ s.len)
  rwa [Nat.zero_add, Block.first_zero, List.nil_append] at hcopy

@[simp] theorem bytes_dnewcopy : ((dnewcopy src).run mem).1.bytes = src.bytes := by
  simp only [dnewcopy, MemM.run_bind, malloc_run, readAt_run, writeAt_run, Nat.zero_add]
  exact first_copyOf src _

@[simp] theorem bytes_dclear : ((dclear dst).run mem).1.bytes = [] := rfl

theorem bytes_putZ : ((putZ dst).run mem).1.bytes = dst.bytes := by
  simp only [putZ_run, Dstring.bytes, Block.first_copy_before]

/-- `add_size` keeps the bytes, and nothing else moves. -/
theorem addSize_bytes (size : Nat) :
    ((addSize dst size).run mem).1.len = dst.len ∧
      ((addSize dst size).run mem).1.bytes = dst.bytes := by
  rw [addSize_run]
  split
  · exact ⟨rfl, rfl⟩
  · simp only [Nat.zero_add]
    exact ⟨trivial, first_copyOf dst _⟩

/-- Writing behind the bytes of a string that has been given room. -/
theorem bytes_append (size : Nat) (source : Nat → UInt8) {count n : Nat} (hn : n ≤ count) :
    Block.first (Block.copy ((addSize dst size).run mem).1.data
      ((addSize dst size).run mem).1.len source count) (((addSize dst size).run mem).1.len + n) =
        dst.bytes ++ Block.first source n := by
  have hbytes : ((addSize dst size).run mem).1.bytes = dst.bytes := (addSize_bytes size).2
  rw [Block.first_copy hn, ← hbytes, Dstring.bytes]

@[simp] theorem bytes_dcat : ((dcat dst src).run mem).1.bytes = dst.bytes ++ src.bytes := by
  simp only [dcat, MemM.run_bind, MemM.run_pure, readAt_run, writeAt_run, Nat.zero_add]
  exact bytes_append (src.len + 1) src.data (Nat.le_succ src.len)

theorem bytes_dcatmem (source : Nat → UInt8) (size : Nat) :
    ((dcatmem dst source size).run mem).1.bytes = dst.bytes ++ Block.first source size := by
  simp only [dcatmem, MemM.run_bind, writeAt_run, bytes_putZ]
  exact bytes_append size source le_rfl

@[simp] theorem bytes_dcatc (ch : UInt8) : ((dcatc dst ch).run mem).1.bytes = dst.bytes ++ [ch] :=
  bytes_dcatmem (fun _ => ch) 1

@[simp] theorem bytes_dcatcs (str : CString) :
    ((dcatcs dst str).run mem).1.bytes = dst.bytes ++ str.bytes := by
  simp only [dcatcs, MemM.run_bind, MemM.run_pure, writeAt_run]
  calc
    _ = dst.bytes ++ Block.first str.bytes.memory str.bytes.length :=
      bytes_append _ _ (Nat.le_succ str.bytes.length)
    _ = dst.bytes ++ str.bytes := by rw [first_memory]

/-! ## Constructors and substrings -/

@[simp] theorem bytes_dfrommem (source : Nat → UInt8) (size : Nat) :
    ((dfrommem source size).run mem).1.bytes = Block.first source size := by
  have hcopy : Block.first (Block.copy (mem.contents mem.mallocs) 0 source size) (0 + size) = _ :=
    Block.first_copy le_rfl
  rw [Nat.zero_add, Block.first_zero, List.nil_append] at hcopy
  simp only [dfrommem, MemM.run_bind, malloc_run, writeAt_run, bytes_putZ]
  exact hcopy

@[simp] theorem bytes_dfromcs (str : CString) : ((dfromcs str).run mem).1.bytes = str.bytes :=
  (bytes_dfrommem str.bytes.memory str.bytes.length).trans (first_memory str.bytes)

theorem bytes_dsub {a : Dstring} (ha : a.len < 2 ^ 32) {start length : UInt32}
    (h : start.toNat + length.toNat ≤ a.len) :
    ((dsub a start length).run mem).1.bytes = (a.bytes.drop start.toNat).take length.toNat := by
  have hsum : (start + length).toNat = start.toNat + length.toNat := by
    rw [UInt32.toNat_add, Nat.mod_eq_of_lt (by omega)]
  rw [dsub_run, if_neg (by omega), hsum, if_neg (by omega), bytes_dfrommem]
  exact (Block.take_drop_first h).symm

end Bytes

end Svc.Common
