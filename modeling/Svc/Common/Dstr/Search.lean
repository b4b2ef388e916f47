import Svc.Common.Dstr.Contents
import Svc.Lib.Split

/-!
# Searching strings

`dpos` and `dposcs` look for the first occurrence of a string from a position on.
-/

namespace Svc.Common

open Svc.Lib

/-- `for(i = start; i <= last; i++)`, which has so many rounds left: the first `i` where the
string occurs. -/
def posFrom (occurs : UInt32 → MemM Bool) : (rounds : Nat) → (i : UInt32) → MemM Int32
  | 0, _ => return -1
  | rounds + 1, i => do
      if ← occurs i then return i.toInt32
      posFrom occurs rounds (i + 1)

def posOf (a : Dstring) (len : Nat) (occurs : UInt32 → MemM Bool) (start : UInt32) :
    MemM Int32 := do
  if a.len < len then
    return -1
  let last := UInt32.ofNat (a.len - len)
  if start > last then
    return -1
  posFrom occurs (last.toNat - start.toNat + 1) start

def dpos (a b : Dstring) (start : UInt32) : MemM Int32 :=
  posOf a b.len (fun i => do
    let data ← a.readAt i.toNat b.len
    let on ← b.readAt 0 b.len
    return memcmp (Block.first data b.len) (Block.first on b.len) = 0) start

def dposcs (a : Dstring) (b : CString) (start : UInt32) : MemM Int32 :=
  let len := b.bytes.length
  posOf a len (fun i => do
    let data ← a.readAt i.toNat len
    return memcmp (Block.first data len) b.bytes = 0) start

def posResult : Option Nat → Int32
  | none => -1
  | some i => (UInt32.ofNat i).toInt32

section Search

variable {a b : Dstring} {on : Bytes} {occurs : UInt32 → MemM Bool} {start : UInt32} {mem : Memory}

def firstFrom (on text : Bytes) (start : Nat) : Option Nat :=
  (Split.breakAt on (text.drop start)).map fun b => start + b.1.length

theorem firstFrom_eq_none {text : Bytes} {start : Nat} (h : text.length < start + on.length)
    (hstart : start ≤ text.length) : firstFrom on text start = none := by
  rw [firstFrom, Option.map_eq_none_iff, Split.breakAt_eq_none_iff]
  intro hinfix
  have hlength := hinfix.length_le
  rw [List.length_drop] at hlength
  omega

theorem firstFrom_of_occurs {text : Bytes} {start : Nat} (h : on <+: text.drop start) :
    firstFrom on text start = some start := by
  rw [firstFrom, Split.breakAt_of_prefix h]
  rfl

theorem firstFrom_of_not_occurs {text : Bytes} {start : Nat} (h : ¬ on <+: text.drop start)
    (hstart : start < text.length) : firstFrom on text start = firstFrom on text (start + 1) := by
  rw [firstFrom, firstFrom]
  rw [List.drop_eq_getElem_cons hstart] at h ⊢
  rw [Split.breakAt_cons_of_not_prefix h, Option.map_map]
  congr 1
  funext b
  simp
  omega

theorem posFrom_succ_run (rounds : Nat) (i : UInt32) :
    (posFrom occurs (rounds + 1) i).run mem =
      if ((occurs i).run mem).1 then (i.toInt32, ((occurs i).run mem).2)
      else (posFrom occurs rounds (i + 1)).run ((occurs i).run mem).2 := by
  rw [posFrom, MemM.run_bind]
  split <;> rfl

/-- The loop tries the positions one after the other up to the last one where the string fits. -/
theorem posFrom_eq (mem : Memory) (ha : a.len < 2 ^ 31)
    (hoccurs : ∀ i mem, i.toNat + on.length ≤ a.len →
      ((occurs i).run mem).1 = decide (on <+: a.bytes.drop i.toNat))
    {rounds : Nat} {i : UInt32} (hi : i.toNat + rounds + on.length = a.len) :
    ((posFrom occurs (rounds + 1) i).run mem).1 = posResult (firstFrom on a.bytes i.toNat) := by
  induction rounds generalizing i mem with
  | zero =>
      rw [posFrom_succ_run, hoccurs i mem (by omega)]
      by_cases hpre : on <+: a.bytes.drop i.toNat
      · rw [firstFrom_of_occurs hpre, posResult, UInt32.ofNat_toNat]
        simp [hpre]
      · have hne : on ≠ [] := fun hnil => hpre (hnil ▸ List.nil_prefix)
        have hpos := List.length_pos_iff.2 hne
        rw [firstFrom_of_not_occurs hpre (by rw [length_bytes]; omega),
          firstFrom_eq_none (by rw [length_bytes]; omega) (by rw [length_bytes]; omega)]
        rw [decide_eq_false hpre]
        rfl
  | succ rounds ih =>
      rw [posFrom_succ_run, hoccurs i mem (by omega)]
      by_cases hpre : on <+: a.bytes.drop i.toNat
      · rw [firstFrom_of_occurs hpre, posResult, UInt32.ofNat_toNat]
        simp [hpre]
      · have hnext : (i + 1).toNat = i.toNat + 1 := by
          rw [UInt32.toNat_add, UInt32.toNat_one]
          omega
        have hrest := ih ((occurs i).run mem).2 (i := i + 1) (by omega)
        rw [firstFrom_of_not_occurs hpre (by rw [length_bytes]; omega), ← hnext, ← hrest]
        simp [hpre]

theorem posOf_eq (ha : a.len < 2 ^ 31)
    (hoccurs : ∀ i mem, i.toNat + on.length ≤ a.len →
      ((occurs i).run mem).1 = decide (on <+: a.bytes.drop i.toNat))
    (hstart : start.toNat ≤ a.len) :
    ((posOf a on.length occurs start).run mem).1 =
      posResult (firstFrom on a.bytes start.toNat) := by
  have hlast : (UInt32.ofNat (a.len - on.length)).toNat = a.len - on.length := by
    rw [UInt32.toNat_ofNat']
    omega
  have hnone (h : a.len < start.toNat + on.length) :
      firstFrom on a.bytes start.toNat = none :=
    firstFrom_eq_none (by rwa [length_bytes]) (by rwa [length_bytes])
  unfold posOf
  dsimp only
  split_ifs with hshort hbeyond
  · rw [hnone (by omega)]
    rfl
  · rw [gt_iff_lt, UInt32.lt_iff_toNat_lt, hlast] at hbeyond
    rw [hnone (by omega)]
    rfl
  · rw [gt_iff_lt, UInt32.lt_iff_toNat_lt, hlast] at hbeyond
    rw [hlast]
    exact posFrom_eq mem ha hoccurs (by omega)

/-- `memcmp` with the data from a position on tells whether the bytes are there. -/
theorem memcmp_data_eq_zero_iff {i : Nat} (hi : i + on.length ≤ a.len) :
    memcmp (Block.first (fun j => a.data (i + j)) on.length) on = 0 ↔ on <+: a.bytes.drop i := by
  have hslice : (a.bytes.drop i).take on.length = Block.slice a.data i on.length :=
    Block.take_drop_first hi
  rw [memcmp_eq_zero_iff (Block.length_first _ _), List.prefix_iff_eq_take, hslice, eq_comm]
  rfl

theorem dpos_eq (ha : a.len < 2 ^ 31) (hstart : start.toNat ≤ a.len) :
    ((dpos a b start).run mem).1 = posResult (firstFrom b.bytes a.bytes start.toNat) := by
  rw [dpos, ← length_bytes b]
  refine posOf_eq ha (fun i mem hi => ?_) hstart
  simp only [MemM.run_bind, MemM.run_pure, readAt_run, Nat.zero_add]
  have hbytes : Block.first b.data b.bytes.length = b.bytes := by rw [length_bytes]; rfl
  rw [hbytes]
  simp only [memcmp_data_eq_zero_iff hi]

theorem dposcs_eq {b : CString} (ha : a.len < 2 ^ 31) (hstart : start.toNat ≤ a.len) :
    ((dposcs a b start).run mem).1 = posResult (firstFrom b.bytes a.bytes start.toNat) := by
  refine posOf_eq ha (fun i mem hi => ?_) hstart
  simp only [MemM.run_bind, MemM.run_pure, readAt_run, memcmp_data_eq_zero_iff hi]

end Search

end Svc.Common
