import Svc.Common.Dstr
import Svc.Lib.Block

/-!
# Dynamic strings in memory

`dstr.c` keeps the bytes of a string in a block of `size` bytes and writes a zero
behind them.  The model has the blocks themselves: a byte that `malloc` returned has
the value it happens to have, and every access to the data of a string is recorded.
`dstrlen_t` values are natural numbers; no sum of the code wraps as long as the
lengths stay below 2^31.
-/

namespace Svc.Common

open Svc.Lib

/-! ## Memory -/

structure Memory where
  /-- the bytes that the blocks hold when `malloc` returns them, one block after the other -/
  contents : Nat → Nat → UInt8
  mallocs : Nat
  /-- the accesses to the data of strings so far -/
  accesses : List Access

abbrev MemM := StateM Memory

def malloc : MemM (Nat → UInt8) := do
  let mem ← get
  set { mem with mallocs := mem.mallocs + 1 }
  return mem.contents mem.mallocs

def access (a : Access) : MemM Unit :=
  modify fun mem => { mem with accesses := mem.accesses ++ [a] }

structure Dstring where
  len : Nat
  size : Nat
  data : Nat → UInt8

namespace Dstring

/-- `data + index` as the source of a `memcpy` of `count` bytes -/
def readAt (s : Dstring) (index count : Nat) : MemM (Nat → UInt8) := do
  access ⟨index, count, s.size⟩
  return fun i => s.data (index + i)

/-- `memcpy` of `count` bytes to `data + index` -/
def writeAt (s : Dstring) (index : Nat) (src : Nat → UInt8) (count : Nat) : MemM Dstring := do
  access ⟨index, count, s.size⟩
  return { s with data := Block.copy s.data index src count }

def setAt (s : Dstring) (index : Nat) (ch : UInt8) : MemM Dstring := s.writeAt index (fun _ => ch) 1

end Dstring

/-- The bytes of a buffer that is no dstring, which ends in a zero if it is a C string. -/
def Bytes.memory (b : Bytes) : Nat → UInt8 := fun i => b.getD i 0

/-! ## Growing -/

def putZ (s : Dstring) : MemM Dstring := s.setAt s.len 0

def align (l : Nat) : Nat := ((l >>> 6) + 1) <<< 6

def setSize (s : Dstring) (size : Nat) : MemM Dstring := do
  let newSize := align size
  if s.size ≥ newSize ∧ s.size ≤ newSize + 32 then
    return s
  let data ← malloc
  return { s with data, size := newSize }

def addSize (s : Dstring) (size : Nat) : MemM Dstring := do
  if s.len + size ≤ s.size then
    return s
  let newSize := align (s.len + size)
  let tmp : Dstring := { s with data := ← malloc, size := newSize }
  tmp.writeAt 0 (← s.readAt 0 (s.len + 1)) (s.len + 1)

/-! ## Constructors -/

def dnew : MemM Dstring := do
  return { len := 0, size := 32, data := ← malloc }

def dnewcopy (str : Dstring) : MemM Dstring := do
  let s : Dstring := { len := str.len, size := align str.len, data := ← malloc }
  s.writeAt 0 (← str.readAt 0 (str.len + 1)) (str.len + 1)

def dclear (str : Dstring) : MemM Dstring := do
  let str ← str.setAt 0 0
  putZ { str with len := 0 }

def dfromc (ch : UInt8) : MemM Dstring := do
  let s ← dnew
  let s ← s.setAt 0 ch
  putZ { s with len := 1 }

def dfromcs (str : CString) : MemM Dstring := do
  let len := str.bytes.length
  let s : Dstring := { size := align len, len, data := ← malloc }
  let s ← s.writeAt 0 str.bytes.memory len
  putZ s

def dfrommem (mem : Nat → UInt8) (size : Nat) : MemM Dstring := do
  let s : Dstring := { size := align size, len := size, data := ← malloc }
  let s ← s.writeAt 0 mem size
  putZ s

/-! ## Copies -/

def dcpy (dst src : Dstring) : MemM Dstring := do
  let dst ← setSize dst (src.len + 1)
  let dst ← dst.writeAt 0 (← src.readAt 0 (src.len + 1)) (src.len + 1)
  return { dst with len := src.len }

def dcpyc (dst : Dstring) (src : UInt8) : MemM Dstring := do
  let dst ← setSize dst 1
  let dst ← dst.setAt 0 src
  let dst ← dst.setAt 1 0
  return { dst with len := 1 }

def dcpycs (dst : Dstring) (src : CString) : MemM Dstring := do
  let len := src.bytes.length
  let dst ← setSize dst (len + 1)
  let dst ← dst.writeAt 0 src.bytes.memory (len + 1)
  return { dst with len }

def dcpymem (dst : Dstring) (mem : Nat → UInt8) (size : Nat) : MemM Dstring := do
  let dst ← setSize dst (size + 1)
  let dst ← dst.writeAt 0 mem size
  putZ { dst with len := size }

def dncpy (dst src : Dstring) (n : Nat) : MemM Dstring := do
  let n := if src.len < n then src.len else n
  let dst ← setSize dst (n + 1)
  let dst ← dst.writeAt 0 (← src.readAt 0 n) n
  putZ { dst with len := n }

def dncpycs (dst : Dstring) (src : CString) (n : Nat) : MemM Dstring := do
  let len := src.bytes.length
  let n := if len < n then len else n
  let dst ← setSize dst (n + 1)
  let dst ← dst.writeAt 0 src.bytes.memory n
  putZ { dst with len := n }

/-! ## Appends -/

def dcat (dst src : Dstring) : MemM Dstring := do
  let dst ← addSize dst (src.len + 1)
  let dst ← dst.writeAt dst.len (← src.readAt 0 (src.len + 1)) (src.len + 1)
  return { dst with len := dst.len + src.len }

def dcatc (dst : Dstring) (src : UInt8) : MemM Dstring := do
  let dst ← addSize dst 1
  let dst ← dst.setAt dst.len src
  putZ { dst with len := dst.len + 1 }

def dcatcs (dst : Dstring) (src : CString) : MemM Dstring := do
  let len := src.bytes.length
  let dst ← addSize dst (len + 1)
  let dst ← dst.writeAt dst.len src.bytes.memory (len + 1)
  return { dst with len := dst.len + len }

def dcatmem (dst : Dstring) (src : Nat → UInt8) (size : Nat) : MemM Dstring := do
  let dst ← addSize dst size
  let dst ← dst.writeAt dst.len src size
  putZ { dst with len := dst.len + size }

/-- `dncat`, which does not make room. -/
def dncat (dst src : Dstring) (n : Nat) : MemM Dstring := do
  let n := if src.len < n then src.len else n
  let dst ← dst.writeAt dst.len (← src.readAt 0 n) n
  putZ { dst with len := dst.len + n }

/-- `dncatcs`, which does not make room. -/
def dncatcs (dst : Dstring) (src : CString) (n : Nat) : MemM Dstring := do
  let len := src.bytes.length
  let n := if len < n then len else n
  let dst ← dst.writeAt dst.len src.bytes.memory n
  putZ { dst with len := dst.len + n }

/-! ## Substrings -/

def dsub (a : Dstring) (start length : UInt32) : MemM Dstring := do
  if start.toNat > a.len then
    return ← dnew
  let length := if (start + length).toNat > a.len then a.len - start.toNat else length.toNat
  dfrommem (← a.readAt start.toNat length) length

/-! ## Running -/

theorem MemM.run_bind {α β : Type} (x : MemM α) (f : α → MemM β) (mem : Memory) :
    (x >>= f).run mem = (f (x.run mem).1).run (x.run mem).2 := rfl

theorem MemM.run_pure {α : Type} (a : α) (mem : Memory) : (pure a : MemM α).run mem = (a, mem) :=
    rfl

theorem malloc_run (mem : Memory) :
    malloc.run mem = (mem.contents mem.mallocs, { mem with mallocs := mem.mallocs + 1 }) := rfl

def Memory.log (mem : Memory) (a : Access) : Memory := { mem with accesses := mem.accesses ++ [a] }

theorem readAt_run (s : Dstring) (index count : Nat) (mem : Memory) :
    (s.readAt index count).run mem =
      (fun i => s.data (index + i), mem.log ⟨index, count, s.size⟩) := rfl

theorem writeAt_run (s : Dstring) (index : Nat) (src : Nat → UInt8) (count : Nat) (mem : Memory) :
    (s.writeAt index src count).run mem =
      ({ s with data := Block.copy s.data index src count }, mem.log ⟨index, count, s.size⟩) := rfl

theorem setAt_run (s : Dstring) (index : Nat) (ch : UInt8) (mem : Memory) :
    (s.setAt index ch).run mem =
      ({ s with data := Block.copy s.data index (fun _ => ch) 1 }, mem.log ⟨index, 1, s.size⟩) :=
  rfl

theorem putZ_run (s : Dstring) (mem : Memory) :
    (putZ s).run mem =
      ({ s with data := Block.copy s.data s.len (fun _ => 0) 1 }, mem.log ⟨s.len, 1, s.size⟩) := rfl

theorem dnew_run (mem : Memory) :
    dnew.run mem = (⟨0, 32, mem.contents mem.mallocs⟩, { mem with mallocs := mem.mallocs + 1 }) :=
      rfl

/-- The length that `dncpy` and `dncat` copy. -/
theorem clip_eq_min (len n : Nat) : (if len < n then len else n) = min len n := by
  split <;> omega

theorem setSize_run (s : Dstring) (size : Nat) (mem : Memory) :
    (setSize s size).run mem =
      if s.size ≥ align size ∧ s.size ≤ align size + 32 then (s, mem)
      else ({ s with data := mem.contents mem.mallocs, size := align size },
        { mem with mallocs := mem.mallocs + 1 }) := by
  by_cases hfits : s.size ≥ align size ∧ s.size ≤ align size + 32
  · simp only [setSize, if_pos hfits]
    rfl
  · simp only [setSize, if_neg hfits]
    rfl

theorem addSize_run (s : Dstring) (size : Nat) (mem : Memory) :
    (addSize s size).run mem =
      if s.len + size ≤ s.size then (s, mem)
      else
        let newSize := align (s.len + size)
        ({ s with
            data := Block.copy (mem.contents mem.mallocs) 0 (fun i => s.data (0 + i)) (s.len + 1)
            size := newSize },
          ({ mem with mallocs := mem.mallocs + 1 }.log ⟨0, s.len + 1, s.size⟩).log
            ⟨0, s.len + 1, newSize⟩) := by
  by_cases hfits : s.len + size ≤ s.size
  · simp only [addSize, if_pos hfits]
    rfl
  · simp only [addSize, if_neg hfits]
    rfl

theorem dsub_run (a : Dstring) (start length : UInt32) (mem : Memory) :
    (dsub a start length).run mem =
      if start.toNat > a.len then dnew.run mem
      else
        let count := if (start + length).toNat > a.len then a.len - start.toNat else length.toNat
        (dfrommem (fun i => a.data (start.toNat + i)) count).run
          (mem.log ⟨start.toNat, count, a.size⟩) := by
  by_cases hstart : start.toNat > a.len
  · simp only [dsub, if_pos hstart]
  · simp only [dsub, if_neg hstart]
    rfl

end Svc.Common
