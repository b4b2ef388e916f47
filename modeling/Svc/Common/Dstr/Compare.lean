import Svc.Common.Dstr.Substring
import Svc.Lib.Signed

/-!
# Comparing strings

`dstr.c` has each comparison for strings and for single characters.  The functions on strings
use `memcmp`, which compares unsigned bytes; the functions on characters compare a `char`,
which is signed, with an `int`.
-/

namespace Svc.Common

open Svc.Lib

/-- The value of a `char` in a comparison with an `int` -/
def charInt (b : UInt8) : Int := b.toInt8.toInt

def Dstring.charAt (s : Dstring) (index : Nat) : MemM Int := do
  return charInt ((← s.readAt index 1) 0)

def dcmp (a b : Dstring) : MemM Int := do
  if a.len < b.len then
    return -1
  else if a.len > b.len then
    return 1
  else
    let dataA ← a.readAt 0 a.len
    let dataB ← b.readAt 0 a.len
    return memcmp (Block.first dataA a.len) (Block.first dataB a.len)

def dcmpc (a : Dstring) (b : Int) : MemM Int := do
  if a.len = 0 then
    return -1
  else if a.len > 1 then
    return 1
  else
    if (← a.charAt 0) < b then
      return -1
    else
      if (← a.charAt 0) > b then
        return 1
      else
        return 0

def dstartswith (a b : Dstring) : MemM Bool := do
  if b.len = 0 then
    return true
  else if a.len < b.len then
    return false
  else
    let dataA ← a.readAt 0 b.len
    let dataB ← b.readAt 0 b.len
    return memcmp (Block.first dataA b.len) (Block.first dataB b.len) = 0

def dstartswithc (a : Dstring) (b : Int) : MemM Bool := do
  if a.len = 0 then
    return false
  else
    return (← a.charAt 0) = b

def dendswith (a b : Dstring) : MemM Bool := do
  if b.len = 0 then
    return true
  else if a.len < b.len then
    return false
  else
    let dataA ← a.readAt (a.len - b.len) b.len
    let dataB ← b.readAt 0 b.len
    return memcmp (Block.first dataA b.len) (Block.first dataB b.len) = 0

def dendswithc (a : Dstring) (b : Int) : MemM Bool := do
  if a.len = 0 then
    return false
  else
    return (← a.charAt (a.len - 1)) = b

def dposc (a : Dstring) (b : Int) (start : UInt32) : MemM Int32 := do
  if a.len = 0 then
    return -1
  let last := UInt32.ofNat (a.len - 1)
  if start > last then
    return -1
  posFrom (fun i => do return (← a.charAt i.toNat) = b) (last.toNat - start.toNat + 1) start

/-! ## Characters -/

section Chars

variable {b c : UInt8}

theorem charInt_eq (b : UInt8) :
    charInt b = if b.toNat < 128 then (b.toNat : Int) else b.toNat - 256 := Signed.toInt_toInt8 b

/-- A signed character is never a byte from 128 on. -/
theorem charInt_eq_iff : charInt b = c.toNat ↔ b = c ∧ c.toNat < 128 := by
  have hb := b.toNat_lt
  have hc := c.toNat_lt
  rw [charInt_eq, ← UInt8.toNat_inj]
  split_ifs <;> omega

end Chars

/-! ## What the functions on strings compare -/

section Strings

variable {a b : Dstring} {c : UInt8} {mem : Memory}

@[simp] theorem bytes_dfromc (ch : UInt8) : ((dfromc ch).run mem).1.bytes = [ch] := rfl

theorem head?_bytes (ha : a.len ≠ 0) : a.bytes.head? = some (a.data 0) := by
  obtain ⟨n, hn⟩ := Nat.exists_eq_succ_of_ne_zero ha
  rw [Dstring.bytes, hn, Nat.succ_eq_one_add, Block.first_add]
  rfl

theorem getLast?_bytes (ha : a.len ≠ 0) : a.bytes.getLast? = some (a.data (a.len - 1)) := by
  obtain ⟨n, hn⟩ := Nat.exists_eq_succ_of_ne_zero ha
  rw [Dstring.bytes, hn, Nat.succ_eq_add_one, Block.first_add]
  exact List.getLast?_concat

theorem bytes_eq_singleton (ha : a.len = 1) : a.bytes = [a.data 0] := by
  rw [Dstring.bytes, ha]
  rfl

theorem first_readAt_zero (b : Dstring) : Block.first (fun i => b.data (0 + i)) b.len = b.bytes :=
  Block.first_congr fun i _ => by rw [Nat.zero_add]

theorem dcmp_val : ((dcmp a b).run mem).1 =
    if a.len < b.len then -1 else if b.len < a.len then 1 else memcmp a.bytes b.bytes := by
  unfold dcmp
  split_ifs with hlt hgt
  · rfl
  · rfl
  · have hlen : a.len = b.len := by omega
    simp only [MemM.run_bind, MemM.run_pure, readAt_run]
    rw [first_readAt_zero, hlen, first_readAt_zero]

theorem not_prefix_of_shorter (h : a.len < b.len) : ¬ b.bytes <+: a.bytes := fun hpre => by
  have hle := hpre.length_le
  rw [length_bytes, length_bytes] at hle
  omega

theorem not_suffix_of_shorter (h : a.len < b.len) : ¬ b.bytes <:+ a.bytes := fun hsuf => by
  have hle := hsuf.length_le
  rw [length_bytes, length_bytes] at hle
  omega

/-- The string `b` is at position `i` of `a` if `memcmp` finds no difference. -/
theorem memcmp_readAt_eq_zero_iff {i : Nat} (hi : i + b.len ≤ a.len) :
    memcmp (Block.first (fun j => a.data (i + j)) b.len)
        (Block.first (fun j => b.data (0 + j)) b.len) = 0 ↔ b.bytes <+: a.bytes.drop i := by
  rw [first_readAt_zero, ← length_bytes b]
  exact memcmp_data_eq_zero_iff (by rwa [length_bytes])

theorem dstartswith_val : ((dstartswith a b).run mem).1 = decide (b.bytes <+: a.bytes) := by
  unfold dstartswith
  split_ifs with hempty hshort
  · rw [bytes_eq_nil_iff.2 hempty, decide_eq_true List.nil_prefix]
    rfl
  · rw [decide_eq_false (not_prefix_of_shorter hshort)]
    rfl
  · exact decide_eq_decide.2 (memcmp_readAt_eq_zero_iff (by omega))

theorem dendswith_val : ((dendswith a b).run mem).1 = decide (b.bytes <:+ a.bytes) := by
  unfold dendswith
  split_ifs with hempty hshort
  · rw [bytes_eq_nil_iff.2 hempty, decide_eq_true List.nil_suffix]
    rfl
  · rw [decide_eq_false (not_suffix_of_shorter hshort)]
    rfl
  · have hdata := memcmp_readAt_eq_zero_iff (a := a) (b := b) (i := a.len - b.len) (by omega)
    have hsuf : b.bytes <+: a.bytes.drop (a.len - b.len) ↔ b.bytes <:+ a.bytes := by
      rw [List.suffix_iff_eq_drop, List.prefix_iff_eq_take, List.take_of_length_le, length_bytes,
        length_bytes]
      rw [List.length_drop, length_bytes, length_bytes]
      omega
    exact decide_eq_decide.2 (hdata.trans hsuf)

end Strings

/-! ## Characters and strings of one byte -/

/-- What the functions on a character return is what those on its string return, for the
comparison up to the size of the difference. -/
structure CharsAgree (a : Dstring) (c : UInt8) (start : UInt32) (mem : Memory) : Prop where
  dposc : ((dposc a c.toNat start).run mem).1 =
    ((dfromc c >>= fun s => dpos a s start).run mem).1
  dstartswithc : ((dstartswithc a c.toNat).run mem).1 = ((dfromc c >>= dstartswith a).run mem).1
  dendswithc : ((dendswithc a c.toNat).run mem).1 = ((dfromc c >>= dendswith a).run mem).1
  dcmpc : ((dcmpc a c.toNat).run mem).1.sign = ((dfromc c >>= dcmp a).run mem).1.sign

section Agreement

variable {a : Dstring} {c : UInt8} {start : UInt32} {mem : Memory}

/-! ### Searching -/

theorem dposc_eq_posOf (b : Int) :
    dposc a b start = posOf a 1 (fun i => do return (← a.charAt i.toNat) = b) start := by
  unfold dposc posOf
  simp only [Nat.lt_one_iff]

theorem singleton_prefix_drop_iff {text : Bytes} {i : Nat} (hi : i < text.length) :
    [c] <+: text.drop i ↔ text[i] = c := by
  rw [List.drop_eq_getElem_cons hi, List.cons_prefix_cons]
  exact ⟨fun h => h.1.symm, fun h => ⟨h.symm, List.nil_prefix⟩⟩

theorem getElem_bytes {i : Nat} (hi : i < a.bytes.length) : a.bytes[i] = a.data i := by
  simp [Dstring.bytes, Block.first]

/-- A character below 128 is found where its string is found. -/
theorem dposc_of_lt (ha : a.len < 2 ^ 31) (hc : c.toNat < 128) :
    ((dposc a c.toNat start).run mem).1 =
      ((dfromc c >>= fun s => dpos a s start).run mem).1 := by
  rw [dposc_eq_posOf, MemM.run_bind]
  by_cases hstart : start.toNat ≤ a.len
  · have hlength : 1 = [c].length := rfl
    rw [dpos_eq ha hstart, bytes_dfromc, hlength]
    refine posOf_eq ha (fun i mem hi => ?_) hstart
    have hlt : i.toNat < a.bytes.length := by
      rw [length_bytes]
      exact hi
    have hchar : charInt (a.data i.toNat) = c.toNat ↔ [c] <+: a.bytes.drop i.toNat := by
      rw [singleton_prefix_drop_iff hlt, getElem_bytes hlt, charInt_eq_iff]
      exact and_iff_left hc
    exact decide_eq_decide.2 hchar
  · have hc : ((posOf a 1 (fun i => do return (← a.charAt i.toNat) = (c.toNat : Int)) start).run
        mem).1 = -1 := posOf_beyond ha (by omega)
    have hs : ((dpos a ((dfromc c).run mem).1 start).run ((dfromc c).run mem).2).1 = -1 :=
      posOf_beyond ha (by omega)
    rw [hc, hs]

theorem posFrom_never {occurs : UInt32 → MemM Bool}
    (hoccurs : ∀ i mem, ((occurs i).run mem).1 = false) (rounds : Nat) (i : UInt32)
    (mem : Memory) : ((posFrom occurs rounds i).run mem).1 = -1 := by
  induction rounds generalizing i mem with
  | zero => rfl
  | succ rounds ih =>
      rw [posFrom_succ_run, hoccurs]
      exact ih _ _

/-- A character from 128 on is found nowhere. -/
theorem dposc_of_ge (hc : 128 ≤ c.toNat) : ((dposc a c.toNat start).run mem).1 = -1 := by
  have hoccurs : ∀ (i : UInt32) mem, ((do return (← a.charAt i.toNat) = (c.toNat : Int) :
      MemM Bool).run mem).1 = false := fun i mem => by
    have hne : ¬ charInt (a.data i.toNat) = c.toNat := fun h => by
      have hlt := (charInt_eq_iff.1 h).2
      omega
    exact decide_eq_false hne
  unfold dposc
  dsimp only
  split_ifs
  · rfl
  · rfl
  · exact posFrom_never hoccurs _ _ _

theorem FindsFirst.eq_neg_one_iff {on text : Bytes} {start : Nat} {result : Int32}
    (h : FindsFirst on text start result) :
    result = -1 ↔ ∀ i, start ≤ i → ¬ Split.OccursAt on text i := by
  rcases h with ⟨rfl, hnone⟩ | ⟨i, hi, hleast⟩
  · exact iff_of_true rfl hnone
  · refine iff_of_false ?_ fun hnone => hnone i hleast.1.1 hleast.1.2
    rintro rfl
    have hminus : (-1 : Int32).toInt = -1 := rfl
    omega

theorem not_occursAt_singleton_iff {text : Bytes} {start : Nat} :
    (∀ i, start ≤ i → ¬ Split.OccursAt [c] text i) ↔ c ∉ text.drop start := by
  constructor
  · intro hnone hmem
    obtain ⟨j, hj, hget⟩ := List.getElem_of_mem hmem
    rw [List.length_drop] at hj
    rw [List.getElem_drop] at hget
    exact hnone (start + j) (Nat.le_add_right _ _)
      ⟨by omega, (singleton_prefix_drop_iff (by omega)).2 hget⟩
  · rintro hmem i hi ⟨-, hpre⟩
    obtain ⟨j, rfl⟩ := Nat.exists_eq_add_of_le hi
    rw [← List.drop_drop] at hpre
    exact hmem (List.mem_of_mem_drop (hpre.subset (List.mem_singleton.2 rfl)))

theorem dposc_agrees_iff (ha : a.len < 2 ^ 31) :
    ((dposc a c.toNat start).run mem).1 =
        ((dfromc c >>= fun s => dpos a s start).run mem).1 ↔
      c.toNat < 128 ∨ c ∉ a.bytes.drop start.toNat := by
  by_cases hc : c.toNat < 128
  · exact iff_of_true (dposc_of_lt ha hc) (.inl hc)
  · have hfinds : FindsFirst [c] a.bytes start.toNat
        ((dfromc c >>= fun s => dpos a s start).run mem).1 := dpos_findsFirst ha
    rw [dposc_of_ge (by omega), eq_comm, hfinds.eq_neg_one_iff, not_occursAt_singleton_iff]
    exact (or_iff_right hc).symm

/-! ### The ends of a string -/

/-- A `char` and a byte agree on whether they are the character. -/
theorem decide_charInt_eq_iff {b : UInt8} :
    decide (charInt b = c.toNat) = decide (b = c) ↔ c.toNat < 128 ∨ some b ≠ some c := by
  rw [decide_eq_decide, charInt_eq_iff, ne_eq, Option.some.injEq]
  constructor
  · intro h
    by_cases hb : b = c
    · exact .inl (h.2 hb).2
    · exact .inr hb
  · rintro (hc | hb)
    · exact and_iff_left hc
    · exact iff_of_false (fun h => hb h.1) hb

theorem dstartswithc_agrees_iff :
    ((dstartswithc a c.toNat).run mem).1 = ((dfromc c >>= dstartswith a).run mem).1 ↔
      c.toNat < 128 ∨ a.bytes.head? ≠ some c := by
  rw [MemM.run_bind, dstartswith_val, bytes_dfromc]
  by_cases ha : a.len = 0
  · rw [dstartswithc, if_pos ha, bytes_eq_nil_iff.2 ha]
    exact iff_of_true rfl (.inr nofun)
  · have hhead := head?_bytes ha
    have hpre : [c] <+: a.bytes ↔ a.data 0 = c := by
      rw [List.singleton_prefix_iff_head?_eq_some, hhead, Option.some.injEq]
    rw [dstartswithc, if_neg ha, hhead, ← decide_charInt_eq_iff, decide_eq_decide.2 hpre]
    rfl

theorem dendswithc_agrees_iff :
    ((dendswithc a c.toNat).run mem).1 = ((dfromc c >>= dendswith a).run mem).1 ↔
      c.toNat < 128 ∨ a.bytes.getLast? ≠ some c := by
  rw [MemM.run_bind, dendswith_val, bytes_dfromc]
  by_cases ha : a.len = 0
  · rw [dendswithc, if_pos ha, bytes_eq_nil_iff.2 ha]
    exact iff_of_true rfl (.inr nofun)
  · have hlast := getLast?_bytes ha
    have hsuf : [c] <:+ a.bytes ↔ a.data (a.len - 1) = c := by
      rw [List.singleton_suffix_iff_getLast?_eq_some, hlast, Option.some.injEq]
    rw [dendswithc, if_neg ha, hlast, ← decide_charInt_eq_iff, decide_eq_decide.2 hsuf]
    rfl

/-! ### Comparing -/

theorem sign_memcmp_singleton (b c : UInt8) :
    (memcmp [b] [c]).sign =
      if b.toNat < c.toNat then -1 else if c.toNat < b.toNat then 1 else 0 := by
  simp only [memcmp, ← UInt8.toNat_inj]
  split_ifs with heq hlt hgt
  · omega
  · omega
  · rfl
  · exact Int.sign_eq_neg_one_of_neg (by omega)
  · exact Int.sign_eq_one_of_pos (by omega)
  · omega

theorem dcmpc_val (ha : a.len = 1) (b : Int) : ((dcmpc a b).run mem).1 =
    if charInt (a.data 0) < b then -1 else if b < charInt (a.data 0) then 1 else 0 := by
  rw [dcmpc, if_neg (by omega), if_neg (by omega)]
  have hchar : ∀ mem, ((a.charAt 0).run mem).1 = charInt (a.data 0) := fun _ => rfl
  simp only [MemM.run_bind, hchar]
  by_cases hlt : charInt (a.data 0) < b
  · rw [if_pos hlt, if_pos hlt]
    rfl
  · rw [if_neg hlt, if_neg hlt]
    simp only [MemM.run_bind, hchar]
    split_ifs <;> rfl

theorem dcmpc_agrees_iff :
    ((dcmpc a c.toNat).run mem).1.sign = ((dfromc c >>= dcmp a).run mem).1.sign ↔
      ∀ b, a.bytes = [b] → b.toNat < max 128 c.toNat := by
  have hlen : ((dfromc c).run mem).1.len = 1 := rfl
  have hbytes (h : a.len ≠ 1) (b : UInt8) : a.bytes ≠ [b] := fun heq => h <| by
    rw [← length_bytes, heq]
    rfl
  rw [MemM.run_bind, dcmp_val, bytes_dfromc, hlen]
  rcases Nat.lt_trichotomy a.len 1 with hlt | hone | hgt
  · rw [if_pos hlt, dcmpc, if_pos (by omega)]
    exact iff_of_true rfl fun b hb => absurd hb (hbytes (by omega) b)
  · have hb := (a.data 0).toNat_lt
    have hsingle : (∀ b, [a.data 0] = [b] → b.toNat < max 128 c.toNat) ↔
        (a.data 0).toNat < max 128 c.toNat :=
      ⟨fun h => h _ rfl, fun h b hb => List.singleton_inj.1 hb ▸ h⟩
    rw [if_neg (by omega), if_neg (by omega), bytes_eq_singleton hone, sign_memcmp_singleton,
      dcmpc_val hone, charInt_eq, hsingle]
    split_ifs <;> simp <;> omega
  · rw [if_neg (by omega), if_pos hgt, dcmpc, if_neg (by omega), if_pos hgt]
    exact iff_of_true rfl fun b hb => absurd hb (hbytes (by omega) b)

end Agreement

/-- The functions on a character agree with those on its string below 128.  From there on a
`char` is negative: the character is found nowhere, and every character is below it. -/
theorem charsAgree_iff (a : Dstring) (ha : a.len < 2 ^ 31) (c : UInt8) (start : UInt32)
    (mem : Memory) :
    CharsAgree a c start mem ↔
      (c.toNat < 128 ∨ (c ∉ a.bytes.drop start.toNat ∧ a.bytes.head? ≠ some c ∧
        a.bytes.getLast? ≠ some c)) ∧
      ∀ b, a.bytes = [b] → b.toNat < max 128 c.toNat := by
  constructor
  · rintro ⟨hpos, hstart, hend, hcmp⟩
    rw [dposc_agrees_iff ha] at hpos
    rw [dstartswithc_agrees_iff] at hstart
    rw [dendswithc_agrees_iff] at hend
    exact ⟨or_and_left.2 ⟨hpos, or_and_left.2 ⟨hstart, hend⟩⟩, dcmpc_agrees_iff.1 hcmp⟩
  · rintro ⟨h, hcmp⟩
    obtain ⟨hpos, h⟩ := or_and_left.1 h
    obtain ⟨hstart, hend⟩ := or_and_left.1 h
    exact ⟨(dposc_agrees_iff ha).2 hpos, dstartswithc_agrees_iff.2 hstart,
      dendswithc_agrees_iff.2 hend, dcmpc_agrees_iff.2 hcmp⟩

/-- The text "foo" and the character "o" -/
theorem charsAgree_foo :
    CharsAgree ⟨3, 64, (cstr "foo").memory⟩ (chr 'o') 0 ⟨fun _ _ => 0, 0, []⟩ :=
  (charsAgree_iff ⟨3, 64, (cstr "foo").memory⟩ (by decide) (chr 'o') 0 ⟨fun _ _ => 0, 0, []⟩).2
    ⟨.inl (by decide), fun b hb => absurd (show 3 = 1 from congrArg List.length hb) (by decide)⟩

/-- The byte 255 does not start with itself, and comes before the character "a". -/
theorem not_charsAgree_255 :
    ¬ CharsAgree ⟨1, 64, fun _ => 255⟩ 255 0 ⟨fun _ _ => 0, 0, []⟩ ∧
      ¬ CharsAgree ⟨1, 64, fun _ => 255⟩ (chr 'a') 0 ⟨fun _ _ => 0, 0, []⟩ :=
  ⟨fun h => absurd h.dstartswithc (by decide), fun h => absurd h.dcmpc (by decide)⟩

end Svc.Common
