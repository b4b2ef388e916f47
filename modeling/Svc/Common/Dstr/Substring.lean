import Svc.Common.Dstr.Capacity
import Svc.Common.Dstr.Search

/-!
# Substrings

`dsub` clamps the length that it is asked for with a sum of two `dstrlen_t` values, which
callers choose freely.  `dpos` and `dposcs` look at the positions where the string fits.
-/

namespace Svc.Common

open Svc.Lib

/-- The string in a block that ends behind its bytes: an access in bounds reads none past them. -/
def Dstring.content (a : Dstring) : Dstring := { a with size := a.len }

@[simp] theorem len_content (a : Dstring) : a.content.len = a.len := rfl

/-- `dsub` returns the bytes of `a` from `start` on, at most `length` of them, and reads no
byte past the content of `a`. -/
def CutsOut (a : Dstring) (start length : UInt32) (mem : Memory) : Prop :=
  ((dsub a start length).run mem).1.bytes = (a.bytes.drop start.toNat).take length.toNat ∧
    (mem.Sound → ((dsub a.content start length).run mem).2.Sound)

section Substring

variable {a : Dstring} {start length : UInt32} {mem : Memory}

theorem bytes_dsub_beyond (hstart : start.toNat > a.len) :
    ((dsub a start length).run mem).1.bytes = [] := by
  rw [dsub_run, if_pos hstart]
  rfl

/-- The clamped length -/
theorem count_of_not_wrap (hstart : start.toNat ≤ a.len)
    (hsum : start.toNat + length.toNat < 2 ^ 32) :
    (if (start + length).toNat > a.len then a.len - start.toNat else length.toNat) =
      min length.toNat (a.len - start.toNat) := by
  rw [UInt32.toNat_add, Nat.mod_eq_of_lt hsum]
  split_ifs <;> omega

/-- The sum that wraps around is less than `start`. -/
theorem count_of_wrap (hstart : start.toNat ≤ a.len)
    (hsum : 2 ^ 32 ≤ start.toNat + length.toNat) :
    (if (start + length).toNat > a.len then a.len - start.toNat else length.toNat) =
      length.toNat := by
  have hlength := length.toNat_lt
  have hlt := start.toNat_lt
  rw [if_neg]
  rw [UInt32.toNat_add]
  omega

theorem bytes_dsub_clamped (hstart : start.toNat ≤ a.len)
    (hsum : start.toNat + length.toNat < 2 ^ 32) :
    ((dsub a start length).run mem).1.bytes = (a.bytes.drop start.toNat).take length.toNat := by
  rw [dsub_run, if_neg (by omega), count_of_not_wrap hstart hsum]
  dsimp only
  rw [bytes_dfrommem]
  have hslice : (a.bytes.drop start.toNat).take (min length.toNat (a.len - start.toNat)) = _ :=
    Block.take_drop_first (by omega)
  have hrest : (a.bytes.drop start.toNat).take (a.len - start.toNat) = a.bytes.drop start.toNat :=
    List.take_of_length_le (by rw [List.length_drop, length_bytes])
  rw [← List.take_take, hrest] at hslice
  exact hslice.symm

theorem length_dsub_of_wrap (hstart : start.toNat ≤ a.len)
    (hsum : 2 ^ 32 ≤ start.toNat + length.toNat) :
    ((dsub a start length).run mem).1.bytes.length = length.toNat := by
  rw [dsub_run, if_neg (by omega), count_of_wrap hstart hsum]
  dsimp only
  rw [bytes_dfrommem, Block.length_first]

theorem sound_dsub_content (hmem : mem.Sound)
    (h : start.toNat > a.len ∨ start.toNat + length.toNat < 2 ^ 32) :
    ((dsub a.content start length).run mem).2.Sound := by
  rw [← len_content a] at h
  rw [dsub_run]
  by_cases hstart : start.toNat > a.content.len
  · rw [if_pos hstart]
    exact (fits_dnew hmem).1
  · have hle := Nat.le_of_not_lt hstart
    have hread : (mem.log ⟨start.toNat, min length.toNat (a.len - start.toNat), a.len⟩).Sound := by
      rw [sound_log, Access.inBounds_iff]
      rw [len_content] at hle
      refine ⟨hmem, .inr ?_⟩
      dsimp only
      omega
    rw [if_neg hstart, count_of_not_wrap hle (h.resolve_left hstart)]
    exact (fits_dfrommem hread _ _).1

end Substring

/-- The length is clamped unless the sum of the arguments wraps around. -/
theorem dsub_cutsOut_iff (a : Dstring) (ha : a.len < 2 ^ 32) (start length : UInt32)
    (mem : Memory) :
    CutsOut a start length mem ↔
      start.toNat > a.len ∨ start.toNat + length.toNat < 2 ^ 32 := by
  constructor
  · rintro ⟨hbytes, -⟩
    by_contra hnot
    rw [not_or, Nat.not_lt, Nat.not_lt] at hnot
    have hlength : ((dsub a start length).run mem).1.bytes.length = length.toNat :=
      length_dsub_of_wrap hnot.1 hnot.2
    rw [hbytes, List.length_take, List.length_drop, length_bytes] at hlength
    omega
  · intro h
    refine ⟨?_, fun hmem => sound_dsub_content hmem h⟩
    by_cases hstart : start.toNat > a.len
    · rw [bytes_dsub_beyond hstart, List.drop_of_length_le (by rw [length_bytes]; omega),
        List.take_nil]
    · exact bytes_dsub_clamped (by omega) (h.resolve_left hstart)

/-- The text "foobar" from its third byte on -/
theorem dsub_cutsOut_foobar :
    CutsOut ⟨6, 64, (cstr "foobar").memory⟩ 3 100 ⟨fun _ _ => 0, 0, []⟩ :=
  (dsub_cutsOut_iff ⟨6, 64, (cstr "foobar").memory⟩ (by decide) 3 100 ⟨fun _ _ => 0, 0, []⟩).2
    (.inr (by decide))

/-- The text "a" from its end on: `1 + UINT_MAX` is zero. -/
theorem not_cutsOut_wrap :
    ¬ CutsOut ⟨1, 64, (cstr "a").memory⟩ 1 4294967295 ⟨fun _ _ => 0, 0, []⟩ := by
  rintro ⟨hbytes, -⟩
  have hlength : ((dsub ⟨1, 64, (cstr "a").memory⟩ 1 4294967295).run
      ⟨fun _ _ => 0, 0, []⟩).1.bytes.length = 4294967295 :=
    length_dsub_of_wrap (by decide) (by decide)
  rw [hbytes] at hlength
  exact absurd hlength (by decide)

/-! ## Searching -/

/-- A search from `start` on returns the least position of an occurrence, or `-1` if there is
none. -/
def FindsFirst (on text : Bytes) (start : Nat) (result : Int32) : Prop :=
  (result = -1 ∧ ∀ i, start ≤ i → ¬ Split.OccursAt on text i) ∨
    ∃ i : Nat, result.toInt = i ∧ IsLeast {i | start ≤ i ∧ Split.OccursAt on text i} i

section Search

variable {a b : Dstring} {on text : Bytes} {occurs : UInt32 → MemM Bool} {start : UInt32}
  {mem : Memory}

theorem findsFirst_of_beyond {start : Nat} (hstart : text.length < start) :
    FindsFirst on text start (-1) :=
  .inl ⟨rfl, fun _ hi hoccurs => absurd hoccurs.1 (by omega)⟩

theorem findsFirst_firstFrom {start : Nat} (htext : text.length < 2 ^ 31)
    (hstart : start ≤ text.length) :
    FindsFirst on text start (posResult (firstFrom on text start)) := by
  rw [firstFrom]
  cases hbreak : Split.breakAt on (text.drop start) with
  | none => exact .inl ⟨rfl, fun i hi => Split.not_occursAt_of_breakAt hbreak hi⟩
  | some b =>
      have hleast := Split.isLeast_of_breakAt hstart hbreak
      refine .inr ⟨start + b.1.length, ?_, hleast⟩
      have hle : start + b.1.length ≤ text.length := hleast.1.2.1
      exact Int32.toInt_ofNat_of_lt (show start + b.1.length < 2 ^ 31 by omega)

theorem posOf_beyond {len : Nat} (ha : a.len < 2 ^ 31) (hstart : a.len < start.toNat) :
    ((posOf a len occurs start).run mem).1 = -1 := by
  unfold posOf
  dsimp only
  split_ifs with hshort hbeyond
  · rfl
  · rfl
  · rw [gt_iff_lt, UInt32.lt_iff_toNat_lt, UInt32.toNat_ofNat'] at hbeyond
    omega

theorem dpos_findsFirst (ha : a.len < 2 ^ 31) :
    FindsFirst b.bytes a.bytes start.toNat ((dpos a b start).run mem).1 := by
  by_cases hstart : start.toNat ≤ a.len
  · rw [dpos_eq ha hstart]
    exact findsFirst_firstFrom (by rwa [length_bytes]) (by rwa [length_bytes])
  · have hrun : ((dpos a b start).run mem).1 = -1 := posOf_beyond ha (by omega)
    rw [hrun]
    exact findsFirst_of_beyond (by rw [length_bytes]; omega)

theorem dposcs_eq_dpos {onCs : CString} (ha : a.len < 2 ^ 31) (hon : onCs.bytes = b.bytes)
    (mem' : Memory) :
    ((dposcs a onCs start).run mem').1 = ((dpos a b start).run mem).1 := by
  by_cases hstart : start.toNat ≤ a.len
  · rw [dpos_eq ha hstart, dposcs_eq ha hstart, hon]
  · have hcs : ((dposcs a onCs start).run mem').1 = -1 := posOf_beyond ha (by omega)
    have hd : ((dpos a b start).run mem).1 = -1 := posOf_beyond ha (by omega)
    rw [hcs, hd]

/-- The loop looks at no position behind the last one where the string fits. -/
theorem sound_posFrom {len : Nat}
    (hoccurs : ∀ i mem, i.toNat + len ≤ a.len → mem.Sound → ((occurs i).run mem).2.Sound)
    {rounds : Nat} {i : UInt32} (hi : i.toNat + rounds + len ≤ a.len + 1) (hmem : mem.Sound) :
    ((posFrom occurs rounds i).run mem).2.Sound := by
  induction rounds generalizing i mem with
  | zero => exact hmem
  | succ rounds ih =>
      have hnext := hoccurs i mem (by omega) hmem
      rw [posFrom_succ_run]
      split_ifs
      · exact hnext
      · refine ih ?_ hnext
        rw [UInt32.toNat_add, UInt32.toNat_one]
        omega

theorem sound_posOf {len : Nat} (ha : a.len < 2 ^ 31)
    (hoccurs : ∀ i mem, i.toNat + len ≤ a.len → mem.Sound → ((occurs i).run mem).2.Sound)
    (hmem : mem.Sound) : ((posOf a len occurs start).run mem).2.Sound := by
  have hlast : (UInt32.ofNat (a.len - len)).toNat = a.len - len := by
    rw [UInt32.toNat_ofNat']
    omega
  unfold posOf
  dsimp only
  split_ifs with hshort hbeyond
  · exact hmem
  · exact hmem
  · rw [gt_iff_lt, UInt32.lt_iff_toNat_lt, hlast] at hbeyond
    exact sound_posFrom hoccurs (by omega) hmem

theorem sound_dpos (ha : a.len < 2 ^ 31) (hmem : mem.Sound) :
    ((dpos a.content b.content start).run mem).2.Sound := by
  refine sound_posOf ha (fun i mem hi hmem => ?_) hmem
  simp only [MemM.run_bind, MemM.run_pure, readAt_run, sound_log, Access.inBounds_iff]
  exact ⟨⟨hmem, .inr hi⟩, .inr (Nat.zero_add b.len).le⟩

theorem sound_dposcs {b : CString} (ha : a.len < 2 ^ 31) (hmem : mem.Sound) :
    ((dposcs a.content b start).run mem).2.Sound := by
  refine sound_posOf ha (fun i mem hi hmem => ?_) hmem
  simp only [MemM.run_bind, MemM.run_pure, readAt_run, sound_log, Access.inBounds_iff]
  exact ⟨hmem, .inr hi⟩

end Search

/-- `dpos` finds the first occurrence and compares only bytes inside the strings, and `dposcs`
does the same for a C string. -/
theorem dpos_search (a b : Dstring) (ha : a.len < 2 ^ 31) (start : UInt32) (mem : Memory) :
    FindsFirst b.bytes a.bytes start.toNat ((dpos a b start).run mem).1 ∧
      (mem.Sound → ((dpos a.content b.content start).run mem).2.Sound) ∧
      ∀ onCs : CString, onCs.bytes = b.bytes →
        ((dposcs a onCs start).run mem).1 = ((dpos a b start).run mem).1 ∧
          (mem.Sound → ((dposcs a.content onCs start).run mem).2.Sound) :=
  ⟨dpos_findsFirst ha, sound_dpos ha, fun _ hon => ⟨dposcs_eq_dpos ha hon mem, sound_dposcs ha⟩⟩

/-- The text "foobarbar" and "bar", from the position behind the first occurrence on -/
theorem dpos_search_foobarbar :
    ((dpos ⟨9, 64, (cstr "foobarbar").memory⟩ ⟨3, 64, (cstr "bar").memory⟩ 4).run
        ⟨fun _ _ => 0, 0, []⟩).1 = 6 ∧
      FindsFirst (cstr "bar") (cstr "foobarbar") 4 6 :=
  ⟨by decide, (dpos_search ⟨9, 64, (cstr "foobarbar").memory⟩ ⟨3, 64, (cstr "bar").memory⟩
    (by decide) 4 ⟨fun _ _ => 0, 0, []⟩).1⟩

end Svc.Common
