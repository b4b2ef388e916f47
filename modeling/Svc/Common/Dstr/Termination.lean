import Svc.Common.Dstr.Pool

/-!
# The terminating zero of strings

A string is used as a C string by many, so there must be a zero behind its bytes.  All
functions of `dstr.c` put one there or copy one, except that `dnew` returns a block as
`malloc` left it.
-/

namespace Svc.Common

open Svc.Lib

/-- `data` is a C string that does not end before or behind the bytes: `data[len] = 0` -/
def Dstring.Terminated (s : Dstring) : Prop := s.data s.len = 0

instance (s : Dstring) : Decidable s.Terminated := inferInstanceAs (Decidable (_ = _))

section Calls

variable {dst src : Dstring} {mem : Memory}

/-- A block with a zero behind the bytes. -/
theorem terminated_zero (block : Nat → UInt8) (len size : Nat) :
    (Dstring.mk len size (Block.copy block len (fun _ => 0) 1)).Terminated := by
  have hzero : Block.copy block len (fun _ => (0 : UInt8)) 1 (len + 0) = 0 :=
    Block.copy_inside Nat.one_pos
  exact hzero

theorem terminated_putZ (s : Dstring) : ((putZ s).run mem).1.Terminated := by
  rw [putZ_run]
  exact terminated_zero s.data s.len s.size

/-- A block that a whole C string has been copied to. -/
theorem terminated_copy {block source : Nat → UInt8} {index len size : Nat}
    (hsource : source len = 0) :
    (Dstring.mk (index + len) size (Block.copy block index source (len + 1))).Terminated :=
  (Block.copy_inside (Nat.lt_succ_self len)).trans hsource

theorem terminated_copy_start {block source : Nat → UInt8} {len size : Nat}
    (hsource : source len = 0) :
    (Dstring.mk len size (Block.copy block 0 source (len + 1))).Terminated :=
  (Block.copy_inside_start (Nat.lt_succ_self len)).trans hsource

theorem memory_length (b : Bytes) : b.memory b.length = 0 := by
  simp [Bytes.memory]

/-! ## Constructors -/

theorem terminated_dnew_iff : (dnew.run mem).1.Terminated ↔ mem.contents mem.mallocs 0 = 0 :=
  Iff.rfl

theorem terminated_dnewcopy (hsrc : src.Terminated) : ((dnewcopy src).run mem).1.Terminated := by
  simp only [dnewcopy, MemM.run_bind, malloc_run, readAt_run, writeAt_run, Nat.zero_add]
  exact terminated_copy_start hsrc

theorem terminated_dfromc (ch : UInt8) : ((dfromc ch).run mem).1.Terminated := by
  simp only [dfromc, MemM.run_bind, terminated_putZ]

theorem terminated_dfrommem (source : Nat → UInt8) (size : Nat) :
    ((dfrommem source size).run mem).1.Terminated := by
  simp only [dfrommem, MemM.run_bind, terminated_putZ]

/-! ## Copies -/

theorem terminated_dclear : ((dclear dst).run mem).1.Terminated := by
  simp only [dclear, MemM.run_bind, terminated_putZ]

theorem terminated_dcpy (hsrc : src.Terminated) : ((dcpy dst src).run mem).1.Terminated := by
  simp only [dcpy, MemM.run_bind, MemM.run_pure, readAt_run, writeAt_run, Nat.zero_add]
  exact terminated_copy_start hsrc

theorem terminated_dcpyc (ch : UInt8) : ((dcpyc dst ch).run mem).1.Terminated := by
  simp only [dcpyc, MemM.run_bind, MemM.run_pure, setAt_run]
  exact terminated_zero _ 1 _

theorem terminated_dcpycs (str : CString) : ((dcpycs dst str).run mem).1.Terminated := by
  simp only [dcpycs, MemM.run_bind, MemM.run_pure, writeAt_run]
  exact terminated_copy_start (memory_length _)

theorem terminated_dcpymem (source : Nat → UInt8) (size : Nat) :
    ((dcpymem dst source size).run mem).1.Terminated := by
  simp only [dcpymem, MemM.run_bind, terminated_putZ]

theorem terminated_dncpy (n : Nat) : ((dncpy dst src n).run mem).1.Terminated := by
  simp only [dncpy, MemM.run_bind, terminated_putZ]

theorem terminated_dncpycs (str : CString) (n : Nat) :
    ((dncpycs dst str n).run mem).1.Terminated := by
  simp only [dncpycs, MemM.run_bind, terminated_putZ]

/-! ## Appends -/

theorem terminated_dcat (hsrc : src.Terminated) : ((dcat dst src).run mem).1.Terminated := by
  simp only [dcat, MemM.run_bind, MemM.run_pure, readAt_run, writeAt_run, Nat.zero_add]
  exact terminated_copy hsrc

theorem terminated_dcatcs (str : CString) : ((dcatcs dst str).run mem).1.Terminated := by
  simp only [dcatcs, MemM.run_bind, MemM.run_pure, writeAt_run]
  exact terminated_copy (memory_length _)

theorem terminated_dcatmem (source : Nat → UInt8) (size : Nat) :
    ((dcatmem dst source size).run mem).1.Terminated := by
  simp only [dcatmem, MemM.run_bind, terminated_putZ]

theorem terminated_dcatc (ch : UInt8) : ((dcatc dst ch).run mem).1.Terminated :=
  terminated_dcatmem _ 1

theorem terminated_dncat (n : Nat) : ((dncat dst src n).run mem).1.Terminated := by
  simp only [dncat, MemM.run_bind, terminated_putZ]

theorem terminated_dncatcs (str : CString) (n : Nat) :
    ((dncatcs dst str n).run mem).1.Terminated := by
  simp only [dncatcs, MemM.run_bind, terminated_putZ]

/-! ## Substrings -/

theorem terminated_dsub {a : Dstring} {start : UInt32} (hstart : start.toNat ≤ a.len)
    (length : UInt32) : ((dsub a start length).run mem).1.Terminated := by
  rw [dsub_run, if_neg (by omega)]
  exact terminated_dfrommem _ _

end Calls

/-! ## Calls on a pool -/

def Pool.Terminated (pool : Pool) : Prop := ∀ s ∈ pool.strings, s.Terminated

instance (pool : Pool) : Decidable pool.Terminated :=
  inferInstanceAs (Decidable (∀ s ∈ pool.strings, s.Terminated))

def Pool.NextBlockZero (pool : Pool) : Prop := pool.mem.contents pool.mem.mallocs 0 = 0

theorem terminated_effect_iff {pool : Pool} {call : DstrCall} {target : Option Handle}
    {op : MemM Dstring} (hpool : pool.Terminated) (h : call.effect pool = some (target, op)) :
    (op.run pool.mem).1.Terminated ↔ (call = .dnew → pool.NextBlockZero) := by
  have hget {i : Handle} {s : Dstring} (hs : pool.strings[i]? = some s) : s.Terminated :=
    hpool s (List.mem_of_getElem? hs)
  cases call with
  | dnew =>
      cases h
      exact terminated_dnew_iff.trans ⟨fun hzero _ => hzero, fun h => h rfl⟩
  | dnewcopy str =>
      obtain ⟨s, hs, heq⟩ := Option.map_eq_some_iff.1 h
      cases heq
      exact iff_of_true (terminated_dnewcopy (hget hs)) nofun
  | dclear str =>
      obtain ⟨d, -, -, rfl⟩ := changing_eq_some.1 h
      exact iff_of_true terminated_dclear nofun
  | dfromc ch =>
      cases h
      exact iff_of_true (terminated_dfromc ch) nofun
  | dfromcs str | dfrommem mem =>
      cases h
      exact iff_of_true (terminated_dfrommem _ _) nofun
  | dcpy dst src _ =>
      obtain ⟨d, s, -, hs, -, rfl⟩ := combining_eq_some.1 h
      exact iff_of_true (terminated_dcpy (hget hs)) nofun
  | dcpyc dst src =>
      obtain ⟨d, -, -, rfl⟩ := changing_eq_some.1 h
      exact iff_of_true (terminated_dcpyc src) nofun
  | dcpycs dst src =>
      obtain ⟨d, -, -, rfl⟩ := changing_eq_some.1 h
      exact iff_of_true (terminated_dcpycs src) nofun
  | dcpymem dst mem =>
      obtain ⟨d, -, -, rfl⟩ := changing_eq_some.1 h
      exact iff_of_true (terminated_dcpymem _ _) nofun
  | dncpy dst src n _ =>
      obtain ⟨d, s, -, -, -, rfl⟩ := combining_eq_some.1 h
      exact iff_of_true (terminated_dncpy n) nofun
  | dncpycs dst src n =>
      obtain ⟨d, -, -, rfl⟩ := changing_eq_some.1 h
      exact iff_of_true (terminated_dncpycs src n) nofun
  | dcat dst src _ =>
      obtain ⟨d, s, -, hs, -, rfl⟩ := combining_eq_some.1 h
      exact iff_of_true (terminated_dcat (hget hs)) nofun
  | dcatc dst src =>
      obtain ⟨d, -, -, rfl⟩ := changing_eq_some.1 h
      exact iff_of_true (terminated_dcatc src) nofun
  | dcatcs dst src =>
      obtain ⟨d, -, -, rfl⟩ := changing_eq_some.1 h
      exact iff_of_true (terminated_dcatcs src) nofun
  | dcatmem dst src =>
      obtain ⟨d, -, -, rfl⟩ := changing_eq_some.1 h
      exact iff_of_true (terminated_dcatmem _ _) nofun
  | dncat dst src n =>
      obtain ⟨d, s, -, -, -, rfl⟩ := combining_eq_some.1 h
      exact iff_of_true (terminated_dncat n) nofun
  | dncatcs dst src n =>
      obtain ⟨d, -, -, rfl⟩ := changing_eq_some.1 h
      exact iff_of_true (terminated_dncatcs src n) nofun

theorem terminated_next_iff {pool : Pool} (hpool : pool.Terminated) (call : DstrCall) :
    (dstrMachine.next pool call).Terminated ↔ (call = .dnew → pool.NextBlockZero) := by
  cases h : call.effect pool with
  | none =>
      rw [next_of_no_effect h]
      refine iff_of_true hpool ?_
      rintro rfl
      cases h
  | some effect =>
      obtain ⟨target, op⟩ := effect
      rw [next_of_effect h, ← terminated_effect_iff hpool h]
      exact forall_strings_apply hpool fun dst hdst => lt_of_effect (hdst ▸ h)

end Svc.Common
