import Svc.Common.Dstr.Pool

/-!
# The capacity of strings

Every function of `dstr.c` makes room for what it writes, except that `dcatc` and
`dcatmem` forget the terminating zero and `dncat` and `dncatcs` make no room at all.
As long as these are called where there is room, all accesses to the data of strings
are in bounds, and a string has room for its zero.
-/

namespace Svc.Common

open Svc.Lib

theorem lt_align (l : Nat) : l < align l := by
  simp only [align, Nat.shiftRight_eq_div_pow, Nat.shiftLeft_eq]
  omega

def Memory.Sound (mem : Memory) : Prop := ∀ a ∈ mem.accesses, a.InBounds

theorem sound_log (mem : Memory) (a : Access) : (mem.log a).Sound ↔ mem.Sound ∧ a.InBounds := by
  simp only [Memory.Sound, Memory.log, List.forall_mem_append, List.forall_mem_singleton]

/-- All accesses so far were in bounds, and the string has room for its zero. -/
def Fits (r : Dstring × Memory) : Prop := r.2.Sound ∧ r.1.len < r.1.size

section Calls

variable {dst src : Dstring} {mem : Memory}

/-! ## Growing -/

theorem setSize_room (dst : Dstring) (size : Nat) (hmem : mem.Sound) :
    size < ((setSize dst size).run mem).1.size ∧ ((setSize dst size).run mem).2.Sound := by
  have halign := lt_align size
  rw [setSize_run]
  split
  · exact ⟨by simp only; omega, hmem⟩
  · exact ⟨halign, hmem⟩

/-- `add_size` leaves room for the bytes it is asked for, and for a zero behind them
unless they fill the block to the last byte. -/
theorem addSize_room (size : Nat) (hmem : mem.Sound) (hdst : dst.len < dst.size) :
    ((addSize dst size).run mem).1.len = dst.len ∧
      dst.len < ((addSize dst size).run mem).1.size ∧
      dst.len + size ≤ ((addSize dst size).run mem).1.size ∧
      (dst.len + size < ((addSize dst size).run mem).1.size ↔ dst.len + size ≠ dst.size) ∧
      ((addSize dst size).run mem).2.Sound := by
  have halign := lt_align (dst.len + size)
  rw [addSize_run]
  split
  · rename_i hfits
    refine ⟨rfl, hdst, hfits, ?_, hmem⟩
    simp only
    omega
  · simp only [sound_log, Access.inBounds_iff]
    refine ⟨trivial, by omega, by omega, by omega, ⟨hmem, by omega⟩, by omega⟩

/-! ## Constructors -/

theorem fits_dnew (hmem : mem.Sound) : Fits (dnew.run mem) := by
  rw [dnew_run]
  exact ⟨hmem, by simp⟩

theorem fits_dnewcopy (hmem : mem.Sound) (hsrc : src.len < src.size) :
    Fits ((dnewcopy src).run mem) := by
  have halign := lt_align src.len
  simp only [dnewcopy, Fits, MemM.run_bind, malloc_run, readAt_run, writeAt_run, sound_log,
    Access.inBounds_iff]
  refine ⟨⟨⟨hmem, by omega⟩, by omega⟩, halign⟩

theorem fits_dfromc (hmem : mem.Sound) (ch : UInt8) : Fits ((dfromc ch).run mem) := by
  simp only [dfromc, Fits, MemM.run_bind, dnew_run, setAt_run, putZ_run, sound_log,
    Access.inBounds_iff]
  exact ⟨⟨⟨hmem, by decide⟩, by decide⟩, by decide⟩

theorem fits_dfrommem (hmem : mem.Sound) (source : Nat → UInt8) (size : Nat) :
    Fits ((dfrommem source size).run mem) := by
  have halign := lt_align size
  simp only [dfrommem, Fits, MemM.run_bind, malloc_run, writeAt_run, putZ_run, sound_log,
    Access.inBounds_iff]
  refine ⟨⟨⟨hmem, by omega⟩, by omega⟩, halign⟩

/-! ## Copies -/

theorem fits_dclear (hmem : mem.Sound) (hdst : dst.len < dst.size) :
    Fits ((dclear dst).run mem) := by
  simp only [dclear, Fits, MemM.run_bind, setAt_run, putZ_run, sound_log, Access.inBounds_iff]
  refine ⟨⟨⟨hmem, by omega⟩, by omega⟩, by omega⟩

theorem fits_dcpy (hmem : mem.Sound) (hsrc : src.len < src.size) :
    Fits ((dcpy dst src).run mem) := by
  obtain ⟨hroom, hsound⟩ := setSize_room dst (src.len + 1) hmem
  simp only [dcpy, Fits, MemM.run_bind, MemM.run_pure, readAt_run, writeAt_run, sound_log,
    Access.inBounds_iff]
  refine ⟨⟨⟨hsound, by omega⟩, by omega⟩, by omega⟩

theorem fits_dcpyc (hmem : mem.Sound) (ch : UInt8) : Fits ((dcpyc dst ch).run mem) := by
  obtain ⟨hroom, hsound⟩ := setSize_room dst 1 hmem
  simp only [dcpyc, Fits, MemM.run_bind, MemM.run_pure, setAt_run, sound_log, Access.inBounds_iff]
  refine ⟨⟨⟨hsound, by omega⟩, by omega⟩, by omega⟩

theorem fits_dcpycs (hmem : mem.Sound) (str : CString) : Fits ((dcpycs dst str).run mem) := by
  obtain ⟨hroom, hsound⟩ := setSize_room dst (str.bytes.length + 1) hmem
  simp only [dcpycs, Fits, MemM.run_bind, MemM.run_pure, writeAt_run, sound_log,
    Access.inBounds_iff]
  refine ⟨⟨hsound, by omega⟩, by omega⟩

theorem fits_dcpymem (hmem : mem.Sound) (source : Nat → UInt8) (size : Nat) :
    Fits ((dcpymem dst source size).run mem) := by
  obtain ⟨hroom, hsound⟩ := setSize_room dst (size + 1) hmem
  simp only [dcpymem, Fits, MemM.run_bind, writeAt_run, putZ_run, sound_log, Access.inBounds_iff]
  refine ⟨⟨⟨hsound, by omega⟩, by omega⟩, by omega⟩

theorem fits_dncpy (hmem : mem.Sound) (hsrc : src.len < src.size) (n : Nat) :
    Fits ((dncpy dst src n).run mem) := by
  obtain ⟨hroom, hsound⟩ := setSize_room dst (min src.len n + 1) hmem
  simp only [dncpy, clip_eq_min, Fits, MemM.run_bind, readAt_run, writeAt_run, putZ_run, sound_log,
    Access.inBounds_iff]
  refine ⟨⟨⟨⟨hsound, by omega⟩, by omega⟩, by omega⟩, by omega⟩

theorem dncpycs_eq (dst : Dstring) (str : CString) (n : Nat) :
    dncpycs dst str n = dcpymem dst str.bytes.memory (min str.bytes.length n) := by
  simp only [dncpycs, clip_eq_min]
  rfl

/-! ## Appends -/

theorem fits_dcat (hmem : mem.Sound) (hdst : dst.len < dst.size) (hsrc : src.len < src.size) :
    Fits ((dcat dst src).run mem) := by
  obtain ⟨hlen, -, hroom, -, hsound⟩ := addSize_room (src.len + 1) hmem hdst
  simp only [dcat, Fits, MemM.run_bind, MemM.run_pure, readAt_run, writeAt_run, sound_log,
    Access.inBounds_iff]
  refine ⟨⟨⟨hsound, by omega⟩, by omega⟩, by omega⟩

theorem fits_dcatcs (hmem : mem.Sound) (hdst : dst.len < dst.size) (str : CString) :
    Fits ((dcatcs dst str).run mem) := by
  obtain ⟨hlen, -, hroom, -, hsound⟩ := addSize_room (str.bytes.length + 1) hmem hdst
  simp only [dcatcs, Fits, MemM.run_bind, MemM.run_pure, writeAt_run, sound_log,
    Access.inBounds_iff]
  refine ⟨⟨hsound, by omega⟩, by omega⟩

/-- `dcatmem` writes its zero behind the block when the bytes fill the block. -/
theorem fits_dcatmem_iff (hmem : mem.Sound) (hdst : dst.len < dst.size) (source : Nat → UInt8)
    (size : Nat) : Fits ((dcatmem dst source size).run mem) ↔ dst.len + size ≠ dst.size := by
  obtain ⟨hlen, hold, hroom, hiff, hsound⟩ := addSize_room size hmem hdst
  simp only [dcatmem, Fits, MemM.run_bind, writeAt_run, putZ_run, sound_log, Access.inBounds_iff,
    hlen, ← hiff]
  constructor
  · exact And.right
  · intro hlt
    exact ⟨⟨⟨hsound, by omega⟩, by omega⟩, hlt⟩

theorem dcatc_eq (dst : Dstring) (ch : UInt8) : dcatc dst ch = dcatmem dst (fun _ => ch) 1 := rfl

theorem fits_dncat_iff (hmem : mem.Sound) (hsrc : src.len < src.size)
    (n : Nat) : Fits ((dncat dst src n).run mem) ↔ dst.len + min src.len n < dst.size := by
  simp only [dncat, clip_eq_min, Fits, MemM.run_bind, readAt_run, writeAt_run, putZ_run, sound_log,
    Access.inBounds_iff]
  constructor
  · exact And.right
  · intro hlt
    exact ⟨⟨⟨⟨hmem, by omega⟩, by omega⟩, by omega⟩, hlt⟩

theorem fits_dncatcs_iff (hmem : mem.Sound) (str : CString) (n : Nat) :
    Fits ((dncatcs dst str n).run mem) ↔ dst.len + min str.bytes.length n < dst.size := by
  simp only [dncatcs, clip_eq_min, Fits, MemM.run_bind, writeAt_run, putZ_run, sound_log,
    Access.inBounds_iff]
  constructor
  · exact And.right
  · intro hlt
    exact ⟨⟨⟨hmem, by omega⟩, by omega⟩, hlt⟩

end Calls

/-! ## Runs -/

/-- The call has the room that the code does not make for it. -/
def HasRoom (pool : Pool) : DstrCall → Prop
  | .dcatc dst _ => ∀ d ∈ pool.strings[dst]?, d.len + 1 ≠ d.size
  | .dcatmem dst src => ∀ d ∈ pool.strings[dst]?, d.len + src.length ≠ d.size
  | .dncat dst src n =>
      ∀ d ∈ pool.strings[dst]?, ∀ s ∈ pool.strings[src]?, d.len + min s.len n < d.size
  | .dncatcs dst src n => ∀ d ∈ pool.strings[dst]?, d.len + min src.bytes.length n < d.size
  | _ => True

/-- What the capacity promises of a pool. -/
structure CapacityKept (pool : Pool) : Prop where
  /-- every access to the data of a string was below its `size` -/
  sound : pool.mem.Sound
  len_lt : ∀ s ∈ pool.strings, s.len < s.size

theorem fits_effect_iff {pool : Pool} {call : DstrCall} {target : Option Handle}
    {op : MemM Dstring} (hpool : CapacityKept pool) (h : call.effect pool = some (target, op)) :
    Fits (op.run pool.mem) ↔ HasRoom pool call := by
  have hmem := hpool.sound
  have hlen' {i : Handle} {s : Dstring} (hs : pool.strings[i]? = some s) : s.len < s.size :=
    hpool.len_lt s (List.mem_of_getElem? hs)
  cases call with
  | dnew =>
      cases h
      exact iff_of_true (fits_dnew hmem) trivial
  | dnewcopy str =>
      obtain ⟨s, hs, heq⟩ := Option.map_eq_some_iff.1 h
      cases heq
      exact iff_of_true (fits_dnewcopy hmem (hlen' hs)) trivial
  | dclear str =>
      obtain ⟨d, hd, -, rfl⟩ := changing_eq_some.1 h
      exact iff_of_true (fits_dclear hmem (hlen' hd)) trivial
  | dfromc ch =>
      cases h
      exact iff_of_true (fits_dfromc hmem ch) trivial
  | dfromcs str =>
      cases h
      exact iff_of_true (fits_dfrommem hmem _ _) trivial
  | dfrommem mem =>
      cases h
      exact iff_of_true (fits_dfrommem hmem _ _) trivial
  | dcpy dst src _ =>
      obtain ⟨d, s, -, hs, -, rfl⟩ := combining_eq_some.1 h
      exact iff_of_true (fits_dcpy hmem (hlen' hs)) trivial
  | dcpyc dst src =>
      obtain ⟨d, -, -, rfl⟩ := changing_eq_some.1 h
      exact iff_of_true (fits_dcpyc hmem src) trivial
  | dcpycs dst src =>
      obtain ⟨d, -, -, rfl⟩ := changing_eq_some.1 h
      exact iff_of_true (fits_dcpycs hmem src) trivial
  | dcpymem dst mem =>
      obtain ⟨d, -, -, rfl⟩ := changing_eq_some.1 h
      exact iff_of_true (fits_dcpymem hmem _ _) trivial
  | dncpy dst src n _ =>
      obtain ⟨d, s, -, hs, -, rfl⟩ := combining_eq_some.1 h
      exact iff_of_true (fits_dncpy hmem (hlen' hs) n) trivial
  | dncpycs dst src n =>
      obtain ⟨d, -, -, rfl⟩ := changing_eq_some.1 h
      simp only [dncpycs_eq]
      exact iff_of_true (fits_dcpymem hmem _ _) trivial
  | dcat dst src _ =>
      obtain ⟨d, s, hd, hs, -, rfl⟩ := combining_eq_some.1 h
      exact iff_of_true (fits_dcat hmem (hlen' hd) (hlen' hs)) trivial
  | dcatc dst src =>
      obtain ⟨d, hd, -, rfl⟩ := changing_eq_some.1 h
      simp only [dcatc_eq, fits_dcatmem_iff hmem (hlen' hd), HasRoom, hd, Option.mem_some_iff,
        forall_eq']
  | dcatcs dst src =>
      obtain ⟨d, hd, -, rfl⟩ := changing_eq_some.1 h
      exact iff_of_true (fits_dcatcs hmem (hlen' hd) src) trivial
  | dcatmem dst src =>
      obtain ⟨d, hd, -, rfl⟩ := changing_eq_some.1 h
      simp only [fits_dcatmem_iff hmem (hlen' hd), HasRoom, hd, Option.mem_some_iff, forall_eq']
  | dncat dst src n =>
      obtain ⟨d, s, hd, hs, -, rfl⟩ := combining_eq_some.1 h
      simp only [fits_dncat_iff hmem (hlen' hs), HasRoom, hd, hs, Option.mem_some_iff, forall_eq']
  | dncatcs dst src n =>
      obtain ⟨d, hd, -, rfl⟩ := changing_eq_some.1 h
      simp only [fits_dncatcs_iff hmem, HasRoom, hd, Option.mem_some_iff, forall_eq']

theorem hasRoom_of_no_effect {pool : Pool} {call : DstrCall} (h : call.effect pool = none) :
    HasRoom pool call := by
  cases call with
  | dncat dst src n =>
      intro d hd s hs
      simp [DstrCall.effect, Pool.combining, Pool.changing, Option.mem_def.1 hd,
        Option.mem_def.1 hs] at h
  | dcatc dst | dcatmem dst | dncatcs dst =>
      have hnone : pool.strings[dst]? = none := Option.map_eq_none_iff.1 h
      simp [HasRoom, hnone]
  | _ => trivial

theorem capacityKept_next_iff {pool : Pool} (hpool : CapacityKept pool) (call : DstrCall) :
    CapacityKept (dstrMachine.next pool call) ↔ HasRoom pool call := by
  cases h : call.effect pool with
  | none =>
      rw [next_of_no_effect h]
      exact iff_of_true hpool (hasRoom_of_no_effect h)
  | some effect =>
      obtain ⟨target, op⟩ := effect
      have hstrings : (∀ s ∈ (pool.apply target op).strings, s.len < s.size) ↔
          (op.run pool.mem).1.len < (op.run pool.mem).1.size :=
        forall_strings_apply hpool.len_lt fun dst hdst => lt_of_effect (hdst ▸ h)
      rw [next_of_effect h, ← fits_effect_iff hpool h]
      constructor
      · rintro ⟨hsound, hlen⟩
        exact ⟨mem_apply ▸ hsound, hstrings.1 hlen⟩
      · rintro ⟨hsound, hlen⟩
        exact ⟨mem_apply ▸ hsound, hstrings.2 hlen⟩

theorem capacityKept_init (contents : Nat → Nat → UInt8) : CapacityKept (.init contents) :=
  ⟨List.forall_mem_nil _, List.forall_mem_nil _⟩

/-- The capacity is kept at every moment of a run exactly if no call of it lacks room. -/
theorem capacityKept_iff (contents : Nat → Nat → UInt8) (calls : List DstrCall) :
    (∀ pre, pre <+: calls → CapacityKept (poolAfter contents pre)) ↔
      dstrMachine.Guarded HasRoom (.init contents) calls := by
  refine dstrMachine.forall_prefix_iff_guarded calls (capacityKept_init contents)
    fun pre call _ hpre => ?_
  have hkept : CapacityKept (dstrMachine.run (.init contents) pre) :=
    dstrMachine.invariant_run_of_guarded (I := CapacityKept)
      (fun _ call h => (capacityKept_next_iff h call).2) (capacityKept_init contents) hpre
  rw [poolAfter, Machine.run_concat]
  exact capacityKept_next_iff hkept call

/-- `dcatmem` of as many bytes as there are, `dcatc` of the last one, and `dncatcs` past the end. -/
theorem capacity_lost :
    ¬ CapacityKept (poolAfter (fun _ _ => 0) [.dnew, .dcatmem 0 (.replicate 32 97)]) ∧
      ¬ CapacityKept (poolAfter (fun _ _ => 0)
        [.dnew, .dcatmem 0 (.replicate 31 97), .dcatc 0 97]) ∧
      ¬ CapacityKept (poolAfter (fun _ _ => 0)
        [.dnew, .dncatcs 0 ⟨.replicate 40 97, by decide⟩ 40]) :=
  ⟨fun h => absurd h.len_lt (by decide), fun h => absurd h.len_lt (by decide),
    fun h => absurd h.len_lt (by decide)⟩

end Svc.Common
