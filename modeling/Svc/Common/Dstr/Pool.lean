import Svc.Common.Dstr.Buffer
import Svc.Lib.Machine

/-!
# Sequences of calls on strings

A program that uses `dstr.c` holds a pool of strings.  Each call either adds a string
to the pool or changes one of it.
-/

namespace Svc.Common

open Svc.Lib

structure Pool where
  strings : List Dstring
  mem : Memory

/-- A `dstring*`: the position of the string in the pool -/
abbrev Handle := Nat

namespace Pool

def init (contents : Nat → Nat → UInt8) : Pool := ⟨[], ⟨contents, 0, []⟩⟩

def apply (pool : Pool) (target : Option Handle) (op : MemM Dstring) : Pool :=
  let (s, mem) := op.run pool.mem
  match target with
  | none => ⟨pool.strings ++ [s], mem⟩
  | some dst => ⟨pool.strings.set dst s, mem⟩

end Pool

/-- A call.  Source and destination of `dcpy`, `dncpy` and `dcat` are different strings:
these have `memcpy` write into the bytes it reads otherwise, which C leaves undefined. -/
inductive DstrCall where
  | dnew
  | dnewcopy (str : Handle)
  | dclear (str : Handle)
  | dfromc (ch : UInt8)
  | dfromcs (str : CString)
  | dfrommem (mem : Bytes)
  | dcpy (dst src : Handle) (hdistinct : dst ≠ src)
  | dcpyc (dst : Handle) (src : UInt8)
  | dcpycs (dst : Handle) (src : CString)
  | dcpymem (dst : Handle) (mem : Bytes)
  | dncpy (dst src : Handle) (n : Nat) (hdistinct : dst ≠ src)
  | dncpycs (dst : Handle) (src : CString) (n : Nat)
  | dcat (dst src : Handle) (hdistinct : dst ≠ src)
  | dcatc (dst : Handle) (src : UInt8)
  | dcatcs (dst : Handle) (src : CString)
  | dcatmem (dst : Handle) (src : Bytes)
  | dncat (dst src : Handle) (n : Nat)
  | dncatcs (dst : Handle) (src : CString) (n : Nat)

namespace Pool

def changing (pool : Pool) (dst : Handle) (op : Dstring → MemM Dstring) :
    Option (Option Handle × MemM Dstring) :=
  pool.strings[dst]?.map fun d => (some dst, op d)

def combining (pool : Pool) (dst src : Handle) (op : Dstring → Dstring → MemM Dstring) :
    Option (Option Handle × MemM Dstring) :=
  pool.strings[src]?.bind fun s => pool.changing dst (op · s)

end Pool

/-- The string that a call changes, if it does not return a new one, and what the call does;
`none` if a handle names no string. -/
def DstrCall.effect (pool : Pool) : DstrCall → Option (Option Handle × MemM Dstring)
  | .dnew => some (none, Common.dnew)
  | .dnewcopy str => pool.strings[str]?.map fun s => (none, Common.dnewcopy s)
  | .dclear str => pool.changing str Common.dclear
  | .dfromc ch => some (none, Common.dfromc ch)
  | .dfromcs str => some (none, Common.dfromcs str)
  | .dfrommem mem => some (none, Common.dfrommem mem.memory mem.length)
  | .dcpy dst src _ => pool.combining dst src Common.dcpy
  | .dcpyc dst src => pool.changing dst (Common.dcpyc · src)
  | .dcpycs dst src => pool.changing dst (Common.dcpycs · src)
  | .dcpymem dst mem => pool.changing dst (Common.dcpymem · mem.memory mem.length)
  | .dncpy dst src n _ => pool.combining dst src (Common.dncpy · · n)
  | .dncpycs dst src n => pool.changing dst (Common.dncpycs · src n)
  | .dcat dst src _ => pool.combining dst src Common.dcat
  | .dcatc dst src => pool.changing dst (Common.dcatc · src)
  | .dcatcs dst src => pool.changing dst (Common.dcatcs · src)
  | .dcatmem dst src => pool.changing dst (Common.dcatmem · src.memory src.length)
  | .dncat dst src n => pool.combining dst src (Common.dncat · · n)
  | .dncatcs dst src n => pool.changing dst (Common.dncatcs · src n)

def dstrMachine : Machine Pool DstrCall Unit where
  step pool call :=
    match call.effect pool with
    | some (target, op) => (pool.apply target op, ())
    | none => (pool, ())

def poolAfter (contents : Nat → Nat → UInt8) (calls : List DstrCall) : Pool :=
  dstrMachine.run (.init contents) calls

/-! ## What a call leaves in the pool -/

section Step

variable {pool : Pool} {call : DstrCall} {target : Option Handle} {op : MemM Dstring}

theorem changing_eq_some {dst : Handle} {f : Dstring → MemM Dstring} :
    pool.changing dst f = some (target, op) ↔
      ∃ d, pool.strings[dst]? = some d ∧ target = some dst ∧ op = f d := by
  simp only [Pool.changing, Option.map_eq_some_iff, Prod.mk.injEq, eq_comm (a := target),
    eq_comm (a := op)]

theorem combining_eq_some {dst src : Handle} {f : Dstring → Dstring → MemM Dstring} :
    pool.combining dst src f = some (target, op) ↔
      ∃ d s, pool.strings[dst]? = some d ∧ pool.strings[src]? = some s ∧
        target = some dst ∧ op = f d s := by
  simp only [Pool.combining, Option.bind_eq_some_iff, changing_eq_some]
  constructor
  · rintro ⟨s, hs, d, hd, htarget, hop⟩
    exact ⟨d, s, hd, hs, htarget, hop⟩
  · rintro ⟨d, s, hd, hs, htarget, hop⟩
    exact ⟨s, hs, d, hd, htarget, hop⟩

theorem next_of_effect (h : call.effect pool = some (target, op)) :
    dstrMachine.next pool call = pool.apply target op := by
  simp [Machine.next, dstrMachine, h]

theorem next_of_no_effect (h : call.effect pool = none) : dstrMachine.next pool call = pool := by
  simp [Machine.next, dstrMachine, h]

theorem mem_apply : (pool.apply target op).mem = (op.run pool.mem).2 := by
  cases target <;> rfl

theorem lt_of_changing {dst dst' : Handle} {f : Dstring → MemM Dstring}
    (h : pool.changing dst f = some (some dst', op)) : dst' < pool.strings.length := by
  obtain ⟨d, hd, htarget, -⟩ := changing_eq_some.1 h
  cases htarget
  exact (List.getElem?_eq_some_iff.1 hd).1

theorem lt_of_combining {dst dst' src : Handle} {f : Dstring → Dstring → MemM Dstring}
    (h : pool.combining dst src f = some (some dst', op)) : dst' < pool.strings.length := by
  obtain ⟨d, s, hd, -, htarget, -⟩ := combining_eq_some.1 h
  cases htarget
  exact (List.getElem?_eq_some_iff.1 hd).1

theorem lt_of_effect {dst : Handle} (h : call.effect pool = some (some dst, op)) :
    dst < pool.strings.length := by
  cases call with
  | dnew | dfromc | dfromcs | dfrommem => cases h
  | dnewcopy str =>
      obtain ⟨s, -, hs⟩ := Option.map_eq_some_iff.1 h
      cases hs
  | dcpy | dncpy | dcat | dncat => exact lt_of_combining h
  | _ => exact lt_of_changing h

/-- What holds of all strings still does after a call if it holds of the call's result. -/
theorem forall_strings_apply {P : Dstring → Prop} (hpool : ∀ s ∈ pool.strings, P s)
    (htarget : ∀ dst ∈ target, dst < pool.strings.length) :
    (∀ s ∈ (pool.apply target op).strings, P s) ↔ P (op.run pool.mem).1 := by
  cases target with
  | none =>
      rw [show (pool.apply none op).strings = pool.strings ++ [(op.run pool.mem).1] from rfl,
        List.forall_mem_append, List.forall_mem_singleton]
      exact ⟨And.right, fun h => ⟨hpool, h⟩⟩
  | some dst =>
      rw [show (pool.apply (some dst) op).strings =
        pool.strings.set dst (op.run pool.mem).1 from rfl]
      constructor
      · exact fun h => h _ (List.mem_set (htarget dst rfl) _)
      · intro h s hs
        rcases List.mem_or_eq_of_mem_set hs with hs | rfl
        · exact hpool s hs
        · exact h

end Step

end Svc.Common
