import Svc.Libsvc.PacketCage.Steps
import Mathlib.Data.List.Nodup

/-!
# Who owns a packet

`packet_cage.h` leaves the memory of a packet to the cage once it is put.  The
ledger follows one audio data pointer through a run: it is held by a slot, was
returned or was destroyed, and what a call lets go of otherwise is lost.
-/

namespace Svc.Libsvc

open Svc.Lib

variable {α : Type} {size : Nat}

def CageOp.handed : CageOp α → Option α
  | .putData audioData _ => some audioData
  | .getData => none

def handedOver (ops : List (CageOp α)) : List α := ops.filterMap CageOp.handed

/-- The audio data that a call neither keeps, returns nor destroys: a rejected packet,
and the content of a slot that is written over. -/
def lostBy (cage : PacketCage α size) : CageOp α → Option α
  | .putData audioData time =>
      if cage.accepts time then (cage.flushed time).slot ((cage.flushed time).target time)
      else some audioData
  | .getData => none

def KeepsPackets (cage : PacketCage α size) : CageOp α → Prop
  | .putData _ time => cage.accepts time = true ∧ ¬ cage.Overwrites time
  | .getData => True

instance (cage : PacketCage α size) : (op : CageOp α) → Decidable (KeepsPackets cage op)
  | .putData _ time =>
      inferInstanceAs (Decidable (cage.accepts time = true ∧ ¬ cage.Overwrites time))
  | .getData => .isTrue trivial

theorem lostBy_eq_none_iff (cage : PacketCage α size) (op : CageOp α) :
    lostBy cage op = none ↔ KeepsPackets cage op := by
  cases op with
  | getData => simp [lostBy, KeepsPackets]
  | putData audioData time =>
      cases haccept : cage.accepts time with
      | true => simp [lostBy, KeepsPackets, haccept, overwrites_iff cage time haccept]
      | false => simp [lostBy, KeepsPackets, haccept]

variable [DecidableEq α]

def PacketCage.held (cage : PacketCage α size) (a : α) : Nat := cage.audioQueue.count (some a)

def returnedTimes (outs : List (CageOut α)) (a : α) : Nat :=
  (outs.filterMap CageOut.returned).count a

def destroyedTimes (outs : List (CageOut α)) (a : α) : Nat :=
  (outs.flatMap CageOut.events).count (.destroyed a)

section Calls

variable (cage : PacketCage α size) (a : α)

theorem held_set (i : Fin size) (x : Option α) :
    (cage.audioQueue.set i x i.isLt).count (some a) + (cage.slot i).toList.count a =
      cage.held a + x.toList.count a := by
  have hset : (cage.audioQueue.set i x i.isLt).count (some a) = _ := Vector.count_set i.isLt
  rw [show cage.audioQueue[i.val] = cage.slot i from rfl] at hset
  have hcount (y : Option α) : (if (y == some a) = true then 1 else 0) = y.toList.count a := by
    cases y <;> simp [List.count_singleton]
  have hpos : (cage.slot i).toList.count a ≤ cage.held a := by
    rw [← hcount]
    split
    · rename_i hslot
      have hmem : cage.slot i ∈ cage.audioQueue := Vector.getElem_mem i.isLt
      rw [beq_iff_eq.1 hslot] at hmem
      exact Vector.count_pos_iff.2 hmem
    · exact Nat.zero_le _
  rw [hcount, hcount] at hset
  unfold PacketCage.held at *
  omega

theorem held_advance :
    cage.advance.held a + (cage.slot cage.head).toList.count a = cage.held a := by
  have hset := held_set cage a cage.head none
  simp only [Option.toList_none, List.count_nil, Nat.add_zero] at hset
  exact hset

theorem count_destroyed_map (x : Option α) :
    ((x.map CageEvent.destroyed).toList).count (.destroyed a) = x.toList.count a := by
  cases x <;> simp [List.count_singleton]

theorem held_flushOne (s : PacketCage α size × List (CageEvent α)) :
    (flushOne s).1.held a + (flushOne s).2.count (.destroyed a) =
      s.1.held a + s.2.count (.destroyed a) := by
  have hadvance := held_advance s.1 a
  have hdestroyed := count_destroyed_map a (s.1.slot s.1.head)
  have hprinted : (if s.1.advance.elementsCount = 0
      then [CageEvent.printed "entering starvation from popping useless.\n"]
      else []).count (CageEvent.destroyed a) = 0 := by
    split <;> simp
  rw [flushOne_fst]
  simp only [flushOne, packetCagePop_eq, List.count_append, hdestroyed, hprinted,
    show s.1.popped.held a = s.1.advance.held a from rfl]
  simp
  omega

/-- What the flush loop takes out of the cage it destroys. -/
theorem held_flush (time : PacketTime) :
    (packetCageFlush cage time).1.held a +
      (packetCageFlush cage time).2.count (.destroyed a) = cage.held a := by
  unfold packetCageFlush
  refine whileLoop_invariant
    (I := fun s : PacketCage α size × List (CageEvent α) =>
      s.1.held a + s.2.count (.destroyed a) = cage.held a) ?_ _ (by simp)
  intro s hs _
  rw [held_flushOne, hs]

theorem held_rebase (time : PacketTime) : (cage.rebase time).held a = cage.held a := by
  simp [PacketCage.held]

/-- The balance of one call: nothing appears and what disappears is lost. -/
theorem balance_next (op : CageOp α) :
    ((cageMachine α size).next cage op).held a +
        ((cageMachine α size).out cage op).returned.toList.count a +
        ((cageMachine α size).out cage op).events.count (.destroyed a) +
        (lostBy cage op).toList.count a =
      cage.held a + op.handed.toList.count a := by
  cases op with
  | putData audioData time =>
      cases haccept : cage.accepts time with
      | true =>
          have hstore := held_set (cage.flushed time) a
            ((cage.flushed time).target time) (some audioData)
          have hflush := held_flush (cage.rebase time) a time
          rw [packetCageFlush_fst, held_rebase] at hflush
          rw [next_putData, out_putData, packetCagePutData_of_accepts cage audioData time haccept]
          simp only [lostBy, haccept, if_true, CageOp.handed, Option.toList_none,
            List.count_nil, PacketCage.flushed] at *
          simp only [PacketCage.held, PacketCage.store, PacketCage.target] at *
          omega
      | false =>
          rw [next_putData, out_putData,
            packetCagePutData_of_not_accepts cage audioData time haccept]
          simp [lostBy, haccept, CageOp.handed]
  | getData =>
      cases hstarving : cage.cageStarvation with
      | true =>
          rw [next_getData, out_getData, packetCageGetData_of_starving cage hstarving]
          simp [lostBy, CageOp.handed]
      | false =>
          have hadvance := held_advance cage a
          have hprinted : (if cage.advance.elementsCount = 0
              then [CageEvent.printed "entering starvation from getting data\n"]
              else []).count (CageEvent.destroyed a) = 0 := by
            split <;> simp
          rw [next_getData, out_getData, packetCageGetData_of_not_starving cage hstarving]
          simp only [lostBy, CageOp.handed, hprinted, Option.toList_none, List.count_nil]
          omega

end Calls

/-! ## Runs -/

/-- Every audio data handed over so far is held by exactly one slot, was returned by
exactly one `packet_cage_get_data` or was destroyed exactly once. -/
def Accounted (hsize : 0 < size) (ops : List (CageOp α)) : Prop :=
  ∀ a ∈ handedOver ops,
    (cageAfter hsize ops).held a + returnedTimes (cageOutputs hsize ops) a +
      destroyedTimes (cageOutputs hsize ops) a = 1

theorem balance_concat (hsize : 0 < size) (ops : List (CageOp α)) (op : CageOp α) (a : α) :
    (cageAfter hsize (ops ++ [op])).held a +
        returnedTimes (cageOutputs hsize (ops ++ [op])) a +
        destroyedTimes (cageOutputs hsize (ops ++ [op])) a +
        (lostBy (cageAfter hsize ops) op).toList.count a =
      (cageAfter hsize ops).held a + returnedTimes (cageOutputs hsize ops) a +
        destroyedTimes (cageOutputs hsize ops) a + op.handed.toList.count a := by
  have hcall := balance_next (cageAfter hsize ops) a op
  have hreturned (x : Option α) (out : CageOut α) (hx : out.returned = x) :
      ([out].filterMap CageOut.returned).count a = x.toList.count a := by
    subst hx
    cases hr : out.returned <;> simp [hr]
  simp only [cageAfter, cageOutputs, Machine.run_concat, Machine.outputs_concat, returnedTimes,
    destroyedTimes, List.filterMap_append, List.flatMap_append, List.count_append,
    List.flatMap_singleton, hreturned _ _ rfl] at hcall ⊢
  omega

theorem count_handedOver_concat (ops : List (CageOp α)) (op : CageOp α) (a : α) :
    (handedOver (ops ++ [op])).count a =
      (handedOver ops).count a + op.handed.toList.count a := by
  cases hop : op.handed <;> simp [handedOver, hop]

theorem balance_of_keepsPackets {hsize : 0 < size} {ops : List (CageOp α)}
    (hops : (cageMachine α size).Guarded KeepsPackets (packetCageCreate size hsize) ops) (a : α) :
    (cageAfter hsize ops).held a + returnedTimes (cageOutputs hsize ops) a +
      destroyedTimes (cageOutputs hsize ops) a = (handedOver ops).count a := by
  induction ops using List.reverseRecOn with
  | nil =>
      simp [cageAfter, cageOutputs, returnedTimes, destroyedTimes, handedOver,
        PacketCage.held, packetCageCreate, Vector.count_replicate]
  | append_singleton ops op ih =>
      obtain ⟨hops, hop⟩ := ((cageMachine α size).guarded_concat _ _ ops op).1 hops
      have hbalance := balance_concat hsize ops op a
      have hlost : lostBy (cageAfter hsize ops) op = none := (lostBy_eq_none_iff _ op).2 hop
      have hhanded := count_handedOver_concat ops op a
      rw [hlost, ih hops] at hbalance
      simp only [Option.toList_none, List.count_nil, Nat.add_zero] at hbalance
      omega

theorem mem_handedOver_of_lostBy {hsize : 0 < size} {ops : List (CageOp α)} {op : CageOp α}
    (hops : (cageMachine α size).Guarded KeepsPackets (packetCageCreate size hsize) ops)
    {a : α} (hlost : lostBy (cageAfter hsize ops) op = some a) :
    a ∈ handedOver (ops ++ [op]) := by
  have hbalance := balance_concat hsize ops op a
  rw [balance_of_keepsPackets hops, hlost] at hbalance
  have hhanded := count_handedOver_concat ops op a
  simp only [Option.toList_some, List.count_singleton_self] at hbalance
  exact List.count_pos_iff.1 (by omega)

/-- For packets that are fresh at every put, all of them are accounted for at every
moment of a run if and only if every put is accepted and none writes over a
packet. -/
theorem accounted_iff (hsize : 0 < size) (ops : List (CageOp α)) (hfresh : (handedOver ops).Nodup) :
    (∀ pre, pre <+: ops → Accounted hsize pre) ↔
      (cageMachine α size).Guarded KeepsPackets (packetCageCreate size hsize) ops := by
  refine (cageMachine α size).forall_prefix_iff_guarded ops ?_ ?_
  · simp [Accounted, handedOver]
  · intro pre op hle hpre
    have hnodup : (handedOver (pre ++ [op])).Nodup := by
      obtain ⟨rest, rfl⟩ := hle
      rw [handedOver, List.filterMap_append] at hfresh
      exact (List.nodup_append.1 hfresh).1
    constructor
    · intro haccounted
      by_contra hnot
      -- the packet this call loses was handed over once and is nowhere afterwards
      obtain ⟨a, hlost⟩ := Option.ne_none_iff_exists'.1
        (mt (lostBy_eq_none_iff (cageAfter hsize pre) op).1 hnot)
      have hmem := mem_handedOver_of_lostBy hpre hlost
      have hone := haccounted a hmem
      have hcount := List.count_eq_one_of_mem hnodup hmem
      have hbalance := balance_concat hsize pre op a
      rw [balance_of_keepsPackets hpre, hlost] at hbalance
      have hhanded := count_handedOver_concat pre op a
      simp only [Option.toList_some, List.count_singleton_self] at hbalance
      omega
    · intro hop a hmem
      have hguarded := ((cageMachine α size).guarded_concat _ _ pre op).2 ⟨hpre, hop⟩
      rw [balance_of_keepsPackets hguarded]
      exact List.count_eq_one_of_mem hnodup hmem

/-- On two slots: three fresh packets, put, flushed and returned. -/
theorem accounted_iff_two_slots :
    (∀ pre, pre <+: [CageOp.putData 10 7, .putData 11 8, .putData 12 9, .getData] →
      Accounted (by decide : 0 < 2) pre) ↔
      (cageMachine Nat 2).Guarded KeepsPackets (packetCageCreate 2 (by decide))
        [.putData 10 7, .putData 11 8, .putData 12 9, .getData] :=
  accounted_iff (by decide) _ (by decide)

/-- A packet older than the head is dropped without being destroyed, and so is a
packet whose slot a repeat writes over. -/
theorem not_accounted_of_late_and_of_repeat :
    ((handedOver [CageOp.putData 10 8, .putData 11 7]).Nodup ∧
      ¬ Accounted (by decide : 0 < 5) [CageOp.putData 10 8, .putData 11 7]) ∧
    ((handedOver [CageOp.putData 10 7, .putData 11 8, .putData 12 8]).Nodup ∧
      ¬ Accounted (by decide : 0 < 5)
        [CageOp.putData 10 7, .putData 11 8, .putData 12 8]) := by
  unfold Accounted
  decide

end Svc.Libsvc
