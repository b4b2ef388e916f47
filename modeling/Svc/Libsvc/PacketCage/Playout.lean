import Svc.Libsvc.PacketCage.Order

/-!
# When a packet is played

A packet that is taken into the window stays in its slot while the head comes nearer, and
is returned when the head has reached it, unless it is flushed or another packet of its
time takes its place.  The packet of the head time itself is not taken: the cage only
takes what is newer than the packet it expects.
-/

namespace Svc.Libsvc

open Svc.Lib

variable {α : Type} {size : Nat}

/-- The packet of that time is in the cage, `k` slots from the head, and the cage will not
be re-based while it is. -/
structure PacketCage.Keeps (cage : PacketCage α size) (audioData : α) (time : PacketTime)
    (k : Nat) : Prop where
  lt : k < size
  slot : cage.slot (Ring.offset cage.head k) = some audioData
  time_eq : time = timeIncBy cage.headTime k
  newCage : cage.newCage = false
  excess : 0 ≤ cage.excess

def NotAgain (time : PacketTime) (cage : PacketCage α size) : CageOp α → Prop
  | .putData _ time' => cage.accepts time' = true → time' ≠ time
  | .getData => True

def InsideWindow (cage : PacketCage α size) : CageOp α → Prop
  | .putData _ time => cage.accepts time = true → beyondWindow time (cage.rebase time) = false
  | .getData => True

instance (time : PacketTime) (cage : PacketCage α size) :
    (op : CageOp α) → Decidable (NotAgain time cage op)
  | .putData _ time' => inferInstanceAs (Decidable (cage.accepts time' = true → time' ≠ time))
  | .getData => .isTrue trivial

instance (cage : PacketCage α size) : (op : CageOp α) → Decidable (InsideWindow cage op)
  | .putData _ time => inferInstanceAs (Decidable
      (cage.accepts time = true → beyondWindow time (cage.rebase time) = false))
  | .getData => .isTrue trivial

def answeredGets (cage : PacketCage α size) : List (CageOp α) → Nat
  | [] => 0
  | .putData audioData time :: ops =>
      answeredGets ((cageMachine α size).next cage (.putData audioData time)) ops
  | .getData :: ops =>
      (if cage.cageStarvation then 0 else 1) +
        answeredGets ((cageMachine α size).next cage .getData) ops

/-! ## A packet in its slot -/

section Keeps

variable {cage : PacketCage α size} {audioData : α} {time : PacketTime} {k : Nat}

theorem occupied_pos_of_slot {i : Fin size} (h : cage.slot i = some audioData) :
    0 < cage.occupied := by
  have hmem : cage.slot i ∈ cage.audioQueue := Vector.getElem_mem i.isLt
  exact Vector.countP_pos_iff.2 ⟨_, hmem, by rw [h]; rfl⟩

theorem keeps_advance (h : cage.Keeps audioData time (k + 1)) :
    cage.advance.Keeps audioData time k := by
  have hlt := h.lt
  have hne : cage.head ≠ Ring.offset cage.head (k + 1) := by
    rw [Ne, ← Ring.offset_zero cage.head, Ring.offset_offset,
      Ring.offset_inj _ cage.head.pos (by omega)]
    omega
  have hslot : cage.advance.slot (Ring.offset cage.advance.head k) = some audioData := by
    rw [head_advance, Ring.offset_offset, Nat.add_comm, slot_advance, if_neg hne]
    exact h.slot
  have hexcess : 0 ≤ cage.advance.excess := by
    rw [excess_advance]
    exact h.excess
  refine ⟨by omega, hslot, ?_, ?_, hexcess⟩
  · rw [headTime_advance, timeInc_eq_timeIncBy, timeIncBy_timeIncBy, h.time_eq]
    exact timeIncBy_congr _ (by push_cast; omega)
  · -- the packet is still counted, so the cage does not become new
    have hcount : cage.advance.elementsCount ≠ 0 := by
      have hoccupied := occupied_pos_of_slot hslot
      unfold PacketCage.excess at hexcess
      omega
    have hnew : cage.advance.newCage = (cage.advance.elementsCount == 0 || cage.newCage) := rfl
    rw [hnew, h.newCage, Bool.or_false, beq_eq_false_iff_ne]
    exact hcount

theorem keeps_popped (h : cage.Keeps audioData time (k + 1)) :
    cage.popped.Keeps audioData time k := by
  have hadvance := keeps_advance h
  exact ⟨hadvance.lt, hadvance.slot, hadvance.time_eq, hadvance.newCage, hadvance.excess⟩

theorem keeps_iterate_popped (n : Nat) (h : cage.Keeps audioData time (k + n)) :
    (PacketCage.popped^[n] cage).Keeps audioData time k := by
  induction n generalizing cage with
  | zero => exact h
  | succ n ih =>
      rw [Function.iterate_succ_apply]
      exact ih (keeps_popped h)

theorem keeps_store (hhi : size ≤ 32768) (h : cage.Keeps audioData time k) (other : α)
    {time' : PacketTime} (hne : time' ≠ time) (hnonneg : 0 ≤ subTime time' cage.headTime)
    (hlt : subTime time' cage.headTime < size) :
    (cage.store other time').Keeps audioData time k := by
  refine ⟨h.lt, ?_, h.time_eq, h.newCage, ?_⟩
  · rw [slot_store, head_store, PacketCage.target, deltaPointInCage_eq hhi _ hnonneg hlt, if_neg]
    · exact h.slot
    · rw [Ring.offset_inj _ (by omega) h.lt]
      intro hk
      apply hne
      rw [h.time_eq, ← hk, Int.toNat_of_nonneg hnonneg, timeIncBy_subTime]
  · rw [excess_store]
    have hexcess := h.excess
    omega

/-- A call brings the head nearer to the packet, by the slots that it moves. -/
theorem keeps_next (hhi : size ≤ 32768) (h : cage.Keeps audioData time k) {op : CageOp α}
    (hagain : NotAgain time cage op) (hmoves : cage.moves op ≤ k) :
    ((cageMachine α size).next cage op).Keeps audioData time (k - cage.moves op) := by
  have hsize : 0 < size := cage.head.pos
  cases op with
  | putData other time' =>
      cases haccept : cage.accepts time' with
      | true =>
          obtain ⟨hnonneg, hlt⟩ := subTime_flushed hsize hhi cage time' haccept
          have hbase := rebase_of_not_newCage cage time' h.newCage
          have hpops : cage.moves (.putData other time') = cage.pops time' := by
            rw [PacketCage.moves, if_pos haccept, hbase]
          have hkept : (cage.flushed time').Keeps audioData time (k - cage.pops time') := by
            rw [PacketCage.flushed, hbase]
            refine keeps_iterate_popped _ ?_
            rwa [Nat.sub_add_cancel (hpops ▸ hmoves)]
          rw [next_putData, packetCagePutData_of_accepts cage other time' haccept, hpops]
          exact keeps_store hhi hkept other (hagain haccept) hnonneg hlt
      | false =>
          rw [next_putData, packetCagePutData_of_not_accepts cage other time' haccept,
            PacketCage.moves, haccept]
          exact h
  | getData =>
      cases hstarving : cage.cageStarvation with
      | true =>
          rw [next_getData, packetCageGetData_of_starving cage hstarving, PacketCage.moves,
            hstarving]
          exact h
      | false =>
          have hone : cage.moves .getData = 1 := by rw [PacketCage.moves, hstarving]; rfl
          rw [next_getData, packetCageGetData_of_not_starving cage hstarving, hone]
          refine keeps_advance ?_
          rwa [Nat.sub_add_cancel (hone ▸ hmoves)]

theorem keeps_run (hhi : size ≤ 32768) (h : cage.Keeps audioData time k) {ops : List (CageOp α)}
    (hagain : (cageMachine α size).Guarded (NotAgain time) cage ops)
    (hmoves : headMoves cage ops ≤ k) :
    ((cageMachine α size).run cage ops).Keeps audioData time (k - headMoves cage ops) := by
  induction ops generalizing cage k with
  | nil => exact h
  | cons op ops ih =>
      rw [headMoves] at hmoves
      rw [Machine.run_cons, headMoves, ← Nat.sub_sub]
      exact ih (keeps_next hhi h hagain.1 (by omega)) hagain.2 (by omega)

/-- When the head has reached the packet, it is returned. -/
theorem getData_of_keeps (h : cage.Keeps audioData time 0)
    (hstarving : cage.cageStarvation = false) :
    (packetCageGetData cage).1 = some audioData := by
  have hslot := h.slot
  rw [Ring.offset_zero] at hslot
  rw [packetCageGetData_of_not_starving cage hstarving]
  exact hslot

end Keeps

/-! ## Taking a packet -/

section Put

variable {cage : PacketCage α size} {time : PacketTime} {k : Nat}

/-- A packet that is ahead of the head and within the window is taken without a flush. -/
theorem putData_of_inside (hhi : size ≤ 32768) (hnew : cage.newCage = false) (audioData : α)
    (hpos : 0 < k) (hk : k < size) (htime : time = timeIncBy cage.headTime k) :
    (packetCagePutData cage audioData time).1 = cage.store audioData time := by
  have hsub : subTime time cage.headTime = k := by
    rw [htime, subTime_timeIncBy_self _ (by omega) (by omega)]
  have haccept : cage.accepts time = true := by
    rw [PacketCage.accepts, hnew, Bool.false_or, isNewer_iff_subTime_pos]
    omega
  have hbase := rebase_of_not_newCage cage time hnew
  have hpops : cage.pops time = 0 := by
    have hpops := pops_rebase (by omega) hhi cage time haccept
    rw [hbase] at hpops
    omega
  rw [packetCagePutData_of_accepts cage audioData time haccept, PacketCage.flushed, hbase, hpops]
  rfl

theorem keeps_stored (hhi : size ≤ 32768) (hnew : cage.newCage = false) (hexcess : 0 ≤ cage.excess)
    (audioData : α) (hk : k < size) (htime : time = timeIncBy cage.headTime k) :
    (cage.store audioData time).Keeps audioData time k := by
  have hsub : subTime time cage.headTime = k := by
    rw [htime, subTime_timeIncBy_self _ (by omega) (by omega)]
  refine ⟨hk, ?_, htime, hnew, ?_⟩
  · rw [slot_store, head_store, PacketCage.target,
      deltaPointInCage_eq hhi _ (by omega) (by omega), hsub, Int.toNat_natCast, if_pos rfl]
  · rw [excess_store]
    omega

/-- The packet that is expected next is not newer than itself. -/
theorem putData_headTime (hnew : cage.newCage = false) (audioData : α) :
    packetCagePutData cage audioData cage.headTime =
      (cage, [.printed "a realy old packet arived\n"]) := by
  refine packetCagePutData_of_not_accepts cage audioData _ ?_
  rw [PacketCage.accepts, hnew, isNewer_self]
  rfl

end Put

/-! ## Runs -/

theorem headMoves_eq_answeredGets {cage : PacketCage α size} {ops : List (CageOp α)}
    (hops : (cageMachine α size).Guarded InsideWindow cage ops) :
    headMoves cage ops = answeredGets cage ops := by
  induction ops generalizing cage with
  | nil => rfl
  | cons op ops ih =>
      cases op with
      | getData => rw [headMoves, answeredGets, ih hops.2, PacketCage.moves]
      | putData audioData time =>
          have hzero : cage.moves (.putData audioData time) = 0 := by
            rw [PacketCage.moves]
            split
            · rename_i haccept
              have hinside := hops.1 haccept
              have hpops := (beyondWindow_iff (cage.rebase time) time).not.1 (by simp [hinside])
              omega
            · rfl
          rw [headMoves, answeredGets, ih hops.2, hzero, Nat.zero_add]

theorem excess_nonneg (hsize : 0 < size) (ops : List (CageOp α)) :
    0 ≤ (cageAfter hsize ops).excess := by
  refine (cageMachine α size).invariant_run (I := fun cage => 0 ≤ cage.excess) ?_ ops
    (excess_create hsize).ge
  intro cage op h
  cases op with
  | putData audioData time =>
      rw [next_putData, excess_putData]
      omega
  | getData =>
      rw [next_getData, excess_getData]
      exact h

theorem time_of_window {time headTime : PacketTime} {k : Nat}
    (h : ((time.val : Int) - headTime.val) % 65536 = k) : time = timeIncBy headTime k := by
  ext
  have hval := val_timeIncBy headTime k
  have hle := val_le_maxTime time
  omega

/-- The packet is returned by the `get_data` that finds the head moved to it. -/
theorem getData_of_headMoves (hhi : size ≤ 32768) {cage : PacketCage α size} {audioData : α}
    {time : PacketTime} {later : List (CageOp α)} {k : Nat} (h : cage.Keeps audioData time k)
    (hagain : (cageMachine α size).Guarded (NotAgain time) cage later)
    (hmoves : headMoves cage later = k)
    (hstarving : ((cageMachine α size).run cage later).cageStarvation = false) :
    (packetCageGetData ((cageMachine α size).run cage later)).1 = some audioData := by
  have hlater := keeps_run hhi h hagain hmoves.le
  rw [hmoves, Nat.sub_self] at hlater
  exact getData_of_keeps hlater hstarving

theorem cageAfter_put (hsize : 0 < size) (ops later : List (CageOp α)) (audioData : α)
    (time : PacketTime) :
    cageAfter hsize (ops ++ .putData audioData time :: later) =
      (cageMachine α size).run (cageAfter hsize (ops ++ [.putData audioData time])) later := by
  rw [cageAfter, cageAfter, ← Machine.run_append, List.append_assoc]
  rfl

/-- The packet put after `ops` is stored `k` slots from the head, and returned from there. -/
structure PlayedOut (hsize : 0 < size) (ops : List (CageOp α)) (audioData : α) (time : PacketTime)
    (k : Nat) : Prop where
  stored : (cageAfter hsize (ops ++ [.putData audioData time])).slot
    (Ring.offset (cageAfter hsize ops).head k) = some audioData
  /-- by the `get_data` that finds the head moved by `k` slots -/
  returned : ∀ later,
    (cageMachine α size).Guarded (NotAgain time)
      (cageAfter hsize (ops ++ [.putData audioData time]))
      later →
    headMoves (cageAfter hsize (ops ++ [.putData audioData time])) later = k →
    (cageAfter hsize (ops ++ .putData audioData time :: later)).cageStarvation = false →
    (packetCageGetData (cageAfter hsize (ops ++ .putData audioData time :: later))).1 =
      some audioData
  /-- without a flush that is the `get_data` after `k` others -/
  returned_inside : ∀ later,
    (cageMachine α size).Guarded (NotAgain time)
      (cageAfter hsize (ops ++ [.putData audioData time]))
      later →
    (cageMachine α size).Guarded InsideWindow (cageAfter hsize (ops ++ [.putData audioData time]))
      later →
    answeredGets (cageAfter hsize (ops ++ [.putData audioData time])) later = k →
    (cageAfter hsize (ops ++ .putData audioData time :: later)).cageStarvation = false →
    (packetCageGetData (cageAfter hsize (ops ++ .putData audioData time :: later))).1 =
      some audioData

/-- A packet in the window is stored and returned in its turn, unless it is the one that the
cage expects next, which is refused. -/
theorem window_playout (hsize : 0 < size) (hhi : size ≤ 32768) (ops : List (CageOp α))
    (hnew : (cageAfter hsize ops).newCage = false) (audioData : α) {time : PacketTime} {k : Nat}
    (hk : k < size) (htime : ((time.val : Int) - (cageAfter hsize ops).headTime.val) % 65536 = k) :
    (k = 0 → packetCagePutData (cageAfter hsize ops) audioData time =
      (cageAfter hsize ops, [.printed "a realy old packet arived\n"])) ∧
    (0 < k → PlayedOut hsize ops audioData time k) := by
  have htime := time_of_window htime
  constructor
  · rintro rfl
    rw [Int.ofNat_zero, timeIncBy_zero] at htime
    rw [htime]
    exact putData_headTime hnew audioData
  · intro hpos
    have hput : cageAfter hsize (ops ++ [.putData audioData time]) =
        (cageAfter hsize ops).store audioData time := by
      rw [cageAfter, Machine.run_concat, next_putData]
      exact putData_of_inside hhi hnew audioData hpos hk htime
    have hkept := keeps_stored hhi hnew (excess_nonneg hsize ops) audioData hk htime
    have hslot := hkept.slot
    rw [head_store, ← hput] at hslot
    rw [← hput] at hkept
    refine ⟨hslot, ?_, ?_⟩
    · intro later hagain hmoves hstarving
      rw [cageAfter_put] at hstarving ⊢
      exact getData_of_headMoves hhi hkept hagain hmoves hstarving
    · intro later hagain hinside hgets hstarving
      rw [cageAfter_put] at hstarving ⊢
      have hmoves := (headMoves_eq_answeredGets hinside).trans hgets
      exact getData_of_headMoves hhi hkept hagain hmoves hstarving

/-- The cage of four slots that flushed packet `7`, holds `9` and `11` and expects `8`. -/
def expectingEight : List (CageOp Nat) := [.putData 10 7, .putData 11 9, .putData 12 11]

/-- Packet `10` is returned after packet `9` and an empty slot. -/
theorem window_playout_third :
    (packetCageGetData (cageAfter (by decide : 0 < 4)
      (expectingEight ++ .putData 13 10 :: [.getData, .getData]))).1 = some 13 :=
  ((window_playout (by decide) (by decide) expectingEight (by decide) 13 (by decide) (by decide)).2
    (show 0 < 2 by decide)).returned_inside [.getData, .getData] (by decide) (by decide) (by decide)
      (by decide)

/-- Packet `8` is refused although its slot is empty; and the third packet returned after
packet `10` was put is not that one when it comes twice, or when a later put flushes the
slot before it. -/
theorem not_window_playout_of_expected :
    ((cageAfter (by decide : 0 < 4) expectingEight).newCage = false ∧
      (cageAfter (by decide : 0 < 4) expectingEight).headTime = 8 ∧
      (cageAfter (by decide : 0 < 4) expectingEight).slot
        (Ring.offset (cageAfter (by decide : 0 < 4) expectingEight).head 0) = none ∧
      (packetCagePutData (cageAfter (by decide : 0 < 4) expectingEight) 13 8).1 =
        cageAfter (by decide : 0 < 4) expectingEight) ∧
    ((cageAfter (by decide : 0 < 4) expectingEight).slot
        (Ring.offset (cageAfter (by decide : 0 < 4) expectingEight).head 2) = none ∧
      (packetCageGetData (cageAfter (by decide : 0 < 4)
        (expectingEight ++ .putData 13 10 :: [.putData 14 10, .getData, .getData]))).1 = some 14 ∧
      (packetCageGetData (cageAfter (by decide : 0 < 4)
        (expectingEight ++ .putData 13 10 :: [.putData 14 12, .getData, .getData]))).1 =
          some 12) := by
  decide

end Svc.Libsvc
