import Svc.Libsvc.PacketCage
import Mathlib.Tactic.Common

/-!
# What one call does to a cage

One lemma for each function of the cage, in terms of the slots, and the closed
form of the flush loop.  The properties of whole runs use these and do not unfold
the functions again.
-/

namespace Svc.Libsvc

open Svc.Lib

variable {α : Type} {size : Nat}

namespace PacketCage

def occupied (cage : PacketCage α size) : Nat := cage.audioQueue.countP Option.isSome

def advance (cage : PacketCage α size) : PacketCage α size :=
  let head := cage.head
  let left :=
    if (cage.slot cage.head).isSome then cage.elementsCount - 1 else cage.elementsCount
  { head := Ring.offset cage.head 1
    headTime := timeInc cage.headTime
    tailTime := cage.tailTime
    cageStarvation := left == 0 || cage.cageStarvation
    newCage := left == 0 || cage.newCage
    elementsCount := left
    audioQueue := cage.audioQueue.set head none head.isLt }

def popped (cage : PacketCage α size) : PacketCage α size :=
  { cage.advance with cageStarvation := false }

def pops (cage : PacketCage α size) (time : PacketTime) : Nat :=
  (subTime time (timeIncBy cage.headTime ((size : Int) - 1))).toNat

end PacketCage

theorem nextPointInCage_eq (pos : Fin size) : nextPointInCage pos = Ring.offset pos 1 :=
  Ring.next_eq_offset pos

theorem slot_set (cage : PacketCage α size) (i j : Fin size) (x : Option α) :
    PacketCage.slot { cage with audioQueue := cage.audioQueue.set i x i.isLt } j =
      if i = j then x else cage.slot j := by
  simp only [PacketCage.slot, Vector.getElem_set, Fin.ext_iff]

/-! ## Taking the head slot -/

section Advance

variable (cage : PacketCage α size)

@[simp] theorem head_advance : cage.advance.head = Ring.offset cage.head 1 := rfl

@[simp] theorem headTime_advance : cage.advance.headTime = timeInc cage.headTime := rfl

@[simp] theorem slot_advance (i : Fin size) :
    cage.advance.slot i = if cage.head = i then none else cage.slot i := by
  exact slot_set cage cage.head i none

theorem takeHead_eq (line : String) :
    takeHead line cage = (cage.slot cage.head, cage.advance,
      if cage.advance.elementsCount = 0 then [.printed line] else []) := by
  by_cases hempty : cage.advance.elementsCount = 0
  all_goals
    simp only [PacketCage.advance] at hempty
    simp [takeHead, packetCageIsEmpty, PacketCage.advance, nextPointInCage_eq, hempty]

theorem packetCagePop_eq : packetCagePop cage = (cage.advance,
    ((cage.slot cage.head).map CageEvent.destroyed).toList ++
      if cage.advance.elementsCount = 0
      then [.printed "entering starvation from popping useless.\n"] else []) := by
  simp [packetCagePop, takeHead_eq]

theorem packetCageGetData_of_starving (h : cage.cageStarvation = true) :
    packetCageGetData cage = (none, cage, [.printed "starving...\n"]) := by
  simp [packetCageGetData, h]

theorem packetCageGetData_of_not_starving (h : cage.cageStarvation = false) :
    packetCageGetData cage = (cage.slot cage.head, cage.advance,
      if cage.advance.elementsCount = 0
      then [.printed "entering starvation from getting data\n"] else []) := by
  simp [packetCageGetData, h, takeHead_eq]

end Advance

/-! ## The flush loop -/

section Flush

variable (cage : PacketCage α size) (time : PacketTime)

@[simp] theorem head_popped : cage.popped.head = Ring.offset cage.head 1 := rfl

@[simp] theorem headTime_popped : cage.popped.headTime = timeInc cage.headTime := rfl

@[simp] theorem tailTime_popped : cage.popped.tailTime = cage.tailTime := rfl

@[simp] theorem cageStarvation_popped : cage.popped.cageStarvation = false := rfl

@[simp] theorem slot_popped (i : Fin size) :
    cage.popped.slot i = if cage.head = i then none else cage.slot i :=
  slot_advance cage i

@[simp] theorem flushOne_fst (s : PacketCage α size × List (CageEvent α)) :
    (flushOne s).1 = s.1.popped := by
  simp [flushOne, packetCagePop_eq, PacketCage.popped]

theorem iterate_flushOne_fst (n : Nat) (s : PacketCage α size × List (CageEvent α)) :
    (flushOne^[n] s).1 = PacketCage.popped^[n] s.1 := by
  induction n generalizing s with
  | zero => rfl
  | succ n ih => simp only [Function.iterate_succ_apply, ih, flushOne_fst]

theorem beyondWindow_iff : beyondWindow time cage = true ↔ 0 < cage.pops time := by
  rw [beyondWindow, isNewer_iff_subTime_pos, PacketCage.pops]
  omega

theorem pops_le : cage.pops time ≤ 32767 := by
  have := (subTime_bounds time (timeIncBy cage.headTime ((size : Int) - 1))).2
  unfold PacketCage.pops
  omega

theorem pops_popped (h : beyondWindow time cage = true) :
    cage.popped.pops time = cage.pops time - 1 := by
  have hpos := (beyondWindow_iff cage time).1 h
  have hle := pops_le cage time
  unfold PacketCage.pops at *
  rw [headTime_popped, timeInc_eq_timeIncBy, timeIncBy_timeIncBy]
  set windowEnd := timeIncBy cage.headTime ((size : Int) - 1) with hend
  have hnext : timeIncBy cage.headTime (1 + ((size : Int) - 1)) = timeIncBy windowEnd 1 := by
    rw [hend, timeIncBy_timeIncBy]
    exact timeIncBy_congr _ (by congr 1; omega)
  rw [hnext, subTime_timeIncBy_right time windowEnd (by omega) (by omega)]
  omega

/-- The flush loop pops once for every step by which `time` lies beyond the window. -/
theorem packetCageFlush_eq_iterate :
    packetCageFlush cage time = flushOne^[cage.pops time] (cage, []) := by
  unfold packetCageFlush
  refine whileLoop_eq_iterate
    (fun s : PacketCage α size × List (CageEvent α) => s.1.pops time) ?_ ?_ ?_
  · exact fun s => beyondWindow_iff s.1 time
  · intro s hs
    rw [flushOne_fst]
    exact pops_popped s.1 time hs
  · have := pops_le cage time
    simp only [maxTime]
    omega

theorem packetCageFlush_fst :
    (packetCageFlush cage time).1 = PacketCage.popped^[cage.pops time] cage := by
  rw [packetCageFlush_eq_iterate, iterate_flushOne_fst]

theorem head_iterate_popped (n : Nat) :
    (PacketCage.popped^[n] cage).head = Ring.offset cage.head n := by
  induction n generalizing cage with
  | zero => simp
  | succ n ih => rw [Function.iterate_succ_apply, ih, head_popped, Ring.offset_offset, Nat.add_comm]

theorem headTime_iterate_popped (n : Nat) :
    (PacketCage.popped^[n] cage).headTime = timeIncBy cage.headTime n := by
  induction n generalizing cage with
  | zero => simp
  | succ n ih =>
      rw [Function.iterate_succ_apply, ih, headTime_popped, timeInc_eq_timeIncBy,
        timeIncBy_timeIncBy]
      exact timeIncBy_congr _ (by congr 1; omega)

theorem tailTime_iterate_popped (n : Nat) :
    (PacketCage.popped^[n] cage).tailTime = cage.tailTime := by
  induction n generalizing cage with
  | zero => rfl
  | succ n ih => rw [Function.iterate_succ_apply, ih, tailTime_popped]

/-- After `n` pops the first `n` slots from the old head are empty. -/
theorem slot_iterate_popped (n : Nat) (i : Fin size) :
    (PacketCage.popped^[n] cage).slot i =
      if Ring.dist cage.head i < n then none else cage.slot i := by
  induction n with
  | zero => simp
  | succ n ih =>
      rw [Function.iterate_succ_apply', slot_popped, ih, head_iterate_popped]
      by_cases hn : n < size
      · have hiff : Ring.offset cage.head n = i ↔ Ring.dist cage.head i = n := by
          constructor
          · rintro rfl
            exact Ring.dist_offset _ hn
          · rintro rfl
            exact Ring.offset_dist _ _
        simp only [hiff]
        split_ifs <;> first | rfl | omega
      · have := Ring.dist_lt cage.head i
        rw [if_pos (show Ring.dist cage.head i < n by omega),
          if_pos (show Ring.dist cage.head i < n + 1 by omega), ite_self]

theorem cageStarvation_iterate_popped {n : Nat} (hn : 0 < n) :
    (PacketCage.popped^[n] cage).cageStarvation = false := by
  obtain ⟨m, rfl⟩ : ∃ m, n = m + 1 := ⟨n - 1, by omega⟩
  rw [Function.iterate_succ_apply', cageStarvation_popped]

end Flush

/-! ## Putting a packet -/

section Put

variable (cage : PacketCage α size) (audioData : α) (time : PacketTime)

theorem rebase_of_newCage (h : cage.newCage = true) :
    cage.rebase time = { cage with headTime := time, tailTime := time, newCage := false } := by
  simp [PacketCage.rebase, h]

theorem rebase_of_not_newCage (h : cage.newCage = false) : cage.rebase time = cage := by
  simp [PacketCage.rebase, h]

@[simp] theorem head_rebase : (cage.rebase time).head = cage.head := by
  unfold PacketCage.rebase
  split <;> rfl

@[simp] theorem audioQueue_rebase : (cage.rebase time).audioQueue = cage.audioQueue := by
  unfold PacketCage.rebase
  split <;> rfl

@[simp] theorem slot_rebase (i : Fin size) : (cage.rebase time).slot i = cage.slot i := by
  simp [PacketCage.slot]

@[simp] theorem elementsCount_rebase :
    (cage.rebase time).elementsCount = cage.elementsCount := by
  unfold PacketCage.rebase
  split <;> rfl

def PacketCage.flushed (cage : PacketCage α size) (time : PacketTime) : PacketCage α size :=
  PacketCage.popped^[(cage.rebase time).pops time] (cage.rebase time)

theorem packetCagePutData_of_accepts (h : cage.accepts time = true) :
    packetCagePutData cage audioData time =
      ((cage.flushed time).store audioData time,
        (packetCageFlush (cage.rebase time) time).2) := by
  unfold packetCagePutData
  rw [if_pos h]
  simp only [packetCageFlush_fst, PacketCage.flushed]

theorem packetCagePutData_of_not_accepts (h : cage.accepts time = false) :
    packetCagePutData cage audioData time = (cage, [.printed "a realy old packet arived\n"]) := by
  simp [packetCagePutData, h]

def PacketCage.target (cage : PacketCage α size) (time : PacketTime) : Fin size :=
  deltaPointInCage cage.head (subTime time cage.headTime)

@[simp] theorem slot_store (i : Fin size) :
    (cage.store audioData time).slot i =
      if cage.target time = i then some audioData else cage.slot i :=
  slot_set cage _ i (some audioData)

@[simp] theorem head_store : (cage.store audioData time).head = cage.head := rfl

@[simp] theorem headTime_store : (cage.store audioData time).headTime = cage.headTime := rfl

@[simp] theorem elementsCount_store :
    (cage.store audioData time).elementsCount = cage.elementsCount + 1 := rfl

/-- The slot a put will write to, from the cage before the call: the head moves on by
the pops of the flush first. -/
def PacketCage.landing (cage : PacketCage α size) (time : PacketTime) : Fin size :=
  let base := cage.rebase time
  let n := base.pops time
  deltaPointInCage (Ring.offset cage.head n) (subTime time (timeIncBy base.headTime n))

theorem target_flushed : (cage.flushed time).target time = cage.landing time := by
  simp only [PacketCage.target, PacketCage.landing, PacketCage.flushed, head_iterate_popped,
    headTime_iterate_popped, head_rebase]

/-- The put is accepted, and the slot it will write to holds a packet that the flush
does not reach. -/
def PacketCage.Overwrites (cage : PacketCage α size) (time : PacketTime) : Prop :=
  cage.accepts time = true ∧
    (cage.rebase time).pops time ≤ Ring.dist cage.head (cage.landing time) ∧
    (cage.slot (cage.landing time)).isSome = true

instance : Decidable (cage.Overwrites time) :=
  inferInstanceAs (Decidable (_ ∧ _ ∧ _))

theorem slot_flushed (i : Fin size) :
    (cage.flushed time).slot i =
      if Ring.dist cage.head i < (cage.rebase time).pops time then none else cage.slot i := by
  rw [PacketCage.flushed, slot_iterate_popped, head_rebase, slot_rebase]

theorem overwrites_iff (h : cage.accepts time = true) :
    cage.Overwrites time ↔
      ((cage.flushed time).slot ((cage.flushed time).target time)).isSome = true := by
  rw [target_flushed, slot_flushed, PacketCage.Overwrites]
  split
  · simp only [Option.isSome_none, Bool.false_eq_true, iff_false]
    omega
  · rename_i hnot
    simp only [h, true_and]
    exact ⟨And.right, fun hslot => ⟨Nat.le_of_not_lt hnot, hslot⟩⟩

end Put

end Svc.Libsvc
