import Svc.Libsvc.PacketCage.Steps

/-!
# Wraparound transparency of the jitter buffer

Adding one constant to all put times modulo `65536` shifts the two times a cage
keeps and changes nothing else.  The relation between the two runs is carried
through each function of the cage; a cage that no put has reached yet starts
from the same times in both runs, and its first put sets them.
-/

namespace Svc.Libsvc

open Svc.Lib

variable {α : Type} {size : Nat}

def PacketTime.shift (c : Int) (time : PacketTime) : PacketTime :=
  ⟨(((time.val : Int) + c) % 65536).toNat, by unfold maxTime; omega⟩

def CageOp.shift (c : Int) : CageOp α → CageOp α
  | .putData audioData time => .putData audioData (PacketTime.shift c time)
  | .getData => .getData

theorem shift_eq_timeIncBy (c : Int) (time : PacketTime) :
    PacketTime.shift c time = timeIncBy time c := by
  ext
  have h := val_timeIncBy time c
  simp only [PacketTime.shift]
  omega

structure SameButTimes (cage cage' : PacketCage α size) : Prop where
  head : cage'.head = cage.head
  cageStarvation : cage'.cageStarvation = cage.cageStarvation
  newCage : cage'.newCage = cage.newCage
  elementsCount : cage'.elementsCount = cage.elementsCount
  audioQueue : cage'.audioQueue = cage.audioQueue

def TimesShifted (c : Int) (cage cage' : PacketCage α size) : Prop :=
  cage'.headTime = PacketTime.shift c cage.headTime ∧
    cage'.tailTime = PacketTime.shift c cage.tailTime

section Calls

variable {c : Int} {cage cage' : PacketCage α size}

theorem SameButTimes.slot (h : SameButTimes cage cage') (i : Fin size) :
    cage'.slot i = cage.slot i := by
  unfold PacketCage.slot
  rw [h.audioQueue]

theorem SameButTimes.advance (h : SameButTimes cage cage') :
    SameButTimes cage.advance cage'.advance := by
  constructor <;> simp only [PacketCage.advance, h.head, h.slot, h.cageStarvation, h.newCage,
    h.elementsCount, h.audioQueue]

theorem TimesShifted.advance (h : TimesShifted c cage cage') :
    TimesShifted c cage.advance cage'.advance := by
  obtain ⟨hhead, htail⟩ := h
  refine ⟨?_, htail⟩
  simp only [headTime_advance, hhead, shift_eq_timeIncBy, timeInc_eq_timeIncBy,
    timeIncBy_timeIncBy]
  rw [Int.add_comm]

theorem pops_shift (h : TimesShifted c cage cage') (time : PacketTime) :
    cage'.pops (PacketTime.shift c time) = cage.pops time := by
  unfold PacketCage.pops
  rw [h.1, shift_eq_timeIncBy, shift_eq_timeIncBy, timeIncBy_timeIncBy, Int.add_comm,
    ← timeIncBy_timeIncBy, subTime_timeIncBy]

/-- Two flush loops side by side: the cages stay shifted and the events equal. -/
theorem iterate_flushOne_shift (n : Nat) (s s' : PacketCage α size × List (CageEvent α))
    (hsame : SameButTimes s.1 s'.1) (htimes : TimesShifted c s.1 s'.1) (hevents : s'.2 = s.2) :
    SameButTimes (flushOne^[n] s).1 (flushOne^[n] s').1 ∧
      TimesShifted c (flushOne^[n] s).1 (flushOne^[n] s').1 ∧
      (flushOne^[n] s').2 = (flushOne^[n] s).2 := by
  induction n generalizing s s' with
  | zero => exact ⟨hsame, htimes, hevents⟩
  | succ n ih =>
      have hadvance := hsame.advance
      simp only [Function.iterate_succ_apply]
      refine ih _ _ ?_ ?_ ?_
      · rw [flushOne_fst, flushOne_fst]
        exact ⟨hadvance.head, rfl, hadvance.newCage, hadvance.elementsCount, hadvance.audioQueue⟩
      · rw [flushOne_fst, flushOne_fst]
        exact htimes.advance
      · simp only [flushOne, packetCagePop_eq, hevents, hsame.head, hsame.slot,
          hadvance.elementsCount]

theorem rebase_shift (hsame : SameButTimes cage cage')
    (htimes : TimesShifted c cage cage' ∨ cage.newCage = true) (time : PacketTime) :
    SameButTimes (cage.rebase time) (cage'.rebase (PacketTime.shift c time)) ∧
      TimesShifted c (cage.rebase time) (cage'.rebase (PacketTime.shift c time)) := by
  cases hnew : cage.newCage with
  | true =>
      rw [rebase_of_newCage cage time hnew,
        rebase_of_newCage cage' _ (hsame.newCage.trans hnew)]
      exact ⟨⟨hsame.head, hsame.cageStarvation, rfl, hsame.elementsCount, hsame.audioQueue⟩,
        rfl, rfl⟩
  | false =>
      rw [rebase_of_not_newCage cage time hnew,
        rebase_of_not_newCage cage' _ (hsame.newCage.trans hnew)]
      exact ⟨hsame, htimes.resolve_right (by simp [hnew])⟩

theorem store_shift (hsame : SameButTimes cage cage') (htimes : TimesShifted c cage cage')
    (audioData : α) (time : PacketTime) :
    SameButTimes (cage.store audioData time) (cage'.store audioData (PacketTime.shift c time)) ∧
      TimesShifted c (cage.store audioData time)
        (cage'.store audioData (PacketTime.shift c time)) := by
  have hsub : subTime (PacketTime.shift c time) cage'.headTime = subTime time cage.headTime := by
    rw [htimes.1, shift_eq_timeIncBy, shift_eq_timeIncBy, subTime_timeIncBy]
  have hnewer : isNewer (PacketTime.shift c time) cage'.tailTime =
      isNewer time cage.tailTime := by
    rw [htimes.2, shift_eq_timeIncBy, shift_eq_timeIncBy, isNewer_timeIncBy]
  refine ⟨⟨hsame.head, hsame.cageStarvation, hsame.newCage, ?_, ?_⟩, htimes.1, ?_⟩
  · simp only [elementsCount_store, hsame.elementsCount]
  · simp only [PacketCage.store, hsub, hsame.head, hsame.audioQueue]
  · simp only [PacketCage.store, hnewer]
    rw [htimes.2]
    split <;> rfl

theorem accepts_shift (hsame : SameButTimes cage cage')
    (htimes : TimesShifted c cage cage' ∨ cage.newCage = true) (time : PacketTime) :
    cage'.accepts (PacketTime.shift c time) = cage.accepts time := by
  unfold PacketCage.accepts
  rw [hsame.newCage]
  cases hnew : cage.newCage with
  | true => rfl
  | false =>
      have hshift := htimes.resolve_right (by simp [hnew])
      rw [hshift.1, shift_eq_timeIncBy, shift_eq_timeIncBy, isNewer_timeIncBy]

theorem putData_shift (hsame : SameButTimes cage cage')
    (htimes : TimesShifted c cage cage' ∨ cage.newCage = true)
    (audioData : α) (time : PacketTime) :
    SameButTimes (packetCagePutData cage audioData time).1
        (packetCagePutData cage' audioData (PacketTime.shift c time)).1 ∧
      TimesShifted c (packetCagePutData cage audioData time).1
        (packetCagePutData cage' audioData (PacketTime.shift c time)).1 ∧
      (packetCagePutData cage' audioData (PacketTime.shift c time)).2 =
        (packetCagePutData cage audioData time).2 := by
  have haccepts := accepts_shift hsame htimes time
  cases haccept : cage.accepts time with
  | true =>
      obtain ⟨hbase, hbaseTimes⟩ := rebase_shift hsame htimes time
      obtain ⟨hflush, hflushTimes, hevents⟩ := iterate_flushOne_shift
        ((cage.rebase time).pops time) (cage.rebase time, [])
        (cage'.rebase (PacketTime.shift c time), []) hbase hbaseTimes rfl
      rw [packetCagePutData_of_accepts cage audioData time haccept,
        packetCagePutData_of_accepts cage' audioData _ (haccepts.trans haccept),
        packetCageFlush_eq_iterate, packetCageFlush_eq_iterate]
      simp only [PacketCage.flushed, pops_shift hbaseTimes]
      rw [iterate_flushOne_fst, iterate_flushOne_fst] at hflush hflushTimes
      obtain ⟨hstore, hstoreTimes⟩ := store_shift hflush hflushTimes audioData time
      exact ⟨hstore, hstoreTimes, hevents⟩
  | false =>
      rw [packetCagePutData_of_not_accepts cage audioData time haccept,
        packetCagePutData_of_not_accepts cage' audioData _ (haccepts.trans haccept)]
      have hnew : cage.newCage ≠ true := by
        intro hnew
        simp [PacketCage.accepts, hnew] at haccept
      exact ⟨hsame, htimes.resolve_right hnew, rfl⟩

theorem getData_of_starving (hsame : SameButTimes cage cage')
    (hstarving : cage.cageStarvation = true) :
    packetCageGetData cage = (none, cage, [.printed "starving...\n"]) ∧
      packetCageGetData cage' = (none, cage', [.printed "starving...\n"]) :=
  ⟨packetCageGetData_of_starving cage hstarving,
    packetCageGetData_of_starving cage' (hsame.cageStarvation.trans hstarving)⟩

theorem getData_shift (hsame : SameButTimes cage cage') :
    SameButTimes (packetCageGetData cage).2.1 (packetCageGetData cage').2.1 ∧
      (TimesShifted c cage cage' →
        TimesShifted c (packetCageGetData cage).2.1 (packetCageGetData cage').2.1) ∧
      (packetCageGetData cage').1 = (packetCageGetData cage).1 ∧
      (packetCageGetData cage').2.2 = (packetCageGetData cage).2.2 := by
  cases hstarving : cage.cageStarvation with
  | true =>
      obtain ⟨h, h'⟩ := getData_of_starving hsame hstarving
      rw [h, h']
      exact ⟨hsame, id, rfl, rfl⟩
  | false =>
      have hadvance := hsame.advance
      rw [packetCageGetData_of_not_starving cage hstarving,
        packetCageGetData_of_not_starving cage' (hsame.cageStarvation.trans hstarving)]
      refine ⟨hadvance, fun htimes => htimes.advance, ?_, ?_⟩
      · simp only [hsame.head, hsame.slot]
      · simp only [hadvance.elementsCount]

end Calls

/-! ## Runs -/

/-- The relation between the two runs: shifted, or not reached by a put yet. -/
def ShiftRelated (c : Int) (cage cage' : PacketCage α size) : Prop :=
  SameButTimes cage cage' ∧
    (TimesShifted c cage cage' ∨ cage.newCage = true ∧ cage.cageStarvation = true)

theorem shiftRelated_next {c : Int} {cage cage' : PacketCage α size}
    (h : ShiftRelated c cage cage') (op : CageOp α) :
    ShiftRelated c ((cageMachine α size).next cage op)
        ((cageMachine α size).next cage' (op.shift c)) ∧
      (cageMachine α size).out cage' (op.shift c) = (cageMachine α size).out cage op := by
  obtain ⟨hsame, htimes⟩ := h
  cases op with
  | putData audioData time =>
      obtain ⟨hput, hputTimes, hevents⟩ :=
        putData_shift hsame (htimes.imp id And.left) audioData time
      simp only [CageOp.shift, next_putData, out_putData, hevents]
      exact ⟨⟨hput, .inl hputTimes⟩, trivial⟩
  | getData =>
      obtain ⟨hget, hgetTimes, hres, hevents⟩ := getData_shift (c := c) hsame
      simp only [CageOp.shift, next_getData, out_getData, hres, hevents]
      refine ⟨⟨hget, ?_⟩, trivial⟩
      rcases htimes with hshift | ⟨hnew, hstarving⟩
      · exact .inl (hgetTimes hshift)
      · rw [(getData_of_starving hsame hstarving).1]
        exact .inr ⟨hnew, hstarving⟩

theorem shiftRelated_run {c : Int} {cage cage' : PacketCage α size}
    (h : ShiftRelated c cage cage') (ops : List (CageOp α)) :
    ShiftRelated c ((cageMachine α size).run cage ops)
        ((cageMachine α size).run cage' (ops.map (CageOp.shift c))) ∧
      (cageMachine α size).outputs cage' (ops.map (CageOp.shift c)) =
        (cageMachine α size).outputs cage ops := by
  induction ops generalizing cage cage' with
  | nil => exact ⟨h, rfl⟩
  | cons op ops ih =>
      obtain ⟨hnext, hout⟩ := shiftRelated_next h op
      obtain ⟨hrun, houts⟩ := ih hnext
      simp only [List.map_cons, Machine.run_cons, Machine.outputs_cons, hout, houts]
      exact ⟨hrun, trivial⟩

theorem timesShifted_run {c : Int} {cage cage' : PacketCage α size}
    (h : ShiftRelated c cage cage') {ops : List (CageOp α)}
    (hput : ∃ audioData time, CageOp.putData audioData time ∈ ops) :
    TimesShifted c ((cageMachine α size).run cage ops)
      ((cageMachine α size).run cage' (ops.map (CageOp.shift c))) := by
  induction ops using List.reverseRecOn with
  | nil => simp at hput
  | append_singleton ops op ih =>
      obtain ⟨⟨hsame, htimes⟩, -⟩ := shiftRelated_run h ops
      simp only [List.map_append, List.map_cons, List.map_nil, Machine.run_concat]
      cases op with
      | putData audioData time =>
          exact (putData_shift hsame (htimes.imp id And.left) audioData time).2.1
      | getData =>
          obtain ⟨audioData, time, hmem⟩ := hput
          have hmem : CageOp.putData audioData time ∈ ops := by simpa using hmem
          exact (getData_shift (c := c) hsame).2.1 (ih ⟨audioData, time, hmem⟩)

/-- Shifting all put times by `c` changes no output, no acceptance and nothing of the
cage but its two times, which are shifted by `c` once a put has set them. -/
theorem wraparound_transparent (hsize : 0 < size) (c : Int) (ops : List (CageOp α)) :
    cageOutputs hsize (ops.map (CageOp.shift c)) = cageOutputs hsize ops ∧
      SameButTimes (cageAfter hsize ops) (cageAfter hsize (ops.map (CageOp.shift c))) ∧
      (∀ time, (cageAfter hsize (ops.map (CageOp.shift c))).accepts (PacketTime.shift c time) =
        (cageAfter hsize ops).accepts time) ∧
      ((∃ audioData time, CageOp.putData audioData time ∈ ops) →
        TimesShifted c (cageAfter hsize ops) (cageAfter hsize (ops.map (CageOp.shift c)))) := by
  have hstart : ShiftRelated c (packetCageCreate size hsize : PacketCage α size)
      (packetCageCreate size hsize) := ⟨⟨rfl, rfl, rfl, rfl, rfl⟩, .inr ⟨rfl, rfl⟩⟩
  obtain ⟨⟨hsame, htimes⟩, houts⟩ := shiftRelated_run hstart ops
  exact ⟨houts, hsame, accepts_shift hsame (htimes.imp id And.left), timesShifted_run hstart⟩

/-- Across the wrap: times `65535` and `0` behave as times `0` and `1`. -/
theorem wraparound_transparent_at_the_wrap :
    cageOutputs (by decide : 0 < 2)
        ([CageOp.putData 10 0, .putData 11 1, .putData 12 2, .getData].map (CageOp.shift (-1))) =
      cageOutputs (by decide : 0 < 2)
        [CageOp.putData 10 0, .putData 11 1, .putData 12 2, .getData] ∧
    TimesShifted (-1)
      (cageAfter (by decide : 0 < 2)
        [CageOp.putData 10 0, .putData 11 1, .putData 12 2, .getData])
      (cageAfter (by decide : 0 < 2)
        ([CageOp.putData 10 0, .putData 11 1, .putData 12 2, .getData].map (CageOp.shift (-1)))) :=
  have hall := wraparound_transparent (by decide : 0 < 2) (-1)
    [CageOp.putData 10 0, .putData 11 1, .putData 12 2, .getData]
  ⟨hall.1, hall.2.2.2 ⟨10, 0, List.mem_cons_self⟩⟩

end Svc.Libsvc
