import Svc.Libsvc.PacketCage.Order

/-!
# Where the flush loop ends

The loop of `packet_cage_put_data` compares times on a circle and counts nothing.
Its rounds are nevertheless known before it starts: one for each step by which the
packet lies beyond the last slot, and afterwards the packet has a slot of its own.
-/

namespace Svc.Libsvc

open Svc.Lib

variable {α : Type} {size : Nat}

/-- The steps from one time forward to another on the circle of times. -/
def circularDistance (time1 time2 : PacketTime) : Int :=
  ((time2.val : Int) - time1.val) % (maxTime + 1)

theorem subTime_eq_circularDistance {time1 time2 : PacketTime} (h : 0 ≤ subTime time2 time1) :
    subTime time2 time1 = circularDistance time1 time2 := by
  rw [subTime_eq_bmod, Int.bmod_def] at h ⊢
  rw [circularDistance, show ((maxTime : Int) + 1) = 65536 from rfl]
  split <;> omega

/-- The loop's guard after some of its rounds. -/
theorem beyondWindow_iterate (cage : PacketCage α size) (time : PacketTime) {m : Nat}
    (hm : m ≤ cage.pops time) :
    beyondWindow time (flushOne^[m] (cage, [])).1 = decide (m < cage.pops time) := by
  have hcount : (flushOne^[m] (cage, [])).1.pops time = cage.pops time - m := by
    refine remaining_iterate
      (fun s : PacketCage α size × List (CageEvent α) => s.1.pops time)
      (fun s => beyondWindow_iff s.1 time) ?_ hm
    intro s hs
    rw [flushOne_fst]
    exact pops_popped s.1 time hs
  rw [Bool.eq_iff_iff, beyondWindow_iff, hcount, decide_eq_true_eq]
  omega

/-- Every put that passes the acceptance test pops `max(0, d - (size - 1))` slots, where
`d` is the distance from the head time to the time of the packet.  Then the packet lies in
the window, and it is written to the slot at the offset of its time. -/
theorem flush_of_accepts (hsize : 0 < size) (hhi : size ≤ 32768) (cage : PacketCage α size)
    (audioData : α) (time : PacketTime) (h : cage.accepts time = true) :
    let base := cage.rebase time
    let n := (circularDistance base.headTime time - ((size : Int) - 1)).toNat
    let flushed := (packetCageFlush base time).1
    let delta := subTime time flushed.headTime
    (∀ m < n, beyondWindow time (flushOne^[m] (base, [])).1 = true) ∧
    beyondWindow time (flushOne^[n] (base, [])).1 = false ∧
    packetCageFlush base time = flushOne^[n] (base, []) ∧
    (0 ≤ delta ∧ delta ≤ (size : Int) - 1) ∧
    ((deltaPointInCage flushed.head delta).val : Int) = (flushed.head + delta) % size ∧
    (packetCagePutData cage audioData time).1.audioQueue =
      flushed.audioQueue.set (deltaPointInCage flushed.head delta) (some audioData)
        (deltaPointInCage flushed.head delta).isLt := by
  intro base n flushed delta
  have hn : base.pops time = n := by
    have hpops := pops_rebase hsize hhi cage time h
    rwa [subTime_eq_circularDistance (subTime_rebase_nonneg cage time h)] at hpops
  have hflushed : flushed = cage.flushed time := packetCageFlush_fst base time
  have hdelta : 0 ≤ delta ∧ delta < size := by
    have hwindow := subTime_flushed hsize hhi cage time h
    rwa [← hflushed] at hwindow
  refine ⟨fun m hm => ?_, ?_, ?_, ⟨hdelta.1, by omega⟩, ?_, ?_⟩
  · rw [beyondWindow_iterate base time (by omega), hn, decide_eq_true hm]
  · rw [beyondWindow_iterate base time hn.ge, hn, decide_eq_false (Nat.lt_irrefl n)]
  · rw [packetCageFlush_eq_iterate, hn]
  · rw [deltaPointInCage_eq hhi _ hdelta.1 hdelta.2, Ring.val_offset]
    push_cast
    rw [Int.toNat_of_nonneg hdelta.1]
  · rw [packetCagePutData_of_accepts cage audioData time h, ← hflushed]
    rfl

/-- On four slots: packet `12` comes when the head slot is for packet `7`, so two slots
are popped and the packet goes to the last slot of the window. -/
theorem flush_of_accepts_four_slots :
    let cage := cageAfter (by decide : 0 < 4) [CageOp.putData 10 7]
    packetCageFlush (cage.rebase 12) 12 = flushOne^[2] (cage.rebase 12, []) ∧
      (deltaPointInCage (packetCageFlush (cage.rebase 12) 12).1.head
        (subTime 12 (packetCageFlush (cage.rebase 12) 12).1.headTime)).val = 1 := by
  have hput := flush_of_accepts (by decide) (by decide)
    (cageAfter (by decide : 0 < 4) [CageOp.putData 10 7]) 11 12 (by decide)
  exact ⟨hput.2.2.1, by decide⟩

end Svc.Libsvc
