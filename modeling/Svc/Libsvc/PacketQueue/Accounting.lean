import Svc.Libsvc.PacketQueue.Fifo

/-!
# The accounts of the packet queue

Both the full and the empty queue are recognised by comparing the two ends.  A push
advances the tail before it writes and a pop reads before it advances the head, so
the slots still to be read are the ones from the head to the tail, the tail included.
-/

namespace Svc.Libsvc

open Svc.Lib

variable {σ : Type} {size audioSize : Nat}

def PopsNonEmpty (queue : PacketQueue σ size) : QueueOp σ → Prop
  | .pushData _ => True
  | .popData _ => queue.head ≠ queue.tail

instance (queue : PacketQueue σ size) : (op : QueueOp σ) → Decidable (PopsNonEmpty queue op)
  | .pushData _ => .isTrue trivial
  | .popData _ => inferInstanceAs (Decidable (queue.head ≠ queue.tail))

/-- A call that does not read slot `i`: a pop reads the head slot. -/
def SparesSlot (i : Fin size) (queue : PacketQueue σ size) : QueueOp σ → Prop
  | .pushData _ => True
  | .popData _ => queue.head ≠ i

def PacketQueue.Awaits (queue : PacketQueue σ size) (i : Fin size) : Prop :=
  Ring.dist queue.head i ≤ Ring.dist queue.head queue.tail

/-! ## One call -/

section Calls

variable {queue : PacketQueue σ size}

theorem head_push (audioData : SvcAudioData σ) :
    (packetQueuePushData queue audioData).1.head = queue.head := by
  cases hfull : queue.isFull with
  | true => rw [packetQueuePushData_of_isFull hfull]
  | false => rw [packetQueuePushData_of_not_isFull hfull]

theorem tail_push_of_not_isFull (h : queue.isFull = false) (audioData : SvcAudioData σ) :
    (packetQueuePushData queue audioData).1.tail = Ring.offset queue.tail 1 := by
  rw [packetQueuePushData_of_not_isFull h]
  exact nextPointInQueue_eq queue.tail

/-- A push writes no slot but the one that its tail ends on. -/
theorem slot_push (audioData : SvcAudioData σ) {i : Fin size}
    (hi : (packetQueuePushData queue audioData).2 = 0 →
      (packetQueuePushData queue audioData).1.tail ≠ i) :
    (packetQueuePushData queue audioData).1.slot i = queue.slot i := by
  cases hfull : queue.isFull with
  | true => rw [packetQueuePushData_of_isFull hfull]
  | false =>
      have htail := hi (pushData_result_eq_zero_iff.2 hfull)
      rw [tail_push_of_not_isFull hfull, ← nextPointInQueue_eq] at htail
      rw [packetQueuePushData_of_not_isFull hfull, PacketQueue.slot, queue_slot_set, if_neg htail]

/-- The queue is full when it lacks one slot of going once around the ring. -/
theorem isFull_iff_dist : queue.isFull = true ↔ Ring.dist queue.head queue.tail + 1 = size := by
  rw [isFull_iff]
  constructor
  · intro hnext
    have hlast : Ring.offset queue.head (Ring.dist queue.head queue.tail + 1) = queue.head := by
      rw [← Ring.offset_offset, Ring.offset_dist, hnext]
    by_contra hne
    have hlt := Ring.dist_lt queue.head queue.tail
    have hdist := Ring.dist_offset queue.head
      (show Ring.dist queue.head queue.tail + 1 < size by omega)
    rw [hlast, Ring.dist_eq_zero.2 rfl] at hdist
    omega
  · intro hdist
    rw [← Ring.offset_dist queue.head queue.tail, Ring.offset_offset, hdist, Ring.offset_size]

theorem pushData_result_eq_one_iff {audioData : SvcAudioData σ} :
    (packetQueuePushData queue audioData).2 = 1 ↔ queue.isFull = true := by
  cases hfull : queue.isFull with
  | true => simp [packetQueuePushData_of_isFull hfull]
  | false => simp [packetQueuePushData_of_not_isFull hfull]

/-- A push that returns 0 moves the tail on by one slot, and a pop the head. -/
theorem dist_next (op : QueueOp σ) (hop : PopsNonEmpty queue op) :
    (poppedBy queue op).length + Ring.dist ((queueMachine σ size).next queue op).head
        ((queueMachine σ size).next queue op).tail =
      Ring.dist queue.head queue.tail + (acceptedBy queue op).length := by
  cases op with
  | pushData audioData =>
      cases hfull : queue.isFull with
      | true =>
          simp [acceptedBy, poppedBy, packetQueuePushData_of_isFull hfull]
      | false =>
          have hdist := Ring.dist_offset_one (offset_tail_ne_head hfull)
          simp [acceptedBy, poppedBy, pushData_result_eq_zero_iff, hfull, head_push,
            tail_push_of_not_isFull hfull, hdist]
  | popData audioData =>
      have hdist := Ring.dist_offset_one_left (Ne.symm hop)
      simp only [next_popData, packetQueuePopData, nextPointInQueue_eq, poppedBy, acceptedBy,
        List.length_singleton, List.length_nil]
      omega

theorem awaits_tail : queue.Awaits queue.tail := le_rfl

/-- A slot stays between the ends until a pop reads it. -/
theorem awaits_next {i : Fin size} {op : QueueOp σ} (hi : queue.Awaits i)
    (hop : PopsNonEmpty queue op) (hspares : SparesSlot i queue op) :
    ((queueMachine σ size).next queue op).Awaits i := by
  cases op with
  | pushData audioData =>
      rw [next_pushData]
      cases hfull : queue.isFull with
      | true => rwa [packetQueuePushData_of_isFull hfull]
      | false =>
          have hdist := Ring.dist_offset_one (offset_tail_ne_head hfull)
          rw [PacketQueue.Awaits, head_push, tail_push_of_not_isFull hfull, hdist]
          exact Nat.le_succ_of_le hi
  | popData audioData =>
      have hi : Ring.dist queue.head i ≤ Ring.dist queue.head queue.tail := hi
      have htail := Ring.dist_offset_one_left (Ne.symm hop)
      have hslot := Ring.dist_offset_one_left (Ne.symm hspares)
      rw [next_popData]
      simp only [PacketQueue.Awaits, packetQueuePopData, nextPointInQueue_eq]
      omega

/-- No push writes a slot between the ends. -/
theorem tail_push_ne_of_awaits {i : Fin size} (hi : queue.Awaits i) {audioData : SvcAudioData σ}
    (haccept : (packetQueuePushData queue audioData).2 = 0) :
    (packetQueuePushData queue audioData).1.tail ≠ i := by
  have hfull := pushData_result_eq_zero_iff.1 haccept
  have hdist := Ring.dist_offset_one (offset_tail_ne_head hfull)
  rw [tail_push_of_not_isFull hfull]
  rintro rfl
  have hi : Ring.dist queue.head (Ring.offset queue.tail 1) ≤ Ring.dist queue.head queue.tail := hi
  omega

end Calls

/-! ## Runs -/

section Runs

variable (hsize : 0 < size) (uninit : Nat → Vector σ audioSize) (ops : List (QueueOp σ))

def queueAfter : PacketQueue σ size :=
  (queueMachine σ size).run (packetQueueCreate size hsize uninit) ops

def PopsOnlyNonEmpty : Prop :=
  (queueMachine σ size).Guarded PopsNonEmpty (packetQueueCreate size hsize uninit) ops

instance : Decidable (PopsOnlyNonEmpty hsize uninit ops) :=
  inferInstanceAs (Decidable ((queueMachine σ size).Guarded _ _ _))

/-- A push of the run was accepted, wrote slot `i`, and no pop after it has read that slot. -/
def Unread (i : Fin size) : Prop :=
  ∃ pre audioData post, ops = pre ++ .pushData audioData :: post ∧
    let pushed := packetQueuePushData (queueAfter hsize uninit pre) audioData
    pushed.2 = 0 ∧ pushed.1.tail = i ∧ (queueMachine σ size).Guarded (SparesSlot i) pushed.1 post

variable {hsize uninit ops}

theorem dist_queueAfter (hops : PopsOnlyNonEmpty hsize uninit ops) :
    popCount ops + Ring.dist (queueAfter hsize uninit ops).head (queueAfter hsize uninit ops).tail =
      (acceptedFrames hsize uninit ops).length := by
  have hall := (queueMachine σ size).length_collect_leaves_add
    (fun queue => Ring.dist queue.head queue.tail)
    (fun _ op hop => dist_next op hop) hops
  have hzero : Ring.dist (packetQueueCreate size hsize uninit).head
      (packetQueueCreate size hsize uninit).tail = 0 := Ring.dist_eq_zero.2 rfl
  rw [length_collect_poppedBy, hzero, Nat.zero_add] at hall
  exact hall

theorem awaits_of_unread (hops : PopsOnlyNonEmpty hsize uninit ops) {i : Fin size}
    (hi : Unread hsize uninit ops i) : (queueAfter hsize uninit ops).Awaits i := by
  obtain ⟨pre, audioData, post, rfl, -, rfl, hspares⟩ := hi
  have hguard := ((queueMachine σ size).guarded_append _ _ _ _).1 hops
  rw [queueAfter, Machine.run_append, Machine.run_cons]
  exact (queueMachine σ size).invariant_run_of_guarded
    (I := fun queue =>
      queue.Awaits (packetQueuePushData (queueAfter hsize uninit pre) audioData).1.tail)
    (fun _ _ hawaits hop => awaits_next hawaits hop.1 hop.2) awaits_tail
    ((queueMachine σ size).guarded_and.2 ⟨hguard.2.2, hspares⟩)

/-- At every moment of a run whose pops are made only while `head != tail`: the distance
from head to tail is the number of accepted pushes less the pops, a push is refused exactly
when that number is `size - 1` and then changes nothing, and no push writes a slot that an
accepted push wrote and no pop has read since. -/
theorem accounts (hsize : 0 < size) (uninit : Nat → Vector σ audioSize) (ops : List (QueueOp σ))
    (hops : PopsOnlyNonEmpty hsize uninit ops) (audioData : SvcAudioData σ) :
    let queue := queueAfter hsize uninit ops
    let pushed := packetQueuePushData queue audioData
    let filled : Int := (acceptedFrames hsize uninit ops).length - popCount ops
    (queue.head.val < size ∧ queue.tail.val < size) ∧
    ((queue.tail : Int) - queue.head) % size = filled ∧
    (pushed.2 = 1 ↔ filled = (size : Int) - 1) ∧
    (pushed.2 = 1 → pushed.1 = queue) ∧
    ∀ i, Unread hsize uninit ops i →
      (pushed.2 = 0 → pushed.1.tail ≠ i) ∧ pushed.1.slot i = queue.slot i := by
  intro queue pushed filled
  have hcount : popCount ops + Ring.dist queue.head queue.tail =
      (acceptedFrames hsize uninit ops).length := dist_queueAfter hops
  have hfilled : (Ring.dist queue.head queue.tail : Int) = filled := by omega
  have hfull : pushed.2 = 1 ↔ queue.isFull = true := pushData_result_eq_one_iff
  refine ⟨⟨queue.head.isLt, queue.tail.isLt⟩, ?_, ?_, fun hone => ?_, fun i hi => ?_⟩
  · rw [← Ring.dist_eq_sub_emod, hfilled]
  · rw [hfull, isFull_iff_dist, ← hfilled]
    omega
  · rw [show pushed = (queue, 1) from packetQueuePushData_of_isFull (hfull.1 hone) audioData]
  · have htail : pushed.2 = 0 → pushed.1.tail ≠ i :=
      tail_push_ne_of_awaits (awaits_of_unread hops hi)
    exact ⟨htail, slot_push audioData htail⟩

/-- Two slots are full with one frame, and the frame pushed is still to be read. -/
theorem accounts_two_slots :
    (packetQueuePushData (queueAfter (by decide : 0 < 2) (fun _ => #v[0]) [.pushData ⟨1, #v[5]⟩])
      ⟨1, #v[6]⟩).1.slot 1 = ⟨1, #v[5]⟩ := by
  have hall := accounts (by decide : 0 < 2) (fun _ => #v[0]) [.pushData ⟨1, #v[5]⟩] (by decide)
    ⟨1, #v[6]⟩
  have hunread : Unread (by decide : 0 < 2) (fun _ => #v[0]) [.pushData ⟨1, #v[5]⟩] 1 :=
    ⟨[], ⟨1, #v[5]⟩, [], rfl, by decide, by decide, trivial⟩
  rw [(hall.2.2.2.2 1 hunread).2]
  decide

end Runs

end Svc.Libsvc
