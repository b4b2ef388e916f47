import Svc.Lib.Fifo
import Svc.Libsvc.PacketQueue

/-!
# The order of the packet queue

The frames from the head slot to the tail slot are the queue's contents: a push
appends a frame and a pop takes the first one away.  A queue from
`packet_queue_create` has equal ends, so it starts with one frame no push has
written, and every frame leaves one pop later than it should.
-/

namespace Svc.Libsvc

open Svc.Lib

variable {σ : Type} {size audioSize : Nat}

/-! ## The contents -/

/-- The frames from the head slot to the tail slot, both included. -/
def PacketQueue.held (queue : PacketQueue σ size) : List (SvcAudioData σ) :=
  (List.range (Ring.dist queue.head queue.tail + 1)).map fun k =>
    queue.slot (Ring.offset queue.head k)

def PacketQueue.Sized (audioSize : Nat) (queue : PacketQueue σ size) : Prop :=
  ∀ i, (queue.slot i).size = audioSize

/-- A call with a frame of the queue's size; a pop also needs a queue that is not empty. -/
def CalledWell (audioSize : Nat) (queue : PacketQueue σ size) : QueueOp σ → Prop
  | .pushData audioData => audioData.size = audioSize
  | .popData audioData => audioData.size = audioSize ∧ queue.head ≠ queue.tail

instance (audioSize : Nat) (queue : PacketQueue σ size) :
    (op : QueueOp σ) → Decidable (CalledWell audioSize queue op)
  | .pushData audioData => inferInstanceAs (Decidable (audioData.size = audioSize))
  | .popData audioData =>
      inferInstanceAs (Decidable (audioData.size = audioSize ∧ queue.head ≠ queue.tail))

def acceptedBy (queue : PacketQueue σ size) : QueueOp σ → List (SvcAudioData σ)
  | .pushData audioData => if (packetQueuePushData queue audioData).2 = 0 then [audioData] else []
  | .popData _ => []

def admittedBy (queue : PacketQueue σ size) : QueueOp σ → List (SvcAudioData σ)
  | .pushData audioData => if queue.isFull then [] else [audioData]
  | .popData _ => []

def poppedBy (queue : PacketQueue σ size) : QueueOp σ → List (SvcAudioData σ)
  | .pushData _ => []
  | .popData audioData => [(packetQueuePopData queue audioData).2]

def popCount (ops : List (QueueOp σ)) : Nat :=
  ops.countP fun | .popData _ => true | .pushData _ => false

/-! ## One call -/

section Calls

variable {queue : PacketQueue σ size} {audioData : SvcAudioData σ}

theorem queue_slot_set (i j : Fin size) (x : SvcAudioData σ) :
    getElem (queue.audioQueue.set j x j.isLt) i.val i.isLt =
      if j = i then x else queue.slot i := by
  simp [PacketQueue.slot, Vector.getElem_set, Fin.ext_iff]

theorem sized_push (hsized : queue.Sized audioSize) (hsize : audioData.size = audioSize) :
    (packetQueuePushData queue audioData).1.Sized audioSize := by
  cases hfull : queue.isFull with
  | true => rwa [packetQueuePushData_of_isFull hfull]
  | false =>
      intro i
      have hcopy := svcAudioDataCopy_of_size_eq
        ((hsized (nextPointInQueue queue.tail)).trans hsize.symm)
      rw [packetQueuePushData_of_not_isFull hfull, hcopy, PacketQueue.slot, queue_slot_set]
      split
      · exact hsize
      · exact hsized i

theorem sized_pop (hsized : queue.Sized audioSize) (audioData : SvcAudioData σ) :
    (packetQueuePopData queue audioData).1.Sized audioSize := hsized

theorem held_push (hsized : queue.Sized audioSize) (hsize : audioData.size = audioSize) :
    (packetQueuePushData queue audioData).1.held =
      queue.held ++ if queue.isFull then [] else [audioData] := by
  cases hfull : queue.isFull with
  | true => simp [packetQueuePushData_of_isFull hfull]
  | false =>
      have hcopy := svcAudioDataCopy_of_size_eq
        ((hsized (nextPointInQueue queue.tail)).trans hsize.symm)
      have hdist := Ring.dist_offset_one (offset_tail_ne_head hfull)
      have hlt := Ring.dist_lt queue.head (Ring.offset queue.tail 1)
      have hlast : Ring.offset queue.head (Ring.dist queue.head queue.tail + 1) =
          Ring.offset queue.tail 1 := by rw [← hdist, Ring.offset_dist]
      rw [packetQueuePushData_of_not_isFull hfull, hcopy]
      simp only [PacketQueue.held, PacketQueue.slot, queue_slot_set, nextPointInQueue_eq, hdist]
      rw [List.range_succ, List.map_append, if_neg (by simp)]
      congr 1
      · refine List.map_congr_left fun k hk => if_neg ?_
        rw [List.mem_range] at hk
        rw [← hlast, Ring.offset_inj queue.head (by omega) (by omega)]
        omega
      · simp [hlast]

theorem held_pop (hsized : queue.Sized audioSize) (hsize : audioData.size = audioSize)
    (hne : queue.head ≠ queue.tail) :
    (packetQueuePopData queue audioData).2 :: (packetQueuePopData queue audioData).1.held =
      queue.held := by
  have hdist := Ring.dist_offset_one_left hne.symm
  have hcopy := svcAudioDataCopy_of_size_eq (hsize.trans (hsized queue.head).symm)
  simp only [packetQueuePopData, hcopy, PacketQueue.held, nextPointInQueue_eq]
  rw [← hdist, List.range_succ_eq_map (n := Ring.dist _ _ + 1), List.map_cons, List.map_map,
    Ring.offset_zero]
  congr 1
  refine List.map_congr_left fun k _ => ?_
  simp [PacketQueue.slot, Nat.add_comm]

theorem pushData_result_eq_zero_iff :
    (packetQueuePushData queue audioData).2 = 0 ↔ queue.isFull = false := by
  cases hfull : queue.isFull with
  | true => simp [packetQueuePushData_of_isFull hfull]
  | false => simp [packetQueuePushData_of_not_isFull hfull]

theorem acceptedBy_eq_admittedBy (op : QueueOp σ) : acceptedBy queue op = admittedBy queue op := by
  cases op with
  | pushData audioData =>
      cases hfull : queue.isFull <;>
        simp [acceptedBy, admittedBy, pushData_result_eq_zero_iff, hfull]
  | popData audioData => rfl

theorem sized_next {op : QueueOp σ} (hsized : queue.Sized audioSize)
    (hop : CalledWell audioSize queue op) :
    ((queueMachine σ size).next queue op).Sized audioSize := by
  cases op with
  | pushData audioData => exact sized_push hsized hop
  | popData audioData => exact sized_pop hsized audioData

theorem held_next {op : QueueOp σ} (hsized : queue.Sized audioSize)
    (hop : CalledWell audioSize queue op) :
    poppedBy queue op ++ ((queueMachine σ size).next queue op).held =
      queue.held ++ admittedBy queue op := by
  cases op with
  | pushData audioData => exact held_push hsized hop
  | popData audioData => simpa [poppedBy, admittedBy] using held_pop hsized hop.1 hop.2

end Calls

/-! ## Runs -/

section Runs

variable (hsize : 0 < size) (uninit : Nat → Vector σ audioSize) (ops : List (QueueOp σ))

def acceptedFrames : List (SvcAudioData σ) :=
  (queueMachine σ size).collect acceptedBy (packetQueueCreate size hsize uninit) ops

def admittedFrames : List (SvcAudioData σ) :=
  (queueMachine σ size).collect admittedBy (packetQueueCreate size hsize uninit) ops

def poppedFrames : List (SvcAudioData σ) :=
  (queueMachine σ size).collect poppedBy (packetQueueCreate size hsize uninit) ops

def WellCalled : Prop :=
  (queueMachine σ size).Guarded (CalledWell audioSize) (packetQueueCreate size hsize uninit) ops

instance : Decidable (WellCalled hsize uninit ops) :=
  inferInstanceAs (Decidable ((queueMachine σ size).Guarded _ _ _))

def FirstInFirstOut : Prop :=
  ∀ n, n < popCount ops →
    (poppedFrames hsize uninit ops)[n]? = (acceptedFrames hsize uninit ops)[n]?

theorem length_collect_poppedBy (queue : PacketQueue σ size) :
    ((queueMachine σ size).collect poppedBy queue ops).length = popCount ops := by
  induction ops generalizing queue with
  | nil => rfl
  | cons op ops ih =>
      simp only [Machine.collect_cons, List.length_append, ih]
      cases op <;> simp [poppedBy, popCount, Nat.add_comm]

variable {hsize uninit ops}

theorem sized_create : (packetQueueCreate size hsize uninit).Sized audioSize := by
  intro i
  simp [PacketQueue.slot, packetQueueCreate]

theorem held_create : (packetQueueCreate size hsize uninit).held = [⟨audioSize, uninit 0⟩] := by
  have hdist : Ring.dist (⟨0, hsize⟩ : Fin size) ⟨0, hsize⟩ = 0 := Ring.dist_eq_zero.2 rfl
  simp [PacketQueue.held, packetQueueCreate, hdist, PacketQueue.slot]

theorem acceptedFrames_eq : acceptedFrames hsize uninit ops = admittedFrames hsize uninit ops :=
  (queueMachine σ size).collect_congr (I := fun _ => True) (G := fun _ _ => True)
    (fun _ _ _ _ => trivial) (fun _ op _ _ => acceptedBy_eq_admittedBy op) trivial
    (Machine.guarded_true _ _ _)

/-- What was popped and what is held are the uninitialised frame and what was pushed. -/
theorem poppedFrames_append_held (hops : WellCalled hsize uninit ops) :
    poppedFrames hsize uninit ops ++
        ((queueMachine σ size).run (packetQueueCreate size hsize uninit) ops).held =
      ⟨audioSize, uninit 0⟩ :: admittedFrames hsize uninit ops := by
  have hall := (queueMachine σ size).collect_leaves_append (I := PacketQueue.Sized audioSize)
    (fun _ _ hs hop => sized_next hs hop) (fun _ _ hs hop => held_next hs hop) sized_create hops
  rw [held_create] at hall
  exact hall

/-- The pops of a run copy out the uninitialised frame first and then, one pop
late, the frames that were pushed. -/
theorem poppedFrames_eq_take (hops : WellCalled hsize uninit ops) :
    popCount ops ≤ (admittedFrames hsize uninit ops).length ∧
      poppedFrames hsize uninit ops =
        (⟨audioSize, uninit 0⟩ :: admittedFrames hsize uninit ops).take (popCount ops) := by
  have hall := poppedFrames_append_held hops
  have hlength : (poppedFrames hsize uninit ops).length = popCount ops :=
    length_collect_poppedBy ops _
  have htotal := congrArg List.length hall
  simp only [List.length_append, List.length_cons, hlength, PacketQueue.held, List.length_map,
    List.length_range] at htotal
  refine ⟨by omega, ?_⟩
  rw [← hall, ← hlength, List.take_left]

/-- The queue is first in, first out on exactly the runs whose popped pushes all
carry what the memory of slot 0 held when the queue was created. -/
theorem firstInFirstOut_iff (hsize : 0 < size) (uninit : Nat → Vector σ audioSize)
    (ops : List (QueueOp σ)) (hops : WellCalled hsize uninit ops) :
    FirstInFirstOut hsize uninit ops ↔
      ∀ audioData ∈ (admittedFrames hsize uninit ops).take (popCount ops),
        audioData = ⟨audioSize, uninit 0⟩ := by
  obtain ⟨hle, htake⟩ := poppedFrames_eq_take hops
  rw [← getElem?_cons_eq_iff hle, FirstInFirstOut, acceptedFrames_eq, htake]
  refine forall₂_congr fun n hn => ?_
  rw [List.getElem?_take_of_lt hn]

/-- Silence pushed on a queue whose memory was zero comes out as it went in. -/
theorem firstInFirstOut_iff_of_silence :
    FirstInFirstOut (by decide : 0 < 4) (fun _ => #v[0])
        [.pushData ⟨1, #v[0]⟩, .popData ⟨1, #v[7]⟩] ↔
      ∀ audioData ∈ (admittedFrames (by decide : 0 < 4) (fun _ => #v[0])
          [.pushData ⟨1, #v[0]⟩, .popData ⟨1, #v[7]⟩]).take 1,
        audioData = ⟨1, #v[0]⟩ :=
  firstInFirstOut_iff (by decide) (fun _ => #v[0]) _ (by decide)

/-- The first pop copies out memory that no push has written. -/
theorem not_firstInFirstOut_of_first_pop :
    WellCalled (by decide : 0 < 4) (fun _ => #v[0])
        [.pushData ⟨1, #v[5]⟩, .popData ⟨1, #v[7]⟩] ∧
      ¬ FirstInFirstOut (by decide : 0 < 4) (fun _ => #v[0])
        [.pushData ⟨1, #v[5]⟩, .popData ⟨1, #v[7]⟩] := by
  refine ⟨by decide, fun hfifo => absurd (hfifo 0 (by decide)) (by decide)⟩

end Runs

end Svc.Libsvc
