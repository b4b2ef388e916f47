import Svc.Lib.Machine
import Svc.Lib.Ring

/-!
# The packet queue

`packet_queue.c` passes audio frames from the recording callback to the sending
thread through a ring of frames that are allocated once.  The module has what the
two calls do while they own the queue; the locking around it is the subject of
`Svc.Libsvc.PacketQueue.Blocking`.
-/

namespace Svc.Libsvc

open Svc.Lib

structure SvcAudioData (σ : Type) where
  size : Nat
  data : Vector σ size
  deriving DecidableEq

/-- `svc_audio_data_copy`: the destination after the call, and the result. -/
def svcAudioDataCopy {σ : Type} (destData sourceData : SvcAudioData σ) : SvcAudioData σ × Int :=
  if h : destData.size = sourceData.size then
    ({ size := destData.size, data := sourceData.data.cast h.symm }, 0)
  else (destData, -1)

/-- `packet_queue_t` without its mutexes: `head` and `tail` are slots and
`audio_queue` has `size` slots by type. -/
structure PacketQueue (σ : Type) (size : Nat) where
  head : Fin size
  tail : Fin size
  audioQueue : Vector (SvcAudioData σ) size
  deriving DecidableEq

variable {σ : Type} {size audioSize : Nat}

def PacketQueue.slot (queue : PacketQueue σ size) (i : Fin size) : SvcAudioData σ :=
  getElem queue.audioQueue i.val i.isLt

/-- `packet_queue_create`; `svc_audio_data_create` leaves the samples of slot `i` as
`malloc` returned them, which is `uninit i`. -/
def packetQueueCreate (queueSize : Nat) (hsize : 0 < queueSize)
    (uninit : Nat → Vector σ audioSize) : PacketQueue σ queueSize where
  head := ⟨0, hsize⟩
  tail := ⟨0, hsize⟩
  audioQueue := Vector.ofFn fun i => ⟨audioSize, uninit i⟩

def nextPointInQueue (pos : Fin size) : Fin size := Ring.next pos

def packetQueueIsEmpty (queue : PacketQueue σ size) : Bool := queue.tail == queue.head

/-- The test on which `packet_queue_push_data` returns 1. -/
def PacketQueue.isFull (queue : PacketQueue σ size) : Bool :=
  nextPointInQueue queue.tail == queue.head

def packetQueuePushData (queue : PacketQueue σ size) (audioData : SvcAudioData σ) :
    PacketQueue σ size × Int :=
  let newTail := nextPointInQueue queue.tail
  if newTail == queue.head then (queue, 1)
  else
    ({ queue with
        tail := newTail
        audioQueue :=
          queue.audioQueue.set newTail (svcAudioDataCopy (queue.slot newTail) audioData).1 }, 0)

/-- `packet_queue_pop_data`: the queue after the call, and the caller's frame. -/
def packetQueuePopData (queue : PacketQueue σ size) (audioData : SvcAudioData σ) :
    PacketQueue σ size × SvcAudioData σ :=
  ({ queue with head := nextPointInQueue queue.head },
    (svcAudioDataCopy audioData (queue.slot queue.head)).1)

/-! ## Runs -/

inductive QueueOp (σ : Type) where
  | pushData (audioData : SvcAudioData σ)
  | popData (audioData : SvcAudioData σ)

inductive QueueOut (σ : Type) where
  /-- the result of `packet_queue_push_data` -/
  | pushed (result : Int)
  /-- the caller's frame after `packet_queue_pop_data` -/
  | popped (audioData : SvcAudioData σ)
  deriving DecidableEq

def queueMachine (σ : Type) (size : Nat) :
    Machine (PacketQueue σ size) (QueueOp σ) (QueueOut σ) where
  step queue
    | .pushData audioData =>
        ((packetQueuePushData queue audioData).1, .pushed (packetQueuePushData queue audioData).2)
    | .popData audioData =>
        ((packetQueuePopData queue audioData).1, .popped (packetQueuePopData queue audioData).2)

@[simp] theorem next_pushData (queue : PacketQueue σ size) (audioData : SvcAudioData σ) :
    (queueMachine σ size).next queue (.pushData audioData) =
      (packetQueuePushData queue audioData).1 := rfl

@[simp] theorem next_popData (queue : PacketQueue σ size) (audioData : SvcAudioData σ) :
    (queueMachine σ size).next queue (.popData audioData) =
      (packetQueuePopData queue audioData).1 := rfl

@[simp] theorem out_pushData (queue : PacketQueue σ size) (audioData : SvcAudioData σ) :
    (queueMachine σ size).out queue (.pushData audioData) =
      .pushed (packetQueuePushData queue audioData).2 := rfl

@[simp] theorem out_popData (queue : PacketQueue σ size) (audioData : SvcAudioData σ) :
    (queueMachine σ size).out queue (.popData audioData) =
      .popped (packetQueuePopData queue audioData).2 := rfl

/-! ## What the parts compute -/

theorem svcAudioDataCopy_of_size_eq {destData sourceData : SvcAudioData σ}
    (h : destData.size = sourceData.size) :
    svcAudioDataCopy destData sourceData = (sourceData, 0) := by
  obtain ⟨_, _⟩ := destData
  obtain ⟨_, _⟩ := sourceData
  obtain rfl : _ = _ := h
  simp [svcAudioDataCopy]

theorem nextPointInQueue_eq (pos : Fin size) : nextPointInQueue pos = Ring.offset pos 1 :=
  Ring.next_eq_offset pos

theorem packetQueueIsEmpty_iff (queue : PacketQueue σ size) :
    packetQueueIsEmpty queue = true ↔ queue.head = queue.tail := by
  rw [packetQueueIsEmpty, beq_iff_eq]
  exact eq_comm

theorem isFull_iff (queue : PacketQueue σ size) :
    queue.isFull = true ↔ Ring.offset queue.tail 1 = queue.head := by
  simp [PacketQueue.isFull, nextPointInQueue_eq]

theorem offset_tail_ne_head {queue : PacketQueue σ size} (h : queue.isFull = false) :
    Ring.offset queue.tail 1 ≠ queue.head := fun heq => by
  simp [(isFull_iff queue).2 heq] at h

theorem packetQueuePushData_of_isFull {queue : PacketQueue σ size} (h : queue.isFull = true)
    (audioData : SvcAudioData σ) : packetQueuePushData queue audioData = (queue, 1) := by
  unfold PacketQueue.isFull at h
  simp [packetQueuePushData, h]

theorem packetQueuePushData_of_not_isFull {queue : PacketQueue σ size}
    (h : queue.isFull = false) (audioData : SvcAudioData σ) :
    packetQueuePushData queue audioData =
      ({ queue with
          tail := nextPointInQueue queue.tail
          audioQueue := queue.audioQueue.set (nextPointInQueue queue.tail)
            (svcAudioDataCopy (queue.slot (nextPointInQueue queue.tail)) audioData).1 }, 0) := by
  unfold PacketQueue.isFull at h
  simp [packetQueuePushData, h]

end Svc.Libsvc
