import Svc.Lib.Loop
import Svc.Lib.Machine
import Svc.Lib.Ring
import Svc.Libsvc.PacketTime

/-!
# The jitter buffer

`packet_cage.c` keeps the audio data of one peer in a ring of `size` slots.  Slot
`head` is for the packet of time `head_time`, the slots after it for the times
that follow.  The cage is modelled over any type of `svc_audio_data_t` pointers;
destroying a packet and printing a line are the events of a call.
-/

namespace Svc.Libsvc

open Svc.Lib

/-- What a call on a cage does besides changing the cage. -/
inductive CageEvent (α : Type) where
  /-- `svc_audio_data_destroy` -/
  | destroyed (audioData : α)
  /-- `printf` -/
  | printed (line : String)
  deriving DecidableEq

/-- `packet_cage_t`: `head` is a slot and `audio_queue` has `size` slots by type. -/
structure PacketCage (α : Type) (size : Nat) where
  head : Fin size
  headTime : PacketTime
  tailTime : PacketTime
  cageStarvation : Bool
  newCage : Bool
  elementsCount : Int
  audioQueue : Vector (Option α) size
  deriving DecidableEq

variable {α : Type} {size : Nat}

def PacketCage.slot (cage : PacketCage α size) (i : Fin size) : Option α :=
  getElem cage.audioQueue i.val i.isLt

/-- `packet_cage_create`, for a queue of at least one slot -/
def packetCageCreate (queueSize : Nat) (hsize : 0 < queueSize) : PacketCage α queueSize where
  head := ⟨0, hsize⟩
  headTime := ⟨0, maxTime.succ_pos⟩
  tailTime := ⟨0, maxTime.succ_pos⟩
  cageStarvation := true
  newCage := true
  elementsCount := 0
  audioQueue := Vector.replicate queueSize none

def nextPointInCage (pos : Fin size) : Fin size := Ring.next pos

/-- `delta_point_in_cage`: both sums are `unsigned int`. -/
def deltaPointInCage (pos : Fin size) (delta : Int) : Fin size :=
  ⟨((((pos.val : Int) + delta) % 2 ^ 32).toNat % size + size) % 2 ^ 32 % size,
    Nat.mod_lt _ pos.pos⟩

def packetCageIsEmpty (cage : PacketCage α size) : Bool := cage.elementsCount == 0

/-- What `packet_cage_pop` and `packet_cage_get_data` do alike: take what the head
slot holds, move the head on by one slot, and enter starvation, with a line of
their own, when the count is down to zero. -/
def takeHead (line : String) (cage : PacketCage α size) :
    Option α × PacketCage α size × List (CageEvent α) :=
  let res := cage.slot cage.head
  let cage' := { cage with
    elementsCount := if res.isSome then cage.elementsCount - 1 else cage.elementsCount
    audioQueue := cage.audioQueue.set cage.head none cage.head.isLt
    head := nextPointInCage cage.head
    headTime := timeInc cage.headTime }
  if packetCageIsEmpty cage' then
    (res, { cage' with cageStarvation := true, newCage := true }, [.printed line])
  else (res, cage', [])

def packetCagePop (cage : PacketCage α size) : PacketCage α size × List (CageEvent α) :=
  let (res, cage', lines) := takeHead "entering starvation from popping useless.\n" cage
  (cage', (res.map .destroyed).toList ++ lines)

/-- The test of the flush loop: `time` lies beyond the last slot of the cage. -/
def beyondWindow (time : PacketTime) (cage : PacketCage α size) : Bool :=
  isNewer time (timeIncBy cage.headTime ((size : Int) - 1))

def flushOne (s : PacketCage α size × List (CageEvent α)) :
    PacketCage α size × List (CageEvent α) :=
  let (cage, events) := packetCagePop s.1
  ({ cage with cageStarvation := false }, s.2 ++ events ++ [.printed "poped useless stuff\n"])

/-- The flush loop.  Each round brings the end of the window one step closer to
`time`, so it never runs as many rounds as there are times. -/
def packetCageFlush (cage : PacketCage α size) (time : PacketTime) :
    PacketCage α size × List (CageEvent α) :=
  whileLoop (fun s => beyondWindow time s.1) flushOne (maxTime + 1) (cage, [])

/-- The test that decides whether `packet_cage_put_data` takes the packet. -/
def PacketCage.accepts (cage : PacketCage α size) (time : PacketTime) : Bool :=
  cage.newCage || isNewer time cage.headTime

/-- A new cage starts at the time of its first packet. -/
def PacketCage.rebase (cage : PacketCage α size) (time : PacketTime) : PacketCage α size :=
  if cage.newCage then { cage with headTime := time, tailTime := time, newCage := false }
  else cage

/-- The end of `packet_cage_put_data`: write the packet into the slot of its time. -/
def PacketCage.store (cage : PacketCage α size) (audioData : α) (time : PacketTime) :
    PacketCage α size :=
  let newElemPos := deltaPointInCage cage.head (subTime time cage.headTime)
  { cage with
    audioQueue := cage.audioQueue.set newElemPos (some audioData) newElemPos.isLt
    elementsCount := cage.elementsCount + 1
    tailTime := if isNewer time cage.tailTime then time else cage.tailTime }

/-- `packet_cage_put_data`; it returns 0 on every path. -/
def packetCagePutData (cage : PacketCage α size) (audioData : α) (time : PacketTime) :
    PacketCage α size × List (CageEvent α) :=
  if cage.accepts time then
    let (flushed, events) := packetCageFlush (cage.rebase time) time
    (flushed.store audioData time, events)
  else (cage, [.printed "a realy old packet arived\n"])

def packetCageGetData (cage : PacketCage α size) :
    Option α × PacketCage α size × List (CageEvent α) :=
  if cage.cageStarvation then (none, cage, [.printed "starving...\n"])
  else takeHead "entering starvation from getting data\n" cage

/-! ## Runs -/

inductive CageOp (α : Type) where
  | putData (audioData : α) (time : PacketTime)
  | getData

structure CageOut (α : Type) where
  /-- the result of `packet_cage_get_data`; `packet_cage_put_data` returns no packet -/
  returned : Option α
  events : List (CageEvent α)
  deriving DecidableEq

def cageMachine (α : Type) (size : Nat) :
    Machine (PacketCage α size) (CageOp α) (CageOut α) where
  step cage
    | .putData audioData time =>
        let (cage', events) := packetCagePutData cage audioData time
        (cage', ⟨none, events⟩)
    | .getData =>
        let (res, cage', events) := packetCageGetData cage
        (cage', ⟨res, events⟩)

@[simp] theorem next_putData (cage : PacketCage α size) (audioData : α) (time : PacketTime) :
    (cageMachine α size).next cage (.putData audioData time) =
      (packetCagePutData cage audioData time).1 := rfl

@[simp] theorem next_getData (cage : PacketCage α size) :
    (cageMachine α size).next cage .getData = (packetCageGetData cage).2.1 := rfl

@[simp] theorem out_putData (cage : PacketCage α size) (audioData : α) (time : PacketTime) :
    (cageMachine α size).out cage (.putData audioData time) =
      ⟨none, (packetCagePutData cage audioData time).2⟩ := rfl

@[simp] theorem out_getData (cage : PacketCage α size) :
    (cageMachine α size).out cage .getData =
      ⟨(packetCageGetData cage).1, (packetCageGetData cage).2.2⟩ := rfl

def cageAfter (hsize : 0 < size) (ops : List (CageOp α)) : PacketCage α size :=
  (cageMachine α size).run (packetCageCreate size hsize) ops

def cageOutputs (hsize : 0 < size) (ops : List (CageOp α)) : List (CageOut α) :=
  (cageMachine α size).outputs (packetCageCreate size hsize) ops

end Svc.Libsvc
