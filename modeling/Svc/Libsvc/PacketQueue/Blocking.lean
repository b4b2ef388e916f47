import Svc.Libsvc.PacketQueue

/-!
# Waiting on an empty packet queue

A recording thread pushes and a sending thread pops.  `queue_mutex` guards the
queue, and `queue_empty_mutex` is held while the queue is empty, so that a pop
waits on it.  Each step of a thread is one lock or unlock, or the code between
two of them.
-/

namespace Svc.Libsvc

open Svc.Lib

/-! ## The threads -/

/-- `mutex_t`: only whether it is held, as any thread may release it. -/
inductive Mutex where
  | free
  | held
  deriving DecidableEq

def mutexLock : Mutex → Option Mutex
  | .free => some .held
  | .held => none

def mutexUnlock (_ : Mutex) : Mutex := .free

/-- Where the recording thread is in `packet_queue_push_data`: before the named code. -/
inductive PushPoint (σ : Type) where
  | outside
  | lockQueue (audioData : SvcAudioData σ)
  | testEmpty (audioData : SvcAudioData σ)
  | write (audioData : SvcAudioData σ)
  | unlockQueue (result : Int)

inductive PopPoint (σ : Type) where
  | outside
  | lockEmpty (audioData : SvcAudioData σ)
  | unlockEmpty (audioData : SvcAudioData σ)
  | lockQueue (audioData : SvcAudioData σ)
  | read (audioData : SvcAudioData σ)
  | testEmpty (audioData : SvcAudioData σ)
  | unlockQueue (audioData : SvcAudioData σ)

structure Threads (σ : Type) (size : Nat) where
  queue : PacketQueue σ size
  queueMutex : Mutex
  queueEmptyMutex : Mutex
  pushing : PushPoint σ
  popping : PopPoint σ

variable {σ : Type} {size audioSize : Nat}

def threadsCreate (queueSize : Nat) (hsize : 0 < queueSize) (uninit : Nat → Vector σ audioSize) :
    Threads σ queueSize where
  queue := packetQueueCreate queueSize hsize uninit
  queueMutex := .free
  queueEmptyMutex := .held
  pushing := .outside
  popping := .outside

/-- A step of the recording thread; it stays where it is while it waits. -/
def pushStep (t : Threads σ size) : Threads σ size :=
  match t.pushing with
  | .outside => t
  | .lockQueue audioData =>
      match mutexLock t.queueMutex with
      | some queueMutex => { t with queueMutex, pushing := .testEmpty audioData }
      | none => t
  | .testEmpty audioData =>
      if packetQueueIsEmpty t.queue then
        { t with
          queueEmptyMutex := mutexUnlock t.queueEmptyMutex
          pushing := .write audioData }
      else { t with pushing := .write audioData }
  | .write audioData =>
      { t with
        queue := (packetQueuePushData t.queue audioData).1
        pushing := .unlockQueue (packetQueuePushData t.queue audioData).2 }
  | .unlockQueue _ => { t with queueMutex := mutexUnlock t.queueMutex, pushing := .outside }

def popStep (t : Threads σ size) : Threads σ size :=
  match t.popping with
  | .outside => t
  | .lockEmpty audioData =>
      match mutexLock t.queueEmptyMutex with
      | some queueEmptyMutex => { t with queueEmptyMutex, popping := .unlockEmpty audioData }
      | none => t
  | .unlockEmpty audioData =>
      { t with
        queueEmptyMutex := mutexUnlock t.queueEmptyMutex
        popping := .lockQueue audioData }
  | .lockQueue audioData =>
      match mutexLock t.queueMutex with
      | some queueMutex => { t with queueMutex, popping := .read audioData }
      | none => t
  | .read audioData =>
      { t with
        queue := (packetQueuePopData t.queue audioData).1
        popping := .testEmpty (packetQueuePopData t.queue audioData).2 }
  | .testEmpty audioData =>
      if packetQueueIsEmpty t.queue then
        match mutexLock t.queueEmptyMutex with
        | some queueEmptyMutex => { t with queueEmptyMutex, popping := .unlockQueue audioData }
        | none => t
      else { t with popping := .unlockQueue audioData }
  | .unlockQueue _ => { t with queueMutex := mutexUnlock t.queueMutex, popping := .outside }

inductive ThreadEvent (σ : Type) where
  | callPush (audioData : SvcAudioData σ)
  | callPop (audioData : SvcAudioData σ)
  | stepPush
  | stepPop

def threadsMachine (σ : Type) (size : Nat) :
    Machine (Threads σ size) (ThreadEvent σ) Unit where
  step t
    | .callPush audioData =>
        (match t.pushing with
          | .outside => { t with pushing := .lockQueue audioData }
          | _ => t, ())
    | .callPop audioData =>
        (match t.popping with
          | .outside => { t with popping := .lockEmpty audioData }
          | _ => t, ())
    | .stepPush => (pushStep t, ())
    | .stepPop => (popStep t, ())

def threadsAfter (hsize : 0 < size) (uninit : Nat → Vector σ audioSize)
    (events : List (ThreadEvent σ)) : Threads σ size :=
  (threadsMachine σ size).run (threadsCreate size hsize uninit) events

/-! ## What the protocol promises -/

def ReleasesEmptyMutex (t : Threads σ size) : ThreadEvent σ → Prop
  | .stepPush => ∃ audioData, t.pushing = .testEmpty audioData ∧ packetQueueIsEmpty t.queue = true
  | .stepPop => ∃ audioData, t.popping = .unlockEmpty audioData
  | _ => False

def EntersPop (t : Threads σ size) : Prop :=
  (∃ audioData, t.popping = .lockQueue audioData) ∧ t.queueMutex = .free

/-- The sending thread is about to lock `queue_empty_mutex` with `queue_mutex` held. -/
def LocksEmptyMutexInside (t : Threads σ size) : Prop :=
  ∃ audioData, t.popping = .testEmpty audioData ∧ packetQueueIsEmpty t.queue = true

def PushPoint.inside : PushPoint σ → Bool
  | .testEmpty _ | .write _ | .unlockQueue _ => true
  | .outside | .lockQueue _ => false

def PopPoint.inside : PopPoint σ → Bool
  | .read _ | .testEmpty _ | .unlockQueue _ => true
  | .outside | .lockEmpty _ | .unlockEmpty _ | .lockQueue _ => false

def PopPoint.inPair : PopPoint σ → Bool
  | .unlockEmpty _ => true
  | _ => false

structure BlockingProtocol (t : Threads σ size) : Prop where
  /-- no step releases `queue_empty_mutex` while it is free -/
  held_of_releases : ∀ event, ReleasesEmptyMutex t event → t.queueEmptyMutex = .held
  /-- a pop never enters its critical section with `head == tail` -/
  not_empty_of_enters : EntersPop t → t.queue.head ≠ t.queue.tail
  /-- the lock inside the critical section of a pop never waits -/
  free_of_locks_inside : LocksEmptyMutexInside t → t.queueEmptyMutex = .free
  /-- elsewhere `queue_empty_mutex` is held exactly when `head == tail` -/
  held_iff_empty : t.pushing.inside = false → t.popping.inside = false →
    t.popping.inPair = false → (t.queueEmptyMutex = .held ↔ t.queue.head = t.queue.tail)

/-! ## The invariant -/

/-- The recording thread has released `queue_empty_mutex` and not yet written. -/
def PushPoint.released : PushPoint σ → Bool
  | .write _ => true
  | _ => false

def PopPoint.passed : PopPoint σ → Bool
  | .unlockEmpty _ | .lockQueue _ => true
  | _ => false

def PopPoint.reading : PopPoint σ → Bool
  | .read _ => true
  | _ => false

def PopPoint.untested : PopPoint σ → Bool
  | .testEmpty _ => true
  | _ => false

structure BlockingInvariant (t : Threads σ size) : Prop where
  exclusive : ¬ (t.pushing.inside = true ∧ t.popping.inside = true)
  queueMutex_iff : t.queueMutex = .held ↔ t.pushing.inside = true ∨ t.popping.inside = true
  /-- `queue_empty_mutex` lags behind `head == tail` only between a release and the
  write it announces, and between a read and the test that follows it -/
  queueEmptyMutex_iff : t.queueEmptyMutex = .held ↔ t.popping.inPair = true ∨
    (t.queue.head = t.queue.tail ∧ t.pushing.released = false ∧ t.popping.untested = false)
  not_empty_of_passed : t.popping.passed = true → t.pushing.released = false →
    t.queue.head ≠ t.queue.tail
  not_empty_of_reading : t.popping.reading = true → t.queue.head ≠ t.queue.tail

section Steps

theorem PushPoint.released_of_not_inside {p : PushPoint σ} (h : p.inside = false) :
    p.released = false := by
  cases p with
  | write => exact h
  | outside | lockQueue | testEmpty | unlockQueue => rfl

theorem PopPoint.untested_of_not_inside {p : PopPoint σ} (h : p.inside = false) :
    p.untested = false := by
  cases p with
  | testEmpty => exact h
  | outside | lockEmpty | unlockEmpty | lockQueue | read | unlockQueue => rfl

theorem PopPoint.passed_of_inPair {p : PopPoint σ} (h : p.inPair = true) : p.passed = true := by
  cases p with
  | unlockEmpty => rfl
  | outside | lockEmpty | lockQueue | read | testEmpty | unlockQueue => cases h

section Threads

variable {t : Threads σ size}

theorem BlockingInvariant.outside_of_free (ht : BlockingInvariant t)
    (hfree : t.queueMutex = .free) :
    t.pushing.inside = false ∧ t.popping.inside = false := by
  have hout : ¬ (t.pushing.inside = true ∨ t.popping.inside = true) := by
    rw [← ht.queueMutex_iff, hfree]
    nofun
  rwa [not_or, Bool.not_eq_true, Bool.not_eq_true] at hout

theorem BlockingInvariant.popping_outside (ht : BlockingInvariant t)
    (hpush : t.pushing.inside = true) : t.popping.inside = false :=
  Bool.eq_false_iff.2 fun hpop => ht.exclusive ⟨hpush, hpop⟩

theorem BlockingInvariant.pushing_outside (ht : BlockingInvariant t)
    (hpop : t.popping.inside = true) : t.pushing.inside = false :=
  Bool.eq_false_iff.2 fun hpush => ht.exclusive ⟨hpush, hpop⟩

/-- While the queue is not empty, `queue_empty_mutex` is held only by a pop that begins. -/
theorem BlockingInvariant.held_iff_inPair (ht : BlockingInvariant t)
    (hne : t.queue.head ≠ t.queue.tail) : t.queueEmptyMutex = .held ↔ t.popping.inPair = true :=
  ht.queueEmptyMutex_iff.trans (or_iff_left fun h => hne h.1)

end Threads

theorem blockingInvariant_create (hsize : 0 < size) (uninit : Nat → Vector σ audioSize) :
    BlockingInvariant (threadsCreate size hsize uninit) where
  exclusive := nofun
  queueMutex_iff := iff_of_false nofun nofun
  queueEmptyMutex_iff := iff_of_true rfl (.inr ⟨rfl, rfl, rfl⟩)
  not_empty_of_passed := nofun
  not_empty_of_reading := nofun

/-- Whatever a push returns, it leaves a packet in a queue of two slots or more. -/
theorem pushData_head_ne_tail (hsize : 2 ≤ size) (queue : PacketQueue σ size)
    (audioData : SvcAudioData σ) :
    (packetQueuePushData queue audioData).1.head ≠
      (packetQueuePushData queue audioData).1.tail := by
  cases hfull : queue.isFull with
  | true =>
      rw [packetQueuePushData_of_isFull hfull, ← (isFull_iff queue).1 hfull]
      intro heq
      have hone := (Ring.offset_inj queue.tail (show 1 < size by omega) (show 0 < size by omega)).1
        (by rw [heq, Ring.offset_zero])
      omega
  | false =>
      rw [packetQueuePushData_of_not_isFull hfull]
      intro heq
      have htail : queue.head = nextPointInQueue queue.tail := heq
      rw [← Bool.not_eq_true, isFull_iff, ← nextPointInQueue_eq] at hfull
      exact hfull htail.symm

/-! ### Steps of the recording thread -/

section Push

variable {queue : PacketQueue σ size} {queueMutex queueEmptyMutex : Mutex} {popping : PopPoint σ}

/-- The release: the sending thread waits at `queue_empty_mutex`, or has not come to it. -/
theorem blockingInvariant_release {audioData : SvcAudioData σ} (heq : queue.head = queue.tail)
    (ht : BlockingInvariant ⟨queue, queueMutex, queueEmptyMutex, .testEmpty audioData, popping⟩) :
    BlockingInvariant ⟨queue, queueMutex, .free, .write audioData, popping⟩ := by
  have hbefore : popping.passed ≠ true := fun hpassed => ht.not_empty_of_passed hpassed rfl heq
  refine ⟨ht.exclusive, ht.queueMutex_iff, iff_of_false nofun ?_, nofun, ht.not_empty_of_reading⟩
  rintro (hpair | ⟨-, hreleased, -⟩)
  · exact hbefore (PopPoint.passed_of_inPair hpair)
  · cases hreleased

/-- While the recording thread is inside and the queue is not empty, the point that it is at
and the packets of the queue do not matter. -/
theorem blockingInvariant_inside {queue' : PacketQueue σ size} {pushing pushing' : PushPoint σ}
    (hinside : pushing.inside = true) (hinside' : pushing'.inside = true)
    (hheld : queueEmptyMutex = .held ↔ popping.inPair = true)
    (hne : queue'.head ≠ queue'.tail)
    (ht : BlockingInvariant ⟨queue, queueMutex, queueEmptyMutex, pushing, popping⟩) :
    BlockingInvariant ⟨queue', queueMutex, queueEmptyMutex, pushing', popping⟩ where
  exclusive h := ht.exclusive ⟨hinside, h.2⟩
  queueMutex_iff := by
    have hiff := ht.queueMutex_iff
    rw [hinside] at hiff
    rw [hinside']
    exact hiff
  queueEmptyMutex_iff := hheld.trans (or_iff_left fun h => hne h.1).symm
  not_empty_of_passed _ _ := hne
  not_empty_of_reading _ := hne

end Push

theorem blockingInvariant_pushStep (hsize : 2 ≤ size) {t : Threads σ size}
    (ht : BlockingInvariant t) : BlockingInvariant (pushStep t) := by
  obtain ⟨queue, queueMutex, queueEmptyMutex, pushing, popping⟩ := t
  cases pushing with
  | outside => exact ht
  | lockQueue audioData =>
      cases queueMutex with
      | free =>
          obtain ⟨-, hpop⟩ := ht.outside_of_free rfl
          exact ⟨fun h => Bool.eq_false_iff.1 hpop h.2, iff_of_true rfl (.inl rfl),
            ht.queueEmptyMutex_iff, ht.not_empty_of_passed, ht.not_empty_of_reading⟩
      | held => exact ht
  | testEmpty audioData =>
      dsimp only [pushStep]
      by_cases hnone : packetQueueIsEmpty queue = true
      · rw [if_pos hnone]
        exact blockingInvariant_release ((packetQueueIsEmpty_iff queue).1 hnone) ht
      · rw [if_neg hnone]
        have hne : queue.head ≠ queue.tail := (packetQueueIsEmpty_iff queue).not.1 hnone
        exact blockingInvariant_inside rfl rfl (ht.held_iff_inPair hne) hne ht
  | write audioData =>
      have hheld : queueEmptyMutex = .held ↔ popping.inPair = true :=
        ht.queueEmptyMutex_iff.trans (or_iff_left fun h => Bool.noConfusion h.2.1)
      exact blockingInvariant_inside rfl rfl hheld (pushData_head_ne_tail hsize queue audioData) ht
  | unlockQueue result =>
      have hpop := ht.popping_outside rfl
      refine ⟨nofun, iff_of_false nofun ?_, ht.queueEmptyMutex_iff, ht.not_empty_of_passed,
        ht.not_empty_of_reading⟩
      rintro (hpush | hinside)
      · cases hpush
      · exact Bool.eq_false_iff.1 hpop hinside

/-! ### Steps of the sending thread -/

/-- The test that follows a read, and the lock that it makes if the queue is empty. -/
theorem blockingInvariant_test {queue : PacketQueue σ size} {queueMutex queueEmptyMutex : Mutex}
    {pushing : PushPoint σ} {audioData : SvcAudioData σ}
    (ht : BlockingInvariant ⟨queue, queueMutex, queueEmptyMutex, pushing, .testEmpty audioData⟩) :
    BlockingInvariant (popStep
      ⟨queue, queueMutex, queueEmptyMutex, pushing, .testEmpty audioData⟩) := by
  have hreleased := PushPoint.released_of_not_inside (ht.pushing_outside rfl)
  -- `queue_empty_mutex` has been free since the pair of this pop
  have hnot : queueEmptyMutex ≠ .held := by
    rw [Ne, ht.queueEmptyMutex_iff]
    rintro (hpair | ⟨-, -, htested⟩)
    · cases hpair
    · cases htested
  dsimp only [popStep]
  by_cases hnone : packetQueueIsEmpty queue = true
  · have heq := (packetQueueIsEmpty_iff queue).1 hnone
    rw [if_pos hnone]
    cases queueEmptyMutex with
    | free =>
        exact ⟨ht.exclusive, ht.queueMutex_iff, iff_of_true rfl (.inr ⟨heq, hreleased, rfl⟩), nofun,
          nofun⟩
    | held => exact absurd rfl hnot
  · have hne : queue.head ≠ queue.tail := (packetQueueIsEmpty_iff queue).not.1 hnone
    rw [if_neg hnone]
    refine ⟨ht.exclusive, ht.queueMutex_iff, iff_of_false hnot ?_, nofun, nofun⟩
    rintro (hpair | ⟨heq, -, -⟩)
    · cases hpair
    · exact hne heq

theorem blockingInvariant_popStep {t : Threads σ size} (ht : BlockingInvariant t) :
    BlockingInvariant (popStep t) := by
  obtain ⟨queue, queueMutex, queueEmptyMutex, pushing, popping⟩ := t
  cases popping with
  | outside => exact ht
  | lockEmpty audioData =>
      cases queueEmptyMutex with
      | free =>
          have hpassed : pushing.released = false → queue.head ≠ queue.tail := fun hreleased heq =>
            Mutex.noConfusion (ht.queueEmptyMutex_iff.2 (.inr ⟨heq, hreleased, rfl⟩))
          exact ⟨ht.exclusive, ht.queueMutex_iff, iff_of_true rfl (.inl rfl), fun _ => hpassed,
            nofun⟩
      | held => exact ht
  | unlockEmpty audioData =>
      refine ⟨ht.exclusive, ht.queueMutex_iff, iff_of_false nofun ?_, ht.not_empty_of_passed, nofun⟩
      rintro (hpair | ⟨heq, hreleased, -⟩)
      · cases hpair
      · exact ht.not_empty_of_passed rfl hreleased heq
  | lockQueue audioData =>
      cases queueMutex with
      | free =>
          obtain ⟨hpush, -⟩ := ht.outside_of_free rfl
          have hne := ht.not_empty_of_passed rfl (PushPoint.released_of_not_inside hpush)
          exact ⟨fun h => Bool.eq_false_iff.1 hpush h.1, iff_of_true rfl (.inr rfl),
            ht.queueEmptyMutex_iff, nofun, fun _ => hne⟩
      | held => exact ht
  | read audioData =>
      have hnot : queueEmptyMutex ≠ .held :=
        (ht.held_iff_inPair (ht.not_empty_of_reading rfl)).not.2 nofun
      refine ⟨ht.exclusive, ht.queueMutex_iff, iff_of_false hnot ?_, nofun, nofun⟩
      rintro (hpair | ⟨-, -, htested⟩)
      · cases hpair
      · cases htested
  | testEmpty audioData => exact blockingInvariant_test ht
  | unlockQueue audioData =>
      have hpush := ht.pushing_outside rfl
      refine ⟨nofun, iff_of_false nofun ?_, ht.queueEmptyMutex_iff, nofun, nofun⟩
      rintro (hinside | hpop)
      · exact Bool.eq_false_iff.1 hpush hinside
      · cases hpop

theorem blockingInvariant_next (hsize : 2 ≤ size) {t : Threads σ size} (event : ThreadEvent σ)
    (ht : BlockingInvariant t) : BlockingInvariant ((threadsMachine σ size).next t event) := by
  cases event with
  | callPush audioData =>
      obtain ⟨queue, queueMutex, queueEmptyMutex, pushing, popping⟩ := t
      cases pushing with
      | outside =>
          exact ⟨ht.exclusive, ht.queueMutex_iff, ht.queueEmptyMutex_iff, ht.not_empty_of_passed,
            ht.not_empty_of_reading⟩
      | lockQueue | testEmpty | write | unlockQueue => exact ht
  | callPop audioData =>
      obtain ⟨queue, queueMutex, queueEmptyMutex, pushing, popping⟩ := t
      cases popping with
      | outside =>
          exact ⟨ht.exclusive, ht.queueMutex_iff, ht.queueEmptyMutex_iff, ht.not_empty_of_passed,
            ht.not_empty_of_reading⟩
      | lockEmpty | unlockEmpty | lockQueue | read | testEmpty | unlockQueue => exact ht
  | stepPush => exact blockingInvariant_pushStep hsize ht
  | stepPop => exact blockingInvariant_popStep ht

end Steps

/-! ## What follows from the invariant -/

theorem held_of_releases {t : Threads σ size} (ht : BlockingInvariant t) {event : ThreadEvent σ}
    (hrel : ReleasesEmptyMutex t event) : t.queueEmptyMutex = .held := by
  rw [ht.queueEmptyMutex_iff]
  cases event with
  | stepPush =>
      obtain ⟨audioData, hpushing, hnone⟩ := hrel
      have hpop : t.popping.inside = false := by
        simpa [hpushing, PushPoint.inside] using ht.exclusive
      exact .inr ⟨(packetQueueIsEmpty_iff _).1 hnone, by simp [hpushing, PushPoint.released],
        PopPoint.untested_of_not_inside hpop⟩
  | stepPop =>
      obtain ⟨audioData, hpopping⟩ := hrel
      exact .inl (by simp [hpopping, PopPoint.inPair])
  | _ => exact hrel.elim

theorem not_empty_of_enters {t : Threads σ size} (ht : BlockingInvariant t)
    (henters : EntersPop t) : t.queue.head ≠ t.queue.tail := by
  obtain ⟨⟨audioData, hpopping⟩, hfree⟩ := henters
  obtain ⟨hpush, -⟩ := ht.outside_of_free hfree
  exact ht.not_empty_of_passed (by simp [hpopping, PopPoint.passed])
    (PushPoint.released_of_not_inside hpush)

theorem free_of_locks_inside {t : Threads σ size} (ht : BlockingInvariant t)
    (hlocks : LocksEmptyMutexInside t) : t.queueEmptyMutex = .free := by
  obtain ⟨audioData, hpopping, -⟩ := hlocks
  have hnot : ¬ t.queueEmptyMutex = .held := by
    simp [ht.queueEmptyMutex_iff, hpopping, PopPoint.inPair, PopPoint.untested]
  cases hm : t.queueEmptyMutex with
  | free => rfl
  | held => exact absurd hm hnot

theorem held_iff_empty {t : Threads σ size} (ht : BlockingInvariant t)
    (hpush : t.pushing.inside = false) (hpop : t.popping.inside = false)
    (hpair : t.popping.inPair = false) :
    t.queueEmptyMutex = .held ↔ t.queue.head = t.queue.tail := by
  simp [ht.queueEmptyMutex_iff, hpair, PushPoint.released_of_not_inside hpush,
    PopPoint.untested_of_not_inside hpop]

theorem BlockingInvariant.protocol {t : Threads σ size} (ht : BlockingInvariant t) :
    BlockingProtocol t :=
  ⟨fun _ hrel => held_of_releases ht hrel, not_empty_of_enters ht, free_of_locks_inside ht,
    held_iff_empty ht⟩

/-- The protocol holds at every moment of every interleaving of pushes and pops. -/
theorem blockingProtocol {size : Nat} (hsize : 2 ≤ size) (uninit : Nat → Vector σ audioSize)
    (events : List (ThreadEvent σ)) :
    BlockingProtocol (threadsAfter (Nat.zero_lt_of_lt hsize) uninit events) :=
  ((threadsMachine σ size).invariant_run (fun _ event => blockingInvariant_next hsize event)
    events (blockingInvariant_create _ uninit)).protocol

/-- A pop that waits until a push releases it, on a queue of two slots. -/
theorem blockingProtocol_two_slots :
    BlockingProtocol (threadsAfter (by decide : 0 < 2) (fun _ => #v[0])
      [.callPop ⟨1, #v[7]⟩, .stepPop, .callPush ⟨1, #v[5]⟩, .stepPush, .stepPush, .stepPop]) :=
  blockingProtocol (by decide : 2 ≤ 2) (fun _ => #v[0]) _

end Svc.Libsvc
