import Svc.Libsvc.Outgoing.Sent
import Svc.Libsvc.PacketQueue.Accounting

/-!
# The queue is emptied

Left alone, the two threads never wait for each other: they take steps until the
recording thread is out of the queue and the sending thread waits for the next frame.
By then every recorded frame has been sent but the last, which stays behind in the queue.
-/

namespace Svc.Libsvc

open Svc.Lib

variable {σ ε : Type} {size frameSize : Nat}

/-! ## How far the threads are from the end -/

def PushPoint.toGo : PushPoint σ → Nat
  | .lockQueue _ => 13
  | .testEmpty _ => 12
  | .write _ => 11
  | .unlockQueue _ => 1
  | .outside => 0

def PopPoint.toGo : PopPoint σ → Nat
  | .testEmpty _ => 8
  | .unlockQueue _ => 7
  | .outside | .lockEmpty _ => 3
  | .unlockEmpty _ => 2
  | .lockQueue _ => 1
  | .read _ => 0

/-- A round of the sending thread has nine steps and takes one frame from the queue. -/
def Outgoing.toGo (s : Outgoing σ ε size) : Nat :=
  s.threads.pushing.toGo + 9 * Ring.dist s.threads.queue.head s.threads.queue.tail +
    match s.sending with
    | .create => 6
    | .send _ => 5
    | .test => 4
    | .pop => s.threads.popping.toGo
    | .returned => 0

def Outgoing.Waits (s : Outgoing σ ε size) : Prop :=
  s.sending = .pop ∧ (∃ audioData, s.threads.popping = .lockEmpty audioData) ∧
    s.threads.queue.head = s.threads.queue.tail

structure Outgoing.Runs (s : Outgoing σ ε size) : Prop where
  closing : s.closing = .notCalled
  running : s.svcRunning = true
  stays : s.sending ≠ .returned

def OutgoingEvent.Steps : OutgoingEvent σ → Prop
  | .stepCallback | .stepSend => True
  | .audioApiCallback _ | .stepClose => False

/-! ## One step -/

section Steps

variable {env : SendEnv σ ε} {s : Outgoing σ ε size}

theorem dist_push_le (queue : PacketQueue σ size) (audioData : SvcAudioData σ) :
    Ring.dist (packetQueuePushData queue audioData).1.head
        (packetQueuePushData queue audioData).1.tail ≤ Ring.dist queue.head queue.tail + 1 := by
  cases hfull : queue.isFull with
  | true =>
      rw [packetQueuePushData_of_isFull hfull]
      exact Nat.le_succ _
  | false =>
      rw [head_push, tail_push_of_not_isFull hfull,
        Ring.dist_offset_one (offset_tail_ne_head hfull)]

/-- A push goes on unless the sending thread has the queue. -/
theorem toGo_pushStep {t : Threads σ size} (ht : BlockingInvariant t)
    (hpush : t.pushing ≠ .outside) (hfree : t.popping.inside = false) :
    (pushStep t).popping = t.popping ∧
      (pushStep t).pushing.toGo + 9 * Ring.dist (pushStep t).queue.head (pushStep t).queue.tail <
        t.pushing.toGo + 9 * Ring.dist t.queue.head t.queue.tail := by
  obtain ⟨queue, queueMutex, queueEmptyMutex, pushing, popping⟩ := t
  cases pushing with
  | outside => exact absurd rfl hpush
  | lockQueue inputAudioData =>
      cases queueMutex with
      | free => exact ⟨rfl, by simp [pushStep, mutexLock, PushPoint.toGo]⟩
      | held =>
          have hheld := ht.queueMutex_iff.1 rfl
          rw [hfree] at hheld
          rcases hheld with hin | hin <;> cases hin
  | testEmpty inputAudioData =>
      simp only [pushStep]
      split <;> exact ⟨rfl, by simp [PushPoint.toGo]⟩
  | write inputAudioData =>
      have hdist := dist_push_le queue inputAudioData
      refine ⟨rfl, ?_⟩
      simp only [pushStep, PushPoint.toGo]
      omega
  | unlockQueue result => exact ⟨rfl, by simp [pushStep, PushPoint.toGo]⟩

/-- A pop goes on unless it waits for a frame, or for the queue. -/
theorem toGo_popStep {t : Threads σ size} (ht : BlockingInvariant t)
    (hcalled : t.popping.called = true) (hleaves : ∀ audioData, t.popping ≠ .unlockQueue audioData)
    (hwaits : ∀ audioData, t.popping = .lockEmpty audioData → t.queue.head ≠ t.queue.tail)
    (hpush : t.pushing = .outside ∨ t.popping.inside = true) :
    (popStep t).pushing = t.pushing ∧
      (popStep t).popping.toGo + 9 * Ring.dist (popStep t).queue.head (popStep t).queue.tail <
        t.popping.toGo + 9 * Ring.dist t.queue.head t.queue.tail := by
  obtain ⟨queue, queueMutex, queueEmptyMutex, pushing, popping⟩ := t
  cases popping with
  | outside => exact absurd hcalled Bool.false_ne_true
  | lockEmpty audioData =>
      have hheld := (ht.held_iff_inPair (hwaits audioData rfl)).not.2 nofun
      cases queueEmptyMutex with
      | free => exact ⟨rfl, by simp [popStep, mutexLock, PopPoint.toGo]⟩
      | held => exact absurd rfl hheld
  | unlockEmpty audioData => exact ⟨rfl, by simp [popStep, PopPoint.toGo]⟩
  | lockQueue audioData =>
      obtain rfl : pushing = .outside := hpush.resolve_right Bool.false_ne_true
      cases queueMutex with
      | free => exact ⟨rfl, by simp [popStep, mutexLock, PopPoint.toGo]⟩
      | held => exact absurd (ht.queueMutex_iff.1 rfl) (by rintro (hin | hin) <;> cases hin)
  | read audioData =>
      have hdist := Ring.dist_offset_one_left (ht.not_empty_of_reading rfl).symm
      refine ⟨rfl, ?_⟩
      simp only [popStep, packetQueuePopData, nextPointInQueue_eq, PopPoint.toGo]
      dsimp only at hdist
      omega
  | testEmpty audioData =>
      have hfree : packetQueueIsEmpty queue = true → queueEmptyMutex = .free := fun hnone =>
        ht.protocol.free_of_locks_inside ⟨audioData, rfl, hnone⟩
      simp only [popStep]
      split
      · rename_i hnone
        obtain rfl := hfree hnone
        exact ⟨rfl, by simp [mutexLock, PopPoint.toGo]⟩
      · exact ⟨rfl, by simp [PopPoint.toGo]⟩
  | unlockQueue audioData => exact absurd rfl (hleaves audioData)

theorem usesFreed_of_notCalled (hclosing : s.closing = .notCalled) : s.usesFreed = false := by
  rw [Outgoing.usesFreed, hclosing]
  cases s.sending <;> rfl

/-- The recording thread takes a step unless the sending thread has the queue. -/
theorem toGo_stepCallback (h : s.Ok frameSize) (hpush : s.threads.pushing ≠ .outside)
    (hfree : s.threads.popping.inside = false) :
    ((outgoingMachine env size).next s .stepCallback).toGo < s.toGo := by
  obtain ⟨hpopping, hlt⟩ := toGo_pushStep h.blocking hpush hfree
  show Outgoing.toGo { s with threads := pushStep s.threads } < s.toGo
  simp only [Outgoing.toGo, hpopping]
  exact Nat.add_lt_add_right hlt _

/-- The sending thread takes a step unless it waits for a frame, or for the queue. -/
theorem toGo_stepSend (h : s.Ok frameSize) (hlive : s.usesFreed = false)
    (hrun : s.sending = .test → s.svcRunning = true)
    (hwaits : ¬ s.Waits) (hstay : s.sending ≠ .returned)
    (hpush : s.threads.pushing = .outside ∨ s.threads.popping.inside = true) :
    ((outgoingMachine env size).next s .stepSend).toGo < s.toGo := by
  rw [next_stepSend_of_not_usesFreed hlive]
  cases hsending : s.sending with
  | test =>
      have hout := h.outside (by rw [hsending]; nofun)
      simp [sendStep, hsending, hrun hsending, Outgoing.toGo, Machine.next, threadsMachine, hout,
        PopPoint.toGo]
  | pop =>
      by_cases hleaves : ∃ audioData, s.threads.popping = .unlockQueue audioData
      · obtain ⟨audioData, hframe⟩ := hleaves
        simp [sendStep, hsending, hframe, Outgoing.toGo, popStep, PopPoint.toGo]
      · have hstays : ∀ audioData, s.threads.popping ≠ .unlockQueue audioData :=
          fun audioData heq => hleaves ⟨audioData, heq⟩
        obtain ⟨hpushing, hlt⟩ := toGo_popStep h.blocking (h.inside hsending) hstays
          (fun audioData hlock heq => hwaits ⟨hsending, ⟨audioData, hlock⟩, heq⟩) hpush
        have hstep : sendStep env s = { s with threads := popStep s.threads } := by
          simp only [sendStep, hsending]
        simp only [hstep, Outgoing.toGo, hsending, hpushing]
        omega
  | create => simp [sendStep, hsending, Outgoing.toGo]
  | send packet => simp [sendStep, hsending, Outgoing.toGo]
  | returned => exact absurd hsending hstay

theorem not_waits_of_inside (h : s.threads.popping.inside = true) : ¬ s.Waits := by
  rintro ⟨-, ⟨audioData, hlock⟩, -⟩
  rw [hlock] at h
  cases h

/-- While one of the threads has something to do, one of them takes a step. -/
theorem toGo_step (env : SendEnv σ ε) (h : s.Ok frameSize) (hruns : s.Runs)
    (hends : ¬ (s.threads.pushing = .outside ∧ s.Waits)) :
    ∃ event : OutgoingEvent σ, event.Steps ∧
      ((outgoingMachine env size).next s event).toGo < s.toGo := by
  obtain ⟨hclosing, hrun, hstay⟩ := hruns
  have hlive := usesFreed_of_notCalled hclosing
  cases hinside : s.threads.popping.inside with
  | true =>
      have hwaits := not_waits_of_inside hinside
      exact ⟨.stepSend, trivial,
        toGo_stepSend h hlive (fun _ => hrun) hwaits hstay (.inr hinside)⟩
  | false =>
      by_cases hpush : s.threads.pushing = .outside
      · exact ⟨.stepSend, trivial, toGo_stepSend h hlive (fun _ => hrun)
          (fun hwaits => hends ⟨hpush, hwaits⟩) hstay (.inl hpush)⟩
      · exact ⟨.stepCallback, trivial, toGo_stepCallback h hpush hinside⟩

/-- The sending thread runs on while `svc_close` is not called. -/
theorem runs_next (event : OutgoingEvent σ) (hclose : event ≠ .stepClose) (h : s.Runs) :
    ((outgoingMachine env size).next s event).Runs := by
  cases event with
  | audioApiCallback inputAudioData =>
      show Outgoing.Runs (if s.audioOpen then _ else s)
      split
      · exact ⟨h.closing, h.running, h.stays⟩
      · exact h
  | stepCallback => exact ⟨h.closing, h.running, h.stays⟩
  | stepSend =>
      rw [next_stepSend_of_not_usesFreed (usesFreed_of_notCalled h.closing)]
      unfold sendStep
      split
      · rw [if_pos h.running]
        exact ⟨h.closing, h.running, nofun⟩
      · split
        · exact ⟨h.closing, h.running, nofun⟩
        · exact ⟨h.closing, h.running, h.stays⟩
      · exact ⟨h.closing, h.running, nofun⟩
      · exact ⟨h.closing, h.running, nofun⟩
      · exact h
  | stepClose => exact absurd rfl hclose

end Steps

/-! ## Runs -/

section Runs

variable (l : SendStart σ ε size) {events : List (OutgoingEvent σ)}

theorem runs_outgoingAfter (hclose : ∀ event ∈ events, event ≠ .stepClose) :
    (outgoingAfter l events).Runs :=
  (outgoingMachine l.env size).invariant_run_of_guarded (I := Outgoing.Runs)
    (G := fun _ event => event ≠ .stepClose)
    (fun _ event h hevent => runs_next event hevent h) ⟨rfl, rfl, nofun⟩
    ((outgoingMachine l.env size).guarded_of_forall hclose _)

theorem OutgoingEvent.Steps.sized {event : OutgoingEvent σ} (h : event.Steps) :
    event.Sized frameSize := by
  cases event with
  | audioApiCallback inputAudioData => exact h.elim
  | stepCallback | stepSend | stepClose => trivial

theorem OutgoingEvent.Steps.ne_stepClose {event : OutgoingEvent σ} (h : event.Steps) :
    event ≠ .stepClose := by
  rintro rfl
  exact h

/-- When the sending thread waits, one frame is left. -/
theorem length_waiting {s : Outgoing σ ε size} (hwaits : s.Waits) :
    s.waiting.length = 1 ∧ s.pending = [] := by
  obtain ⟨hpop, ⟨audioData, hlock⟩, heq⟩ := hwaits
  have hdist := Ring.dist_eq_zero.2 heq.symm
  simp only [Outgoing.waiting, Outgoing.pending, hpop, hlock, PopPoint.inHand, PacketQueue.held,
    hdist]
  exact ⟨rfl, trivial⟩

/-- From every state that is reached before `svc_close` is called, some steps of the two
threads lead to one in which the recording thread is out of the queue, the sending thread
waits for a frame, and the callback has been given the packets of all frames but the last. -/
theorem drains (l : SendStart σ ε size) (events : List (OutgoingEvent σ))
    (hevents : ∀ event ∈ events, event.Sized l.frameSize)
    (hclose : ∀ event ∈ events, event ≠ .stepClose) :
    ∃ steps : List (OutgoingEvent σ), (∀ event ∈ steps, event.Steps) ∧
      (outgoingAfter l (events ++ steps)).threads.pushing = .outside ∧
      (outgoingAfter l (events ++ steps)).Waits ∧
      (outgoingAfter l (events ++ steps)).sent = (packetMachine l.env).outputs l.packetizer
        (l.firstFrame :: recordedFrames l (events ++ steps)).dropLast := by
  have hstep : ∀ s : Outgoing σ ε size,
      (s.Ok l.frameSize ∧ s.Runs) → ¬ (s.threads.pushing = .outside ∧ s.Waits) →
      ∃ event : OutgoingEvent σ, event.Steps ∧
        (((outgoingMachine l.env size).next s event).Ok l.frameSize ∧
          ((outgoingMachine l.env size).next s event).Runs) ∧
        ((outgoingMachine l.env size).next s event).toGo < s.toGo := by
    rintro s ⟨hok, hruns⟩ hends
    obtain ⟨event, hevent, hlt⟩ := toGo_step l.env hok hruns hends
    exact ⟨event, hevent, ⟨(outgoing_next l.two_le event hok hevent.sized).1,
      runs_next event hevent.ne_stepClose hruns⟩, hlt⟩
  obtain ⟨steps, hsteps, -, hpush, hwaits⟩ := (outgoingMachine l.env size).exists_run_of_measure
    Outgoing.toGo hstep ⟨ok_outgoingAfter l hevents, runs_outgoingAfter l hclose⟩
  have hrun : outgoingAfter l (events ++ steps) =
      (outgoingMachine l.env size).run (outgoingAfter l events) steps := Machine.run_append _ _ _ _
  have hall : ∀ event ∈ events ++ steps, event.Sized l.frameSize := by
    intro event hevent
    rcases List.mem_append.1 hevent with hevent | hevent
    · exact hevents event hevent
    · exact (hsteps event hevent).sized
  rw [← hrun] at hpush hwaits
  refine ⟨steps, hsteps, hpush, hwaits, ?_⟩
  obtain ⟨hlength, hpending⟩ := length_waiting hwaits
  obtain ⟨frame, hframe⟩ := List.length_eq_one_iff.1 hlength
  have hframes := encodedFrames_append_waiting l hall
  have hpackets := sent_append_pending l (events ++ steps)
  rw [hpending, List.append_nil] at hpackets
  rw [hframe] at hframes
  rw [hpackets, ← hframes, List.dropLast_concat]

/-- One frame is recorded, and the uninitialised one is sent in its place. -/
theorem drains_two_slots :
    ∃ steps : List (OutgoingEvent Nat), (∀ event ∈ steps, event.Steps) ∧
      (outgoingAfter countingStart ([.audioApiCallback ⟨1, #v[5]⟩] ++ steps)).threads.pushing =
        .outside ∧
      (outgoingAfter countingStart ([.audioApiCallback ⟨1, #v[5]⟩] ++ steps)).Waits ∧
      (outgoingAfter countingStart ([.audioApiCallback ⟨1, #v[5]⟩] ++ steps)).sent =
        (packetMachine countingEnv).outputs countingStart.packetizer
          (⟨1, #v[0]⟩ ::
            recordedFrames countingStart ([.audioApiCallback ⟨1, #v[5]⟩] ++ steps)).dropLast :=
  drains countingStart [.audioApiCallback ⟨1, #v[5]⟩] (by decide)
    (by simp)

end Runs

end Svc.Libsvc
