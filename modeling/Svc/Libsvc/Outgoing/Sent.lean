import Mathlib.Data.List.Infix
import Svc.Libsvc.Outgoing

/-!
# What is sent, in order

The frames that were encoded, the one in the hands of the sending thread and the ones
in the queue are, in every interleaving, the uninitialised frame of the queue and the
frames recorded while the queue had a free slot.  The packets are what the encoder
makes of them, numbered from 1 on.
-/

namespace Svc.Libsvc

open Svc.Lib

variable {σ ε : Type} {size frameSize : Nat}

/-! ## The frames of the threads -/

def PushPoint.frame : PushPoint σ → Option (SvcAudioData σ)
  | .lockQueue audioData | .testEmpty audioData | .write audioData => some audioData
  | .outside | .unlockQueue _ => none

def PopPoint.frame : PopPoint σ → Option (SvcAudioData σ)
  | .outside => none
  | .lockEmpty audioData | .unlockEmpty audioData | .lockQueue audioData | .read audioData
  | .testEmpty audioData | .unlockQueue audioData => some audioData

def PopPoint.inHand : PopPoint σ → List (SvcAudioData σ)
  | .testEmpty audioData | .unlockQueue audioData => [audioData]
  | .outside | .lockEmpty _ | .unlockEmpty _ | .lockQueue _ | .read _ => []

def PopPoint.called : PopPoint σ → Bool
  | .outside => false
  | .lockEmpty _ | .unlockEmpty _ | .lockQueue _ | .read _ | .testEmpty _ | .unlockQueue _ => true

def admittedByStep (t : Threads σ size) : List (SvcAudioData σ) :=
  match t.pushing with
  | .write audioData => admittedBy t.queue (.pushData audioData)
  | _ => []

structure Threads.Sized (frameSize : Nat) (t : Threads σ size) : Prop where
  queue : t.queue.Sized frameSize
  pushing : ∀ audioData ∈ t.pushing.frame, audioData.size = frameSize
  popping : ∀ audioData ∈ t.popping.frame, audioData.size = frameSize

section Threads

variable {t : Threads σ size}

theorem Threads.sized_create (hsize : 0 < size) (uninit : Nat → Vector σ frameSize) :
    (threadsCreate size hsize uninit).Sized frameSize :=
  ⟨Svc.Libsvc.sized_create, nofun, nofun⟩

/-- A push admits its frame and a step before or after it changes no frame. -/
theorem pushStep_held (h : t.Sized frameSize) :
    (pushStep t).Sized frameSize ∧ (pushStep t).popping = t.popping ∧
      (pushStep t).queue.held = t.queue.held ++ admittedByStep t := by
  obtain ⟨queue, queueMutex, queueEmptyMutex, pushing, popping⟩ := t
  cases pushing with
  | outside => exact ⟨h, rfl, (List.append_nil _).symm⟩
  | lockQueue audioData =>
      cases queueMutex with
      | free => exact ⟨⟨h.queue, h.pushing, h.popping⟩, rfl, (List.append_nil _).symm⟩
      | held => exact ⟨h, rfl, (List.append_nil _).symm⟩
  | testEmpty audioData =>
      simp only [pushStep]
      split
      all_goals exact ⟨⟨h.queue, h.pushing, h.popping⟩, rfl, (List.append_nil _).symm⟩
  | write audioData =>
      have hframe := h.pushing audioData rfl
      exact ⟨⟨sized_push h.queue hframe, nofun, h.popping⟩, rfl, held_push h.queue hframe⟩
  | unlockQueue result => exact ⟨⟨h.queue, nofun, h.popping⟩, rfl, (List.append_nil _).symm⟩

theorem callPush_sized {inputAudioData : SvcAudioData σ} (h : t.Sized frameSize)
    (hsize : inputAudioData.size = frameSize) :
    ((threadsMachine σ size).next t (.callPush inputAudioData)).Sized frameSize ∧
      ((threadsMachine σ size).next t (.callPush inputAudioData)).popping = t.popping ∧
      ((threadsMachine σ size).next t (.callPush inputAudioData)).queue = t.queue := by
  obtain ⟨queue, queueMutex, queueEmptyMutex, pushing, popping⟩ := t
  cases pushing with
  | outside =>
      refine ⟨⟨h.queue, ?_, h.popping⟩, rfl, rfl⟩
      rintro _ ⟨⟩
      exact hsize
  | lockQueue | testEmpty | write | unlockQueue => exact ⟨h, rfl, rfl⟩

/-- A pop takes the first frame of the queue in hand and, at its end, gives it to the caller. -/
theorem popStep_held (h : t.Sized frameSize) (ht : BlockingInvariant t)
    (hleaves : ∀ audioData, t.popping ≠ .unlockQueue audioData) :
    (popStep t).Sized frameSize ∧ (t.popping.called = true → (popStep t).popping.called = true) ∧
      (popStep t).popping.inHand ++ (popStep t).queue.held = t.popping.inHand ++ t.queue.held := by
  obtain ⟨queue, queueMutex, queueEmptyMutex, pushing, popping⟩ := t
  cases popping with
  | outside => exact ⟨h, id, rfl⟩
  | lockEmpty audioData =>
      cases queueEmptyMutex with
      | free => exact ⟨⟨h.queue, h.pushing, h.popping⟩, fun _ => rfl, rfl⟩
      | held => exact ⟨h, id, rfl⟩
  | unlockEmpty audioData => exact ⟨⟨h.queue, h.pushing, h.popping⟩, fun _ => rfl, rfl⟩
  | lockQueue audioData =>
      cases queueMutex with
      | free => exact ⟨⟨h.queue, h.pushing, h.popping⟩, fun _ => rfl, rfl⟩
      | held => exact ⟨h, id, rfl⟩
  | read audioData =>
      have hframe := h.popping audioData rfl
      have hcopy := svcAudioDataCopy_of_size_eq (hframe.trans (h.queue queue.head).symm)
      refine ⟨⟨h.queue, h.pushing, ?_⟩, fun _ => rfl,
        held_pop h.queue hframe (ht.not_empty_of_reading rfl)⟩
      rintro _ ⟨⟩
      rw [packetQueuePopData, hcopy]
      exact h.queue queue.head
  | testEmpty audioData =>
      simp only [popStep]
      split
      · cases queueEmptyMutex with
        | free => exact ⟨⟨h.queue, h.pushing, h.popping⟩, fun _ => rfl, rfl⟩
        | held => exact ⟨h, id, rfl⟩
      · exact ⟨⟨h.queue, h.pushing, h.popping⟩, fun _ => rfl, rfl⟩
  | unlockQueue audioData => exact absurd rfl (hleaves audioData)

end Threads

/-! ## The frames of the program -/

/-- The frames on their way: the one in the hands of the sending thread and the queue's. -/
def Outgoing.waiting (s : Outgoing σ ε size) : List (SvcAudioData σ) :=
  (match s.sending with
    | .create => [s.audioData]
    | _ => s.threads.popping.inHand) ++ s.threads.queue.held

/-- The packet that has been made and not yet given to the callback. -/
def Outgoing.pending (s : Outgoing σ ε size) : List SvcNetworkPacket :=
  match s.sending with
  | .send packet => [packet]
  | _ => []

def recordedBy (s : Outgoing σ ε size) : OutgoingEvent σ → List (SvcAudioData σ)
  | .stepCallback => admittedByStep s.threads
  | .audioApiCallback _ | .stepSend | .stepClose => []

/-- The frame that a step encodes, with an encoder that is there. -/
def encodedBy (s : Outgoing σ ε size) : OutgoingEvent σ → List (SvcAudioData σ)
  | .stepSend =>
      match s.sending with
      | .create => if s.closing.encoderFreed then [] else [s.audioData]
      | _ => []
  | .audioApiCallback _ | .stepCallback | .stepClose => []

/-- The audio system calls back with frames of the size it was initialised with. -/
def OutgoingEvent.Sized (frameSize : Nat) : OutgoingEvent σ → Prop
  | .audioApiCallback inputAudioData => inputAudioData.size = frameSize
  | .stepCallback | .stepSend | .stepClose => True

instance (frameSize : Nat) : (event : OutgoingEvent σ) → Decidable (event.Sized frameSize)
  | .audioApiCallback inputAudioData =>
      inferInstanceAs (Decidable (inputAudioData.size = frameSize))
  | .stepCallback | .stepSend | .stepClose => .isTrue trivial

structure Outgoing.Ok (frameSize : Nat) (s : Outgoing σ ε size) : Prop where
  blocking : BlockingInvariant s.threads
  sized : s.threads.Sized frameSize
  audioData : s.audioData.size = frameSize
  /-- the sending thread is in the queue exactly while it pops -/
  outside : s.sending ≠ .pop → s.threads.popping = .outside
  inside : s.sending = .pop → s.threads.popping.called = true

section Steps

variable {env : SendEnv σ ε} {s : Outgoing σ ε size}

theorem next_stepSend : (outgoingMachine env size).next s .stepSend =
    if s.usesFreed then { s with fault := true } else sendStep env s := rfl

theorem next_stepSend_of_not_usesFreed (hlive : s.usesFreed = false) :
    (outgoingMachine env size).next s .stepSend = sendStep env s := by
  rw [next_stepSend, hlive]
  exact if_neg Bool.false_ne_true

theorem encodedBy_of_usesFreed (hfreed : s.usesFreed = true) : encodedBy s .stepSend = [] := by
  rw [Outgoing.usesFreed] at hfreed
  rw [encodedBy]
  cases hsending : s.sending with
  | create =>
      rw [hsending] at hfreed
      exact if_pos hfreed
  | pop | test | send | returned => rfl

theorem Outgoing.Ok.inHand (h : s.Ok frameSize) (hpop : s.sending ≠ .pop) :
    s.threads.popping.inHand = [] := by
  rw [h.outside hpop]
  rfl

theorem ok_init (env : SendEnv σ ε) (hsize : 0 < size) (svcEncoder : ε)
    (uninit : Nat → Vector σ env.options.frameSize) (uninitFrame : Vector σ env.options.frameSize) :
    (svcInit env size hsize svcEncoder uninit uninitFrame).Ok env.options.frameSize :=
  ⟨blockingInvariant_create hsize uninit, Threads.sized_create hsize uninit, rfl, fun _ => rfl,
    nofun⟩

/-- A pop leaves the frame in the hands of the sending thread. -/
theorem sendStep_pop_ok {threads : Threads σ size} {packetizer : Packetizer ε} {svcRunning : Bool}
    {audioData : SvcAudioData σ} {closing : ClosePoint} {sent : List SvcNetworkPacket}
    {fault : Bool}
    (h : Outgoing.Ok frameSize
      ⟨threads, packetizer, svcRunning, audioData, .pop, closing, sent, fault⟩) :
    let s : Outgoing σ ε size :=
      ⟨threads, packetizer, svcRunning, audioData, .pop, closing, sent, fault⟩
    (sendStep env s).Ok frameSize ∧ (sendStep env s).waiting = s.waiting := by
  have hblocking := blockingInvariant_popStep h.blocking
  by_cases hleaves : ∃ audioData, threads.popping = .unlockQueue audioData
  · obtain ⟨frame, hframe⟩ := hleaves
    have hstep : popStep threads =
        { threads with queueMutex := mutexUnlock threads.queueMutex, popping := .outside } := by
      simp only [popStep, hframe]
    have hsize : frame.size = frameSize := h.sized.popping frame (by rw [hframe]; rfl)
    simp only [sendStep, hframe, Outgoing.waiting]
    refine ⟨⟨hblocking, ?_, hsize, fun _ => by rw [hstep], nofun⟩, by rw [hstep]; rfl⟩
    rw [hstep]
    exact ⟨h.sized.queue, h.sized.pushing, nofun⟩
  · have hstays : ∀ audioData, threads.popping ≠ .unlockQueue audioData :=
      fun audioData heq => hleaves ⟨audioData, heq⟩
    obtain ⟨hsized, hinside, hheld⟩ := popStep_held h.sized h.blocking hstays
    have hstep : sendStep env
        ⟨threads, packetizer, svcRunning, audioData, .pop, closing, sent, fault⟩ =
          ⟨popStep threads, packetizer, svcRunning, audioData, .pop, closing, sent, fault⟩ := by
      simp only [sendStep]
    simp only [hstep]
    exact ⟨⟨hblocking, hsized, h.audioData, fun hpop => absurd rfl hpop,
      fun _ => hinside (h.inside rfl)⟩, hheld⟩

/-- A step of the sending thread keeps the invariant, and the frame that it encodes is the
first of those on their way. -/
theorem sendStep_ok (hsize : 2 ≤ size) (h : s.Ok frameSize) (hlive : s.usesFreed = false) :
    (sendStep env s).Ok frameSize ∧
      encodedBy s .stepSend ++ (sendStep env s).waiting = s.waiting := by
  obtain ⟨threads, packetizer, svcRunning, audioData, sending, closing, sent, fault⟩ := s
  cases sending with
  | test =>
      have hout : threads.popping = .outside := h.outside nofun
      cases svcRunning with
      | true =>
          have hcall : (threadsMachine σ size).next threads (.callPop audioData) =
              { threads with popping := .lockEmpty audioData } := by
            simp only [Machine.next, threadsMachine, hout]
          have hblocking := blockingInvariant_next hsize (.callPop audioData) h.blocking
          rw [hcall] at hblocking
          simp only [sendStep, hcall, if_true]
          refine ⟨⟨hblocking, ⟨h.sized.queue, h.sized.pushing, ?_⟩, h.audioData,
            fun hpop => absurd rfl hpop, fun _ => rfl⟩, ?_⟩
          · rintro _ ⟨⟩
            exact h.audioData
          · simp only [encodedBy, Outgoing.waiting, hout]
            rfl
      | false => exact ⟨⟨h.blocking, h.sized, h.audioData, fun _ => hout, nofun⟩, rfl⟩
  | pop => exact sendStep_pop_ok h
  | create =>
      have hout : threads.popping = .outside := h.outside nofun
      have hencoder : closing.encoderFreed = false := hlive
      refine ⟨⟨h.blocking, h.sized, h.audioData, fun _ => hout, nofun⟩, ?_⟩
      simp only [encodedBy, hencoder, Outgoing.waiting, sendStep, hout]
      rfl
  | send packet =>
      exact ⟨⟨h.blocking, h.sized, h.audioData, fun _ => h.outside nofun, nofun⟩, rfl⟩
  | returned => exact ⟨h, rfl⟩

/-- `svc_close` changes nothing else that is modelled. -/
theorem next_stepClose (env : SendEnv σ ε) (s : Outgoing σ ε size) :
    ∃ svcRunning closing, (outgoingMachine env size).next s .stepClose =
      { s with svcRunning, closing } := by
  show ∃ svcRunning closing, closeStep s = _
  unfold closeStep
  split
  · exact ⟨_, _, rfl⟩
  · split <;> exact ⟨_, _, rfl⟩
  all_goals exact ⟨_, _, rfl⟩

/-- Every step keeps the invariant; what it encodes leaves the frames on their way at the
front, and what it records enters them at the end. -/
theorem outgoing_next (hsize : 2 ≤ size) (event : OutgoingEvent σ) (h : s.Ok frameSize)
    (hevent : event.Sized frameSize) :
    ((outgoingMachine env size).next s event).Ok frameSize ∧
      encodedBy s event ++ ((outgoingMachine env size).next s event).waiting =
        s.waiting ++ recordedBy s event := by
  cases event with
  | audioApiCallback inputAudioData =>
      have hstep : (outgoingMachine env size).next s (.audioApiCallback inputAudioData) =
          if s.audioOpen then
            { s with threads := (threadsMachine σ size).next s.threads (.callPush inputAudioData) }
          else s := rfl
      rw [hstep]
      split
      · obtain ⟨hsized, hpopping, hqueue⟩ := callPush_sized h.sized hevent
        refine ⟨⟨blockingInvariant_next hsize _ h.blocking, hsized, h.audioData,
          fun hpop => hpopping.trans (h.outside hpop), fun hpop => hpopping ▸ h.inside hpop⟩, ?_⟩
        simp only [encodedBy, recordedBy, Outgoing.waiting, hpopping, hqueue, List.append_nil]
        rfl
      · exact ⟨h, (List.append_nil _).symm⟩
  | stepCallback =>
      obtain ⟨hsized, hpopping, hheld⟩ := pushStep_held h.sized
      have hblocking := blockingInvariant_pushStep hsize h.blocking
      refine ⟨⟨hblocking, hsized, h.audioData, fun hpop => hpopping.trans (h.outside hpop),
        fun hpop => hpopping ▸ h.inside hpop⟩, ?_⟩
      show (Outgoing.waiting { s with threads := pushStep s.threads }) = _
      simp only [Outgoing.waiting, hheld, hpopping, recordedBy, List.append_assoc]
  | stepSend =>
      rw [recordedBy, List.append_nil]
      cases hfreed : s.usesFreed with
      | true =>
          rw [next_stepSend, hfreed, encodedBy_of_usesFreed hfreed]
          exact ⟨⟨h.blocking, h.sized, h.audioData, h.outside, h.inside⟩, rfl⟩
      | false =>
          rw [next_stepSend_of_not_usesFreed hfreed]
          exact sendStep_ok hsize h hfreed
  | stepClose =>
      obtain ⟨svcRunning, closing, hstep⟩ := next_stepClose env s
      rw [hstep]
      exact ⟨⟨h.blocking, h.sized, h.audioData, h.outside, h.inside⟩, (List.append_nil _).symm⟩

end Steps

/-! ## The packets of the frames -/

section Packets

variable (env : SendEnv σ ε)

/-- What the callback was given stays given. -/
theorem sent_before_next (s : Outgoing σ ε size) (event : OutgoingEvent σ) :
    s.sent <+: ((outgoingMachine env size).next s event).sent := by
  cases event with
  | audioApiCallback inputAudioData =>
      show s.sent <+: (if s.audioOpen then _ else s).sent
      split <;> exact List.prefix_refl _
  | stepCallback => exact List.prefix_refl _
  | stepSend =>
      rw [next_stepSend]
      split
      · exact List.prefix_refl _
      · unfold sendStep
        split
        · split <;> exact List.prefix_refl _
        · split <;> exact List.prefix_refl _
        · exact List.prefix_refl _
        · exact List.prefix_append _ _
        · exact List.prefix_refl _
  | stepClose =>
      obtain ⟨svcRunning, closing, hstep⟩ := next_stepClose env s
      rw [hstep]

/-- What was made so far are the packets of `frames`. -/
structure Outgoing.Made (c : Packetizer ε) (frames : List (SvcAudioData σ))
    (s : Outgoing σ ε size) : Prop where
  packetizer : s.packetizer = (packetMachine env).run c frames
  packets : s.sent ++ s.pending = (packetMachine env).outputs c frames

variable {env} {s : Outgoing σ ε size} {c : Packetizer ε} {frames : List (SvcAudioData σ)}

theorem made_sendStep (h : s.Made env c frames) (hlive : s.usesFreed = false) :
    (sendStep env s).Made env c (frames ++ encodedBy s .stepSend) := by
  obtain ⟨threads, packetizer, svcRunning, audioData, sending, closing, sent, fault⟩ := s
  obtain ⟨hpacketizer, hpackets⟩ := h
  cases sending with
  | test =>
      rw [encodedBy, List.append_nil]
      cases svcRunning with
      | true => exact ⟨hpacketizer, hpackets⟩
      | false => exact ⟨hpacketizer, hpackets⟩
  | pop =>
      rw [encodedBy, List.append_nil]
      unfold sendStep
      dsimp only
      split <;> exact ⟨hpacketizer, hpackets⟩
  | create =>
      have hpacketizer : packetizer = (packetMachine env).run c frames := hpacketizer
      have hpackets : sent ++ [] = (packetMachine env).outputs c frames := hpackets
      rw [List.append_nil] at hpackets
      have hencoder : closing.encoderFreed = false := hlive
      simp only [encodedBy, hencoder, Bool.false_eq_true, if_false]
      constructor
      · rw [Machine.run_concat, ← hpacketizer]
        rfl
      · rw [Machine.outputs_concat, ← hpackets, ← hpacketizer]
        rfl
  | send packet =>
      rw [encodedBy, List.append_nil]
      exact ⟨hpacketizer, (List.append_nil _).trans hpackets⟩
  | returned =>
      rw [encodedBy, List.append_nil]
      exact ⟨hpacketizer, hpackets⟩

theorem made_next (event : OutgoingEvent σ) (h : s.Made env c frames) :
    ((outgoingMachine env size).next s event).Made env c (frames ++ encodedBy s event) := by
  cases event with
  | audioApiCallback inputAudioData =>
      rw [encodedBy, List.append_nil]
      show Outgoing.Made env c frames (if s.audioOpen then _ else _)
      split
      · exact ⟨h.packetizer, h.packets⟩
      · exact h
  | stepCallback =>
      rw [encodedBy, List.append_nil]
      exact ⟨h.packetizer, h.packets⟩
  | stepSend =>
      cases hfreed : s.usesFreed with
      | true =>
          rw [next_stepSend, hfreed, encodedBy_of_usesFreed hfreed, List.append_nil]
          exact ⟨h.packetizer, h.packets⟩
      | false =>
          rw [next_stepSend_of_not_usesFreed hfreed]
          exact made_sendStep h hfreed
  | stepClose =>
      rw [encodedBy, List.append_nil]
      obtain ⟨svcRunning, closing, hstep⟩ := next_stepClose env s
      rw [hstep]
      exact ⟨h.packetizer, h.packets⟩

theorem made_run (events : List (OutgoingEvent σ)) (h : s.Made env c frames) :
    ((outgoingMachine env size).run s events).Made env c
      (frames ++ (outgoingMachine env size).collect encodedBy s events) := by
  induction events generalizing s frames with
  | nil =>
      rw [Machine.collect_nil, List.append_nil]
      exact h
  | cons event events ih =>
      rw [Machine.collect_cons, ← List.append_assoc]
      exact ih (made_next event h)

/-- The packets of some frames are the first packets of more frames. -/
theorem outputs_first {frames frames' : List (SvcAudioData σ)} (h : frames <+: frames') :
    (packetMachine env).outputs c frames <+: (packetMachine env).outputs c frames' := by
  obtain ⟨rest, rfl⟩ := h
  rw [Machine.outputs_append]
  exact List.prefix_append _ _

/-- The `n`-th packet is numbered `n`, counting from 1 modulo `65536`, and has the length
that the options give. -/
theorem outputs_numbered (frames : List (SvcAudioData σ)) (c : Packetizer ε) {n : Nat}
    {packet : SvcNetworkPacket} (h : ((packetMachine env).outputs c frames)[n]? = some packet) :
    packet.time = timeIncBy c.svcTime (n + 1) ∧ packet.dataLen = env.options.bytePerPacket := by
  induction frames generalizing c n with
  | nil => cases h
  | cons frame frames ih =>
      cases n with
      | zero =>
          obtain rfl := Option.some.inj h
          exact ⟨timeInc_eq_timeIncBy c.svcTime, rfl⟩
      | succ n =>
          obtain ⟨htime, hlen⟩ := ih ((packetMachine env).next c frame) h
          refine ⟨?_, hlen⟩
          have hnext : ((packetMachine env).next c frame).svcTime = timeIncBy c.svcTime 1 :=
            timeInc_eq_timeIncBy c.svcTime
          rw [htime, hnext, timeIncBy_timeIncBy]
          exact timeIncBy_congr _ (by omega)

end Packets

/-! ## Runs -/

section Runs

variable (l : SendStart σ ε size) (events : List (OutgoingEvent σ))

def outgoingAfter : Outgoing σ ε size := (outgoingMachine l.env size).run l.outgoing events

/-- The frames that were recorded while the queue had a free slot. -/
def recordedFrames : List (SvcAudioData σ) :=
  (outgoingMachine l.env size).collect recordedBy l.outgoing events

def encodedFrames : List (SvcAudioData σ) :=
  (outgoingMachine l.env size).collect encodedBy l.outgoing events

theorem sent_before_append (later : List (OutgoingEvent σ)) :
    (outgoingAfter l events).sent <+: (outgoingAfter l (events ++ later)).sent := by
  induction later using List.reverseRecOn with
  | nil => rw [List.append_nil]
  | append_singleton later event ih =>
      rw [← List.append_assoc, outgoingAfter, outgoingAfter, Machine.run_concat]
      exact ih.trans (sent_before_next l.env _ event)

variable {events}

theorem ok_outgoingAfter (hevents : ∀ event ∈ events, event.Sized l.frameSize) :
    (outgoingAfter l events).Ok l.frameSize :=
  (outgoingMachine l.env size).invariant_run_of_guarded (I := Outgoing.Ok l.frameSize)
    (G := fun _ event => event.Sized l.frameSize)
    (fun _ event h hevent => (outgoing_next l.two_le event h hevent).1) (ok_init l.env _ _ _ _)
    ((outgoingMachine l.env size).guarded_of_forall hevents _)

/-- No frame is lost, repeated or overtaken between the queue and the encoder. -/
theorem encodedFrames_append_waiting (hevents : ∀ event ∈ events, event.Sized l.frameSize) :
    encodedFrames l events ++ (outgoingAfter l events).waiting =
      l.firstFrame :: recordedFrames l events := by
  have hall := (outgoingMachine l.env size).collect_leaves_append (I := Outgoing.Ok l.frameSize)
    (G := fun _ event => event.Sized l.frameSize)
    (fun _ event h hevent => (outgoing_next l.two_le event h hevent).1)
    (fun _ event h hevent => (outgoing_next l.two_le event h hevent).2)
    (ok_init l.env (Nat.zero_lt_of_lt l.two_le) l.svcEncoder l.uninit l.uninitFrame)
    ((outgoingMachine l.env size).guarded_of_forall hevents _)
  have hfirst : l.outgoing.waiting = [l.firstFrame] := held_create
  exact hall.trans (congrArg (· ++ recordedFrames l events) hfirst)

theorem sent_append_pending (events : List (OutgoingEvent σ)) :
    (outgoingAfter l events).sent ++ (outgoingAfter l events).pending =
      (packetMachine l.env).outputs l.packetizer (encodedFrames l events) := by
  have hmade : l.outgoing.Made l.env l.packetizer [] := ⟨rfl, rfl⟩
  exact (made_run events hmade).packets

theorem length_outputs (env : SendEnv σ ε) (c : Packetizer ε) (frames : List (SvcAudioData σ)) :
    ((packetMachine env).outputs c frames).length = frames.length := by
  induction frames generalizing c with
  | nil => rfl
  | cons frame frames ih => rw [Machine.outputs_cons, List.length_cons, ih, List.length_cons]

/-- A packet that is pending leaves the hands of the sending thread empty. -/
theorem length_pending_add_waiting (s : Outgoing σ ε size) (h : s.Ok frameSize) :
    s.pending.length + s.waiting.length ≤ size + 1 := by
  have hheld : s.threads.queue.held.length ≤ size := by
    rw [PacketQueue.held, List.length_map, List.length_range]
    exact Ring.dist_lt _ _
  have hhand : s.threads.popping.inHand.length ≤ 1 := by
    cases s.threads.popping <;> simp [PopPoint.inHand]
  cases hsending : s.sending with
  | send packet =>
      have hnone := h.inHand (by simp [hsending])
      simp only [Outgoing.pending, Outgoing.waiting, hsending, hnone, List.length_append,
        List.length_singleton, List.length_nil]
      omega
  | test | pop | create | returned =>
      simp only [Outgoing.pending, Outgoing.waiting, hsending, List.length_append,
        List.length_singleton, List.length_nil]
      omega

theorem sent_prefix_outputs (hevents : ∀ event ∈ events, event.Sized l.frameSize) :
    (outgoingAfter l events).sent <+:
      (packetMachine l.env).outputs l.packetizer (l.firstFrame :: recordedFrames l events) := by
  have hsent : (outgoingAfter l events).sent <+:
      (packetMachine l.env).outputs l.packetizer (encodedFrames l events) :=
    ⟨_, sent_append_pending l events⟩
  exact hsent.trans (outputs_first ⟨_, encodedFrames_append_waiting l hevents⟩)

theorem length_recordedFrames_le (hevents : ∀ event ∈ events, event.Sized l.frameSize) :
    (recordedFrames l events).length ≤ (outgoingAfter l events).sent.length + size := by
  have hbound := length_pending_add_waiting _ (ok_outgoingAfter l hevents)
  have hframes := congrArg List.length (encodedFrames_append_waiting l hevents)
  have hpackets := congrArg List.length (sent_append_pending l events)
  rw [length_outputs] at hpackets
  simp only [List.length_append, List.length_cons] at hframes hpackets
  omega

theorem sent_numbered (hevents : ∀ event ∈ events, event.Sized l.frameSize) {n : Nat}
    {packet : SvcNetworkPacket} (hpacket : (outgoingAfter l events).sent[n]? = some packet) :
    packet.time.val = (n + 1) % 65536 ∧ packet.dataLen = l.env.options.bytePerPacket := by
  obtain ⟨rest, hrest⟩ := sent_prefix_outputs l hevents
  have hlt := (List.getElem?_eq_some_iff.1 hpacket).1
  have hmade : ((packetMachine l.env).outputs l.packetizer
      (l.firstFrame :: recordedFrames l events))[n]? = some packet := by
    rw [← hrest, List.getElem?_append_left hlt, hpacket]
  obtain ⟨htime, hlen⟩ := outputs_numbered _ _ hmade
  refine ⟨?_, hlen⟩
  have hzero : (l.packetizer.svcTime.val : Int) = 0 := rfl
  have hval := val_timeIncBy l.packetizer.svcTime (n + 1)
  rw [← htime] at hval
  omega

/-- At every moment of every interleaving, up to the first use of what `svc_close` freed, the
callback has been given the first packets that the encoder makes of the uninitialised frame of
the queue and the frames recorded while the queue had a free slot, in order, and at most
`size + 1` of these frames are still to be sent.  The packets are numbered from 1 on, modulo
`65536`. -/
theorem sends_in_order (l : SendStart σ ε size) (events : List (OutgoingEvent σ))
    (hevents : ∀ event ∈ events, event.Sized l.frameSize) :
    (outgoingAfter l events).sent <+:
        (packetMachine l.env).outputs l.packetizer (l.firstFrame :: recordedFrames l events) ∧
      (recordedFrames l events).length ≤ (outgoingAfter l events).sent.length + size ∧
      ∀ (n : Nat) (packet : SvcNetworkPacket), (outgoingAfter l events).sent[n]? = some packet →
        packet.time.val = (n + 1) % 65536 ∧ packet.dataLen = l.env.options.bytePerPacket :=
  ⟨sent_prefix_outputs l hevents, length_recordedFrames_le l hevents,
    fun _ _ hpacket => sent_numbered l hevents hpacket⟩

end Runs

/-- An encoder that leaves its number of calls in each block. -/
def countingEnv : SendEnv Nat UInt8 where
  options := ⟨1, 48000, 2⟩
  encode n _ _ := (n + 1, fun _ => n)
  memory _ _ := 0

def countingStart : SendStart Nat UInt8 2 where
  env := countingEnv
  two_le := Nat.le_refl 2
  svcEncoder := 0
  uninit _ := #v[0]
  uninitFrame := #v[0]

/-- A frame is recorded while the sending thread waits, and the uninitialised one is sent. -/
theorem sends_in_order_two_slots :
    let events := [.stepSend, .stepSend, .audioApiCallback ⟨1, #v[5]⟩] ++
      List.replicate 4 .stepCallback ++ List.replicate 8 .stepSend
    (outgoingAfter countingStart events).sent.length = 1 ∧
      ∀ packet, (outgoingAfter countingStart events).sent[0]? = some packet →
        packet.time.val = 1 :=
  ⟨rfl, fun packet hpacket =>
    ((sends_in_order countingStart _ (by decide)).2.2 0 packet hpacket).1⟩

end Svc.Libsvc
