import Svc.Libsvc.Outgoing.Progress

/-!
# Closing libsvc

`svc_close` clears `svc_running` and then destroys the encoder, the queue and the
options, but does not wait for the sending thread, which looks at `svc_running` only
between two packets.
-/

namespace Svc.Libsvc

open Svc.Lib

variable {σ ε : Type} {size frameSize : Nat}

def UsesFreed (s : Outgoing σ ε size) : OutgoingEvent σ → Prop
  | .stepSend => s.usesFreed = true
  | .audioApiCallback _ | .stepCallback | .stepClose => False

/-- The sending thread is between its uses of the queue and the encoder. -/
def SendPoint.between : SendPoint → Bool
  | .pop | .create => false
  | .test | .send _ | .returned => true

section Steps

variable {env : SendEnv σ ε} {s : Outgoing σ ε size}

theorem usesFreed_of_between (hbetween : s.sending.between = true) : s.usesFreed = false := by
  rw [Outgoing.usesFreed]
  cases hsending : s.sending with
  | test | send | returned => rfl
  | pop | create =>
      rw [hsending] at hbetween
      cases hbetween

theorem closing_next (event : OutgoingEvent σ) (hclose : event ≠ .stepClose) :
    ((outgoingMachine env size).next s event).closing = s.closing := by
  cases event with
  | audioApiCallback inputAudioData =>
      show (if s.audioOpen then _ else s).closing = s.closing
      split <;> rfl
  | stepCallback => rfl
  | stepSend =>
      rw [next_stepSend]
      split
      · rfl
      · unfold sendStep
        split
        · split <;> rfl
        · split <;> rfl
        all_goals rfl
  | stepClose => exact absurd rfl hclose

/-- Once `svc_running` is cleared, a thread that is between two packets stays there. -/
theorem between_next (event : OutgoingEvent σ)
    (h : s.svcRunning = false ∧ s.sending.between = true) :
    ((outgoingMachine env size).next s event).svcRunning = false ∧
      ((outgoingMachine env size).next s event).sending.between = true := by
  obtain ⟨hrun, hbetween⟩ := h
  cases event with
  | audioApiCallback inputAudioData =>
      show (if s.audioOpen then _ else s).svcRunning = false ∧
        (if s.audioOpen then _ else s).sending.between = true
      split <;> exact ⟨hrun, hbetween⟩
  | stepCallback => exact ⟨hrun, hbetween⟩
  | stepSend =>
      rw [next_stepSend_of_not_usesFreed (usesFreed_of_between hbetween)]
      cases hsending : s.sending with
      | test => simp [sendStep, hsending, hrun, SendPoint.between]
      | send packet => simp [sendStep, hsending, hrun, SendPoint.between]
      | returned => simp [sendStep, hsending, hrun, SendPoint.between]
      | pop | create =>
          rw [hsending] at hbetween
          cases hbetween
  | stepClose =>
      show (closeStep s).svcRunning = false ∧ (closeStep s).sending.between = true
      unfold closeStep
      split
      · exact ⟨rfl, hbetween⟩
      · split <;> exact ⟨hrun, hbetween⟩
      all_goals exact ⟨hrun, hbetween⟩

theorem not_usesFreed_of_between (hbetween : s.sending.between = true) (event : OutgoingEvent σ) :
    ¬ UsesFreed s event := by
  cases event with
  | stepSend =>
      rw [UsesFreed, usesFreed_of_between hbetween]
      exact Bool.false_ne_true
  | audioApiCallback | stepCallback | stepClose => exact id

/-- A step inside a pop does not take the sending thread to where it is between two packets. -/
theorem not_between_stepSend (hpop : s.sending = .pop) :
    ((outgoingMachine env size).next s .stepSend).sending.between = false := by
  rw [next_stepSend]
  split
  · simp only [hpop, SendPoint.between]
  · simp only [sendStep, hpop]
    split
    · rfl
    · simp only [SendPoint.between]

/-- `svc_close_audio` can wait for the recording thread without the sending thread coming
out of a pop and its packet. -/
theorem exists_steps_busy (env : SendEnv σ ε) (hsize : 2 ≤ size) (h : s.Ok frameSize)
    (hclosing : s.closing = .closeAudio)
    (hbusy : s.sending.between = false) :
    ∃ steps : List (OutgoingEvent σ), (∀ event ∈ steps, event.Steps) ∧
      let s' := (outgoingMachine env size).run s steps
      s'.closing = .closeAudio ∧ s'.sending.between = false ∧ s'.threads.pushing = .outside := by
  have hstep : ∀ s : Outgoing σ ε size,
      (s.Ok frameSize ∧ s.closing = .closeAudio ∧ s.sending.between = false) →
      ¬ s.threads.pushing = .outside →
      ∃ event : OutgoingEvent σ, event.Steps ∧
        (((outgoingMachine env size).next s event).Ok frameSize ∧
          ((outgoingMachine env size).next s event).closing = .closeAudio ∧
          ((outgoingMachine env size).next s event).sending.between = false) ∧
        ((outgoingMachine env size).next s event).toGo < s.toGo := by
    rintro s ⟨hok, hclosing, hbusy⟩ hpush
    have hnext : ∀ event : OutgoingEvent σ, event.Steps →
        ((outgoingMachine env size).next s event).sending.between = false →
        ((outgoingMachine env size).next s event).Ok frameSize ∧
          ((outgoingMachine env size).next s event).closing = .closeAudio ∧
          ((outgoingMachine env size).next s event).sending.between = false :=
      fun event hevent hbusy => ⟨(outgoing_next hsize event hok hevent.sized).1,
        (closing_next event hevent.ne_stepClose).trans hclosing, hbusy⟩
    cases hinside : s.threads.popping.inside with
    | true =>
        have hpop : s.sending = .pop := by
          by_contra hpop
          rw [hok.outside hpop] at hinside
          cases hinside
        have hlive : s.usesFreed = false := by simp only [Outgoing.usesFreed, hpop, hclosing]; rfl
        refine ⟨.stepSend, trivial, hnext _ trivial (not_between_stepSend hpop),
          toGo_stepSend hok hlive ?_ (not_waits_of_inside hinside) ?_ (.inr hinside)⟩
        all_goals
          rw [hpop]
          rintro ⟨⟩
    | false =>
        exact ⟨.stepCallback, trivial, hnext _ trivial hbusy, toGo_stepCallback hok hpush hinside⟩
  obtain ⟨steps, hsteps, ⟨-, hclosing, hbusy⟩, hpush⟩ :=
    (outgoingMachine env size).exists_run_of_measure Outgoing.toGo hstep ⟨h, hclosing, hbusy⟩
  exact ⟨steps, hsteps, hclosing, hbusy, hpush⟩

/-- Three steps of `svc_close` then free what the sending thread uses next. -/
theorem usesFreed_of_busy (hclosing : s.closing = .closeAudio) (hbusy : s.sending.between = false)
    (hpush : s.threads.pushing = .outside) :
    UsesFreed ((outgoingMachine env size).run s [.stepClose, .stepClose, .stepClose])
      .stepSend := by
  have hrun : (outgoingMachine env size).run s [.stepClose, .stepClose, .stepClose] =
      { s with closing := .freeOptions } := by
    show closeStep (closeStep (closeStep s)) = _
    simp [closeStep, hclosing, hpush]
  rw [hrun, UsesFreed, Outgoing.usesFreed]
  dsimp only
  cases hsending : s.sending with
  | pop | create => rfl
  | test | send | returned =>
      rw [hsending] at hbusy
      cases hbusy

end Steps

/-! ## Runs -/

section Runs

variable (l : SendStart σ ε size) {events : List (OutgoingEvent σ)}

theorem closing_outgoingAfter (hclose : ∀ event ∈ events, event ≠ .stepClose) :
    (outgoingAfter l events).closing = .notCalled :=
  (outgoingMachine l.env size).invariant_run_of_guarded (I := fun s => s.closing = .notCalled)
    (G := fun _ event => event ≠ .stepClose)
    (fun _ event h hevent => (closing_next event hevent).trans h) rfl
    ((outgoingMachine l.env size).guarded_of_forall hclose _)

/-- When `svc_close` is called, no schedule from there on makes the sending thread use what it
frees if and only if that thread is between two packets: not in a pop, where it also waits
when nothing is recorded, and not about to encode the frame that it popped. -/
theorem svcClose_safe_iff (l : SendStart σ ε size) (events : List (OutgoingEvent σ))
    (hevents : ∀ event ∈ events, event.Sized l.frameSize)
    (hclose : ∀ event ∈ events, event ≠ .stepClose) :
    (∀ later : List (OutgoingEvent σ), (∀ event ∈ later, event.Sized l.frameSize) →
        (outgoingMachine l.env size).Guarded (fun s event => ¬ UsesFreed s event)
          (outgoingAfter l events) (.stepClose :: later)) ↔
      (outgoingAfter l events).sending.between = true := by
  have hok := ok_outgoingAfter l hevents
  have hclosing := closing_outgoingAfter l hclose
  revert hok hclosing
  generalize outgoingAfter l events = s
  intro hok hclosing
  have hfirst : (outgoingMachine l.env size).next s .stepClose =
      { s with svcRunning := false, closing := .closeAudio } := by
    show closeStep s = _
    simp only [closeStep, hclosing]
  have hclosed : Outgoing.Ok l.frameSize { s with svcRunning := false, closing := .closeAudio } :=
    ⟨hok.blocking, hok.sized, hok.audioData, hok.outside, hok.inside⟩
  constructor
  · intro hsafe
    by_contra hbusy
    rw [Bool.not_eq_true] at hbusy
    obtain ⟨steps, hsteps, hclosing', hbusy', hpush⟩ :=
      exists_steps_busy l.env l.two_le hclosed rfl hbusy
    have hsized : ∀ event ∈ steps ++ ([.stepClose, .stepClose, .stepClose] ++ [.stepSend]),
        event.Sized l.frameSize := by
      intro event hevent
      rcases List.mem_append.1 hevent with hevent | hevent
      · exact (hsteps event hevent).sized
      · simp only [List.cons_append, List.nil_append, List.mem_cons, List.not_mem_nil,
          or_false] at hevent
        rcases hevent with rfl | rfl | rfl | rfl <;> trivial
    have hguard := (hsafe _ hsized).2
    rw [hfirst, Machine.guarded_append, Machine.guarded_concat] at hguard
    exact hguard.2.2 (usesFreed_of_busy hclosing' hbusy' hpush)
  · intro hbetween later _
    refine ⟨id, ?_⟩
    rw [hfirst]
    have hstart : ({ s with svcRunning := false, closing := .closeAudio } :
        Outgoing σ ε size).svcRunning = false ∧ s.sending.between = true := ⟨rfl, hbetween⟩
    exact ((outgoingMachine l.env size).guarded_congr (H := fun _ _ => True)
      (I := fun s => s.svcRunning = false ∧ s.sending.between = true)
      (fun _ event h _ => between_next event h)
      (fun _ event h => iff_of_true (not_usesFreed_of_between h.2 event) trivial) hstart later).2
      (Machine.guarded_true _ _ _)

/-- The sending thread waits for the first frame when `svc_close` is called. -/
theorem svcClose_safe_iff_waiting :
    ¬ ∀ later : List (OutgoingEvent Nat), (∀ event ∈ later, event.Sized 1) →
      (outgoingMachine countingEnv 2).Guarded (fun s event => ¬ UsesFreed s event)
        (outgoingAfter countingStart [.stepSend]) (.stepClose :: later) := fun hsafe =>
  absurd ((svcClose_safe_iff countingStart [.stepSend] (by decide)
    (by simp)).1 hsafe) (by decide)

end Runs

end Svc.Libsvc
