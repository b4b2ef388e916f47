import Svc.Lib.Fallible
import Svc.Svcenet.Client.Program
import Svc.Svcenet.TextInput

/-!
# What the user types

A thread of the client reads lines of stdin into a queue, and the main loop handles them between
the events of ENet.  The two share the queue and the mark that the input is over; each of their
steps here is what they do under one lock.  SIGINT may come between any two of them.
-/

namespace Svc.Svcenet

open Svc.Common Svc.Lib

/-! ## Lines of stdin -/

def inputBufferSize : Nat := 1024 * 1024

/-- `fgets` with room for so many bytes: what it puts in the buffer, and the rest of stdin. -/
def fgets : (room : Nat) → (stdin : Bytes) → Bytes × Bytes
  | 0, stdin => ([], stdin)
  | _ + 1, [] => ([], [])
  | room + 1, ch :: stdin =>
      if ch = chr '\n' then ([ch], stdin)
      else (ch :: (fgets room stdin).1, (fgets room stdin).2)

/-- What is added to the queue for a buffer: `strlen` stops at a zero, and a buffer of length 0
is left out. -/
def inputCommand (buffer : Bytes) : Option Bytes :=
  let s := (asCString buffer).bytes
  if s = [] then none
  else some (if s.getLast? = some (chr '\n') then s.dropLast else s)

theorem length_fgets_lt : ∀ {room : Nat} {stdin : Bytes}, 0 < room → stdin ≠ [] →
    (fgets room stdin).2.length < stdin.length
  | room + 1, ch :: stdin, _, _ => by
      rw [fgets]
      split_ifs
      · exact Nat.lt_succ_self _
      · by_cases hmore : 0 < room ∧ stdin ≠ []
        · exact (length_fgets_lt hmore.1 hmore.2).trans (Nat.lt_succ_self _)
        · have hrest : (fgets room stdin).2 = stdin := by
            rcases room with - | room
            · rfl
            · cases stdin with
              | nil => rfl
              | cons ch' stdin => exact absurd ⟨room.succ_pos, List.cons_ne_nil _ _⟩ hmore
          rw [hrest]
          exact Nat.lt_succ_self _

theorem inputRoom_pos : 0 < inputBufferSize - 1 := by decide

def inputCommands (stdin : Bytes) : List Bytes :=
  if stdin = [] then []
  else
    (inputCommand (fgets (inputBufferSize - 1) stdin).1).toList ++
      inputCommands (fgets (inputBufferSize - 1) stdin).2
termination_by stdin.length
decreasing_by exact length_fgets_lt inputRoom_pos ‹_›

theorem inputCommands_nil : inputCommands [] = [] := by
  rw [inputCommands, if_pos rfl]

theorem inputCommands_of_ne_nil {stdin : Bytes} (h : stdin ≠ []) :
    inputCommands stdin = (inputCommand (fgets (inputBufferSize - 1) stdin).1).toList ++
      inputCommands (fgets (inputBufferSize - 1) stdin).2 := by
  rw [inputCommands, if_neg h]

/-- A line that the buffer has room for, without a zero -/
structure IsTyped (line : Bytes) : Prop where
  newline : chr '\n' ∉ line
  nulFree : 0 ∉ line
  lt : line.length + 1 < inputBufferSize

theorem fgets_line {line : Bytes} (h : chr '\n' ∉ line) {room : Nat} (hroom : line.length < room)
    (stdin : Bytes) : fgets room (line ++ chr '\n' :: stdin) = (line ++ [chr '\n'], stdin) := by
  induction line generalizing room with
  | nil =>
      obtain ⟨room, rfl⟩ := Nat.exists_eq_add_one.2 hroom
      rw [List.nil_append, fgets, if_pos rfl]
      rfl
  | cons ch line ih =>
      obtain ⟨hch, hline⟩ := not_or.1 (mt List.mem_cons.2 h)
      obtain ⟨room, rfl⟩ := Nat.exists_eq_add_one.2 (Nat.zero_lt_of_lt hroom)
      rw [List.cons_append, fgets, if_neg (Ne.symm hch), ih hline (Nat.lt_of_succ_lt_succ hroom)]
      rfl

theorem inputCommand_line {line : Bytes} (h : 0 ∉ line) :
    inputCommand (line ++ [chr '\n']) = some line := by
  have hnul : 0 ∉ line ++ [chr '\n'] := by
    rw [List.mem_append, not_or]
    exact ⟨h, by decide⟩
  simp only [inputCommand, asCString_of_nulFree hnul]
  rw [if_neg (by simp), List.getLast?_concat, if_pos rfl, List.dropLast_concat]

/-- Each line that is typed becomes one command. -/
theorem inputCommands_lines {lines : List Bytes} (h : ∀ line ∈ lines, IsTyped line) :
    inputCommands (lines.flatMap fun line => line ++ [chr '\n']) = lines := by
  induction lines with
  | nil => exact inputCommands_nil
  | cons line lines ih =>
      obtain ⟨hline, hlines⟩ := List.forall_mem_cons.1 h
      have hroom : line.length < inputBufferSize - 1 := by
        have := hline.lt
        omega
      rw [List.flatMap_cons, List.append_assoc, List.singleton_append,
        inputCommands_of_ne_nil (by simp), fgets_line hline.newline hroom,
        inputCommand_line hline.nulFree, ih hlines]
      rfl

/-! ## The two threads -/

inductive InputPoint where
  /-- before `fgets` -/
  | reading
  /-- before it adds the line to the queue -/
  | adding (line : Bytes)
  /-- `fgets` returned `NULL`, and `input_error` is not set yet -/
  | failing
  | ended

inductive MainPoint where
  /-- at `while(!client.main_done)` -/
  | testing
  /-- in the part for ENet -/
  | network
  /-- at `if (!client.main_done)` -/
  | asking
  /-- in the input loop, before it takes the front of the queue -/
  | taking
  | handling (input : Bytes)
  /-- before it looks at `input_error` -/
  | checking
  | exited

structure MainLoop where
  client : ClientState
  /-- what will be read from stdin -/
  stdin : Bytes
  thread : InputPoint
  inputQueue : List Bytes
  inputError : Bool
  main : MainPoint
  mainDone : Bool
  /-- the lines that `handle_input_command` was given -/
  handled : List Bytes
  /-- what it sent to the server -/
  sent : List Bytes
  /-- its last result -/
  lastResult : Int
  /-- SIGINT came -/
  interrupted : Bool

def MainLoop.start (stdin : Bytes) : MainLoop :=
  ⟨.init, stdin, .reading, [], false, .testing, false, [], [], 0, false⟩

inductive MainEvent where
  | input
  /-- `/connect` would find `resolved`, and come as far as `progress` -/
  | main (resolved : Option Bytes) (progress : ConnectProgress)
  | enet (event : ENetEvent)
  | sigint

namespace MainLoop

def inputStep (s : MainLoop) : MainLoop :=
  match s.thread with
  | .reading =>
      if s.stdin = [] then { s with thread := .failing }
      else
        let (buffer, stdin) := fgets (inputBufferSize - 1) s.stdin
        match inputCommand buffer with
        | none => { s with stdin }
        | some line => { s with stdin, thread := .adding line }
  | .adding line => { s with inputQueue := s.inputQueue ++ [line], thread := .reading }
  | .failing => { s with inputError := true, thread := .ended }
  | .ended => s

def mainStep (s : MainLoop) (resolved : Option Bytes) (progress : ConnectProgress) :
    Except Fault MainLoop :=
  match s.main with
  | .testing => .ok { s with main := if s.mainDone then .exited else .network }
  | .network => .ok { s with main := .asking }
  | .asking => .ok { s with main := if s.mainDone then .checking else .taking }
  | .taking =>
      match s.inputQueue with
      | [] => .ok { s with main := .checking }
      | input :: inputQueue => .ok { s with inputQueue, main := .handling input }
  | .handling input => do
      let outcome ← handleInputCommand s.client input resolved progress
      -- `input_done = client.main_done = …` also takes back what SIGINT set
      return { s with
        client := outcome.state
        main := if outcome.result = 0 then .taking else .checking
        mainDone := outcome.result ≠ 0
        handled := s.handled ++ [input]
        sent := s.sent ++ outcome.sent.toList
        lastResult := outcome.result }
  | .checking => .ok { s with mainDone := s.mainDone || s.inputError, main := .testing }
  | .exited => .ok s

def step (s : MainLoop) : MainEvent → Except Fault MainLoop
  | .input => .ok s.inputStep
  | .main resolved progress => s.mainStep resolved progress
  | .enet event =>
      match s.main with
      | .network => do
          let client ← handleClientEvent s.client (.enet event)
          return { s with client }
      | _ => .ok s
  | .sigint => .ok { s with mainDone := true, interrupted := true }

end MainLoop

def mainMachine : Machine (Except Fault MainLoop) MainEvent Unit := .fallible MainLoop.step

/-! ## What holds at every moment -/

def InputPoint.inHand : InputPoint → List Bytes
  | .adding line => [line]
  | .reading | .failing | .ended => []

def MainPoint.inHand : MainPoint → List Bytes
  | .handling input => [input]
  | .testing | .network | .asking | .taking | .checking | .exited => []

/-- The lines between stdin and `handle_input_command`, oldest first -/
def MainLoop.waiting (s : MainLoop) : List Bytes :=
  s.main.inHand ++ (s.inputQueue ++ (s.thread.inHand ++ inputCommands s.stdin))

structure MainLoop.Ok (commands : List Bytes) (s : MainLoop) : Prop where
  order : s.handled ++ s.waiting = commands
  sent : s.sent.Sublist s.handled
  read : s.thread = .failing ∨ s.thread = .ended → s.stdin = []
  error : s.inputError = true → s.thread = .ended
  done : s.mainDone = true → s.interrupted = true ∨ s.lastResult ≠ 0 ∨ s.inputError = true
  exited : s.main = .exited → s.mainDone = true

section Steps

variable {s s' : MainLoop} {commands : List Bytes}

theorem mainLoopOk_start (stdin : Bytes) : (MainLoop.start stdin).Ok (inputCommands stdin) where
  order := rfl
  sent := List.Sublist.refl _
  read h := by rcases h with h | h <;> cases h
  error h := nomatch h
  done h := nomatch h
  exited h := nomatch h

theorem mainLoopOk_inputStep (h : s.Ok commands) : s.inputStep.Ok commands := by
  have horder := h.order
  rw [MainLoop.waiting] at horder
  unfold MainLoop.inputStep
  cases hthread : s.thread with
  | reading =>
      rw [hthread, InputPoint.inHand, List.nil_append] at horder
      have hnoerror : s.inputError = true → False := fun herror => by
        have hended := h.error herror
        rw [hthread] at hended
        cases hended
      dsimp only
      split_ifs with hstdin
      · rw [hstdin] at horder
        refine ⟨?_, h.sent, fun _ => hstdin, fun herror => (hnoerror herror).elim, h.done, h.exited⟩
        rw [MainLoop.waiting, hstdin]
        exact horder
      · rw [inputCommands_of_ne_nil hstdin] at horder
        cases hline : inputCommand (fgets (inputBufferSize - 1) s.stdin).1 with
        | none =>
            rw [hline] at horder
            exact ⟨horder, h.sent, by simp, fun herror => (hnoerror herror).elim, h.done, h.exited⟩
        | some line =>
            rw [hline] at horder
            exact ⟨horder, h.sent, by simp, fun herror => (hnoerror herror).elim, h.done, h.exited⟩
  | adding line =>
      rw [hthread] at horder
      refine ⟨?_, h.sent, by simp, fun herror => ?_, h.done, h.exited⟩
      · rw [MainLoop.waiting, ← horder]
        simp [InputPoint.inHand]
      · have hended := h.error herror
        rw [hthread] at hended
        cases hended
  | failing =>
      rw [hthread] at horder
      exact ⟨horder, h.sent, fun _ => h.read (.inl hthread), fun _ => rfl,
        fun hdone => (h.done hdone).imp_right fun hor => .inr rfl, h.exited⟩
  | ended => exact h

/-- No command sends anything. -/
theorem sent_runInputCommand {client : ClientState} {argv : List Bytes} {resolved : Option Bytes}
    {progress : ConnectProgress} {name : Bytes} {outcome : InputOutcome}
    (h : runInputCommand client argv resolved progress name = some (.ok outcome)) :
    outcome.sent = none := by
  unfold runInputCommand at h
  split_ifs at h
  · cases h
    rfl
  · obtain ⟨client', -, rfl⟩ := map_eq_ok.1 (Option.some.inj h)
    rfl
  · cases h
    rfl
  · cases h
    rfl
  · cases h
    rfl

theorem sent_sendInput {client : ClientState} {input : Bytes} {outcome : InputOutcome}
    (h : sendInput client input = .ok outcome) : outcome.sent.toList.Sublist [input] := by
  unfold sendInput at h
  split at h
  · split at h
    · cases h
      exact List.Sublist.refl _
    · cases h
  · cases h
    exact List.nil_sublist _
  · cases h
    exact List.nil_sublist _

/-- `handle_input_command` sends nothing but its line. -/
theorem sent_handleInputCommand {client : ClientState} {input : Bytes} {resolved : Option Bytes}
    {progress : ConnectProgress} {outcome : InputOutcome}
    (h : handleInputCommand client input resolved progress = .ok outcome) :
    outcome.sent.toList.Sublist [input] := by
  cases input with
  | nil =>
      cases h
      exact List.nil_sublist _
  | cons ch rest =>
      rw [handleInputCommand] at h
      split_ifs at h
      · split at h
        · cases h
          exact List.nil_sublist _
        · cases h
        · split at h
          · rename_i run hrun
            subst h
            rw [sent_runInputCommand hrun]
            exact List.nil_sublist _
          · cases h
            exact List.nil_sublist _
      · exact sent_sendInput h

theorem mainLoopOk_mainStep (h : s.Ok commands) {resolved : Option Bytes}
    {progress : ConnectProgress} (hstep : s.mainStep resolved progress = .ok s') :
    s'.Ok commands := by
  have horder := h.order
  rw [MainLoop.waiting] at horder
  unfold MainLoop.mainStep at hstep
  cases hmain : s.main with
  | testing =>
      rw [hmain] at hstep horder
      cases hstep
      refine ⟨?_, h.sent, h.read, h.error, h.done, fun hexited => ?_⟩
      · rw [MainLoop.waiting, ← horder]
        dsimp only
        split_ifs <;> rfl
      · dsimp only at hexited
        split_ifs at hexited with hdone
        exact hdone
  | network =>
      rw [hmain] at hstep horder
      cases hstep
      exact ⟨horder, h.sent, h.read, h.error, h.done, fun hexited => nomatch hexited⟩
  | asking =>
      rw [hmain] at hstep horder
      cases hstep
      refine ⟨?_, h.sent, h.read, h.error, h.done, fun hexited => ?_⟩
      · rw [MainLoop.waiting, ← horder]
        dsimp only
        split_ifs <;> rfl
      · dsimp only at hexited
        split_ifs at hexited
  | taking =>
      rw [hmain] at hstep horder
      cases hqueue : s.inputQueue with
      | nil =>
          rw [hqueue] at hstep horder
          cases hstep
          exact ⟨horder, h.sent, h.read, h.error, h.done, fun hexited => nomatch hexited⟩
      | cons input inputQueue =>
          rw [hqueue] at hstep horder
          cases hstep
          exact ⟨horder, h.sent, h.read, h.error, h.done, fun hexited => nomatch hexited⟩
  | handling input =>
      rw [hmain] at hstep horder
      obtain ⟨outcome, houtcome, hnext⟩ := bind_eq_ok.1 hstep
      cases hnext
      refine ⟨?_, h.sent.append (sent_handleInputCommand houtcome), h.read, h.error, ?_, ?_⟩
      · rw [MainLoop.waiting, ← horder]
        dsimp only
        split_ifs <;> simp [MainPoint.inHand]
      · exact fun hdone => .inr (.inl (of_decide_eq_true hdone))
      · intro hexited
        dsimp only at hexited
        split_ifs at hexited
  | checking =>
      rw [hmain] at hstep horder
      cases hstep
      refine ⟨horder, h.sent, h.read, h.error, fun hdone => ?_, fun hexited => nomatch hexited⟩
      rcases Bool.or_eq_true_iff.1 hdone with hdone | herror
      · exact h.done hdone
      · exact .inr (.inr herror)
  | exited =>
      rw [hmain] at hstep
      cases hstep
      exact h

theorem mainLoopOk_step (h : s.Ok commands) {event : MainEvent} (hstep : s.step event = .ok s') :
    s'.Ok commands := by
  cases event with
  | input =>
      cases hstep
      exact mainLoopOk_inputStep h
  | main resolved progress => exact mainLoopOk_mainStep h hstep
  | enet event =>
      rw [MainLoop.step] at hstep
      split at hstep
      · obtain ⟨client, -, hnext⟩ := bind_eq_ok.1 hstep
        cases hnext
        exact ⟨h.order, h.sent, h.read, h.error, h.done, h.exited⟩
      · cases hstep
        exact h
  | sigint =>
      cases hstep
      exact ⟨h.order, h.sent, h.read, h.error, fun _ => .inl rfl, fun _ => rfl⟩

end Steps

/-! ## Runs -/

/-- Whatever comes between, the lines that are handled are the first ones typed, each once and in
order, and so are those sent to the server.  Without SIGINT and `/quit`, the client ends with
nothing but the queue left. -/
theorem typed_in_order {lines : List Bytes} (htyped : ∀ line ∈ lines, IsTyped line)
    {events : List MainEvent} {s : MainLoop}
    (hrun : mainMachine.run (.ok (.start (lines.flatMap fun line => line ++ [chr '\n']))) events =
      .ok s) :
    s.handled ++ s.waiting = lines ∧ s.sent.Sublist s.handled ∧
      (s.main = .exited →
        s.interrupted = true ∨ s.lastResult ≠ 0 ∨ s.handled ++ s.inputQueue = lines) := by
  have hstart := mainLoopOk_start (lines.flatMap fun line => line ++ [chr '\n'])
  rw [inputCommands_lines htyped] at hstart
  have h : s.Ok lines := Machine.invariant_run_ok (fun _ _ _ h hstep => mainLoopOk_step h hstep)
    hstart hrun
  refine ⟨h.order, h.sent, fun hexited => ?_⟩
  rcases h.done (h.exited hexited) with hinterrupted | hquit | herror
  · exact .inl hinterrupted
  · exact .inr (.inl hquit)
  · have hended := h.error herror
    have horder := h.order
    rw [MainLoop.waiting, hexited, hended, h.read (.inr hended), inputCommands_nil] at horder
    refine .inr (.inr ?_)
    simpa [MainPoint.inHand, InputPoint.inHand] using horder

/-- The client is muted, and quits before it looks at the last line. -/
def mutedAndQuit : List Bytes := [cstr "/mute 1", cstr "/quit", cstr "hello"]

def inTurn (rounds : Nat) : List MainEvent :=
  (List.replicate rounds [MainEvent.input, .main none .noHost]).flatten

theorem isTyped_mutedAndQuit : ∀ line ∈ mutedAndQuit, IsTyped line := by
  intro line hline
  simp only [mutedAndQuit, List.mem_cons, List.not_mem_nil, or_false] at hline
  rcases hline with rfl | rfl | rfl
  · exact ⟨by decide, by decide, by decide⟩
  · exact ⟨by decide, by decide, by decide⟩
  · exact ⟨by decide, by decide, by decide⟩

/-- The client quits at the second line, with the third in the queue. -/
theorem typed_in_order_mutedAndQuit :
    ∃ s, mainMachine.run (.ok (.start (mutedAndQuit.flatMap fun line => line ++ [chr '\n'])))
        (inTurn 14) = .ok s ∧
      s.main = .exited ∧ s.handled = [cstr "/mute 1", cstr "/quit"] ∧ s.lastResult = 1 ∧
      s.handled ++ s.waiting = mutedAndQuit ∧ s.sent.Sublist s.handled := by
  refine ⟨_, rfl, rfl, rfl, rfl, ?_⟩
  have h := @typed_in_order _ isTyped_mutedAndQuit (inTurn 14) _ rfl
  exact ⟨h.1, h.2.1⟩

/-! ## The end of the input -/

section Ending

/-- The input thread can come to the end of stdin before the main loop does anything. -/
theorem exists_input_ended {s : MainLoop} (hthread : s.thread = .reading) :
    ∃ events, mainMachine.run (.ok s) events = .ok { s with
      stdin := []
      thread := .ended
      inputError := true
      inputQueue := s.inputQueue ++ inputCommands s.stdin } := by
  induction hlength : s.stdin.length using Nat.strong_induction_on generalizing s with
  | _ n ih =>
      by_cases hstdin : s.stdin = []
      · refine ⟨[.input, .input], ?_⟩
        have hfirst : s.inputStep = { s with thread := .failing } := by
          rw [MainLoop.inputStep, hthread]
          exact if_pos hstdin
        change Except.ok s.inputStep.inputStep = _
        rw [hfirst, hstdin, inputCommands_nil, List.append_nil]
        rfl
      · have hshorter := length_fgets_lt inputRoom_pos hstdin
        rw [inputCommands_of_ne_nil hstdin]
        cases hline : inputCommand (fgets (inputBufferSize - 1) s.stdin).1 with
        | none =>
            have hfirst : s.inputStep =
                { s with stdin := (fgets (inputBufferSize - 1) s.stdin).2 } := by
              simp only [MainLoop.inputStep, hthread, if_neg hstdin, hline]
            obtain ⟨events, hrest⟩ := ih _ (hlength ▸ hshorter) (s := s.inputStep)
              (by rw [hfirst]; exact hthread) (by rw [hfirst])
            refine ⟨.input :: events, ?_⟩
            change mainMachine.run (.ok s.inputStep) events = _
            rw [hrest, hfirst]
            rfl
        | some line =>
            have hfirst : s.inputStep = { s with
                stdin := (fgets (inputBufferSize - 1) s.stdin).2, thread := .adding line } := by
              simp only [MainLoop.inputStep, hthread, if_neg hstdin, hline]
            have hsecond : s.inputStep.inputStep = { s with
                stdin := (fgets (inputBufferSize - 1) s.stdin).2
                inputQueue := s.inputQueue ++ [line] } := by
              rw [hfirst, hthread]
              rfl
            obtain ⟨events, hrest⟩ := ih _ (hlength ▸ hshorter) (s := s.inputStep.inputStep)
              (by rw [hsecond]; exact hthread) (by rw [hsecond])
            refine ⟨.input :: .input :: events, ?_⟩
            change mainMachine.run (.ok s.inputStep.inputStep) events = _
            rw [hrest, hsecond]
            simp

/-- Whatever is typed, the client may end without handling any of it: the queue is looked at
before, and `input_error` after the thread has read everything. -/
theorem input_may_be_lost (stdin : Bytes) :
    ∃ events s, mainMachine.run (.ok (.start stdin)) events = .ok s ∧ s.main = .exited ∧
      s.handled = [] ∧ s.interrupted = false ∧ s.inputQueue = inputCommands stdin := by
  let asked : MainLoop := { MainLoop.start stdin with main := .checking }
  obtain ⟨events, hinput⟩ := exists_input_ended (s := asked) rfl
  let look : MainEvent := .main none .noHost
  refine ⟨[look, look, look, look] ++ events ++ [look, look], { asked with
    stdin := []
    thread := .ended
    inputError := true
    inputQueue := inputCommands stdin
    mainDone := true
    main := .exited }, ?_, rfl, rfl, rfl, rfl⟩
  have hasked : mainMachine.run (.ok (.start stdin)) [look, look, look, look] = .ok asked := rfl
  rw [Machine.run_append, Machine.run_append, hasked, hinput]
  rfl

end Ending

end Svc.Svcenet
