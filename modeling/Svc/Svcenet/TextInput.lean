import Svc.Svcenet.Audio

/-!
# Text from outside

Three functions lex text that somebody else wrote: the server the packets of channel 0,
the client the lines of such packets and the lines that its user types.  Each of them
uses the tokens right away; the lexer may have none to give, or may have failed.
-/

namespace Svc.Svcenet

open Svc.Common Svc.Lib

/-! ## The server -/

/-- The command that the global variable `on_command` names: the calls it makes when it is
run with a list of strings, and the file and the line of the error it ends in, if any. -/
abbrev OnCommand := Server → List Bytes → List ScriptCall × Option (Bytes × Int)

structure CommandOutcome where
  server : Server
  /-- the list that `on_command` was run with -/
  ran : Option (List Bytes)
  stderr : List Bytes

/-- `dfrommem(packet->data, packet->dataLength)`; a `dstrlen_t` is an `unsigned int`. -/
def ENetPacket.text (packet : ENetPacket) : Bytes :=
  Block.first packet.data (packet.dataLength % 2 ^ 32)

/-- `handle_packet_input_command`; `onCommand` is what `Jim_GetGlobalVariableStr` finds. -/
def handlePacketInputCommand (s : Server) (onCommand : Option OnCommand) (peerId : Nat)
    (packet : ENetPacket) : Except Fault CommandOutcome :=
  match dstrlexParse packet.text with
  -- `dargs->front` of a list that is `NULL`
  | .error _ => .error .nullPointer
  | .ok dargs =>
      match onCommand with
      | none => .error .nullPointer
      | some run =>
          let (calls, error) := run s dargs
          .ok { server := runScript s calls
                ran := some dargs
                stderr := error.toList.map fun (file, line) =>
                  cstr "Failed to execute commands from #" ++ printPeerId peerId ++ cstr " (" ++
                    file ++ cstr ":" ++ decimalInt line ++ cstr ")\n" }

/-! ## The user's client -/

structure InputOutcome where
  state : ClientState
  sent : Option Bytes
  result : Int

/-- The commands of the user, run with `argv`; `none` for a name that is none of them. -/
def runInputCommand (s : ClientState) (argv : List Bytes) (resolved : Option Bytes)
    (progress : ConnectProgress) (name : Bytes) : Option (Except Fault InputOutcome) :=
  if name = cstr "/connect" then some (.ok ⟨cmdConnect s argv resolved progress, none, 0⟩)
  else if name = cstr "/disconnect" then some ((cmdDisconnect s).map (⟨·, none, 0⟩))
  else if name = cstr "/quit" then some (.ok ⟨s, none, 1⟩)
  else if name = cstr "/mute" then some (.ok ⟨cmdMute s argv, none, 0⟩)
  else if name = cstr "/deafen" then some (.ok ⟨cmdDeafen s argv, none, 0⟩)
  else none

def sendInput (s : ClientState) (string : Bytes) : Except Fault InputOutcome :=
  match s.state with
  | .connected =>
      match s.client with
      | some _ => .ok ⟨s, some string, 0⟩
      | none => .error .nullPointer
  | .connecting =>
      .ok ⟨s.printError (cstr "Can't send command to server, still connecting.\n"), none, 0⟩
  | .disconnected =>
      .ok ⟨s.printError (cstr "Can't send command to server, not connected.\n"), none, 0⟩

/-- `handle_input_command`, where `/connect` finds the address `resolved` and gets as far as
`progress`.  `argv[0]` of a line without tokens is `NULL`. -/
def handleInputCommand (s : ClientState) (string : Bytes) (resolved : Option Bytes)
    (progress : ConnectProgress) : Except Fault InputOutcome :=
  match string with
  | [] => .ok ⟨s, none, 0⟩
  | ch :: _ =>
      if ch = chr '/' then
        match dstrlexParse string with
        | .error error =>
            .ok ⟨s.printError (cstr "Failed to parse command string '" ++
              (asCString string).bytes ++ cstr "': " ++ cstr (dstrlexErrstr error) ++ cstr "\n"),
              none, 0⟩
        | .ok [] => .error .nullPointer
        | .ok (name :: args) =>
            match runInputCommand s (name :: args) resolved progress name with
            | some outcome => outcome
            | none =>
                .ok ⟨s.printError (cstr "Unknown command '" ++ (asCString name).bytes ++
                  cstr "'\n"), none, 0⟩
      else sendInput s string

/-! ## Using only what the lexer returned -/

def HasToken (text : Bytes) : Prop := ∃ ch ∈ text, isLexSpace ch = false

instance (text : Bytes) : Decidable (HasToken text) := inferInstanceAs (Decidable (∃ _ ∈ _, _))

/-- `on_command` is run with exactly the tokens of the packet, and where there are none it is
not run and the state stays as it is. -/
def UsesTokens (s : Server) (onCommand : Option OnCommand) (peerId : Nat) (packet : ENetPacket) :
    Prop :=
  ∃ outcome, handlePacketInputCommand s onCommand peerId packet = .ok outcome ∧
    match dstrlexParse packet.text with
    | .ok (name :: args) => outcome.ran = some (name :: args)
    | _ => outcome.ran = none ∧ outcome.server = s

def serverCommand (name : Bytes) : Option (Client → Bytes → List Bytes → Except Fault Client) :=
  if name = cstr "SSET" then some scmdSset
  else if name = cstr "YARE" then some scmdYare
  else if name = cstr "PADD" then some scmdPadd
  else if name = cstr "PDEL" then some scmdPdel
  else if name = cstr "PSET" then some scmdPset
  else if name = cstr "MESG" then some scmdMesg
  else none

def OnlyComplains (c c' : Client) : Prop := ∃ lines, c' = { c with stderr := c.stderr ++ lines }

def StateOnlyComplains (s s' : ClientState) : Prop :=
  ∃ lines, s' = { s with stderr := s.stderr ++ lines }

/-- The handler of a line sees exactly its tokens, and where there are none, or none that
names a handler, the state stays as it is. -/
def LineUsesTokens (c : Client) (string : Bytes) : Prop :=
  match dstrlexParse string with
  | .ok (name :: args) =>
      match serverCommand name with
      | some scmd => handleServerDecodedMsg c string = scmd c string (name :: args)
      | none => ∃ c', handleServerDecodedMsg c string = .ok c' ∧ OnlyComplains c c'
  | _ => ∃ c', handleServerDecodedMsg c string = .ok c' ∧ OnlyComplains c c'

def InputUsesTokens (s : ClientState) (string : Bytes) (resolved : Option Bytes)
    (progress : ConnectProgress) : Prop :=
  if string.head? = some (chr '/') then
    match dstrlexParse string with
    | .ok (name :: args) =>
        match runInputCommand s (name :: args) resolved progress name with
        | some ran => handleInputCommand s string resolved progress = ran
        | none => ∃ o, handleInputCommand s string resolved progress = .ok o ∧
            StateOnlyComplains s o.state
    | _ => ∃ o, handleInputCommand s string resolved progress = .ok o ∧ StateOnlyComplains s o.state
  else
    ∀ o, handleInputCommand s string resolved progress = .ok o → StateOnlyComplains s o.state

theorem hasToken_iff (text : Bytes) : HasToken text ↔ dstrlexParse text ≠ .ok [] := by
  rw [ne_eq, dstrlexParse_eq_ok_nil_iff]
  simp [HasToken]

/-- The server relies on the lexer to succeed and to find a token. -/
theorem usesTokens_iff (s : Server) (onCommand : Option OnCommand) (peerId : Nat)
    (packet : ENetPacket) :
    UsesTokens s onCommand peerId packet ↔
      onCommand.isSome = true ∧ (∃ tokens, dstrlexParse packet.text = .ok tokens) ∧
        HasToken packet.text := by
  rw [hasToken_iff]
  unfold UsesTokens handlePacketInputCommand
  cases hparse : dstrlexParse packet.text with
  | error error => simp
  | ok dargs =>
      cases onCommand with
      | none => simp
      | some run =>
          cases dargs with
          | nil => simp
          | cons name args => simp

/-- The client relies on the lexer to find a token. -/
theorem lineUsesTokens_iff (c : Client) (string : Bytes) :
    LineUsesTokens c string ↔ HasToken string := by
  rw [hasToken_iff]
  unfold LineUsesTokens handleServerDecodedMsg
  cases hparse : dstrlexParse string with
  | error error =>
      exact iff_of_true ⟨_, rfl, _, rfl⟩ (by simp)
  | ok argv =>
      cases argv with
      | nil => simp
      | cons name args =>
          refine iff_of_true ?_ (by simp)
          dsimp only [serverCommand]
          split_ifs
          case neg => exact ⟨_, rfl, _, rfl⟩
          all_goals rfl

theorem hasToken_of_slash (rest : Bytes) : HasToken (chr '/' :: rest) :=
  ⟨chr '/', List.mem_cons_self, by decide⟩

theorem stateOnlyComplains_refl (s : ClientState) : StateOnlyComplains s s := ⟨[], by simp⟩

theorem stateOnlyComplains_printError (s : ClientState) (line : Bytes) :
    StateOnlyComplains s (s.printError line) := ⟨[line], rfl⟩

theorem stateOnlyComplains_sendInput {s : ClientState} {string : Bytes} {o : InputOutcome}
    (h : sendInput s string = .ok o) : StateOnlyComplains s o.state := by
  unfold sendInput at h
  split at h
  · split at h
    · cases h
      exact stateOnlyComplains_refl s
    · cases h
  · cases h
    exact stateOnlyComplains_printError s _
  · cases h
    exact stateOnlyComplains_printError s _

theorem handleInputCommand_of_ne_slash {s : ClientState} {string : Bytes}
    {resolved : Option Bytes} {progress : ConnectProgress} {o : InputOutcome}
    (hslash : string.head? ≠ some (chr '/'))
    (h : handleInputCommand s string resolved progress = .ok o) : StateOnlyComplains s o.state := by
  cases string with
  | nil =>
      cases h
      exact stateOnlyComplains_refl s
  | cons ch rest =>
      have hch : ch ≠ chr '/' := by simpa using hslash
      simp only [handleInputCommand, if_neg hch] at h
      exact stateOnlyComplains_sendInput h

/-- A command of the user begins with a byte that is part of a token. -/
theorem inputUsesTokens (s : ClientState) (string : Bytes) (resolved : Option Bytes)
    (progress : ConnectProgress) : InputUsesTokens s string resolved progress := by
  unfold InputUsesTokens
  split
  · rename_i hslash
    obtain ⟨rest, rfl⟩ := List.head?_eq_some_iff.1 hslash
    have htoken := (hasToken_iff _).1 (hasToken_of_slash rest)
    simp only [handleInputCommand, if_true]
    cases hparse : dstrlexParse (chr '/' :: rest) with
    | error error => exact ⟨_, rfl, stateOnlyComplains_printError s _⟩
    | ok argv =>
        cases argv with
        | nil => exact absurd hparse htoken
        | cons name args =>
            dsimp only
            cases runInputCommand s (name :: args) resolved progress name with
            | some ran => rfl
            | none => exact ⟨_, rfl, stateOnlyComplains_printError s _⟩
  · rename_i hslash
    exact fun _ hrun => handleInputCommand_of_ne_slash hslash hrun

/-- Of the three only the commands of the user are always lexed with care.  The server uses
the tokens of a packet rightly if the lexer succeeds and finds some (and `on_command` is
there to be run), and the client those of a line if it finds some or fails. -/
theorem usesTokens_iff_and_lineUsesTokens_iff (s : Server) (onCommand : Option OnCommand)
    (peerId : Nat) (packet : ENetPacket) (c : Client) (string : Bytes) (state : ClientState)
    (input : Bytes) (resolved : Option Bytes) (progress : ConnectProgress) :
    (UsesTokens s onCommand peerId packet ↔
      onCommand.isSome = true ∧ (∃ tokens, dstrlexParse packet.text = .ok tokens) ∧
        HasToken packet.text) ∧
    (LineUsesTokens c string ↔ HasToken string) ∧
    InputUsesTokens state input resolved progress :=
  ⟨usesTokens_iff s onCommand peerId packet, lineUsesTokens_iff c string,
    inputUsesTokens state input resolved progress⟩

/-- An open quote takes the server down, and a line of blanks the client; of a blank the server
calls `on_command` with no tokens. -/
theorem not_usesTokens_and_not_lineUsesTokens :
    ¬ UsesTokens .init (some fun _ _ => ([], none)) 0 ⟨(cstr "\"").memory, 1⟩ ∧
    ¬ UsesTokens .init (some fun _ _ => ([], none)) 0 ⟨(cstr " ").memory, 1⟩ ∧
    ¬ LineUsesTokens .connected (cstr " ") := by
  refine ⟨?_, ?_, ?_⟩
  · rintro ⟨outcome, hrun, -⟩
    cases hrun
  · rintro ⟨outcome, hrun, hran, -⟩
    cases hrun
    cases hran
  · rintro ⟨c', hrun, -⟩
    cases hrun

end Svc.Svcenet
