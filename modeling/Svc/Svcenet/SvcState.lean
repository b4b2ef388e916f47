import Svc.Lib.Dict
import Svc.Svcenet.WxWidgets

/-!
# What the wx client knows

`SVCState` carries out the lines that `svcc` prints: it keeps what they say, logs the ones that
are wrong, and queues an event for each change.  Of the commands of the server `parseCommand`
knows only `SSET`; the handlers that it never calls, and the peers that only they would fill,
are not here.
-/

namespace Svc.Svcenet

open Svc.Common Svc.Lib

inductive SVCCon where
  | disconnected
  | connected
  | connecting
  deriving DecidableEq

/-- `SVCEvent`, by its type; `unknown` is the event that says nothing. -/
inductive SVCEvent where
  | unknown
  | muted (flag : Bool)
  | deafen (flag : Bool)
  | server (host address : WxString) (port : Option Nat)
  | connectionState (connectionState : SVCCon)
  | serverSet (key value : WxString)
  deriving DecidableEq

structure WxMapEntry where
  key : WxString
  value : WxString
  deriving DecidableEq

/-- `SVCServerInfo`, and any other map from strings to strings -/
abbrev WxMap := List WxMapEntry

/-- `map[key] = value` -/
def wxMapSet (map : WxMap) (key value : WxString) : WxMap :=
  Dict.set WxMapEntry.key key (fun entry => { entry with value }) ⟨key, value⟩ map

def wxMapFind (map : WxMap) (key : WxString) : Option WxString :=
  (Dict.find WxMapEntry.key key map).map WxMapEntry.value

/-! ## The state -/

/-- `SVCState`, without the process and its output -/
structure SVCState where
  locallyMuted : Bool
  locallyDeafen : Bool
  serverHost : WxString
  serverAddress : WxString
  /-- `none` while it was not set, or from a variable that was not -/
  serverPort : Option Nat
  connectionState : SVCCon
  serverInfo : WxMap
  stateLog : WxArrayString
  eventList : List SVCEvent
  deriving DecidableEq

namespace SVCState

def init : SVCState where
  locallyMuted := false
  locallyDeafen := false
  serverHost := []
  serverAddress := []
  serverPort := none
  connectionState := .disconnected
  serverInfo := []
  stateLog := []
  eventList := []

def log (s : SVCState) (line : String) : SVCState := { s with stateLog := s.stateLog ++ [wxT line] }

def append (s : SVCState) (event : SVCEvent) : SVCState :=
  { s with eventList := s.eventList ++ [event] }

/-! ## Commands -/

def handleCommandSset (s : SVCState) (cmd : WxArrayString) : SVCState :=
  match cmd with
  | [_, key, value] =>
      { s with serverInfo := wxMapSet s.serverInfo key value }.append (.serverSet key value)
  | _ => s.log "error: Invalid number of arguments in SSET"

/-- What `0` and `1` do to a flag that is `old`; `change` sets it. -/
def handleFlag (s : SVCState) (name : String) (old : Bool) (change : Bool → SVCState)
    (event : Bool → SVCEvent) (cmd : WxArrayString) : SVCState :=
  match cmd with
  | [_, flag] =>
      if flag = wxT "0" ∧ old = true then (change false).append (event false)
      else if flag = wxT "1" ∧ old = false then (change true).append (event true)
      else s
  | _ => s.log ("error: Invalid number of arguments in " ++ name)

def handleStateMuted (s : SVCState) (cmd : WxArrayString) : SVCState :=
  s.handleFlag ":MUTED" s.locallyMuted (fun flag => { s with locallyMuted := flag }) .muted cmd

def handleStateDeafen (s : SVCState) (cmd : WxArrayString) : SVCState :=
  s.handleFlag ":DEAFEN" s.locallyDeafen (fun flag => { s with locallyDeafen := flag }) .deafen cmd

def enter (s : SVCState) (state : SVCCon) : SVCState :=
  { s with connectionState := state }.append (.connectionState state)

/-- A state that is not new is an invalid one. -/
def handleStateConnection (s : SVCState) (cmd : WxArrayString) : SVCState :=
  match cmd with
  | [_, state] =>
      if state = wxT "connecting" ∧ s.connectionState ≠ .connecting then s.enter .connecting
      else if state = wxT "connected" ∧ s.connectionState ≠ .connected then s.enter .connected
      else if state = wxT "disconnected" ∧ s.connectionState ≠ .disconnected then
        { s.enter .disconnected with serverInfo := [] }
      else s.log "error: Invalid connection state"
  | _ => s.log "error: Invalid number of arguments in :DEAFEN"

def handleStateServer (wx : WxWidgets) (s : SVCState) (cmd : WxArrayString) : SVCState :=
  match cmd with
  | [_, host, address, port] =>
      let serverPort := (wx.toULong port).map (· % 2 ^ 32)
      { s with serverHost := host, serverAddress := address, serverPort }.append
        (.server host address serverPort)
  | _ => s.log "error: Invalid number of arguments in :SERVER"

/-! ## Lines -/

/-- `s[0]`; the character behind the last one is 0. -/
def firstChar (s : WxString) : WxChar := s.headD 0

def runCommand (wx : WxWidgets) (s : SVCState) (cmd : WxArrayString) : SVCState :=
  match cmd with
  | [] => s
  | name :: _ =>
      if firstChar name = wxChr ':' then
        if name = wxT ":STATE" then s.handleStateConnection cmd
        else if name = wxT ":MUTED" then s.handleStateMuted cmd
        else if name = wxT ":DEAFEN" then s.handleStateDeafen cmd
        else if name = wxT ":SERVER" then s.handleStateServer wx cmd
        else s
      else if name = wxT "SSET" then s.handleCommandSset cmd
      else s

def parseCommand (wx : WxWidgets) (s : SVCState) (command : WxString) : SVCState :=
  match SVCParser.parse command [] with
  | (.escape, _) => s.log "error: SVC command has an unterminated escape sequence"
  | (.string, _) => s.log "error: SVC command has an unterminated string"
  | (.ok, cmd) => s.runCommand wx cmd

/-! ## Lines of bytes -/

/-- A line as it stands in the stream -/
def readLine (wx : WxWidgets) (signed : Bool) (s : SVCState) (line : Bytes) : SVCState :=
  s.parseCommand wx (SVCParser.ofBytes signed line)

def readLines (wx : WxWidgets) (signed : Bool) (s : SVCState) (lines : List Bytes) : SVCState :=
  lines.foldl (readLine wx signed) s

end SVCState

open SVCParser

section Lines

variable {wx : WxWidgets} {signed : Bool} {s : SVCState} {line : Bytes}

theorem ofBytes_injective (signed : Bool) : Function.Injective (ofBytes signed) := by
  intro x y h
  rw [← toBytes_ofBytes signed x, h, toBytes_ofBytes]

def isAscii (text : String) : Bool := text.toList.all fun c => decide (c.toNat < 128)

theorem ofBytes_cstr (signed : Bool) {text : String} (h : isAscii text = true) :
    ofBytes signed (cstr text) = wxT text := by
  rw [ofBytes, cstr, wxT, List.map_map]
  exact List.map_congr_left fun c hc =>
    byteChar_chr (of_decide_eq_true (List.all_eq_true.1 h c hc))

theorem ofBytes_eq_wxT_iff {text : String} (h : isAscii text = true) (x : Bytes) :
    ofBytes signed x = wxT text ↔ x = cstr text := by
  rw [← ofBytes_cstr signed h, (ofBytes_injective signed).eq_iff]

/-- A line that the lexer on bytes can read is carried out with the same tokens. -/
theorem readLine_of_tokens {tokens : List Bytes} (h : dstrlexParse line = .ok tokens) :
    s.readLine wx signed line = s.runCommand wx (tokens.map (ofBytes signed)) := by
  obtain ⟨hclass, htokens⟩ := parse_ofBytes signed line []
  have hparse : parse (ofBytes signed line) [] = (.ok, tokens.map (ofBytes signed)) := by
    rw [h] at hclass
    exact Prod.ext hclass (htokens tokens h)
  rw [SVCState.readLine, SVCState.parseCommand, hparse]

/-- Any other line is logged. -/
theorem readLine_of_error {error : DstrlexError} (h : dstrlexParse line = .error error) :
    ∃ text, s.readLine wx signed line = s.log text := by
  obtain ⟨hclass, -⟩ := parse_ofBytes signed line []
  rw [h] at hclass
  rw [SVCState.readLine, SVCState.parseCommand]
  cases hparse : parse (ofBytes signed line) [] with
  | mk error' cmd =>
      rw [hparse] at hclass
      obtain rfl : error' = errorOf (.error error) := hclass
      cases error with
      | escape => exact ⟨_, rfl⟩
      | string => exact ⟨_, rfl⟩

@[simp] theorem readLines_nil : s.readLines wx signed [] = s := rfl

@[simp] theorem readLines_cons (lines : List Bytes) :
    s.readLines wx signed (line :: lines) = (s.readLine wx signed line).readLines wx signed lines :=
      rfl

theorem readLines_append (lines lines' : List Bytes) :
    s.readLines wx signed (lines ++ lines') =
      (s.readLines wx signed lines).readLines wx signed lines' :=
  List.foldl_append

end Lines

end Svc.Svcenet
