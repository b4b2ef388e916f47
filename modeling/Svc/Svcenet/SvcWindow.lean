import Svc.Svcenet.SvcState.Mirror
import Svc.Svcenet.SvcState.Updates
import Svc.Svcenet.SvcWindow.ObjectInfo

/-!
# The window of the wx client

`SVCWindow` takes the events that `SVCState` queued and brings the status bar, the console and
the panel of the server up to date.  A text is `none` if a number in it was never set.
-/

namespace Svc.Svcenet

open Svc.Common Svc.Lib

open SVCParser (ofBytes)

inductive LogLine where
  | log (text : WxString)
  | logError (text : WxString)
  | logCommand (text : WxString)
  | logConnection (text : Option WxString)

/-- A line of the raw log, by the function that wrote it; the error stream is not here. -/
inductive IoLine where
  | stdout (text : WxString)
  | stdin (text : WxString)

/-- `SVCWindow`, of its controls those that change -/
structure SVCWindow where
  stateConnectionState : SVCCon
  stateServerHost : WxString
  stateServerAddress : WxString
  stateServerPort : Option Nat
  firstStateChange : Bool
  statusText : Option WxString
  serverInfo : SVCObjectInfo
  logOutput : List LogLine
  ioOutput : List IoLine

def serverText (start : String) (host address : WxString) (port : Option Nat) : Option WxString :=
  port.map fun port => wxT start ++ host ++ wxT " (" ++ address ++ wxT ":" ++
    ofBytes false (decimal port) ++ wxT ")"

namespace SVCWindow

def init : SVCWindow where
  stateConnectionState := .disconnected
  stateServerHost := []
  stateServerAddress := []
  stateServerPort := none
  firstStateChange := true
  statusText := some (wxT "svcc not running")
  serverInfo := .init
  logOutput := []
  ioOutput := []

def log (w : SVCWindow) (text : WxString) : SVCWindow :=
  { w with logOutput := w.logOutput ++ [.log text] }

def logError (w : SVCWindow) (text : WxString) : SVCWindow :=
  { w with logOutput := w.logOutput ++ [.logError text] }

def logCommand (w : SVCWindow) (text : WxString) : SVCWindow :=
  { w with logOutput := w.logOutput ++ [.logCommand text] }

def logConnection (w : SVCWindow) (text : Option WxString) : SVCWindow :=
  { w with logOutput := w.logOutput ++ [.logConnection text] }

def connectionText (w : SVCWindow) (start : String) : Option WxString :=
  serverText start w.stateServerHost w.stateServerAddress w.stateServerPort

def handleConnectionState (w : SVCWindow) (connectionState : SVCCon) : SVCWindow :=
  let oldState := w.stateConnectionState
  let w := { w with stateConnectionState := connectionState }
  match connectionState with
  | .connected =>
      { w with statusText := w.connectionText "svcc running - connected to " }.logConnection
        (w.connectionText "You are now connected to ")
  | .connecting =>
      { w with statusText := w.connectionText "svcc running - connecting to " }.logConnection
        (w.connectionText "Connecting to ")
  | .disconnected =>
      let w := { w with statusText := some (wxT "svcc running - disconnected") }
      match oldState with
      | .connected =>
          { w with serverInfo := w.serverInfo.clearOptions }.logConnection
            (some (wxT "Disconnected"))
      | .connecting => w.logConnection (some (wxT "Connection failed"))
      | .disconnected => w

def handleEvent (wx : WxWidgets) (w : SVCWindow) : SVCEvent → SVCWindow
  | .connectionState connectionState => w.handleConnectionState connectionState
  | .muted flag =>
      if flag then w.log (wxT "You are now locally muted")
      else w.log (wxT "You are no longer locally muted")
  | .deafen flag =>
      if flag then w.log (wxT "You are now locally deafen")
      else w.log (wxT "You are no longer locally deafen")
  | .server host address port =>
      { w with stateServerHost := host, stateServerAddress := address, stateServerPort := port }
  | .serverSet key value => { w with serverInfo := w.serverInfo.setOption wx key value }
  | .unknown => w

def handleEvents (wx : WxWidgets) (w : SVCWindow) (events : List SVCEvent) : SVCWindow :=
  events.foldl (handleEvent wx) w

/-- `if (firstStateChange)` -/
def start (w : SVCWindow) : SVCWindow :=
  if w.firstStateChange then
    { w with statusText := some (wxT "svcc running - disconnected"), firstStateChange := false }
  else w

/-- Takes all events; `ready` is `isReady` of the state. -/
def updateSVCState (wx : WxWidgets) (ready : Bool) (w : SVCWindow) (state : SVCState) :
    SVCWindow × SVCState :=
  let drained := { state with eventList := [] }
  if ready then (w.start.handleEvents wx state.eventList, drained)
  else ({ w with statusText := some (wxT "svcc not running") }, drained)

/-- A line of `getLog` -/
def logLine (w : SVCWindow) (line : WxString) : SVCWindow :=
  if wxT "error: " <+: line then w.logError (line.drop (wxT "error: ").length) else w.log line

/-- `OnIOTimer` behind `processIO`; `svcOutput` is what `getSVCOutput` yields. -/
def onIOTimer (wx : WxWidgets) (ready : Bool) (w : SVCWindow) (svcOutput : WxArrayString)
    (state : SVCState) : SVCWindow × SVCState :=
  let w := { w with ioOutput := w.ioOutput ++ svcOutput.map .stdout }
  let w := state.stateLog.foldl logLine w
  w.updateSVCState wx ready { state with stateLog := [] }

/-- `OnCommand`, with `sendUserCommand`; what `svcc` makes of the command is up to it. -/
def onCommand (ready : Bool) (w : SVCWindow) (command : WxString) : SVCWindow :=
  if ready then
    let w := w.logCommand command
    { w with ioOutput := w.ioOutput ++ [.stdin command] }
  else w.logError (wxT "Can't execute command, svcc not running")

def stdoutLines (w : SVCWindow) : WxArrayString :=
  w.ioOutput.filterMap fun
    | .stdout text => some text
    | .stdin _ => none

end SVCWindow

/-! ## What the window shows -/

def SVCState.statusText (s : SVCState) : Option WxString :=
  match s.connectionState with
  | .connected =>
      serverText "svcc running - connected to " s.serverHost s.serverAddress s.serverPort
  | .connecting =>
      serverText "svcc running - connecting to " s.serverHost s.serverAddress s.serverPort
  | .disconnected => some (wxT "svcc running - disconnected")

structure SVCWindow.Displays (w : SVCWindow) (s : SVCState) : Prop where
  connection : w.stateConnectionState = s.connectionState
  host : w.stateServerHost = s.serverHost
  address : w.stateServerAddress = s.serverAddress
  port : w.stateServerPort = s.serverPort
  status : w.statusText = s.statusText
  values : w.serverInfo.values = s.serverInfo

/-- What the user sees of the state; once `svcc` is not `ready` any more, the status bar may
say so. -/
structure SVCWindow.Presents (ready : Bool) (w : SVCWindow) (s : SVCState) : Prop where
  status : w.statusText = s.statusText ∨
    ready = false ∧ w.statusText = some (wxT "svcc not running")
  values : w.serverInfo.values = s.serverInfo

/-- Two windows that differ in nothing but what was logged and what is selected. -/
structure SVCWindow.Alike (w w' : SVCWindow) : Prop where
  connection : w'.stateConnectionState = w.stateConnectionState
  host : w'.stateServerHost = w.stateServerHost
  address : w'.stateServerAddress = w.stateServerAddress
  port : w'.stateServerPort = w.stateServerPort
  first : w'.firstStateChange = w.firstStateChange
  status : w'.statusText = w.statusText
  values : w'.serverInfo.values = w.serverInfo.values

section Displays

variable {wx : WxWidgets} {w w' : SVCWindow} {s s' : SVCState} {events : List SVCEvent}

theorem SVCWindow.Displays.congr (h : w.Displays s) (halike : w.Alike w') : w'.Displays s where
  connection := halike.connection.trans h.connection
  host := halike.host.trans h.host
  address := halike.address.trans h.address
  port := halike.port.trans h.port
  status := halike.status.trans h.status
  values := halike.values.trans h.values

theorem SVCWindow.Displays.presents (h : w.Displays s) (ready : Bool) : w.Presents ready s :=
  ⟨.inl h.status, h.values⟩

theorem displays_init : SVCWindow.init.start.Displays .init := ⟨rfl, rfl, rfl, rfl, rfl, rfl⟩

theorem values_setOption (o : SVCObjectInfo) (name value : WxString) :
    (o.setOption wx name value).values = wxMapSet o.values name value := by
  unfold SVCObjectInfo.setOption
  split
  · rfl
  · dsimp only
    split_ifs
    · rw [displayOption_of_find wxMapFind_set_self]
    · rfl

/-! ### Windows that are alike -/

theorem alike_start (h : w.Alike w') : w.start.Alike w'.start := by
  unfold SVCWindow.start
  rw [h.first]
  split_ifs
  · exact ⟨h.connection, h.host, h.address, h.port, rfl, rfl, h.values⟩
  · exact h

theorem connectionText_of_alike (h : w.Alike w') (start : String) :
    w'.connectionText start = w.connectionText start := by
  rw [SVCWindow.connectionText, SVCWindow.connectionText, h.host, h.address, h.port]

theorem alike_handleConnectionState (h : w.Alike w') (state : SVCCon) :
    (w.handleConnectionState state).Alike (w'.handleConnectionState state) := by
  unfold SVCWindow.handleConnectionState
  cases state with
  | connected =>
      exact ⟨rfl, h.host, h.address, h.port, h.first, connectionText_of_alike h _, h.values⟩
  | connecting =>
      exact ⟨rfl, h.host, h.address, h.port, h.first, connectionText_of_alike h _, h.values⟩
  | disconnected =>
      rw [h.connection]
      cases w.stateConnectionState with
      | connected => exact ⟨rfl, h.host, h.address, h.port, h.first, rfl, rfl⟩
      | connecting | disconnected =>
          exact ⟨rfl, h.host, h.address, h.port, h.first, rfl, h.values⟩

theorem alike_handleEvent (h : w.Alike w') (event : SVCEvent) :
    (w.handleEvent wx event).Alike (w'.handleEvent wx event) := by
  cases event with
  | connectionState state => exact alike_handleConnectionState h state
  | muted flag | deafen flag =>
      cases flag with
      | false | true => exact ⟨h.connection, h.host, h.address, h.port, h.first, h.status, h.values⟩
  | server host address port => exact ⟨h.connection, rfl, rfl, rfl, h.first, h.status, h.values⟩
  | serverSet key value =>
      refine ⟨h.connection, h.host, h.address, h.port, h.first, h.status, ?_⟩
      calc (w'.serverInfo.setOption wx key value).values
          = wxMapSet w.serverInfo.values key value := by rw [values_setOption, h.values]
        _ = (w.serverInfo.setOption wx key value).values := (values_setOption _ _ _).symm
  | unknown => exact h

theorem alike_handleEvents (h : w.Alike w') (events : List SVCEvent) :
    (w.handleEvents wx events).Alike (w'.handleEvents wx events) := by
  induction events generalizing w w' with
  | nil => exact h
  | cons event events ih => exact ih (alike_handleEvent h event)

theorem handleEvents_append (events events' : List SVCEvent) :
    w.handleEvents wx (events ++ events') =
      (w.handleEvents wx events).handleEvents wx events' := List.foldl_append

theorem firstStateChange_handleEvents (events : List SVCEvent) :
    (w.handleEvents wx events).firstStateChange = w.firstStateChange := by
  induction events generalizing w with
  | nil => rfl
  | cons event events ih =>
      refine (ih :).trans ?_
      cases event with
      | connectionState state =>
          unfold SVCWindow.handleEvent SVCWindow.handleConnectionState
          cases state with
          | connected | connecting => rfl
          | disconnected => cases w.stateConnectionState <;> rfl
      | muted flag | deafen flag => cases flag <;> rfl
      | server | serverSet | unknown => rfl

theorem firstStateChange_start : w.start.firstStateChange = false := by
  unfold SVCWindow.start
  split_ifs with hfirst
  · rfl
  · exact eq_false_of_ne_true hfirst

/-- A window that has started does not start again. -/
theorem start_handleEvents_start :
    (w.start.handleEvents wx events).start = w.start.handleEvents wx events := by
  have hfirst : (w.start.handleEvents wx events).firstStateChange = false :=
    (firstStateChange_handleEvents events).trans firstStateChange_start
  rw [SVCWindow.start, hfirst]
  exact if_neg nofun

theorem consistent_handleEvent (hwx : wx.Lawful) (h : w.serverInfo.Consistent) (event : SVCEvent) :
    (w.handleEvent wx event).serverInfo.Consistent := by
  cases event with
  | connectionState state =>
      unfold SVCWindow.handleEvent SVCWindow.handleConnectionState
      cases state with
      | connected | connecting => exact h
      | disconnected =>
          cases w.stateConnectionState with
          | connected => exact consistent_clearOptions w.serverInfo
          | connecting | disconnected => exact h
  | muted flag | deafen flag =>
      cases flag with
      | false | true => exact h
  | server host address port => exact h
  | serverSet key value => exact consistent_setOption hwx h key value
  | unknown => exact h

theorem consistent_handleEvents (hwx : wx.Lawful) (h : w.serverInfo.Consistent)
    (events : List SVCEvent) :
    (w.handleEvents wx events).serverInfo.Consistent := by
  induction events generalizing w with
  | nil => exact h
  | cons event events ih => exact ih (consistent_handleEvent hwx h event)

/-! ### What is written -/

structure SVCWindow.Quiet (w w' : SVCWindow) : Prop where
  ioOutput : w'.ioOutput = w.ioOutput
  logError : ∀ text, .logError text ∈ w'.logOutput → .logError text ∈ w.logOutput

theorem quiet_of_append {line : LogLine} (hio : w'.ioOutput = w.ioOutput)
    (hlog : w'.logOutput = w.logOutput ++ [line]) (hline : ∀ text, line ≠ .logError text) :
    w.Quiet w' where
  ioOutput := hio
  logError text hmem := by
    rw [hlog, List.mem_append, List.mem_singleton] at hmem
    rcases hmem with hmem | heq
    · exact hmem
    · exact absurd heq.symm (hline text)

theorem quiet_handleEvent (w : SVCWindow) (event : SVCEvent) :
    w.Quiet (w.handleEvent wx event) := by
  cases event with
  | connectionState state =>
      cases state with
      | connected | connecting => exact quiet_of_append rfl rfl (fun _ => nofun)
      | disconnected =>
          unfold SVCWindow.handleEvent SVCWindow.handleConnectionState
          cases w.stateConnectionState with
          | connected | connecting => exact quiet_of_append rfl rfl (fun _ => nofun)
          | disconnected => exact ⟨rfl, fun _ => id⟩
  | muted flag | deafen flag =>
      cases flag with
      | false | true => exact quiet_of_append rfl rfl (fun _ => nofun)
  | server | serverSet | unknown => exact ⟨rfl, fun _ => id⟩

theorem quiet_handleEvents (w : SVCWindow) (events : List SVCEvent) :
    w.Quiet (w.handleEvents wx events) := by
  induction events generalizing w with
  | nil => exact ⟨rfl, fun _ => id⟩
  | cons event events ih =>
      have hfirst : w.Quiet (w.handleEvent wx event) := quiet_handleEvent w event
      have hrest := ih (w.handleEvent wx event)
      exact ⟨hrest.ioOutput.trans hfirst.ioOutput,
        fun text hmem => hfirst.logError text (hrest.logError text hmem)⟩

theorem quiet_start (w : SVCWindow) : w.Quiet w.start := by
  unfold SVCWindow.start
  split_ifs
  · exact ⟨rfl, fun _ => id⟩
  · exact ⟨rfl, fun _ => id⟩

/-- A line of the log changes nothing that is shown. -/
theorem alike_logLine (w : SVCWindow) (line : WxString) :
    w.Alike (w.logLine line) ∧ (w.logLine line).serverInfo = w.serverInfo ∧
      (w.logLine line).ioOutput = w.ioOutput := by
  unfold SVCWindow.logLine
  split_ifs
  · exact ⟨⟨rfl, rfl, rfl, rfl, rfl, rfl, rfl⟩, rfl, rfl⟩
  · exact ⟨⟨rfl, rfl, rfl, rfl, rfl, rfl, rfl⟩, rfl, rfl⟩

theorem SVCWindow.Alike.trans {w'' : SVCWindow} (h : w.Alike w') (h' : w'.Alike w'') :
    w.Alike w'' where
  connection := h'.connection.trans h.connection
  host := h'.host.trans h.host
  address := h'.address.trans h.address
  port := h'.port.trans h.port
  first := h'.first.trans h.first
  status := h'.status.trans h.status
  values := h'.values.trans h.values

theorem alike_logLines (w : SVCWindow) (lines : WxArrayString) :
    w.Alike (lines.foldl SVCWindow.logLine w) ∧
      (lines.foldl SVCWindow.logLine w).serverInfo = w.serverInfo ∧
        (lines.foldl SVCWindow.logLine w).ioOutput = w.ioOutput := by
  induction lines generalizing w with
  | nil => exact ⟨⟨rfl, rfl, rfl, rfl, rfl, rfl, rfl⟩, rfl, rfl⟩
  | cons line lines ih =>
      obtain ⟨halike, hinfo, hio⟩ := alike_logLine w line
      obtain ⟨halike', hinfo', hio'⟩ := ih (w.logLine line)
      exact ⟨halike.trans halike', hinfo'.trans hinfo, hio'.trans hio⟩

/-- An error in the console stood in the log. -/
theorem logError_logLines (w : SVCWindow) (lines : WxArrayString) (text : WxString)
    (htext : .logError text ∈ (lines.foldl SVCWindow.logLine w).logOutput) :
    .logError text ∈ w.logOutput ∨ wxT "error: " ++ text ∈ lines := by
  induction lines generalizing w with
  | nil => exact .inl htext
  | cons line lines ih =>
      rcases ih (w.logLine line) htext with hmem | hmem
      · rw [SVCWindow.logLine] at hmem
        split_ifs at hmem with herror
        · rw [SVCWindow.logError, List.mem_append, List.mem_singleton] at hmem
          rcases hmem with hmem | heq
          · exact .inl hmem
          · obtain ⟨rest, rfl⟩ := herror
            rw [List.drop_left] at heq
            obtain rfl := LogLine.logError.inj heq
            exact .inr List.mem_cons_self
        · rw [SVCWindow.log, List.mem_append, List.mem_singleton] at hmem
          rcases hmem with hmem | heq
          · exact .inl hmem
          · cases heq
      · exact .inr (List.mem_cons_of_mem _ hmem)

theorem serverInfo_start (w : SVCWindow) : w.start.serverInfo = w.serverInfo := by
  unfold SVCWindow.start
  split_ifs <;> rfl

structure SVCWindow.Writes (w : SVCWindow) (svcOutput : WxArrayString) (state : SVCState)
    (w' : SVCWindow) : Prop where
  ioOutput : w'.ioOutput = w.ioOutput ++ svcOutput.map .stdout
  logError : ∀ text, .logError text ∈ w'.logOutput →
    .logError text ∈ w.logOutput ∨ wxT "error: " ++ text ∈ state.stateLog

structure SVCWindow.Refreshes (wx : WxWidgets) (w : SVCWindow) (svcOutput : WxArrayString)
    (state : SVCState) (w' : SVCWindow) : Prop extends w.Writes svcOutput state w' where
  alike : (w.start.handleEvents wx state.eventList).Alike w'
  start : w'.start = w'
  consistent : w.serverInfo.Consistent → w'.serverInfo.Consistent

/-- The lines of the log are written before the events are handled. -/
theorem writes_logLines (w : SVCWindow) (svcOutput : WxArrayString) (state : SVCState) :
    let logged := state.stateLog.foldl SVCWindow.logLine
      { w with ioOutput := w.ioOutput ++ svcOutput.map .stdout }
    w.Alike logged ∧ logged.serverInfo = w.serverInfo ∧ w.Writes svcOutput state logged := by
  have hprinted : w.Alike { w with ioOutput := w.ioOutput ++ svcOutput.map .stdout } :=
    ⟨rfl, rfl, rfl, rfl, rfl, rfl, rfl⟩
  obtain ⟨hlogged, hinfo, hio⟩ :=
    alike_logLines { w with ioOutput := w.ioOutput ++ svcOutput.map .stdout } state.stateLog
  exact ⟨hprinted.trans hlogged, hinfo, hio, logError_logLines _ _⟩

theorem onIOTimer_eq (hwx : wx.Lawful) (w : SVCWindow) (svcOutput : WxArrayString)
    (state : SVCState) :
    ∃ w', w.onIOTimer wx true svcOutput state = (w', state.drained) ∧
      w.Refreshes wx svcOutput state w' := by
  refine ⟨_, rfl, ?_⟩
  obtain ⟨hlogged, hinfo, hwrites⟩ := writes_logLines w svcOutput state
  revert hlogged hinfo hwrites
  generalize state.stateLog.foldl SVCWindow.logLine _ = logged
  intro hlogged hinfo hwrites
  have hstart := quiet_start logged
  have hevents : logged.start.Quiet (logged.start.handleEvents wx state.eventList) :=
    quiet_handleEvents logged.start state.eventList
  refine ⟨⟨?_, fun text hmem => ?_⟩, alike_handleEvents (alike_start hlogged) _,
    start_handleEvents_start, fun hw => ?_⟩
  · exact hevents.ioOutput.trans (hstart.ioOutput.trans hwrites.ioOutput)
  · exact hwrites.logError text (hstart.logError text (hevents.logError text hmem))
  · refine consistent_handleEvents hwx ?_ _
    rw [serverInfo_start, hinfo]
    exact hw

/-- Once `svcc` is gone, nothing else changes but the status bar. -/
theorem onIOTimer_gone (w : SVCWindow) (svcOutput : WxArrayString) (state : SVCState) :
    ∃ w', w.onIOTimer wx false svcOutput state = (w', state.drained) ∧
      w.Writes svcOutput state w' ∧ w'.serverInfo = w.serverInfo ∧
        w'.firstStateChange = w.firstStateChange ∧
          w'.statusText = some (wxT "svcc not running") := by
  refine ⟨_, rfl, ?_⟩
  obtain ⟨hlogged, hinfo, hwrites⟩ := writes_logLines w svcOutput state
  exact ⟨⟨hwrites.ioOutput, hwrites.logError⟩, hinfo, hlogged.first, rfl⟩

/-! ### Updates -/

theorem statusText_of_sameServer (hsame : s.SameServer s')
    (hcon : s'.connectionState = s.connectionState) : s'.statusText = s.statusText := by
  rw [SVCState.statusText, SVCState.statusText, hcon, hsame.host, hsame.address, hsame.port]

/-- An update and its event do the same to the window. -/
theorem displays_update (h : w.Displays s) {u : SVCUpdate} (hu : s.Admits u)
    (hnil : s.connectionState ≠ .connected → s.serverInfo = []) (hsteady : s.Steady (s.update u)) :
    (w.handleEvents wx u.event).Displays (s.update u) := by
  cases u with
  | nothing | log => exact ⟨h.connection, h.host, h.address, h.port, h.status, h.values⟩
  | muted flag | deafen flag =>
      cases flag with
      | false | true => exact ⟨h.connection, h.host, h.address, h.port, h.status, h.values⟩
  | set key value =>
      refine ⟨h.connection, h.host, h.address, h.port, h.status, ?_⟩
      exact (values_setOption _ key value).trans (congrArg (wxMapSet · key value) h.values)
  | server host address port =>
      refine ⟨h.connection, rfl, rfl, rfl, h.status.trans ?_, h.values⟩
      by_cases hdown : s.connectionState = .disconnected
      · have hdown' : (s.update (.server host address port)).connectionState = .disconnected :=
          hdown
        rw [SVCState.statusText, SVCState.statusText, hdown, hdown']
      · exact (statusText_of_sameServer (hsteady hdown hdown) rfl).symm
  | enter state =>
      have hne := hu state rfl
      cases state with
      | connected | connecting =>
          refine ⟨rfl, h.host, h.address, h.port, ?_, h.values⟩
          show serverText _ w.stateServerHost w.stateServerAddress w.stateServerPort = _
          rw [h.host, h.address, h.port]
          rfl
      | disconnected =>
          have hcon := h.connection
          cases hold : s.connectionState with
          | disconnected => exact absurd hold.symm hne
          | connected =>
              rw [hold] at hcon
              simp only [SVCWindow.handleEvents, SVCUpdate.event, List.foldl_cons, List.foldl_nil,
                SVCWindow.handleEvent, SVCWindow.handleConnectionState, hcon]
              exact ⟨rfl, h.host, h.address, h.port, rfl, rfl⟩
          | connecting =>
              -- nothing was set before there was a connection
              rw [hold] at hcon
              have hvalues := h.values.trans (hnil (by rw [hold]; nofun))
              simp only [SVCWindow.handleEvents, SVCUpdate.event, List.foldl_cons, List.foldl_nil,
                SVCWindow.handleEvent, SVCWindow.handleConnectionState, hcon]
              exact ⟨rfl, h.host, h.address, h.port, rfl, hvalues⟩

end Displays

end Svc.Svcenet
