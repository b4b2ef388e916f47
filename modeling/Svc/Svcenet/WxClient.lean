import Svc.Svcenet.SvcWindow

/-!
# `svcc` behind the wx client

`svcc` prints into a pipe.  A thread reads it character by character and keeps the lines; the
timer of the window takes them out one by one.  Their steps, and those of the user, come in any
order, and `svcc` may end at any time.  Its error stream is not here.
-/

namespace Svc.Svcenet

open Svc.Common Svc.Lib

open SVCParser (byteChar)

/-! ## What `svcc` prints -/

/-- What is printed apart from the answers of the main thread: by `libsvc` on any thread, and by
the handler of SIGINT. -/
inductive Notice where
  | emptiedByPop
  | popedUseless
  | oldPacket
  | emptiedByGet
  | starving
  | noAudio
  | portaudioInit
  | portaudioClose
  | portaudioDone
  | sigint

def Notice.text : Notice → String
  | .emptiedByPop => "entering starvation from popping useless."
  | .popedUseless => "poped useless stuff"
  | .oldPacket => "a realy old packet arived"
  | .emptiedByGet => "entering starvation from getting data"
  | .starving => "starving..."
  | .noAudio => "no audio from peer"
  | .portaudioInit => "Initializing portaudio..."
  | .portaudioClose => "Closing portaudio..."
  | .portaudioDone => "done."
  | .sigint => "Caught SIGINT, terminating"

/-- `svcc` leaves its main loop, and then ends. -/
inductive SvccLife where
  | running
  | exiting
  | gone
  deriving DecidableEq

/-! ## The two programs -/

/-- What a list of strings keeps of a string -/
def wxCString (s : WxString) : WxString := s.takeWhile (· ≠ 0)

structure SVCReaderThread where
  buffer : WxString
  output : WxArrayString

/-- The body of the loop of `Entry` -/
def SVCReaderThread.entry (t : SVCReaderThread) (c : WxChar) : SVCReaderThread :=
  if c = wxChr '\n' then { t with output := t.output ++ [wxCString t.buffer], buffer := [] }
  else { t with buffer := t.buffer ++ [c] }

def SVCState.openSvc (s : SVCState) : SVCState := (s.log "Starting svcc...").log "svcc running"

structure WxClient where
  svcc : ClientState
  life : SvccLife
  /-- what the main thread of `svcc` is about to print, a `printf` each -/
  printing : List Bytes
  /-- all that `svcc` printed -/
  stdout : Bytes
  /-- what of it nobody has read -/
  pipe : Bytes
  stdoutThread : SVCReaderThread
  svcOutput : WxArrayString
  /-- `killSVC` was called -/
  killed : Bool
  state : SVCState
  window : SVCWindow

inductive WxEvent where
  /-- the main thread of `svcc` handles an event -/
  | svcc (event : ClientEvent)
  /-- it prints what it has to say of it -/
  | print
  | notice (notice : Notice)
  /-- it leaves its main loop: `/quit`, the end of its input, or SIGINT -/
  | exit
  | gone
  /-- `stdoutThread` reads a character; it waits while there is none -/
  | getC
  /-- `processIO` takes a line out -/
  | processLine
  /-- `processIO` finds that there is no process -/
  | kill
  /-- the rest of `OnIOTimer` -/
  | timer
  /-- the user enters a command -/
  | command (text : WxString)
  /-- the user selects a key -/
  | select (item : Option Nat)

namespace WxClient

def init : WxClient where
  svcc := .init
  life := .running
  printing := []
  stdout := []
  pipe := []
  stdoutThread := ⟨[], []⟩
  svcOutput := []
  killed := false
  state := SVCState.init.openSvc
  window := .init

def ready (x : WxClient) : Bool := !x.killed && x.life != .gone

/-! ### Steps of `svcc` -/

def put (x : WxClient) (text : Bytes) : WxClient :=
  { x with stdout := x.stdout ++ text, pipe := x.pipe ++ text }

def flush (x : WxClient) : WxClient := { x.put x.printing.flatten with printing := [] }

/-- An event is handled when all is printed that was to be said of the one before. -/
def handle (x : WxClient) (event : ClientEvent) : Except Fault WxClient :=
  match x.life with
  | .running => do
      let svcc ← handleClientEvent x.svcc event
      return { x.flush with svcc, printing := svcc.stdout.drop x.svcc.stdout.length }
  | .exiting | .gone => .ok x

def print (x : WxClient) : WxClient :=
  match x.printing with
  | [] => x
  | text :: printing => { x.put text with printing }

def notice (x : WxClient) (notice : Notice) : WxClient :=
  match x.life with
  | .running | .exiting => x.put (cstr notice.text ++ cstr "\n")
  | .gone => x

def exit (x : WxClient) : WxClient :=
  match x.life with
  | .running => { x.flush with life := .exiting, printing := [cstr ":STATE exiting\n"] }
  | .exiting | .gone => x

/-- Whether what `main` frees at its end goes well or not, the process ends. -/
def die (x : WxClient) : WxClient :=
  match x.life with
  | .exiting => { x.flush with life := .gone }
  | .running | .gone => x

/-! ### Steps of the wx client -/

variable (wx : WxWidgets) (signed : Bool)

def getC (x : WxClient) : WxClient :=
  match x.killed, x.pipe with
  | false, b :: pipe => { x with pipe, stdoutThread := x.stdoutThread.entry (byteChar signed b) }
  | true, _ | _, [] => x

def processLine (x : WxClient) : WxClient :=
  match x.killed, x.stdoutThread.output with
  | false, line :: output =>
      { x with
        stdoutThread := { x.stdoutThread with output }
        svcOutput := x.svcOutput ++ [line]
        state := x.state.parseCommand wx line }
  | true, _ | _, [] => x

/-- `killSVC`, when the process has ended -/
def kill (x : WxClient) : WxClient := if x.life = .gone then { x with killed := true } else x

def timer (x : WxClient) : WxClient :=
  let (window, state) := x.window.onIOTimer wx x.ready x.svcOutput x.state
  { x with window, state, svcOutput := [] }

def command (x : WxClient) (text : WxString) : WxClient :=
  { x with window := x.window.onCommand x.ready text }

def select (x : WxClient) (item : Option Nat) : WxClient :=
  { x with window := { x.window with serverInfo := x.window.serverInfo.onItemSelect item } }

def step (x : WxClient) : WxEvent → Except Fault WxClient
  | .svcc event => x.handle event
  | .print => .ok x.print
  | .notice notice => .ok (x.notice notice)
  | .exit => .ok x.exit
  | .gone => .ok x.die
  | .getC => .ok (x.getC signed)
  | .processLine => .ok (x.processLine wx)
  | .kill => .ok x.kill
  | .timer => .ok (x.timer wx)
  | .command text => .ok (x.command text)
  | .select item => .ok (x.select item)

/-- The two programs as a machine; a fault of `svcc` in its main loop ends the run. -/
def machine : Machine (Except Fault WxClient) WxEvent Unit := .fallible (step wx signed)

def after (events : List WxEvent) : Except Fault WxClient :=
  (machine wx signed).run (.ok .init) events

end WxClient

def svccEvents (events : List WxEvent) : List ClientEvent :=
  events.flatMap fun
    | .svcc event => [event]
    | .print | .notice _ | .exit | .gone | .getC | .processLine | .kill | .timer | .command _
    | .select _ => []

end Svc.Svcenet
