import Svc.Libsvc.PacketQueue.Blocking
import Svc.Libsvc.PacketQueue.Fifo
import Svc.Libsvc.PacketTime

/-!
# The audio that goes out

`libsvc.c` has two threads.  The audio system calls `audio_api_callback`, which pushes
the recorded frame on `packet_queue`; `send_network_thread_function` pops a frame,
encodes it and gives the packet to the callback of the program.  A third thread may
call `svc_close`.  The encoder is not part of the repository: it is a parameter.
-/

namespace Svc.Libsvc

open Svc.Lib

structure SvcOptions where
  frameSize : Nat
  sampleRate : Nat
  bytePerPacket : Nat

structure SvcNetworkPacket where
  data : Nat → UInt8
  dataLen : Nat
  time : PacketTime

variable {σ ε : Type} {size : Nat}

/-- What `libsvc.c` is given: its options, `svc_encoder_encode`, which leaves an encoder and
the block of the packet, and what `malloc` returns as the `k`-th of these blocks. -/
structure SendEnv (σ ε : Type) where
  options : SvcOptions
  encode : ε → SvcAudioData σ → (Nat → UInt8) → ε × (Nat → UInt8)
  memory : Nat → Nat → UInt8

/-- What `create_network_packet_from_audio` changes; `made` counts its calls. -/
structure Packetizer (ε : Type) where
  svcEncoder : ε
  svcTime : PacketTime
  made : Nat

def createNetworkPacketFromAudio (env : SendEnv σ ε) (c : Packetizer ε)
    (audioData : SvcAudioData σ) : Packetizer ε × SvcNetworkPacket :=
  let (svcEncoder, data) := env.encode c.svcEncoder audioData (env.memory c.made)
  let svcTime := timeInc c.svcTime
  (⟨svcEncoder, svcTime, c.made + 1⟩, ⟨data, env.options.bytePerPacket, svcTime⟩)

def packetMachine (env : SendEnv σ ε) :
    Machine (Packetizer ε) (SvcAudioData σ) SvcNetworkPacket where
  step := createNetworkPacketFromAudio env

/-- Where `send_network_thread_function` is: before the named code. -/
inductive SendPoint where
  | test
  /-- in `packet_queue_pop_data` -/
  | pop
  | create
  | send (packet : SvcNetworkPacket)
  | returned

/-- Where `svc_close` is: before the named code. -/
inductive ClosePoint where
  | notCalled
  | closeAudio
  | destroyEncoder
  | destroyQueue
  | freeOptions
  | returned
  deriving DecidableEq

def ClosePoint.encoderFreed : ClosePoint → Bool
  | .destroyQueue | .freeOptions | .returned => true
  | .notCalled | .closeAudio | .destroyEncoder => false

def ClosePoint.queueFreed : ClosePoint → Bool
  | .freeOptions | .returned => true
  | .notCalled | .closeAudio | .destroyEncoder | .destroyQueue => false

/-- The variables of `libsvc.c` and where its threads are. -/
structure Outgoing (σ ε : Type) (size : Nat) where
  /-- `packet_queue`, and where the two threads are in its calls -/
  threads : Threads σ size
  /-- `svc_encoder` and `svc_time` -/
  packetizer : Packetizer ε
  svcRunning : Bool
  /-- the frame of `send_network_thread_function` -/
  audioData : SvcAudioData σ
  sending : SendPoint
  closing : ClosePoint
  /-- what `svc_send_callback` was called with -/
  sent : List SvcNetworkPacket
  /-- the sending thread has used the queue or the encoder after it was freed -/
  fault : Bool

/-- `svc_init`, with a queue of any size; `uninit` is what `malloc` left in the frames of the
queue and `uninitFrame` in the one of the sending thread. -/
def svcInit (env : SendEnv σ ε) (queueSize : Nat) (hsize : 0 < queueSize) (svcEncoder : ε)
    (uninit : Nat → Vector σ env.options.frameSize) (uninitFrame : Vector σ env.options.frameSize) :
    Outgoing σ ε queueSize where
  threads := threadsCreate queueSize hsize uninit
  packetizer := ⟨svcEncoder, ⟨0, maxTime.succ_pos⟩, 0⟩
  svcRunning := true
  audioData := ⟨env.options.frameSize, uninitFrame⟩
  sending := .test
  closing := .notCalled
  sent := []
  fault := false

/-- What a program that calls `svc_init` starts from, with a queue of two slots or more. -/
structure SendStart (σ ε : Type) (size : Nat) where
  env : SendEnv σ ε
  two_le : 2 ≤ size
  svcEncoder : ε
  uninit : Nat → Vector σ env.options.frameSize
  uninitFrame : Vector σ env.options.frameSize

namespace SendStart

variable (l : SendStart σ ε size)

def outgoing : Outgoing σ ε size :=
  svcInit l.env size (Nat.zero_lt_of_lt l.two_le) l.svcEncoder l.uninit l.uninitFrame

def frameSize : Nat := l.env.options.frameSize

def firstFrame : SvcAudioData σ := ⟨l.env.options.frameSize, l.uninit 0⟩

def packetizer : Packetizer ε := l.outgoing.packetizer

end SendStart

def sendStep (env : SendEnv σ ε) (s : Outgoing σ ε size) : Outgoing σ ε size :=
  match s.sending with
  | .test =>
      if s.svcRunning then
        { s with
          threads := (threadsMachine σ size).next s.threads (.callPop s.audioData)
          sending := .pop }
      else { s with sending := .returned }
  | .pop =>
      match s.threads.popping with
      | .unlockQueue audioData =>
          { s with threads := popStep s.threads, audioData, sending := .create }
      | _ => { s with threads := popStep s.threads }
  | .create =>
      let (packetizer, packet) := createNetworkPacketFromAudio env s.packetizer s.audioData
      { s with packetizer, sending := .send packet }
  | .send packet => { s with sent := s.sent ++ [packet], sending := .test }
  | .returned => s

/-- A step of `svc_close`.  `svc_close_audio` stops the thread that calls back, so it ends
when no call is under way. -/
def closeStep (s : Outgoing σ ε size) : Outgoing σ ε size :=
  match s.closing with
  | .notCalled => { s with svcRunning := false, closing := .closeAudio }
  | .closeAudio =>
      match s.threads.pushing with
      | .outside => { s with closing := .destroyEncoder }
      | _ => s
  | .destroyEncoder => { s with closing := .destroyQueue }
  | .destroyQueue => { s with closing := .freeOptions }
  | .freeOptions => { s with closing := .returned }
  | .returned => s

def Outgoing.audioOpen (s : Outgoing σ ε size) : Bool :=
  match s.closing with
  | .notCalled | .closeAudio => true
  | .destroyEncoder | .destroyQueue | .freeOptions | .returned => false

/-- The next step of the sending thread uses the queue or the encoder after it was freed. -/
def Outgoing.usesFreed (s : Outgoing σ ε size) : Bool :=
  match s.sending with
  | .pop => s.closing.queueFreed
  | .create => s.closing.encoderFreed
  | .test | .send _ | .returned => false

inductive OutgoingEvent (σ : Type) where
  /-- the audio system calls `audio_api_callback` -/
  | audioApiCallback (inputAudioData : SvcAudioData σ)
  /-- that call takes a step in `packet_queue_push_data` -/
  | stepCallback
  | stepSend
  | stepClose

/-- The threads of `libsvc.c`; a run is an interleaving of their steps.  What the sending thread
does with freed memory is not defined: it stays where it is. -/
def outgoingMachine (env : SendEnv σ ε) (size : Nat) :
    Machine (Outgoing σ ε size) (OutgoingEvent σ) Unit where
  step s
    | .audioApiCallback inputAudioData =>
        (if s.audioOpen then
          { s with threads := (threadsMachine σ size).next s.threads (.callPush inputAudioData) }
        else s, ())
    | .stepCallback => ({ s with threads := pushStep s.threads }, ())
    | .stepSend => (if s.usesFreed then { s with fault := true } else sendStep env s, ())
    | .stepClose => (closeStep s, ())

end Svc.Libsvc
