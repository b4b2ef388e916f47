import Svc.Libsvc.PacketCage.Ownership
import Svc.Lib.Links

/-!
# The peers that are listened to

`libsvc_incoming.c` links its peers into a list of its own, and mixes one packet from the
cage of each of them.  A peer that left keeps its memory, as the code never frees it, but
not its cage.  The audio data is known by its pointers; samples and decoders are left out.
-/

namespace Svc.Libsvc

open Svc.Lib Svc.Lib.Links

abbrev PeerPtr := Nat

abbrev AudioPtr := Nat

abbrev PeerCage := PacketCage AudioPtr 5

def maxPeers : Nat := 1000

/-- The `size` of each allocated `svc_audio_data_t` -/
abbrev AudioHeap := AudioPtr → Option Nat

/-- The static variables of `libsvc_incoming.c`, and what is allocated. -/
structure Incoming where
  /-- the `svc_peer_t`s, with no cage once it was destroyed -/
  peers : Heap PeerPtr (Option PeerCage)
  peerList : Option PeerPtr
  /-- an `unsigned int` -/
  peerCount : Nat
  audio : AudioHeap
  mixerBuffer : Nat → Option AudioPtr
  silentSound : AudioPtr
  /-- `svc_options->frame_size` -/
  frameSize : Nat

/-- `svc_incoming_init`, where `malloc` returns `silentSound` and a buffer with any contents -/
def svcIncomingInit (frameSize : Nat) (silentSound : AudioPtr)
    (mixerBuffer : Nat → Option AudioPtr) : Incoming where
  peers := fun _ => none
  peerList := none
  peerCount := 0
  audio := Function.update (fun _ => none) silentSound (some frameSize)
  mixerBuffer := mixerBuffer
  silentSound := silentSound
  frameSize := frameSize

/-- `svc_audio_data_destroy`, or `free` of the `svc_audio_data_t` alone -/
def AudioHeap.free (audio : AudioHeap) (a : AudioPtr) : Except Fault AudioHeap :=
  match audio a with
  | none => .error .dangling
  | some _ => .ok (Function.update audio a none)

def derefCage : Option PeerCage → Except Fault PeerCage
  | none => .error .dangling
  | some cage => .ok cage

/-! ## Joining and leaving -/

def newPeerCage : PeerCage := packetCageCreate 5 (by decide)

/-- `svc_peer_join`, whose `malloc` returns `newPeer` -/
def svcPeerJoin (s : Incoming) (newPeer : PeerPtr) : Except Fault Incoming := do
  let cage := newPeerCage
  let peers := Function.update s.peers newPeer (some ⟨none, s.peerList, some cage⟩)
  let s := { s with peers, peerCount := (s.peerCount + 1) % 2 ^ 32 }
  match s.peerList with
  | none => return { s with peerList := some newPeer }
  | some first => do
      let peers ← store s.peers (some first) fun n => { n with prev := some newPeer }
      return { s with peers, peerList := some newPeer }

def PacketCage.packets {α : Type} {size : Nat} (cage : PacketCage α size) : List α :=
  cage.audioQueue.toList.filterMap id

/-- `svc_peer_leave`, with `packet_cage_destroy` of the peer's cage -/
def svcPeerLeave (s : Incoming) (peer : PeerPtr) : Except Fault Incoming := do
  let n ← load s.peers (some peer)
  let peerList := if s.peerList = some peer then n.next else s.peerList
  let peers ← storeIf s.peers n.prev fun n' => { n' with next := n.next }
  let n ← load peers (some peer)
  let peers ← storeIf peers n.next fun n' => { n' with prev := n.prev }
  let n ← load peers (some peer)
  let cage ← derefCage n.val
  let audio ← cage.packets.foldlM AudioHeap.free s.audio
  let peers ← store peers (some peer) fun n => { n with val := none }
  return { s with peers, peerList, audio, peerCount := (s.peerCount + 2 ^ 32 - 1) % 2 ^ 32 }

/-! ## Receiving -/

def destroyedBy {α : Type} (events : List (CageEvent α)) : List α :=
  events.filterMap fun
    | .destroyed a => some a
    | .printed _ => none

/-- `svc_packet_recieve` of a packet with this time, where `malloc` returns `audioData` -/
def svcPacketRecieve (s : Incoming) (audioData : AudioPtr) (time : PacketTime) (peer : PeerPtr) :
    Except Fault Incoming := do
  let audio := Function.update s.audio audioData (some s.frameSize)
  let n ← load s.peers (some peer)
  let (cage, events) := packetCagePutData (← derefCage n.val) audioData time
  let audio ← (destroyedBy events).foldlM AudioHeap.free audio
  let peers ← store s.peers (some peer) fun n => { n with val := some cage }
  return { s with peers, audio }

/-! ## Mixing -/

/-- The locals of `svc_request_incoming_audio` with the buffer, and what its first loop does:
the results of `packet_cage_get_data` and the indices that are written -/
structure Mix where
  mixerBuffer : Nat → Option AudioPtr
  peersToMix : Nat
  taken : List (PeerPtr × Option AudioPtr)
  written : List Nat

/-- `mixer_buffer[peers_to_mix] = data` -/
def Mix.put (mix : Mix) (data : Option AudioPtr) : Mix :=
  { mix with
    mixerBuffer := Function.update mix.mixerBuffer mix.peersToMix data
    written := mix.written ++ [mix.peersToMix] }

/-- The body of `FORALL_PEERS` once `packet_cage_get_data` has returned -/
def Mix.add (silentSound : AudioPtr) (mix : Mix) (peer : PeerPtr) (data : Option AudioPtr) : Mix :=
  let mix := mix.put data
  let mix := if data = none then mix.put (some silentSound) else mix
  { mix with peersToMix := mix.peersToMix + 1, taken := mix.taken ++ [(peer, data)] }

def mixPeer (silentSound : AudioPtr) (mix : Mix) (peer : PeerPtr) (cage : Option PeerCage) :
    Except Fault (Mix × Option PeerCage) := do
  let (data, cage, _) := packetCageGetData (← derefCage cage)
  return (mix.add silentSound peer data, some cage)

/-- `svc_mix_audio_streams`, which reads each stream into one of this size -/
def svcMixAudioStreams (audio : AudioHeap) (size : Nat) : List (Option AudioPtr) → Except Fault Int
  | [] => .ok 0
  | none :: _ => .error .nullPointer
  | some stream :: streams =>
      match audio stream with
      | none => .error .dangling
      | some streamSize =>
          if streamSize ≠ size then .ok (-1) else svcMixAudioStreams audio size streams

/-- The body of the loop that destroys the streams, with those destroyed so far -/
def destroyStream (silentSound : AudioPtr) (s : AudioHeap × List AudioPtr) :
    Option AudioPtr → Except Fault (AudioHeap × List AudioPtr)
  | none => .error .nullPointer
  | some stream =>
      if stream ≠ silentSound then do
        return (← s.1.free stream, s.2 ++ [stream])
      else .ok s

/-- What a call of `svc_request_incoming_audio` does besides changing the cages. -/
structure MixLog where
  taken : List (PeerPtr × Option AudioPtr)
  written : List Nat
  destroyed : List AudioPtr

/-- `svc_request_incoming_audio` for output of this size.  The loop over the peers goes around
once for each of them. -/
def svcRequestIncomingAudio (s : Incoming) (size : Nat) : Except Fault (Incoming × MixLog) := do
  let (peers, mix) ← sweep s.peers (mixPeer s.silentSound) s.peerCount ⟨s.mixerBuffer, 0, [], []⟩
    s.peerList
  let streams := (List.range mix.peersToMix).map mix.mixerBuffer
  let _ ← svcMixAudioStreams s.audio size streams
  let (audio, destroyed) ← streams.foldlM (destroyStream s.silentSound) (s.audio, [])
  return ({ s with peers, audio, mixerBuffer := mix.mixerBuffer },
    ⟨mix.taken, mix.written, destroyed⟩)

/-! ## Runs -/

inductive IncomingOp where
  | join (newPeer : PeerPtr)
  | leave (peer : PeerPtr)
  | recieve (audioData : AudioPtr) (time : PacketTime) (peer : PeerPtr)
  | request (size : Nat)

def incomingStep (s : Incoming) : IncomingOp → Except Fault Incoming
  | .join newPeer => svcPeerJoin s newPeer
  | .leave peer => svcPeerLeave s peer
  | .recieve audioData time peer => svcPacketRecieve s audioData time peer
  | .request size => do return (← svcRequestIncomingAudio s size).1

end Svc.Libsvc
