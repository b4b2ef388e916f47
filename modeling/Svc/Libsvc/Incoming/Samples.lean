import Svc.Libsvc.Incoming.Peers
import Svc.Libsvc.PacketCage.Tagging

/-!
# What is heard

Here the audio data has its samples and every peer its decoder.  What the audio system is
given is the sum of one frame of each peer: the frames come from jitter buffers that hold
samples, each fed with the packets of its peer alone.  That `malloc` hands out again the
memory of frames that were destroyed makes no difference.
-/

namespace Svc.Libsvc

open Svc.Lib Svc.Lib.Links

abbrev Samples (σ : Type) := Nat → σ

variable {σ δ : Type}

/-! ## The code -/

/-- The static variables of `libsvc_incoming.c`, with what is in the memory that they lead to. -/
structure IncomingAudio (σ δ : Type) where
  incoming : Incoming
  data : AudioPtr → Samples σ
  /-- `decoder` of each peer, unless it was destroyed -/
  decoders : PeerPtr → Option δ
  /-- what the calls of `svc_request_incoming_audio` left in their output -/
  played : List (Samples σ)

inductive SoundOp (σ : Type) where
  | join (newPeer : PeerPtr)
  | leave (peer : PeerPtr)
  /-- `svc_packet_recieve` of a packet with these bytes, where `svc_audio_data_create` returns
  `audioData` with the samples `uninit` -/
  | recieve (audioData : AudioPtr) (uninit : Samples σ) (bytes : List UInt8) (time : PacketTime)
      (peer : PeerPtr)
  /-- `svc_request_incoming_audio` for output of this size -/
  | request (size : Nat) (output : Samples σ)

def SoundOp.call : SoundOp σ → IncomingOp
  | .join newPeer => .join newPeer
  | .leave peer => .leave peer
  | .recieve audioData _ _ time peer => .recieve audioData time peer
  | .request size _ => .request size

/-- `svc_clear_audio_data`, and the first loop of `svc_mix_audio_streams` -/
def clearSamples [Zero σ] (size : Nat) (samples : Samples σ) : Samples σ :=
  fun k => if k < size then 0 else samples k

/-- `result_stream->data[k] += input_streams[i]->data[k]` -/
def addSamples [Add σ] (size : Nat) (result stream : Samples σ) : Samples σ :=
  fun k => if k < size then result k + stream k else result k

/-- The second loop of `svc_mix_audio_streams`, with its result -/
def mixSamples [Add σ] (audio : AudioHeap) (data : AudioPtr → Samples σ) (size : Nat)
    (result : Samples σ) : List (Option AudioPtr) → Except Fault (Samples σ × Int)
  | [] => .ok (result, 0)
  | none :: _ => .error .nullPointer
  | some stream :: streams =>
      match audio stream with
      | none => .error .dangling
      | some streamSize =>
          if streamSize ≠ size then .ok (result, -1)
          else mixSamples audio data size (addSamples size result (data stream)) streams

def mixStreams (s : Incoming) : Except Fault (List (Option AudioPtr)) := do
  let (_, mix) ← sweep s.peers (mixPeer s.silentSound) s.peerCount ⟨s.mixerBuffer, 0, [], []⟩
    s.peerList
  return (List.range mix.peersToMix).map mix.mixerBuffer

def derefDecoder : Option δ → Except Fault δ
  | none => .error .dangling
  | some decoder => .ok decoder

/-- `svc_decoder_decode`, from the decoder, the bytes and what is in the frame to the decoder and
the frame after the call -/
abbrev DecodeSamples (σ δ : Type) := δ → List UInt8 → Samples σ → δ × Samples σ

/-- The calls of `libsvc_incoming.c`; `svc_decoder_create` returns `newDecoder`. -/
def soundStep [Zero σ] [Add σ] (decode : DecodeSamples σ δ) (newDecoder : δ)
    (s : IncomingAudio σ δ) : SoundOp σ → Except Fault (IncomingAudio σ δ)
  | .join newPeer => do
      let incoming ← svcPeerJoin s.incoming newPeer
      return { s with incoming, decoders := Function.update s.decoders newPeer (some newDecoder) }
  | .leave peer => do
      let incoming ← svcPeerLeave s.incoming peer
      return { s with incoming, decoders := Function.update s.decoders peer none }
  | .recieve audioData uninit bytes time peer => do
      let decoder ← derefDecoder (s.decoders peer)
      let decoded := decode decoder bytes uninit
      let incoming ← svcPacketRecieve s.incoming audioData time peer
      return { s with
        incoming
        data := Function.update s.data audioData decoded.2
        decoders := Function.update s.decoders peer (some decoded.1) }
  | .request size output => do
      let streams ← mixStreams s.incoming
      let mixed ← mixSamples s.incoming.audio s.data size (clearSamples size output) streams
      let (incoming, _) ← svcRequestIncomingAudio s.incoming size
      return { s with incoming, played := s.played ++ [mixed.1] }

/-- `svc_incoming_init`; `data` is what was in the memory before. -/
def soundInit [Zero σ] (frameSize : Nat) (silentSound : AudioPtr)
    (mixerBuffer : Nat → Option AudioPtr) (data : AudioPtr → Samples σ) : IncomingAudio σ δ where
  incoming := svcIncomingInit frameSize silentSound mixerBuffer
  data := Function.update data silentSound (clearSamples frameSize (data silentSound))
  decoders _ := none
  played := []

/-! ## What it is for -/

theorem queueSize_pos : 0 < 5 := Nat.succ_pos 4

structure HeardPeer (σ δ : Type) where
  peer : PeerPtr
  decoder : δ
  cage : PacketCage (Samples σ) 5

/-- The peers that joined and did not leave, the last one first, and what was played. -/
structure Listener (σ δ : Type) where
  peers : List (HeardPeer σ δ)
  played : List (Samples σ)

namespace Listener

variable [Zero σ] [Add σ]

def frames (l : Listener σ δ) : List (Samples σ) :=
  l.peers.map fun x => (packetCageGetData x.cage).1.getD fun _ => 0

/-- The sum of the frames, in the order of the peers, if the output has the size of a frame. -/
def mixed (frameSize size : Nat) (frames : List (Samples σ)) (output : Samples σ) : Samples σ :=
  fun k =>
    if k < size then
      if size = frameSize then frames.foldl (fun x frame => x + frame k) 0 else 0
    else output k

def next (decode : DecodeSamples σ δ) (newDecoder : δ) (frameSize : Nat) (l : Listener σ δ) :
    SoundOp σ → Listener σ δ
  | .join newPeer =>
      { l with peers := ⟨newPeer, newDecoder, packetCageCreate 5 queueSize_pos⟩ :: l.peers }
  | .leave peer => { l with peers := l.peers.filter (·.peer ≠ peer) }
  | .recieve _ uninit bytes time peer =>
      { l with
        peers := l.peers.map fun x =>
          if x.peer = peer then
            let decoded := decode x.decoder bytes uninit
            ⟨peer, decoded.1, (packetCagePutData x.cage decoded.2 time).1⟩
          else x }
  | .request size output =>
      { peers := l.peers.map fun x => { x with cage := (packetCageGetData x.cage).2.1 }
        played := l.played ++ [mixed frameSize size l.frames output] }

end Listener

/-! ## Mixing -/

section Mixing

variable [Add σ] {audio : AudioHeap} {data : AudioPtr → Samples σ} {size frameSize : Nat}

/-- With the samples left out, the loop is that of the mixer. -/
theorem mixSamples_result (result : Samples σ) (streams : List (Option AudioPtr)) :
    (mixSamples audio data size result streams).map Prod.snd =
      svcMixAudioStreams audio size streams := by
  induction streams generalizing result with
  | nil => rfl
  | cons stream streams ih =>
      cases stream with
      | none => rfl
      | some stream =>
          rw [mixSamples, svcMixAudioStreams]
          cases audio stream with
          | none => rfl
          | some streamSize =>
              dsimp only
              split
              · rfl
              · exact ih _

theorem foldl_addSamples (result : Samples σ) (streams : List (Samples σ)) (k : Nat) :
    streams.foldl (addSamples size) result k =
      if k < size then streams.foldl (fun x stream => x + stream k) (result k) else result k := by
  induction streams generalizing result with
  | nil => simp
  | cons stream streams ih =>
      rw [List.foldl_cons, ih, List.foldl_cons]
      by_cases hk : k < size
      · simp only [addSamples, if_pos hk]
      · simp only [addSamples, if_neg hk]

theorem mixSamples_of_size (streams : List AudioPtr) (result : Samples σ)
    (hsize : ∀ a ∈ streams, audio a = some size) :
    mixSamples audio data size result (streams.map some) =
      .ok ((streams.map data).foldl (addSamples size) result, 0) := by
  induction streams generalizing result with
  | nil => rfl
  | cons stream streams ih =>
      obtain ⟨hstream, hstreams⟩ := List.forall_mem_cons.1 hsize
      rw [List.map_cons, mixSamples, hstream]
      dsimp only
      rw [if_neg (not_not.2 rfl), ih _ hstreams]
      rfl

/-- Output of another size than the frames is cleared and stays so. -/
theorem mixSamples_of_other_size (data : AudioPtr → Samples σ) (streams : List AudioPtr)
    (result : Samples σ)
    (hsize : ∀ a ∈ streams, audio a = some frameSize) (hne : size ≠ frameSize) :
    ∃ code, mixSamples audio data size result (streams.map some) = .ok (result, code) := by
  cases streams with
  | nil => exact ⟨0, rfl⟩
  | cons stream streams =>
      refine ⟨-1, ?_⟩
      rw [List.map_cons, mixSamples, hsize stream List.mem_cons_self]
      dsimp only
      rw [if_pos hne.symm]

variable [Zero σ]

/-- Frames that agree on their samples sound the same. -/
theorem mixed_congr {frames frames' : List (Samples σ)} (output : Samples σ)
    (h : List.Forall₂ (fun f f' => ∀ k < frameSize, f k = f' k) frames frames') :
    Listener.mixed frameSize size frames output = Listener.mixed frameSize size frames' output := by
  have hsum : ∀ k < frameSize, ∀ x : σ, frames.foldl (fun x frame => x + frame k) x =
      frames'.foldl (fun x frame => x + frame k) x := by
    intro k hk
    induction h with
    | nil => exact fun _ => rfl
    | cons hhead _ ih =>
        intro x
        rw [List.foldl_cons, List.foldl_cons, hhead k hk, ih]
  funext k
  by_cases hsize : size = frameSize
  · subst hsize
    by_cases hk : k < size
    · simp only [Listener.mixed, hsum k hk]
    · simp only [Listener.mixed, if_neg hk]
  · simp only [Listener.mixed, if_neg hsize]

/-- What is played is the sum of the streams. -/
theorem mixSamples_eq (data : AudioPtr → Samples σ) (size : Nat) (streams : List AudioPtr)
    (output : Samples σ)
    (hsize : ∀ a ∈ streams, audio a = some frameSize) :
    ∃ code, mixSamples audio data size (clearSamples size output) (streams.map some) =
      .ok (Listener.mixed frameSize size (streams.map data) output, code) := by
  by_cases hsame : size = frameSize
  · subst hsame
    refine ⟨0, ?_⟩
    rw [mixSamples_of_size streams _ hsize]
    congr 2
    funext k
    rw [foldl_addSamples]
    by_cases hk : k < size
    · simp only [Listener.mixed, clearSamples, if_pos hk, if_true]
    · simp only [Listener.mixed, clearSamples, if_neg hk]
  · obtain ⟨code, hmix⟩ := mixSamples_of_other_size data streams (clearSamples size output)
      hsize hsame
    refine ⟨code, ?_⟩
    rw [hmix]
    congr 2
    funext k
    simp only [Listener.mixed, clearSamples, if_neg hsame]

end Mixing

end Svc.Libsvc
