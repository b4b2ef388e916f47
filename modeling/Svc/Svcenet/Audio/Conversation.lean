import Svc.Libsvc.Outgoing.Sent
import Svc.Libsvc.PacketCage.Timeline
import Svc.Svcenet.Audio.Relay

/-!
# From one user to another

A frame that one user records is encoded by the sending thread of libsvc, goes through
`send_callback`, the server and `handle_server_audio`, is decoded and put into the cage
of the peer that stands for that user, and is taken out when the audio system of the
other user asks for a frame.  ENet may lose the packets, repeat them or change their order.
-/

namespace Svc.Svcenet

open Svc.Common Svc.Lib Svc.Libsvc

/-! ## The way of a packet -/

def toNetworkPacket (packet : SvcNetworkPacket) : NetworkPacket :=
  ⟨packet.data, packet.dataLen, UInt32.ofNat packet.time.val⟩

def NetworkPacket.packetTime (np : NetworkPacket) : PacketTime :=
  ⟨np.time.toNat % (maxTime + 1), Nat.mod_lt _ maxTime.succ_pos⟩

def NetworkPacket.bytes (np : NetworkPacket) : Bytes := Block.first np.data np.dataLen

/-- What a packet meets on its way: the clients and the server at that time, the slots of the
two clients there, and the memory that the packet comes to lie in. -/
structure Hop where
  sender : ClientState
  server : Server
  peerId : Nat
  target : Int
  receiver : ClientState
  block : Nat → UInt8
  atServer : Nat → UInt8
  atReceiver : Nat → UInt8

def Hop.carry (hop : Hop) (packet : NetworkPacket) : Option (SvcPeer × NetworkPacket) :=
  match sendCallback hop.block hop.sender packet with
  | none => none
  | some sent =>
      match decodeAudioPacket hop.peerId (sent.arriveIn hop.atServer) with
      | .error _ => none
      | .ok audioPacket =>
          match cmdSendaudio hop.server (some audioPacket) (some hop.target) with
          | .error _ => none
          | .ok (_, relayed) =>
              match handleServerAudio hop.receiver (relayed.arriveIn hop.atReceiver) with
              | .error _ => none
              | .ok (_, received) => received

section Hop

variable {hop : Hop} {packet : NetworkPacket}

theorem carries_of_sendCallback {s : ClientState} {memory : Nat → UInt8} {np : NetworkPacket}
    {sent : ENetPacket} (h : sendCallback memory s np = some sent) :
    sent.Carries (UInt32.ofNat s.myId) np := by
  unfold sendCallback at h
  split at h
  · cases h
  · obtain rfl := Option.some.inj h
    constructor
    · rfl
    · rw [net32_copy (.inl (by decide)), putNet16, net32_copy (.inl (by decide)), putNet32,
        net32_copy (.inl (by decide)), net32_putNet32]
    · rw [net32_copy (.inl (by decide)), putNet16, net32_copy (.inl (by decide)), net32_putNet32]
    · rw [net16_copy (.inl (by decide)), net16_putNet16]
    · exact Block.slice_copy_self

theorem eq_of_cmdSendaudio {s : Server} {audioPacket relayed : ENetPacket} {peerId : Option Int}
    {target : Option ENetPeer}
    (h : cmdSendaudio s (some audioPacket) peerId = .ok (target, relayed)) :
    relayed = audioPacket := by
  unfold cmdSendaudio at h
  split at h
  · cases h
  · split at h
    · cases h
    · cases h
      rfl

/-- What `handle_server_audio` gives to libsvc, if anything. -/
theorem received_of_carries {s s' : ClientState} {audioPacket : ENetPacket} {src : UInt32}
    {np received : NetworkPacket} {peer : SvcPeer} (h : audioPacket.Carries src np)
    (htime : np.time.toNat < 2 ^ 16) (hlen : np.dataLen + 10 < 2 ^ 32)
    (hreceived : handleServerAudio s audioPacket = .ok (s', some (peer, received))) :
    received.time = np.time ∧ received.bytes = np.bytes := by
  have hdataLen : (UInt32.ofNat (np.dataLen + 2) - 2).toNat = np.dataLen := by
    have htotal : (UInt32.ofNat (np.dataLen + 2)).toNat = np.dataLen + 2 :=
      UInt32.toNat_ofNat_of_lt' (show np.dataLen + 2 < 2 ^ 32 by omega)
    rw [UInt32.toNat_sub_of_le _ _ (UInt32.le_iff_toNat_le.2 (by rw [htotal]; simp)), htotal]
    rfl
  cases hdeafen : s.deafen with
  | true =>
      have hrun := decodeServerAudio_run_of_deafen audioPacket hdeafen
      simp only [handleServerAudio, hrun] at hreceived
      cases hreceived
  | false =>
      have hrun := decodeServerAudio_run audioPacket hdeafen
      simp only [h.len, h.time, hdataLen] at hrun
      by_cases hsrc : (net32 audioPacket.data 0).toNat ≥ s.peersSize
      · simp only [handleServerAudio, hrun, if_pos hsrc] at hreceived
        cases hreceived
      · simp only [handleServerAudio, hrun, if_neg hsrc, bind, Except.bind] at hreceived
        split at hreceived
        · cases hreceived
        · split at hreceived
          · cases hreceived
          · cases hreceived
            refine ⟨?_, h.payload⟩
            rw [← UInt32.toNat_inj, UInt16.toNat_toUInt32, UInt32.toNat_toUInt16,
              Nat.mod_eq_of_lt htime]

/-- What arrives has the time and the bytes of what was sent, whatever the clients and the
server were doing. -/
theorem carry_eq_some {received : NetworkPacket} {peer : SvcPeer}
    (h : hop.carry packet = some (peer, received)) (htime : packet.time.toNat < 2 ^ 16)
    (hlen : packet.dataLen + 10 < 2 ^ 32) :
    received.time = packet.time ∧ received.bytes = packet.bytes := by
  unfold Hop.carry at h
  split at h
  · cases h
  · rename_i sent hsent
    split at h
    · cases h
    · rename_i audioPacket haudio
      split at h
      · cases h
      · rename_i target relayed hrelayed
        split at h
        · cases h
        · rename_i s' received' hreceived
          subst h
          have hcarries := (carries_of_sendCallback hsent).arriveIn hop.atServer
          have hlength : (sent.arriveIn hop.atServer).dataLength = packet.dataLen + 10 :=
            hcarries.dataLength
          obtain rfl : audioPacket = sent.arriveIn hop.atServer := by
            rw [(decodeAudioPacket_eq_ok_iff.1 haudio).2.2.2, hlength, Nat.mod_eq_of_lt hlen,
              ← hlength]
          obtain rfl := eq_of_cmdSendaudio hrelayed
          exact received_of_carries (hcarries.arriveIn hop.atReceiver) htime hlen hreceived

end Hop

/-! ## The two programs -/

/-- `svc_decoder_decode`: the decoder and the frame after the call, for the bytes of a packet and
a frame of `svc_audio_data_create` -/
abbrev Decode (σ δ : Type) := δ → Bytes → SvcAudioData σ → δ × SvcAudioData σ

variable {σ ε δ : Type} {size : Nat}

structure Conversation (σ ε δ : Type) (size : Nat) where
  speaker : Outgoing σ ε size
  decoder : δ
  cage : PacketCage (SvcAudioData σ) 5

inductive ConversationEvent (σ : Type) where
  /-- something happens in libsvc of the user who speaks -/
  | speak (event : OutgoingEvent σ)
  /-- the `n`-th packet comes through; `svc_audio_data_create` returns `uninit` -/
  | deliver (n : Nat) (hop : Hop) (uninit : SvcAudioData σ)
  /-- `svc_request_incoming_audio` takes a frame -/
  | request

def Conversation.recieve (decode : Decode σ δ) (peer : SvcPeer) (s : Conversation σ ε δ size)
    (n : Nat) (hop : Hop) (uninit : SvcAudioData σ) : Option (δ × SvcAudioData σ × PacketTime) :=
  match s.speaker.sent[n]? with
  | none => none
  | some packet =>
      match hop.carry (toNetworkPacket packet) with
      | none => none
      | some (heard, np) =>
          if heard = peer then
            let (decoder, audioData) := decode s.decoder np.bytes uninit
            some (decoder, audioData, np.packetTime)
          else none

def conversationMachine (env : SendEnv σ ε) (decode : Decode σ δ) (peer : SvcPeer) (size : Nat) :
    Machine (Conversation σ ε δ size) (ConversationEvent σ) (Option (SvcAudioData σ)) where
  step s
    | .speak event => ({ s with speaker := (outgoingMachine env size).next s.speaker event }, none)
    | .deliver n hop uninit =>
        match s.recieve decode peer n hop uninit with
        | none => (s, none)
        | some (decoder, audioData, time) =>
            ({ s with decoder, cage := (packetCagePutData s.cage audioData time).1 }, none)
    | .request =>
        ({ s with cage := (packetCageGetData s.cage).2.1 }, (packetCageGetData s.cage).1)

def cageOpsBy (decode : Decode σ δ) (peer : SvcPeer) (s : Conversation σ ε δ size) :
    ConversationEvent σ → List (CageOp (SvcAudioData σ))
  | .speak _ => []
  | .deliver n hop uninit =>
      match s.recieve decode peer n hop uninit with
      | none => []
      | some (_, audioData, time) => [.putData audioData time]
  | .request => [.getData]

def DecodedFrom (decode : Decode σ δ) (packet : SvcNetworkPacket) (audioData : SvcAudioData σ) :
    Prop :=
  ∃ decoder uninit,
    audioData = (decode decoder (Block.first packet.data packet.dataLen) uninit).2

section Steps

variable {env : SendEnv σ ε} {decode : Decode σ δ} {peer : SvcPeer} {s : Conversation σ ε δ size}

theorem cage_next (event : ConversationEvent σ) :
    ((conversationMachine env decode peer size).next s event).cage =
      (cageMachine (SvcAudioData σ) 5).run s.cage (cageOpsBy decode peer s event) := by
  cases event with
  | speak event => rfl
  | deliver n hop uninit =>
      simp only [Machine.next, conversationMachine, cageOpsBy]
      cases s.recieve decode peer n hop uninit with
      | none => rfl
      | some received => rfl
  | request => rfl

theorem speaker_next (event : ConversationEvent σ) :
    ((conversationMachine env decode peer size).next s event).speaker =
      match event with
      | .speak event => (outgoingMachine env size).next s.speaker event
      | .deliver _ _ _ | .request => s.speaker := by
  cases event with
  | speak event => rfl
  | deliver n hop uninit =>
      simp only [Machine.next, conversationMachine]
      cases s.recieve decode peer n hop uninit with
      | none => rfl
      | some received => rfl
  | request => rfl

theorem length_cageOpsBy (event : ConversationEvent σ) :
    (cageOpsBy decode peer s event).length ≤ 1 := by
  cases event with
  | speak event => exact Nat.zero_le 1
  | deliver n hop uninit =>
      rw [cageOpsBy]
      split
      · exact Nat.zero_le 1
      · exact Nat.le_refl 1
  | request => exact Nat.le_refl 1

theorem packetTime_toNetworkPacket {packet : SvcNetworkPacket} {np : NetworkPacket}
    (h : np.time = (toNetworkPacket packet).time) : np.packetTime = packet.time := by
  have hle := val_le_maxTime packet.time
  have hval : np.time.toNat = packet.time.val := by
    rw [h]
    exact UInt32.toNat_ofNat_of_lt' (show packet.time.val < 2 ^ 32 by omega)
  ext
  show np.time.toNat % (maxTime + 1) = packet.time.val
  rw [hval]
  exact Nat.mod_eq_of_lt packet.time.isLt

/-- What is put was decoded from a packet that was sent, and is put with its time. -/
theorem putData_mem_cageOpsBy {event : ConversationEvent σ} {audioData : SvcAudioData σ}
    {time : PacketTime} (h : CageOp.putData audioData time ∈ cageOpsBy decode peer s event)
    (hlen : ∀ packet ∈ s.speaker.sent, packet.dataLen + 10 < 2 ^ 32) :
    ∃ (n : Nat) (packet : SvcNetworkPacket), s.speaker.sent[n]? = some packet ∧
      packet.time = time ∧ DecodedFrom decode packet audioData := by
  cases event with
  | speak event => cases h
  | deliver n hop uninit =>
      rw [cageOpsBy] at h
      split at h
      · cases h
      · rename_i decoder audioData' time' hrecieve
        obtain ⟨rfl, rfl⟩ : audioData = audioData' ∧ time = time' := by
          simpa using h
        unfold Conversation.recieve at hrecieve
        split at hrecieve
        · cases hrecieve
        · rename_i packet hpacket
          split at hrecieve
          · cases hrecieve
          · rename_i heard np hcarry
            split at hrecieve
            · cases hrecieve
              have htime : (toNetworkPacket packet).time.toNat < 2 ^ 16 := by
                have hle := val_le_maxTime packet.time
                rw [toNetworkPacket, UInt32.toNat_ofNat_of_lt'
                  (show packet.time.val < 2 ^ 32 by omega)]
                omega
              obtain ⟨hnpTime, hnpBytes⟩ := carry_eq_some hcarry htime
                (hlen packet (List.mem_of_getElem? hpacket))
              exact ⟨n, packet, hpacket, (packetTime_toNetworkPacket hnpTime).symm, s.decoder,
                uninit, by rw [hnpBytes]; rfl⟩
            · cases hrecieve
  | request =>
      rw [cageOpsBy, List.mem_singleton] at h
      cases h

end Steps

/-! ## Runs -/

/-- What the two users start from: libsvc of the one, and the decoder and peer of the other. -/
structure ConversationStart (σ ε δ : Type) (size : Nat) where
  send : SendStart σ ε size
  decode : Decode σ δ
  decoder : δ
  peer : SvcPeer

def ConversationStart.state (c : ConversationStart σ ε δ size) : Conversation σ ε δ size where
  speaker := c.send.outgoing
  decoder := c.decoder
  cage := packetCageCreate 5 (Nat.succ_pos 4)

section Runs

variable (c : ConversationStart σ ε δ size) (events : List (ConversationEvent σ))

def ConversationStart.machine : Machine (Conversation σ ε δ size) (ConversationEvent σ)
    (Option (SvcAudioData σ)) :=
  conversationMachine c.send.env c.decode c.peer size

def conversationAfter : Conversation σ ε δ size := c.machine.run c.state events

def cageOps : List (CageOp (SvcAudioData σ)) :=
  c.machine.collect (cageOpsBy c.decode c.peer) c.state events

def spoken : List (OutgoingEvent σ) := events.filterMap fun
  | .speak event => some event
  | .deliver _ _ _ | .request => none

def slotsMoved (s : Conversation σ ε δ size) : Nat :=
  headMoves s.cage (c.machine.collect (cageOpsBy c.decode c.peer) s events)

theorem cage_conversationAfter :
    (conversationAfter c events).cage = cageAfter (Nat.succ_pos 4) (cageOps c events) := by
  induction events using List.reverseRecOn with
  | nil => rfl
  | append_singleton events event ih =>
      rw [conversationAfter, Machine.run_concat, ConversationStart.machine, cage_next,
        ← ConversationStart.machine, ← conversationAfter, ih, cageAfter, cageAfter,
        ← Machine.run_append, cageOps, cageOps, Machine.collect_append]
      simp only [Machine.collect_cons, Machine.collect_nil, List.append_nil]
      rfl

theorem speaker_conversationAfter :
    (conversationAfter c events).speaker = outgoingAfter c.send (spoken events) := by
  induction events using List.reverseRecOn with
  | nil => rfl
  | append_singleton events event ih =>
      rw [conversationAfter, Machine.run_concat, ConversationStart.machine, speaker_next,
        ← ConversationStart.machine, ← conversationAfter, ih, spoken, spoken,
        List.filterMap_append]
      cases event with
      | speak event =>
          rw [outgoingAfter, outgoingAfter]
          exact (Machine.run_concat _ _ _ _).symm
      | deliver n hop uninit =>
          rw [List.filterMap_cons_none rfl, List.filterMap_nil, List.append_nil]
      | request => rw [List.filterMap_cons_none rfl, List.filterMap_nil, List.append_nil]

theorem cageOps_append (pre post : List (ConversationEvent σ)) :
    cageOps c (pre ++ post) = cageOps c pre ++
      c.machine.collect (cageOpsBy c.decode c.peer) (conversationAfter c pre) post :=
  Machine.collect_append _ _ _ _ _

/-- The calls on the cage up to a request, that request, and those after it. -/
theorem cageOps_request (pre mid : List (ConversationEvent σ)) :
    cageOps c (pre ++ .request :: mid) = cageOps c pre ++ .getData ::
      c.machine.collect (cageOpsBy c.decode c.peer)
        (conversationAfter c (pre ++ [.request])) mid := by
  rw [cageOps_append, Machine.collect_cons]
  simp only [conversationAfter, Machine.run_concat]
  rfl

variable {c events}

theorem speaker_sent_numbered (hevents : ∀ event ∈ spoken events, event.Sized c.send.frameSize)
    {n : Nat} {packet : SvcNetworkPacket}
    (h : (conversationAfter c events).speaker.sent[n]? = some packet) :
    packet.time.val = (n + 1) % 65536 ∧ packet.dataLen = c.send.env.options.bytePerPacket := by
  rw [speaker_conversationAfter] at h
  exact sent_numbered c.send hevents h

/-- What was put was decoded from a packet that was sent, and was put with its time. -/
theorem putData_mem_cageOps (hevents : ∀ event ∈ spoken events, event.Sized c.send.frameSize)
    (hlen : c.send.env.options.bytePerPacket + 10 < 2 ^ 32) {audioData : SvcAudioData σ}
    {time : PacketTime} (h : CageOp.putData audioData time ∈ cageOps c events) :
    ∃ (n : Nat) (packet : SvcNetworkPacket),
      (conversationAfter c events).speaker.sent[n]? = some packet ∧ packet.time = time ∧
        DecodedFrom c.decode packet audioData := by
  obtain ⟨pre, event, post, rfl, hput⟩ := Machine.exists_of_mem_collect _ h
  have hspoken : spoken (pre ++ event :: post) = spoken pre ++ spoken (event :: post) :=
    List.filterMap_append
  rw [hspoken] at hevents
  have hbefore : ∀ event ∈ spoken pre, event.Sized c.send.frameSize :=
    fun event hevent => hevents event (List.mem_append_left _ hevent)
  have hlens : ∀ packet ∈ (conversationAfter c pre).speaker.sent, packet.dataLen + 10 < 2 ^ 32 := by
    intro packet hpacket
    obtain ⟨n, hn⟩ := List.getElem?_of_mem hpacket
    rw [(speaker_sent_numbered hbefore hn).2]
    exact hlen
  obtain ⟨n, packet, hpacket, htime, hdecoded⟩ := putData_mem_cageOpsBy hput hlens
  refine ⟨n, packet, ?_, htime, hdecoded⟩
  obtain ⟨rest, hrest⟩ := sent_before_append c.send (spoken pre) (spoken (event :: post))
  rw [← conversationAfter, speaker_conversationAfter] at hpacket
  rw [speaker_conversationAfter, hspoken, ← hrest,
    List.getElem?_append_left (List.getElem?_eq_some_iff.1 hpacket).1]
  exact hpacket

/-- Two frames that the listener hears in one stretch, in which the cage is never empty, were
decoded from two packets that lie as far apart as the head of the cage has moved, modulo
`65536`; and the packets are what the encoder made, in order, of the uninitialised frame of the
queue and the frames recorded while it had a free slot.  So the one who listens hears each of
them at its place on the timeline of the one who speaks. -/
theorem heard_as_spoken (c : ConversationStart σ ε δ size) (pre mid : List (ConversationEvent σ))
    {a b : SvcAudioData σ}
    (hevents : ∀ event ∈ spoken (pre ++ .request :: mid), event.Sized c.send.frameSize)
    (hlen : c.send.env.options.bytePerPacket + 10 < 2 ^ 32)
    (hrebase : (cageMachine (SvcAudioData σ) 5).Guarded RebasesEmpty
      (packetCageCreate 5 (Nat.succ_pos 4)) (cageOps c (pre ++ .request :: mid)))
    (ha : (packetCageGetData (conversationAfter c pre).cage).1 = some a)
    (hb : (packetCageGetData (conversationAfter c (pre ++ .request :: mid)).cage).1 = some b)
    (hoccupied : ∀ m, m <+: mid → (conversationAfter c (pre ++ .request :: m)).cage.Occupied) :
    (conversationAfter c (pre ++ .request :: mid)).speaker.sent <+:
        (packetMachine c.send.env).outputs c.send.packetizer
          (c.send.firstFrame :: recordedFrames c.send (spoken (pre ++ .request :: mid))) ∧
      ∃ (i j : Nat) (p q : SvcNetworkPacket),
        (conversationAfter c (pre ++ .request :: mid)).speaker.sent[i]? = some p ∧
        (conversationAfter c (pre ++ .request :: mid)).speaker.sent[j]? = some q ∧
        DecodedFrom c.decode p a ∧ DecodedFrom c.decode q b ∧
        j % 65536 =
          (i + 1 + slotsMoved c mid (conversationAfter c (pre ++ [.request]))) % 65536 := by
  have hfirst := sent_prefix_outputs c.send hevents
  rw [← speaker_conversationAfter] at hfirst
  refine ⟨hfirst, ?_⟩
  have hstretch : ∀ m, m <+: c.machine.collect (cageOpsBy c.decode c.peer)
      (conversationAfter c (pre ++ [.request])) mid →
        (cageAfter (Nat.succ_pos 4) (cageOps c pre ++ .getData :: m)).Occupied := by
    intro m hm
    obtain ⟨events, hbefore, rfl⟩ := Machine.exists_prefix_of_prefix_collect _
      (fun _ event => length_cageOpsBy event) hm
    rw [← cageOps_request, ← cage_conversationAfter]
    exact hoccupied events hbefore
  have hslots : slotsMoved c mid (conversationAfter c (pre ++ [.request])) =
      headMoves (cageAfter (Nat.succ_pos 4) (cageOps c pre ++ [.getData]))
        (c.machine.collect (cageOpsBy c.decode c.peer) (conversationAfter c (pre ++ [.request]))
          mid) := by
    have hnil := cageOps_request c pre []
    rw [Machine.collect_nil] at hnil
    rw [slotsMoved, cage_conversationAfter, hnil]
  rw [cage_conversationAfter] at ha hb
  rw [cageOps_request] at hrebase hb
  obtain ⟨t, u, hputA, hputB, htimes⟩ := times_of_returns (Nat.succ_pos 4) (by decide) hrebase ha hb
    hstretch
  have hputA : CageOp.putData a t ∈ cageOps c (pre ++ .request :: mid) := by
    rw [cageOps_request]
    exact List.mem_append_left _ hputA
  rw [← cageOps_request] at hputB
  obtain ⟨i, p, hp, rfl, hdecodedA⟩ := putData_mem_cageOps hevents hlen hputA
  obtain ⟨j, q, hq, rfl, hdecodedB⟩ := putData_mem_cageOps hevents hlen hputB
  refine ⟨i, j, p, q, hp, hq, hdecodedA, hdecodedB, ?_⟩
  have hi := (speaker_sent_numbered hevents hp).1
  have hj := (speaker_sent_numbered hevents hq).1
  have hval := val_timeIncBy p.time
    (1 + slotsMoved c mid (conversationAfter c (pre ++ [.request])))
  rw [hslots, ← htimes] at hval
  rw [hslots]
  omega

end Runs

/-! ## Two users -/

def meeting : Server :=
  { Server.init with
    peers := [⟨0, some ⟨some 7, [], []⟩⟩, ⟨1, some ⟨some 8, [], []⟩⟩]
    peersSize := 2
    peersCount := 2 }

def meetingHop : Hop where
  sender := { ClientState.init with myId := 0 }
  server := meeting
  peerId := 0
  target := 1
  receiver := listener
  block _ := 0
  atServer _ := 0
  atReceiver _ := 0

/-- The first byte of a packet is its frame. -/
def firstByte : Decode Nat Unit := fun _ bytes _ => ((), ⟨1, #v[(bytes.headD 0).toNat]⟩)

def countingTalk : ConversationStart Nat UInt8 Unit 2 := ⟨countingStart, firstByte, (), 0⟩

def frameRound : List (ConversationEvent Nat) :=
  .speak (.audioApiCallback ⟨1, #v[9]⟩) ::
    (List.replicate 4 (.speak .stepCallback) ++ List.replicate 9 (.speak .stepSend))

def deliverNth (n : Nat) : ConversationEvent Nat := .deliver n meetingHop ⟨1, #v[8]⟩

def sixPackets : List (ConversationEvent Nat) :=
  List.append (List.replicate 6 frameRound).flatten ((List.range 6).map deliverNth)

/-- The first packet is flushed by the sixth; the second and the third are heard one after the
other. -/
theorem heard_as_spoken_meeting :
    ∃ (i j : Nat) (p q : SvcNetworkPacket),
      (conversationAfter countingTalk (sixPackets ++ [.request])).speaker.sent[i]? = some p ∧
      (conversationAfter countingTalk (sixPackets ++ [.request])).speaker.sent[j]? = some q ∧
      DecodedFrom firstByte p ⟨1, #v[1]⟩ ∧ DecodedFrom firstByte q ⟨1, #v[2]⟩ ∧
      j % 65536 = (i + 1) % 65536 :=
  (heard_as_spoken countingTalk sixPackets [] (by decide +kernel) (by decide) (by decide +kernel)
    (by decide +kernel) (by decide +kernel) (by
      intro m hm
      rw [List.prefix_nil.1 hm]
      decide +kernel)).2

end Svc.Svcenet
