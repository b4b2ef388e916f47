import Svc.Svcenet.Audio

/-!
# The way of an audio packet

What a client sends is accepted by the server, which sends on the same bytes, and gives
another client the time and the data that the first one was given.  The other direction
fails: the server checks only the first eight bytes, so it accepts a packet of nine that
no client can send and none can decode.
-/

namespace Svc.Svcenet

open Svc.Common Svc.Lib

/-- The packet is the one for `np` from the client of that id. -/
structure ENetPacket.Carries (packet : ENetPacket) (src : UInt32) (np : NetworkPacket) : Prop where
  dataLength : packet.dataLength = np.dataLen + 10
  src : net32 packet.data 0 = src
  len : net32 packet.data 4 = UInt32.ofNat (np.dataLen + 2)
  time : net16 packet.data 8 = np.time.toUInt16
  payload : Block.slice packet.data 10 np.dataLen = Block.first np.data np.dataLen

structure Client.HasJoined (c : Client) (src : Nat) (peer : SvcPeer) : Prop where
  lt : src < c.peersSize
  entry : ∃ entry, c.peers[src]? = some entry ∧ entry.connected = true ∧ entry.peer = some peer
  joined : peer ∈ c.joined

/-! ## Sending -/

theorem sendCallback_carries {s : ClientState} {src : Nat} (hid : s.myId = src)
    (hsrc : src < 2 ^ 31) (hmuted : s.muted = false) (memory : Nat → UInt8) (np : NetworkPacket) :
    ∃ packet, sendCallback memory s np = some packet ∧ packet.Carries (UInt32.ofNat src) np := by
  have hsends : ¬ (s.myId = 2 ^ 32 - 1 ∨ s.muted = true) := by
    rintro (hnone | hmute)
    · omega
    · exact absurd (hmuted.symm.trans hmute) Bool.false_ne_true
  refine ⟨_, by rw [sendCallback, if_neg hsends], ?_⟩
  constructor
  · rfl
  · rw [net32_copy (.inl (by decide)), putNet16, net32_copy (.inl (by decide)), putNet32,
      net32_copy (.inl (by decide)), net32_putNet32, hid]
  · rw [net32_copy (.inl (by decide)), putNet16, net32_copy (.inl (by decide)), net32_putNet32]
  · rw [net16_copy (.inl (by decide)), net16_putNet16]
  · exact Block.slice_copy_self

namespace ENetPacket

section Arrival

variable {packet : ENetPacket} (memory : Nat → UInt8)

theorem slice_arriveIn {offset count : Nat} (h : offset + count ≤ packet.dataLength) :
    Block.slice (packet.arriveIn memory).data offset count =
      Block.slice packet.data offset count :=
  Block.slice_copy_inside h

theorem bytes_arriveIn : (packet.arriveIn memory).bytes = packet.bytes :=
  Block.first_congr fun _ hi => Block.copy_inside_start hi

theorem Carries.arriveIn {src : UInt32} {np : NetworkPacket} (h : packet.Carries src np) :
    (packet.arriveIn memory).Carries src np := by
  have hlength := h.dataLength
  constructor
  · exact hlength
  · rw [net32, slice_arriveIn memory (by omega), ← net32, h.src]
  · rw [net32, slice_arriveIn memory (by omega), ← net32, h.len]
  · rw [net16, slice_arriveIn memory (by omega), ← net16, h.time]
  · rw [slice_arriveIn memory (by omega), h.payload]

end Arrival

end ENetPacket

/-! ## Passing on -/

/-- What `decode_audio_packet` accepts. -/
theorem decodeAudioPacket_eq_ok_iff {peerId : Nat} {packet audioPacket : ENetPacket} :
    decodeAudioPacket peerId packet = .ok audioPacket ↔
      8 < packet.dataLength ∧ (net32 packet.data 0).toNat = peerId ∧
        (net32 packet.data 4).toNat = packet.dataLength - 8 ∧
        audioPacket = { packet with dataLength := packet.dataLength % 2 ^ 32 } := by
  unfold decodeAudioPacket
  dsimp only
  split_ifs with hsmall hsrc hlen
  · simp only [false_iff]
    omega
  · simp only [false_iff]
    exact fun h => hsrc h.2.1
  · simp only [false_iff]
    exact fun h => hlen h.2.2.1
  · rw [not_not] at hsrc hlen
    rw [Except.ok.injEq]
    constructor
    · rintro rfl
      exact ⟨by omega, hsrc, hlen, rfl⟩
    · exact fun h => h.2.2.2.symm

theorem decodeAudioPacket_of_carries {packet : ENetPacket} {src : Nat} {np : NetworkPacket}
    (h : packet.Carries (UInt32.ofNat src) np) (hsrc : src < 2 ^ 31)
    (hlen : np.dataLen + 10 < 2 ^ 32) : decodeAudioPacket src packet = .ok packet := by
  have hlength := h.dataLength
  have hfits : packet.dataLength % 2 ^ 32 = packet.dataLength := Nat.mod_eq_of_lt (by omega)
  refine decodeAudioPacket_eq_ok_iff.2 ⟨by omega, ?_, ?_, by rw [hfits]⟩
  · rw [h.src, UInt32.toNat_ofNat_of_lt' (show src < 2 ^ 32 by omega)]
  · rw [h.len, UInt32.toNat_ofNat_of_lt' (show np.dataLen + 2 < 2 ^ 32 by omega)]
    omega

theorem cmdSendaudio_of_occupant {s : Server} {target : Nat} {occupant : Occupant}
    (hlt : target < s.peersSize) (h : s.occupantAt target = some occupant) (packet : ENetPacket) :
    cmdSendaudio s (some packet) (some target) = .ok (occupant.peer, packet) := by
  have hrange : 0 ≤ (target : Int) ∧ (target : Int) < s.peersSize := by omega
  simp only [cmdSendaudio, if_pos hrange, Int.toNat_natCast, h]

/-! ## Receiving -/

section Receiving

variable {s : ClientState} {packet : ENetPacket}

theorem handleServerAudio_of_carries {src : Nat} {np : NetworkPacket} {peer : SvcPeer}
    (h : packet.Carries (UInt32.ofNat src) np) (hsrc : src < 2 ^ 31)
    (htime : np.time.toNat < 2 ^ 16) (hlen : np.dataLen + 10 < 2 ^ 32)
    (hdeafen : s.deafen = false) (hjoined : s.HasJoined src peer) :
    ∃ received, handleServerAudio s packet = .ok (s, some (peer, received)) ∧
      received.time = np.time ∧ received.dataLen = np.dataLen ∧
      Block.first received.data received.dataLen = Block.first np.data np.dataLen := by
  have hid : (UInt32.ofNat src).toNat = src :=
    UInt32.toNat_ofNat_of_lt' (show src < 2 ^ 32 by omega)
  have hlt := hjoined.lt
  obtain ⟨entry, hentry, -, hpeer⟩ := hjoined.entry
  have hdataLen : (UInt32.ofNat (np.dataLen + 2) - 2).toNat = np.dataLen := by
    have htotal : (UInt32.ofNat (np.dataLen + 2)).toNat = np.dataLen + 2 :=
      UInt32.toNat_ofNat_of_lt' (show np.dataLen + 2 < 2 ^ 32 by omega)
    rw [UInt32.toNat_sub_of_le _ _ (UInt32.le_iff_toNat_le.2 (by rw [htotal]; simp)), htotal]
    rfl
  have hrun := decodeServerAudio_run packet hdeafen
  simp only [h.src, h.len, h.time, hid, if_neg (show ¬ src ≥ s.peersSize by omega),
    hdataLen] at hrun
  refine ⟨⟨fun i => packet.data (10 + i), np.dataLen, np.time.toUInt16.toUInt32⟩, ?_, ?_, rfl,
    h.payload⟩
  · simp only [handleServerAudio, hrun, Client.peerAt, hid, hentry]
    simp [svcPacketRecieve, hpeer, hjoined.joined, bind, Except.bind, pure, Except.pure]
  · rw [← UInt32.toNat_inj, UInt16.toNat_toUInt32, UInt32.toNat_toUInt16, Nat.mod_eq_of_lt htime]

end Receiving

/-- What one client is given to send is what the others are given. -/
theorem audio_end_to_end {sender : ClientState} {packet : NetworkPacket} {server : Server}
    {receiver : ClientState} {src : Nat} {peer : SvcPeer} (hsrc : src < 2 ^ 31)
    (hid : sender.myId = src) (hmuted : sender.muted = false) (htime : packet.time.toNat < 2 ^ 16)
    (hlen : packet.dataLen + 10 < 2 ^ 32) (hdeafen : receiver.deafen = false)
    (hjoined : receiver.HasJoined src peer) (block memory memory' : Nat → UInt8) :
    ∃ sent relayed received,
      sendCallback block sender packet = some sent ∧
      decodeAudioPacket src (sent.arriveIn memory) = .ok relayed ∧
      (∀ (target : Nat) (occupant : Occupant), target < server.peersSize →
        server.occupantAt target = some occupant →
          cmdSendaudio server (some relayed) (some target) = .ok (occupant.peer, relayed)) ∧
      relayed.bytes = sent.bytes ∧
      handleServerAudio receiver (relayed.arriveIn memory') =
        .ok (receiver, some (peer, received)) ∧
      received.time = packet.time ∧ received.dataLen = packet.dataLen ∧
      Block.first received.data received.dataLen = Block.first packet.data packet.dataLen := by
  obtain ⟨sent, hsent, hcarries⟩ := sendCallback_carries hid hsrc hmuted block packet
  have harrived := hcarries.arriveIn memory
  obtain ⟨received, hreceived, hnp⟩ :=
    handleServerAudio_of_carries (harrived.arriveIn memory') hsrc htime hlen hdeafen hjoined
  exact ⟨sent, sent.arriveIn memory, received, hsent,
    decodeAudioPacket_of_carries harrived hsrc hlen,
    fun _ _ hlt h => cmdSendaudio_of_occupant hlt h _, ENetPacket.bytes_arriveIn memory,
    hreceived, hnp⟩

def listener : ClientState :=
  { ClientState.init with peers := [⟨true, 0, .live [], some 0⟩], peersSize := 1, joined := [0] }

def meetingServer : Server where
  peers := [⟨0, some ⟨some 6, [], []⟩⟩, ⟨1, some ⟨some 7, [], []⟩⟩]
  peersCount := 2
  peersSize := 2
  serverData := []
  peerData p := if p = 6 then some 0 else if p = 7 then some 1 else none

/-- Client 0 sends five bytes, and the listener hears them. -/
theorem audio_end_to_end_five :
    ∃ sent relayed received,
      sendCallback (fun _ => 255) { ClientState.init with myId := 0 }
          ⟨fun i => UInt8.ofNat i, 5, 1000⟩ = some sent ∧
      decodeAudioPacket 0 (sent.arriveIn fun _ => 1) = .ok relayed ∧
      (∀ (target : Nat) (occupant : Occupant), target < meetingServer.peersSize →
        meetingServer.occupantAt target = some occupant →
          cmdSendaudio meetingServer (some relayed) (some target) =
            .ok (occupant.peer, relayed)) ∧
      relayed.bytes = sent.bytes ∧
      handleServerAudio listener (relayed.arriveIn fun _ => 2) =
        .ok (listener, some (0, received)) ∧
      received.time = 1000 ∧ received.dataLen = 5 ∧
      Block.first received.data received.dataLen = Block.first (fun i => UInt8.ofNat i) 5 :=
  audio_end_to_end (by decide) rfl rfl (by decide) (by decide) rfl
    ⟨by decide, ⟨_, rfl, rfl, rfl⟩, by decide⟩ _ _ _

/-! ## What the server accepts -/

/-- The client reads the packet only where it has bytes, and what it gives to libsvc is
the packet without its header. -/
structure Decodable (s : ClientState) (packet : ENetPacket) : Prop where
  reads : ∀ a ∈ ((decodeServerAudio s packet).run []).2, a.InBounds
  data : ∀ src np, ((decodeServerAudio s packet).run []).1 = .recieve src np →
    10 ≤ packet.dataLength ∧ 2 ≤ (net32 packet.data 4).toNat ∧
      np.dataLen = packet.dataLength - 10 ∧ np.data = fun i => packet.data (10 + i)

section Decoding

variable {s : ClientState} {packet : ENetPacket}

theorem decodable_of_deafen (hdeafen : s.deafen = true) : Decodable s packet := by
  have hrun := decodeServerAudio_run_of_deafen packet hdeafen
  constructor
  · simp [hrun]
  · simp [hrun]

/-- Of a source that is out of the table the client reads only the first eight bytes. -/
theorem decodable_of_unknown (hdeafen : s.deafen = false) (hsmall : 8 < packet.dataLength)
    (hsize : s.peersSize ≤ (net32 packet.data 0).toNat) : Decodable s packet := by
  have hrun := decodeServerAudio_run packet hdeafen
  simp only [ge_iff_le, if_pos hsize] at hrun
  constructor
  · simp only [hrun, List.forall_mem_cons, Access.inBounds_iff]
    exact ⟨by omega, by omega, List.forall_mem_nil _⟩
  · simp [hrun]

/-- Of a source in the table it reads the time, too. -/
theorem decodable_iff_of_known (hdeafen : s.deafen = false)
    (hsize : (net32 packet.data 0).toNat < s.peersSize)
    (hlen : (net32 packet.data 4).toNat = packet.dataLength - 8) :
    Decodable s packet ↔ 10 ≤ packet.dataLength := by
  have hrun := decodeServerAudio_run packet hdeafen
  simp only [ge_iff_le, if_neg (not_le.2 hsize)] at hrun
  constructor
  · exact fun hdec => (hdec.data _ _ (congrArg Prod.fst hrun)).1
  · intro hlength
    have htotal : (net32 packet.data 4 - 2).toNat = packet.dataLength - 10 := by
      have hle : 2 ≤ net32 packet.data 4 := UInt32.le_iff_toNat_le.2 (by rw [hlen]; simp; omega)
      rw [UInt32.toNat_sub_of_le _ _ hle, hlen]
      simp
      omega
    constructor
    · simp only [hrun, List.cons_append, List.nil_append, List.forall_mem_cons, Access.inBounds_iff]
      exact ⟨by omega, by omega, by omega, List.forall_mem_nil _⟩
    · intro src np hnp
      rw [hrun] at hnp
      cases hnp
      exact ⟨hlength, by omega, htotal, rfl⟩

end Decoding

/-- A client can decode a packet that the server accepted exactly if it has a whole
header, unless the client ignores the packet. -/
theorem decodable_iff {s : ClientState} {peerId : Nat} {packet audioPacket : ENetPacket}
    (h : decodeAudioPacket peerId packet = .ok audioPacket) :
    Decodable s packet ↔
      s.deafen = true ∨ s.peersSize ≤ peerId ∨ 10 ≤ packet.dataLength := by
  obtain ⟨hsmall, rfl, hlen, -⟩ := decodeAudioPacket_eq_ok_iff.1 h
  cases hdeafen : s.deafen with
  | true => exact iff_of_true (decodable_of_deafen hdeafen) (.inl rfl)
  | false =>
      rcases Nat.lt_or_ge (net32 packet.data 0).toNat s.peersSize with hlt | hge
      · rw [decodable_iff_of_known hdeafen hlt hlen, or_iff_right Bool.false_ne_true,
          or_iff_right (Nat.not_le.2 hlt)]
      · exact iff_of_true (decodable_of_unknown hdeafen hsmall hge) (.inr (.inl hge))

/-- A packet of client 0 without audio data. -/
theorem decodable_ten :
    Decodable listener ⟨Bytes.memory [0, 0, 0, 0, 0, 0, 0, 2, 5, 5], 10⟩ ↔
      listener.deafen = true ∨ listener.peersSize ≤ 0 ∨ 10 ≤ 10 :=
  decodable_iff (decodeAudioPacket_eq_ok_iff.2 ⟨by decide, by decide, by decide, rfl⟩)

def ninthByte : ENetPacket := ⟨Bytes.memory [0, 0, 0, 0, 0, 0, 0, 1, 5], 9⟩

theorem accepted_not_decodable :
    (∃ audioPacket, decodeAudioPacket 0 ninthByte = .ok audioPacket) ∧
      ¬ Decodable listener ninthByte := by
  refine ⟨⟨_, decodeAudioPacket_eq_ok_iff.2 ⟨by decide, by decide, by decide, rfl⟩⟩, fun h => ?_⟩
  exact absurd h.reads (by decide)

end Svc.Svcenet
