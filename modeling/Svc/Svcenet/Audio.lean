import Svc.Common.Dstr.Contents
import Svc.Lib.BigEndian
import Svc.Svcenet.Client.State

/-!
# Audio packets

A packet of channel 1 has a header of ten bytes: the id of its source, the number of
bytes that follow these eight, and the time.  A client builds it, the server checks the
first eight bytes and passes it on, and another client takes it apart.
-/

namespace Svc.Svcenet

open Svc.Common Svc.Lib

structure NetworkPacket where
  data : Nat → UInt8
  dataLen : Nat
  time : UInt32

structure ENetPacket where
  data : Nat → UInt8
  dataLength : Nat

def ENetPacket.bytes (packet : ENetPacket) : Bytes := Block.first packet.data packet.dataLength

/-- The packet as it arrives: the same bytes, at the start of other memory. -/
def ENetPacket.arriveIn (packet : ENetPacket) (memory : Nat → UInt8) : ENetPacket :=
  { packet with data := Block.copy memory 0 packet.data packet.dataLength }

/-! ## Byte order -/

/-- `*(enet_uint32*)(data + offset) = ENET_HOST_TO_NET_32(value)` -/
def putNet32 (data : Nat → UInt8) (offset : Nat) (value : UInt32) : Nat → UInt8 :=
  Block.copy data offset (Bytes.memory (toBigEndian 4 value.toNat)) 4

def putNet16 (data : Nat → UInt8) (offset : Nat) (value : UInt16) : Nat → UInt8 :=
  Block.copy data offset (Bytes.memory (toBigEndian 2 value.toNat)) 2

/-- `ENET_NET_TO_HOST_32(*(enet_uint32*)(data + offset))` -/
def net32 (data : Nat → UInt8) (offset : Nat) : UInt32 :=
  UInt32.ofNat (ofBigEndian (Block.slice data offset 4))

def net16 (data : Nat → UInt8) (offset : Nat) : UInt16 :=
  UInt16.ofNat (ofBigEndian (Block.slice data offset 2))

/-! ## The sender -/

/-- `send_callback`: the packet it sends, which it builds in a block that holds `memory`. -/
def sendCallback (memory : Nat → UInt8) (s : ClientState) (packet : NetworkPacket) :
    Option ENetPacket :=
  if s.myId = 2 ^ 32 - 1 ∨ s.muted then none
  else
    let data := putNet32 memory 0 (UInt32.ofNat s.myId)
    let data := putNet32 data 4 (UInt32.ofNat (packet.dataLen + 2))
    let data := putNet16 data 8 packet.time.toUInt16
    some ⟨Block.copy data 10 packet.data packet.dataLen, packet.dataLen + 10⟩

/-! ## The server -/

def asInt (n : Nat) : Int := if n % 2 ^ 32 < 2 ^ 31 then n % 2 ^ 32 else n % 2 ^ 32 - (2 ^ 32 : Int)

/-- `decode_audio_packet`: the packet that `audio_packet_data` and `audio_packet_length`
are set to, or what it prints when it returns 1. -/
def decodeAudioPacket (peerId : Nat) (packet : ENetPacket) : Except Bytes ENetPacket :=
  let sender := cstr "Audio packet from #" ++ decimalInt (asInt peerId)
  if packet.dataLength ≤ 8 then
    .error (sender ++ cstr " is too small (" ++ decimalInt (asInt packet.dataLength) ++
      cstr " bytes)\n")
  else
    let src := net32 packet.data 0
    let len := net32 packet.data 4
    if src.toNat ≠ peerId then
      .error (sender ++ cstr " is said to be from #" ++ decimalInt (asInt src.toNat) ++ cstr "!\n")
    else if len.toNat ≠ packet.dataLength - 8 then
      .error (sender ++ cstr " is expected to be " ++ decimalInt (asInt len.toNat) ++
        cstr " bytes long, but only " ++ decimalInt (asInt packet.dataLength - 8) ++
        cstr " bytes are available!\n")
    else .ok { packet with dataLength := packet.dataLength % 2 ^ 32 }

/-- `cmd_sendaudio`, called with one argument: where it sends which packet on channel 1,
or the error it raises.  `peerId` is `none` where `Jim_GetLong` fails. -/
def cmdSendaudio (s : Server) (audioPacket : Option ENetPacket) (peerId : Option Int) :
    Except String (Option ENetPeer × ENetPacket) :=
  match peerId with
  | none => .error "sendaudio argument 1 should be an integer peer ID"
  | some peerId =>
      match (if 0 ≤ peerId ∧ peerId < s.peersSize then s.occupantAt peerId.toNat else none) with
      | none => .error "sendaudio argument 2: peer doesn't exist"
      | some occupant =>
          match audioPacket with
          | none => .error "sendaudio: no audio packet available"
          | some packet => .ok (occupant.peer, packet)

/-! ## The receiver -/

abbrev ReadM := StateM (List Access)

namespace ENetPacket

def readNet32 (packet : ENetPacket) (offset : Nat) : ReadM UInt32 := do
  modify (· ++ [⟨offset, 4, packet.dataLength⟩])
  return net32 packet.data offset

def readNet16 (packet : ENetPacket) (offset : Nat) : ReadM UInt16 := do
  modify (· ++ [⟨offset, 2, packet.dataLength⟩])
  return net16 packet.data offset

end ENetPacket

inductive AudioOutcome where
  | deafened
  | invalidSource (src : UInt32)
  /-- `svc_packet_recieve` is called for the table entry of the source -/
  | recieve (src : UInt32) (np : NetworkPacket)

/-- `handle_server_audio` without what it calls at its end. -/
def decodeServerAudio (s : ClientState) (packet : ENetPacket) : ReadM AudioOutcome := do
  if s.deafen then
    return .deafened
  let src ← packet.readNet32 0
  let len ← packet.readNet32 4
  if src.toNat ≥ s.peersSize then
    return .invalidSource src
  let time ← packet.readNet16 8
  return .recieve src
    { data := fun i => packet.data (10 + i), dataLen := (len - 2).toNat, time := time.toUInt32 }

/-- `svc_packet_recieve` uses the decoder and the cage of the peer. -/
def svcPacketRecieve (c : Client) (peer : Option SvcPeer) : Except Fault SvcPeer :=
  match peer with
  | none => .error .nullPointer
  | some peer => if peer ∈ c.joined then .ok peer else .error .useAfterFree

def handleServerAudio (s : ClientState) (packet : ENetPacket) :
    Except Fault (ClientState × Option (SvcPeer × NetworkPacket)) :=
  match ((decodeServerAudio s packet).run []).1 with
  | .deafened => .ok (s, none)
  | .invalidSource src =>
      .ok (s.printError (cstr "Invalid source " ++ decimalInt (asInt src.toNat) ++
        cstr " in audio packet.\n"), none)
  | .recieve src np => do
      let entry ← s.peerAt src.toNat
      let peer ← svcPacketRecieve s.toClient entry.peer
      return (s, some (peer, np))

/-! ## What is written is read -/

section ByteOrder

variable {data : Nat → UInt8} {offset index count : Nat} {src : Nat → UInt8}

theorem slice_putBytes (data : Nat → UInt8) (offset width n : Nat) :
    Block.slice (Block.copy data offset (Bytes.memory (toBigEndian width n)) width) offset width =
      toBigEndian width n := by
  have hbytes := first_memory (toBigEndian width n)
  rwa [length_toBigEndian, ← Block.slice_copy_self] at hbytes

theorem net32_putNet32 (data : Nat → UInt8) (offset : Nat) (value : UInt32) :
    net32 (putNet32 data offset value) offset = value := by
  rw [net32, putNet32, slice_putBytes, ofBigEndian_toBigEndian,
    Nat.mod_eq_of_lt (show value.toNat < 256 ^ 4 from value.toNat_lt), UInt32.ofNat_toNat]

theorem net16_putNet16 (data : Nat → UInt8) (offset : Nat) (value : UInt16) :
    net16 (putNet16 data offset value) offset = value := by
  rw [net16, putNet16, slice_putBytes, ofBigEndian_toBigEndian,
    Nat.mod_eq_of_lt (show value.toNat < 256 ^ 2 from value.toNat_lt), UInt16.ofNat_toNat]

theorem net32_copy (h : offset + 4 ≤ index ∨ index + count ≤ offset) :
    net32 (Block.copy data index src count) offset = net32 data offset := by
  rw [net32, net32, Block.slice_copy_outside h]

theorem net16_copy (h : offset + 2 ≤ index ∨ index + count ≤ offset) :
    net16 (Block.copy data index src count) offset = net16 data offset := by
  rw [net16, net16, Block.slice_copy_outside h]

end ByteOrder

theorem decodeServerAudio_run_of_deafen {s : ClientState} (packet : ENetPacket)
    (hdeafen : s.deafen = true) : (decodeServerAudio s packet).run [] = (.deafened, []) := by
  simp only [decodeServerAudio, hdeafen, if_true]
  rfl

theorem decodeServerAudio_run {s : ClientState} (packet : ENetPacket) (hdeafen : s.deafen = false) :
    (decodeServerAudio s packet).run [] =
      let src := net32 packet.data 0
      let header : List Access := [⟨0, 4, packet.dataLength⟩, ⟨4, 4, packet.dataLength⟩]
      if src.toNat ≥ s.peersSize then (.invalidSource src, header)
      else
        (.recieve src
          { data := fun i => packet.data (10 + i)
            dataLen := (net32 packet.data 4 - 2).toNat
            time := (net16 packet.data 8).toUInt32 },
          header ++ [⟨8, 2, packet.dataLength⟩]) := by
  by_cases hsrc : (net32 packet.data 0).toNat ≥ s.peersSize
  · simp only [decodeServerAudio, hdeafen, if_pos hsrc]
    simp [ENetPacket.readNet32, hsrc]
    rfl
  · simp only [decodeServerAudio, hdeafen, if_neg hsrc]
    simp [ENetPacket.readNet32, ENetPacket.readNet16, hsrc]
    rfl

end Svc.Svcenet
