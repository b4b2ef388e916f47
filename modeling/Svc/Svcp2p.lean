import Svc.Svcenet.Audio

/-!
# The peer-to-peer program

`svcp2p` sends each packet of its user to every peer, in a datagram of its own: the time in
two bytes, the lower one first, and the payload behind them.  Its loop takes the datagrams of
known peers apart in one buffer, which keeps what earlier datagrams left in it.
-/

namespace Svc.Svcp2p

open Svc.Common Svc.Lib
open Svc.Svcenet (NetworkPacket SvcPeer)

/-- `struct sockaddr_in`, without its family -/
structure Address where
  port : UInt16
  addr : UInt32
  deriving DecidableEq

structure Peer where
  peer : SvcPeer
  address : Address

/-- A UDP datagram: it carries at most 65507 bytes. -/
structure Datagram where
  bytes : Bytes
  fits : bytes.length ≤ 65507

/-! ## Sending -/

/-- `sendto`, which fails if the bytes do not fit in a datagram -/
def sendto (data : Nat → UInt8) (count : Nat) : Option Datagram :=
  if h : count ≤ 65507 then some ⟨Block.first data count, by rwa [Block.length_first]⟩ else none

/-- What `send_callback` puts in the block that `malloc` returns with `memory` in it -/
def datagramData (memory : Nat → UInt8) (packet : NetworkPacket) : Nat → UInt8 :=
  let data := Block.copy memory 0 (fun _ => (packet.time &&& 0xFF).toUInt8) 1
  let data := Block.copy data 1 (fun _ => ((packet.time >>> 8) &&& 0xFF).toUInt8) 1
  Block.copy data 2 packet.data packet.dataLen

/-- `send_callback`, with the datagrams that go to the peers -/
def sendCallback (initialized : Bool) (peers : List Peer) (memory : Nat → UInt8)
    (packet : NetworkPacket) : List (Address × Datagram) :=
  if ¬ initialized then []
  else
    let data := datagramData memory packet
    peers.filterMap fun p => (sendto data (packet.dataLen + 2)).map fun d => (p.address, d)

/-! ## Receiving -/

structure Arrival where
  remote : Address
  datagram : Datagram

structure Delivery where
  arrival : Arrival
  np : NetworkPacket
  peer : SvcPeer

def knownPeer (peers : List Peer) (remote : Address) : Option Peer :=
  peers.find? fun p => p.address.port = remote.port ∧ p.address.addr = remote.addr

/-- `np`, for `r` bytes in the buffer: `r - 2` is an `int`, and `data_len` a `size_t`. -/
def decode (buffer : Nat → UInt8) (r : Nat) : NetworkPacket where
  data := fun i => buffer (2 + i)
  dataLen := (((r : Int) - 2) % 2 ^ 64).toNat
  time := (buffer 0).toUInt32 ||| (buffer 1).toUInt32 <<< 8

/-- One round of the loop of `main` in which `select` reports a datagram -/
def receive (peers : List Peer) (buffer : Nat → UInt8) (arrival : Arrival) :
    (Nat → UInt8) × Option Delivery :=
  let r := min arrival.datagram.bytes.length 65536
  let buffer := Block.copy buffer 0 (Bytes.memory arrival.datagram.bytes) r
  if r ≤ 0 then (buffer, none)
  else (buffer, (knownPeer peers arrival.remote).map fun p => ⟨arrival, decode buffer r, p.peer⟩)

def receiveLoop (peers : List Peer) : (buffer : Nat → UInt8) → List Arrival → List Delivery
  | _, [] => []
  | buffer, arrival :: rest =>
      (receive peers buffer arrival).2.toList ++
        receiveLoop peers (receive peers buffer arrival).1 rest

/-! ## The bytes of a datagram -/

section Bytes

/-- A time is the two bytes that are sent for it. -/
theorem toNat_time (b0 b1 : UInt8) :
    (b0.toUInt32 ||| b1.toUInt32 <<< 8).toNat = b0.toNat + 256 * b1.toNat := by
  have h0 := b0.toNat_lt
  have h1 := b1.toNat_lt
  have hshift : (b1.toUInt32 <<< 8).toNat = b1.toNat <<< 8 := by
    rw [UInt32.toNat_shiftLeft, UInt8.toNat_toUInt32]
    show b1.toNat <<< 8 % 2 ^ 32 = _
    rw [Nat.shiftLeft_eq]
    omega
  rw [UInt32.toNat_or, hshift, UInt8.toNat_toUInt32, Nat.or_comm,
    ← Nat.shiftLeft_add_eq_or_of_lt h0, Nat.shiftLeft_eq]
  omega

theorem toNat_low (time : UInt32) : (time &&& 0xFF).toUInt8.toNat = time.toNat % 256 := by
  have hand : (time &&& 0xFF).toNat = time.toNat % 2 ^ 8 := by
    rw [UInt32.toNat_and]
    exact Nat.and_two_pow_sub_one_eq_mod _ 8
  rw [UInt32.toNat_toUInt8, hand]
  omega

theorem toNat_high (time : UInt32) :
    ((time >>> 8) &&& 0xFF).toUInt8.toNat = time.toNat / 256 % 256 := by
  have hshift : (time >>> 8).toNat = time.toNat / 256 := by
    rw [UInt32.toNat_shiftRight]
    exact Nat.shiftRight_eq_div_pow _ _
  rw [toNat_low, hshift]

def encode (time : UInt32) (payload : Bytes) : Bytes :=
  (time &&& 0xFF).toUInt8 :: ((time >>> 8) &&& 0xFF).toUInt8 :: payload

theorem first_datagramData (memory : Nat → UInt8) (packet : NetworkPacket) :
    Block.first (datagramData memory packet) (packet.dataLen + 2) =
      encode packet.time (Block.first packet.data packet.dataLen) := by
  rw [Nat.add_comm, datagramData, Block.first_copy le_rfl]
  rfl

/-- The first two bytes in the buffer and what is behind them -/
theorem first_eq_cons_cons_iff {buffer : Nat → UInt8} {n : Nat} {b0 b1 : UInt8} {rest : Bytes} :
    Block.first buffer (2 + n) = b0 :: b1 :: rest ↔
      buffer 0 = b0 ∧ buffer 1 = b1 ∧ Block.slice buffer 2 n = rest := by
  rw [Block.first_add]
  have htwo : Block.first buffer 2 = [buffer 0, buffer 1] := rfl
  rw [htwo, List.cons_append, List.cons_append, List.nil_append, List.cons.injEq, List.cons.injEq]
  rfl

end Bytes

/-! ## Sent and received -/

section Transfer

variable {peers : List Peer} {buffer : Nat → UInt8} {arrival : Arrival}

theorem sendto_eq_some_iff {data : Nat → UInt8} {count : Nat} {d : Datagram} :
    sendto data count = some d ↔ count ≤ 65507 ∧ d.bytes = Block.first data count := by
  rw [sendto]
  split_ifs with hfits
  · rw [Option.some.injEq]
    constructor
    · rintro rfl
      exact ⟨hfits, rfl⟩
    · rintro ⟨-, hbytes⟩
      cases d
      simp only at hbytes
      subst hbytes
      rfl
  · exact iff_of_false nofun fun h => hfits h.1

/-- Each peer is sent the encoded packet, if that fits in a datagram. -/
theorem mem_sendCallback_iff {memory : Nat → UInt8} {packet : NetworkPacket} {target : Address}
    {d : Datagram} :
    (target, d) ∈ sendCallback true peers memory packet ↔
      (∃ p ∈ peers, p.address = target) ∧ packet.dataLen + 2 ≤ 65507 ∧
        d.bytes = encode packet.time (Block.first packet.data packet.dataLen) := by
  rw [sendCallback, if_neg (by decide)]
  simp only [List.mem_filterMap, Option.map_eq_some_iff, Prod.mk.injEq, sendto_eq_some_iff,
    first_datagramData]
  constructor
  · rintro ⟨p, hp, d', hd, rfl, rfl⟩
    exact ⟨⟨p, hp, rfl⟩, hd⟩
  · rintro ⟨⟨p, hp, rfl⟩, hd⟩
    exact ⟨p, hp, d, hd, rfl, rfl⟩

theorem receive_eq (peers : List Peer) (buffer : Nat → UInt8) (arrival : Arrival) :
    receive peers buffer arrival =
      (Block.copy buffer 0 (Bytes.memory arrival.datagram.bytes) arrival.datagram.bytes.length,
        if arrival.datagram.bytes.length = 0 then none
        else (knownPeer peers arrival.remote).map fun p =>
          ⟨arrival, decode (Block.copy buffer 0 (Bytes.memory arrival.datagram.bytes)
            arrival.datagram.bytes.length) arrival.datagram.bytes.length, p.peer⟩) := by
  have hfits := arrival.datagram.fits
  have hr : min arrival.datagram.bytes.length 65536 = arrival.datagram.bytes.length := by omega
  rw [receive, hr]
  simp only [Nat.le_zero]
  split_ifs <;> rfl

/-- The buffer begins with the bytes of the datagram. -/
theorem first_receive (peers : List Peer) (buffer : Nat → UInt8) (arrival : Arrival) :
    Block.first (receive peers buffer arrival).1 arrival.datagram.bytes.length =
      arrival.datagram.bytes := by
  have hcopy : Block.first (Block.copy buffer 0 (Bytes.memory arrival.datagram.bytes)
      arrival.datagram.bytes.length) (0 + arrival.datagram.bytes.length) = _ :=
    Block.first_copy le_rfl
  rw [Nat.zero_add, first_memory, Block.first_zero, List.nil_append] at hcopy
  rw [receive_eq]
  exact hcopy

/-- What the loop passes on is the datagram in its buffer, taken apart. -/
theorem receive_eq_some_iff {delivery : Delivery} :
    (receive peers buffer arrival).2 = some delivery ↔
      1 ≤ arrival.datagram.bytes.length ∧ ∃ p, knownPeer peers arrival.remote = some p ∧
        delivery = ⟨arrival, decode (receive peers buffer arrival).1 arrival.datagram.bytes.length,
          p.peer⟩ := by
  rw [receive_eq]
  dsimp only
  split_ifs with hempty
  · exact iff_of_false nofun fun h => by omega
  · rw [Option.map_eq_some_iff, and_iff_right (Nat.one_le_iff_ne_zero.2 hempty)]
    simp only [eq_comm]

theorem dataLen_decode (buffer : Nat → UInt8) {r : Nat} (hr : 2 ≤ r) (hfits : r ≤ 65507) :
    (decode buffer r).dataLen + 2 = r := by
  rw [decode]
  dsimp only
  omega

theorem dataLen_decode_one : (decode buffer 1).dataLen = 2 ^ 64 - 1 := rfl

/-- Taking apart undoes putting together. -/
theorem decode_of_first {time : UInt32} {payload : Bytes} {n : Nat} (htime : time.toNat ≤ 65535)
    (hfits : n + 2 ≤ 65507) (hbuffer : Block.first buffer (n + 2) = encode time payload) :
    (decode buffer (n + 2)).time = time ∧ (decode buffer (n + 2)).dataLen = n ∧
      Block.first (decode buffer (n + 2)).data n = payload := by
  rw [Nat.add_comm, encode, first_eq_cons_cons_iff] at hbuffer
  obtain ⟨hlow, hhigh, hrest⟩ := hbuffer
  have hlength := dataLen_decode buffer (Nat.le_add_left 2 n) hfits
  refine ⟨?_, by omega, hrest⟩
  rw [← UInt32.toNat_inj, decode]
  dsimp only
  rw [toNat_time, hlow, hhigh, toNat_low, toNat_high]
  omega

/-- Putting together undoes taking apart, if there are two bytes to take apart. -/
theorem encode_decode (buffer : Nat → UInt8) (n : Nat) :
    (decode buffer (n + 2)).time.toNat ≤ 65535 ∧
      encode (decode buffer (n + 2)).time (Block.first (decode buffer (n + 2)).data n) =
        Block.first buffer (n + 2) := by
  have h0 := (buffer 0).toNat_lt
  have h1 := (buffer 1).toNat_lt
  have htime : (decode buffer (n + 2)).time.toNat = (buffer 0).toNat + 256 * (buffer 1).toNat :=
    toNat_time _ _
  refine ⟨by omega, ?_⟩
  rw [Nat.add_comm n 2, encode, eq_comm, first_eq_cons_cons_iff, ← UInt8.toNat_inj,
    ← UInt8.toNat_inj, toNat_low, toNat_high, Nat.add_comm 2 n, htime]
  exact ⟨by omega, by omega, rfl⟩

/-- A peer takes the sender's packet out of a datagram that it was sent. -/
theorem receive_sent {senders : List Peer} {memory : Nat → UInt8} {packet : NetworkPacket}
    {target remote : Address} {d : Datagram} {p : Peer} (htime : packet.time.toNat ≤ 65535)
    (hsent : (target, d) ∈ sendCallback true senders memory packet)
    (hknown : knownPeer peers remote = some p) :
    ∃ np, (receive peers buffer ⟨remote, d⟩).2 = some ⟨⟨remote, d⟩, np, p.peer⟩ ∧
      np.time = packet.time ∧ np.dataLen = packet.dataLen ∧
      Block.first np.data np.dataLen = Block.first packet.data packet.dataLen := by
  obtain ⟨-, hfits, hbytes⟩ := mem_sendCallback_iff.1 hsent
  have hlength : d.bytes.length = packet.dataLen + 2 := by
    rw [hbytes, encode, List.length_cons, List.length_cons, Block.length_first]
  have hfirst := first_receive peers buffer ⟨remote, d⟩
  dsimp only at hfirst
  rw [hlength, hbytes] at hfirst
  obtain ⟨htime', hlen, hdata⟩ := decode_of_first htime hfits hfirst
  rw [← hlength] at htime' hlen hdata
  exact ⟨_, receive_eq_some_iff.2 ⟨show 1 ≤ d.bytes.length by omega, p, hknown, rfl⟩, htime', hlen,
    by rwa [hlen]⟩

end Transfer

/-! ## What the loop passes on -/

structure SentIn (np : NetworkPacket) (d : Datagram) : Prop where
  length : np.dataLen + 2 = d.bytes.length
  time : np.time.toNat ≤ 65535
  sent : ∀ memory p, sendCallback true [p] memory np = [(p.address, d)]

section Loop

variable {peers : List Peer} {buffer : Nat → UInt8} {delivery : Delivery}

/-- Every delivery of the loop is one of a round, with what the buffer held by then. -/
theorem exists_receive_of_mem {arrivals : List Arrival}
    (h : delivery ∈ receiveLoop peers buffer arrivals) :
    ∃ buffer' arrival, arrival ∈ arrivals ∧
      (receive peers buffer' arrival).2 = some delivery := by
  induction arrivals generalizing buffer with
  | nil => cases h
  | cons arrival rest ih =>
      rw [receiveLoop, List.mem_append, Option.mem_toList] at h
      rcases h with h | h
      · exact ⟨buffer, arrival, List.mem_cons_self, h⟩
      · obtain ⟨buffer', arrival', hmem, hreceive⟩ := ih h
        exact ⟨buffer', arrival', List.mem_cons_of_mem _ hmem, hreceive⟩

theorem sendCallback_singleton {np : NetworkPacket} {d : Datagram} {memory : Nat → UInt8}
    (p : Peer) (hfits : np.dataLen + 2 ≤ 65507)
    (hbytes : d.bytes = encode np.time (Block.first np.data np.dataLen)) :
    sendCallback true [p] memory np = [(p.address, d)] := by
  have hsendto : sendto (datagramData memory np) (np.dataLen + 2) = some d :=
    sendto_eq_some_iff.2 ⟨hfits, by rw [hbytes, first_datagramData]⟩
  rw [sendCallback, if_neg (by decide)]
  dsimp only
  rw [List.filterMap_cons_some (by rw [hsendto]; rfl), List.filterMap_nil]

/-- A datagram of one byte has no room for the time. -/
theorem sentIn_iff_of_receive {arrival : Arrival}
    (h : (receive peers buffer arrival).2 = some delivery) :
    SentIn delivery.np delivery.arrival.datagram ↔
      2 ≤ delivery.arrival.datagram.bytes.length := by
  obtain ⟨hpos, p, -, rfl⟩ := receive_eq_some_iff.1 h
  have hfits := arrival.datagram.fits
  have hfirst := first_receive peers buffer arrival
  dsimp only
  generalize hr : arrival.datagram.bytes.length = r at *
  constructor
  · intro hsent
    by_contra hshort
    obtain rfl : r = 1 := by omega
    have hlength := hsent.length
    rw [dataLen_decode_one, hr] at hlength
    omega
  · intro htwo
    obtain ⟨n, rfl⟩ : ∃ n, r = n + 2 := ⟨r - 2, by omega⟩
    have hlength := dataLen_decode (receive peers buffer arrival).1 htwo hfits
    have hn : (decode (receive peers buffer arrival).1 (n + 2)).dataLen = n := by omega
    obtain ⟨htime, hencode⟩ := encode_decode (receive peers buffer arrival).1 n
    refine ⟨by omega, htime, fun memory p => sendCallback_singleton p (by omega) ?_⟩
    rw [hn, hencode, hfirst]

end Loop

/-- Every packet that is sent is taken out of its datagram again.  What the loop passes on in
any run is a packet that could have been sent in the datagram unless that has a single byte. -/
theorem datagram_format (peers : List Peer) (buffer : Nat → UInt8) :
    (∀ senders memory packet target d remote p, packet.time.toNat ≤ 65535 →
      (target, d) ∈ sendCallback true senders memory packet →
      knownPeer peers remote = some p →
      ∃ np, (receive peers buffer ⟨remote, d⟩).2 = some ⟨⟨remote, d⟩, np, p.peer⟩ ∧
        np.time = packet.time ∧ np.dataLen = packet.dataLen ∧
        Block.first np.data np.dataLen = Block.first packet.data packet.dataLen) ∧
    ∀ arrivals, ∀ delivery ∈ receiveLoop peers buffer arrivals,
      (SentIn delivery.np delivery.arrival.datagram ↔
        2 ≤ delivery.arrival.datagram.bytes.length) := by
  refine ⟨fun senders memory packet target d remote p htime hsent hknown =>
    receive_sent htime hsent hknown, fun arrivals delivery hmem => ?_⟩
  obtain ⟨buffer', arrival, -, hreceive⟩ := exists_receive_of_mem hmem
  exact sentIn_iff_of_receive hreceive

/-- A datagram of one byte from a known peer: `r - 2` is `-1`, and `data_len` the largest
`size_t`. -/
theorem not_sentIn_one_byte :
    ∃ arrival : Arrival, arrival.datagram.bytes = [5] ∧
      ∃ delivery ∈ receiveLoop [⟨0, 7000, 1⟩] (fun _ => 0) [arrival],
        delivery.np.dataLen = 2 ^ 64 - 1 ∧ ¬ SentIn delivery.np delivery.arrival.datagram := by
  have hfits : [(5 : UInt8)].length ≤ 65507 := by decide
  exact ⟨⟨⟨7000, 1⟩, ⟨[5], hfits⟩⟩, rfl, _, List.mem_singleton.2 rfl, rfl,
    fun h => absurd (show 2 ^ 64 - 1 + 2 = 1 from h.length) (by decide)⟩

end Svc.Svcp2p
