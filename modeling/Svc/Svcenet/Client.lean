import Mathlib.Algebra.Group.Int.Defs
import Mathlib.Algebra.Group.Nat.Defs
import Svc.Common.Decimal
import Svc.Common.Dstrlex
import Svc.Lib.Dict
import Svc.Svcenet.Server

/-!
# The client

`client/main.c` cuts a packet of channel 0 into lines, lexes each line and carries
out the command it names on its copy of the server's state.
-/

namespace Svc.Svcenet

open Svc.Common Svc.Lib

/-! ## Dictionaries -/

structure DsdictNode where
  key : CString
  value : Bytes
  deriving DecidableEq

/-- `dsdict`: the nodes from `front` to `back` -/
abbrev Dsdict := List DsdictNode

def dsdictSet (dict : Dsdict) (key : CString) (value : Bytes) : Dsdict :=
  Dict.set DsdictNode.key key (fun node => { node with value }) ⟨key, value⟩ dict

def dsdictGet (dict : Dsdict) (key : CString) : Option Bytes :=
  (Dict.find DsdictNode.key key dict).map DsdictNode.value

inductive DsdictPtr where
  | null
  | freed
  | live (dict : Dsdict)
  deriving DecidableEq

def DsdictPtr.deref : DsdictPtr → Except Fault Dsdict
  | .null => .error .nullPointer
  | .freed => .error .useAfterFree
  | .live dict => .ok dict

/-! ## The state -/

abbrev SvcPeer := Nat

structure ClientPeer where
  connected : Bool
  id : Nat
  data : DsdictPtr
  /-- `none` is `NULL` -/
  peer : Option SvcPeer
  deriving DecidableEq

def ClientPeer.new (id : Nat) : ClientPeer := ⟨false, id, .null, none⟩

/-- What the commands of the server read and change in `ClientState`, the peers that
libsvc mixes, and what was printed.  `myId` and `peersSize` are the values as
`unsigned int`. -/
structure Client where
  serverInfo : DsdictPtr
  myId : Nat
  /-- the allocated entries -/
  peers : List ClientPeer
  peersSize : Nat
  /-- the peers that joined libsvc and did not leave -/
  joined : List SvcPeer
  /-- the pointer that `malloc` returns next in `svc_peer_join` -/
  nextPeer : SvcPeer
  stdout : List Bytes
  stderr : List Bytes
  deriving DecidableEq

/-- The state when the connection is up: `dsdict_new` was called, and `my_id` is -1. -/
def Client.connected : Client := ⟨.live [], 2 ^ 32 - 1, [], 0, [], 0, [], []⟩

def Client.echo (c : Client) (cmd : Bytes) : Client :=
  { c with stdout := c.stdout ++ [(asCString cmd).bytes ++ cstr "\n"] }

def Client.complain (c : Client) (line : Bytes) : Client := { c with stderr := c.stderr ++ [line] }

def Client.svcPeerJoin (c : Client) : SvcPeer × Client :=
  (c.nextPeer, { c with joined := c.nextPeer :: c.joined, nextPeer := c.nextPeer + 1 })

/-- `svc_peer_leave` destroys the decoder and the cage of the peer. -/
def Client.svcPeerLeave (c : Client) (peer : SvcPeer) : Except Fault Client :=
  if peer ∈ c.joined then .ok { c with joined := c.joined.erase peer } else .error .useAfterFree

def Client.peerAt (c : Client) (peerId : Nat) : Except Fault ClientPeer :=
  match c.peers[peerId]? with
  | some peer => .ok peer
  | none => .error .outOfBounds

def Client.setPeer (c : Client) (peerId : Nat) (peer : ClientPeer) : Client :=
  { c with peers := c.peers.set peerId peer }

/-! ## Commands of the server -/

def decimalInt (n : Int) : Bytes :=
  if n < 0 then chr '-' :: decimal n.natAbs else decimal n.natAbs

/-- `decode_peer_id`, converted to `unsigned int` -/
def decodePeerId (id : Bytes) : Nat := (atoi (asCString id) % 2 ^ 32).toNat

/-- An `unsigned int` printed by `%i` -/
def printPeerId (peerId : Nat) : Bytes :=
  decimalInt (if peerId < 2 ^ 31 then peerId else (peerId : Int) - 2 ^ 32)

def Client.wrongArguments (c : Client) (command : String) (argv : List Bytes) : Client :=
  c.complain (cstr "Invalid server command: " ++ cstr command ++ cstr " with " ++
    decimalInt (argv.length - 1) ++ cstr " arguments.\n")

def Client.wrongPeerId (c : Client) (command : String) (peerId : Nat) : Client :=
  c.complain (cstr "Invalid peer_id " ++ printPeerId peerId ++ cstr " in " ++ cstr command ++
    cstr ".\n")

def scmdSset (c : Client) (cmd : Bytes) (argv : List Bytes) : Except Fault Client :=
  match argv with
  | [_, key, value] => do
      let dict ← c.serverInfo.deref
      return { c with serverInfo := .live (dsdictSet dict (asCString key) value) }.echo cmd
  | _ => .ok (c.wrongArguments "SSET" argv)

def scmdYare (c : Client) (cmd : Bytes) (argv : List Bytes) : Except Fault Client :=
  match argv with
  | [_, id] => .ok ({ c with myId := decodePeerId id }.echo cmd)
  | _ => .ok (c.wrongArguments "YARE" argv)

/-- The first half of `scmd_padd`: make room for `peer_id`.  The first table is
allocated for `peers_size` entries as an `int`, so from 2^31 entries on `malloc`
returns `NULL`; a larger table is allocated for `peer_id + 1` entries, which is
none at all for the largest id. -/
def Client.growPeers (c : Client) (peerId : Nat) : Except Fault Client :=
  let newSize := (peerId + 1) % 2 ^ 32
  if c.peersSize = 0 then
    if newSize < 2 ^ 31 then
      .ok { c with peersSize := newSize, peers := (List.range newSize).map .new }
    else .error .nullPointer
  else if c.peersSize ≤ peerId then
    if newSize = 0 then .error .outOfBounds
    else
      .ok { c with
        peersSize := newSize
        peers := c.peers ++ (List.range' c.peersSize (newSize - c.peersSize)).map .new }
  else .ok c

def scmdPadd (c : Client) (cmd : Bytes) (argv : List Bytes) : Except Fault Client :=
  match argv with
  | [_, id] => do
      let peerId := decodePeerId id
      let c ← c.growPeers peerId
      let entry ← c.peerAt peerId
      let entry := { entry with connected := true, data := .live [] }
      if peerId = c.myId then
        return (c.setPeer peerId { entry with peer := none }).echo cmd
      else
        let (peer, c) := c.svcPeerJoin
        return (c.setPeer peerId { entry with peer := some peer }).echo cmd
  | _ =>
      .ok ((c.complain (cstr "[" ++ (asCString cmd).bytes ++ cstr "]\n")).wrongArguments "PADD"
        argv)

def scmdPdel (c : Client) (cmd : Bytes) (argv : List Bytes) : Except Fault Client :=
  match argv with
  | [_, id] =>
      let peerId := decodePeerId id
      if c.peersSize ≤ peerId then .ok (c.wrongPeerId "PDEL" peerId)
      else do
        let entry ← c.peerAt peerId
        let c ← match entry.peer with
          | some peer => c.svcPeerLeave peer
          | none => pure c
        let _ ← entry.data.deref
        return (c.setPeer peerId { entry with connected := false, data := .freed }).echo cmd
  | _ => .ok (c.wrongArguments "PDEL" argv)

def scmdPset (c : Client) (cmd : Bytes) (argv : List Bytes) : Except Fault Client :=
  match argv with
  | [_, id, key, value] =>
      let peerId := decodePeerId id
      if c.peersSize ≤ peerId then .ok (c.wrongPeerId "PSET" peerId)
      else do
        let entry ← c.peerAt peerId
        let dict ← entry.data.deref
        return (c.setPeer peerId
          { entry with data := .live (dsdictSet dict (asCString key) value) }).echo cmd
  | _ => .ok (c.wrongArguments "PSET" argv)

def scmdMesg (c : Client) (cmd : Bytes) (argv : List Bytes) : Except Fault Client :=
  match argv with
  | [_, _] => .ok (c.echo cmd)
  | _ => .ok (c.wrongArguments "MESG" argv)

def dstrlexErrstr : DstrlexError → String
  | .escape => "Invalid escape sequence"
  | .string => "Unterminated string"

/-- `handle_server_decoded_msg`; `argv[0]` of a line without tokens is `NULL`. -/
def handleServerDecodedMsg (c : Client) (string : Bytes) : Except Fault Client :=
  match dstrlexParse string with
  | .error error =>
      .ok (c.complain (cstr "Failed to parse string command: " ++ cstr (dstrlexErrstr error) ++
        cstr "\n"))
  | .ok [] => .error .nullPointer
  | .ok (name :: args) =>
      let argv := name :: args
      if name = cstr "SSET" then scmdSset c string argv
      else if name = cstr "YARE" then scmdYare c string argv
      else if name = cstr "PADD" then scmdPadd c string argv
      else if name = cstr "PDEL" then scmdPdel c string argv
      else if name = cstr "PSET" then scmdPset c string argv
      else if name = cstr "MESG" then scmdMesg c string argv
      else
        .ok (c.complain (cstr "Unrecognized command from server '" ++ (asCString name).bytes ++
          cstr "'.\n"))

/-! ## Packets -/

/-- `mempos`; `none` is -1. -/
def mempos (data : Bytes) (ch : UInt8) (start length : Nat) : Option Nat :=
  (List.range' start (length - start)).find? fun i => data[i]? == some ch

/-- The loop of `handle_server_msg`, from `prev` on; it goes around once for every
newline, so `rounds` need not be more than the length of the packet. -/
def handleServerMsgFrom (data : Bytes) :
    (rounds : Nat) → Client → (prev : Nat) → Except Fault Client
  | 0, c, _ => .ok c
  | rounds + 1, c, prev =>
      match mempos data (chr '\n') prev data.length with
      | none => .ok c
      | some pos => do
          let c ←
            if pos - prev > 0 then handleServerDecodedMsg c ((data.drop prev).take (pos - prev))
            else pure c
          handleServerMsgFrom data rounds c (pos + 1)

def handleServerMsg (c : Client) (data : Bytes) : Except Fault Client :=
  handleServerMsgFrom data (data.length + 1) c 0

end Svc.Svcenet
