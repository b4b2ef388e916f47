import Svc.Common.Decimal
import Svc.Common.Dstrlex
import Svc.Lib.Dict
import Svc.Lib.Machine

/-!
# The server

`server/main.c` keeps a table of peers, each with a public and a private
dictionary, and tells every client about them in text.  The Jim scripts reach
this state only through the commands they call, so a script is the list of the
calls it makes, with its result.
-/

namespace Svc.Svcenet

open Svc.Common Svc.Lib

/-- A step that C leaves undefined. -/
inductive Fault where
  | nullPointer
  | useAfterFree
  | outOfBounds
  | uninitialised
  deriving DecidableEq, Repr

/-! ## Dictionaries -/

structure DataDictNode where
  dirty : Bool
  key : CString
  value : CString
  deriving DecidableEq

abbrev DataDict := List DataDictNode

def ddSet (dd : DataDict) (key value : CString) : DataDict :=
  Dict.set DataDictNode.key key (fun ddn => { ddn with value, dirty := true })
    ⟨true, key, value⟩ dd

def ddGet (dd : DataDict) (key : CString) : Bytes :=
  match Dict.find DataDictNode.key key dd with
  | some node => node.value.bytes
  | none => []

/-! ## The table of peers -/

abbrev ENetPeer := Nat

structure Occupant where
  /-- `none` is `NULL`, which `get_new_peer` leaves for the connect handler to set. -/
  peer : Option ENetPeer
  pubData : DataDict
  privData : DataDict
  deriving DecidableEq

/-- `Peer`; the dictionaries of an empty slot are freed, or were never made. -/
structure Peer where
  id : Nat
  /-- `none` is `empty` -/
  occupant : Option Occupant
  deriving DecidableEq

structure Server where
  /-- the allocated entries -/
  peers : List Peer
  peersCount : Int
  peersSize : Nat
  serverData : DataDict
  /-- `data` of each ENet peer: the slot whose `id` field it points to -/
  peerData : ENetPeer → Option Nat

def Server.init : Server := ⟨[], 0, 0, [], fun _ => none⟩

def Server.occupantAt (s : Server) (i : Nat) : Option Occupant := s.peers[i]?.bind Peer.occupant

/-- The slots that the loops over `peers` do not skip, with their numbers. -/
def Server.occupants (s : Server) : List (Nat × Occupant) :=
  s.peers.zipIdx.filterMap fun (p, i) => p.occupant.map (i, ·)

def Server.setOccupant (s : Server) (i : Nat) (occupant : Option Occupant) : Server :=
  { s with peers := s.peers.modify i fun p => { p with occupant } }

def emptyPeers (first count : Nat) : List Peer :=
  (List.range' first count).map fun i => ⟨i, none⟩

/-- The end of `get_new_peer`: occupy the slot that was chosen. -/
def occupySlot (s : Server) (peerId : Nat) : Except Fault (Nat × Server) :=
  if peerId < s.peers.length then
    .ok (peerId, { s.setOccupant peerId (some ⟨none, [], []⟩) with peersCount := s.peersCount + 1 })
  else .error .outOfBounds

/-- `get_new_peer`.  The second branch fills a larger table in `temp` and does not
assign it to `peers`; the third leaves `peer_id` unset if no slot is empty. -/
def getNewPeer (s : Server) : Except Fault (Nat × Server) :=
  if s.peersSize = 0 then
    occupySlot { s with peersSize := 10, peers := emptyPeers 0 10, peersCount := 0 } 0
  else if s.peersCount = s.peersSize then
    occupySlot { s with peersSize := s.peersSize + 10 } s.peersCount.toNat
  else
    match s.peers.findIdx? fun p => p.occupant.isNone with
    | some peerId => occupySlot s peerId
    | none => .error .uninitialised

def Server.attachPeer (s : Server) (peerId : Nat) (eventPeer : ENetPeer) : Server :=
  { s.setOccupant peerId ((s.occupantAt peerId).map fun occupant =>
      { occupant with peer := some eventPeer }) with
    peerData := Function.update s.peerData eventPeer (some peerId) }

/-- `free_peer`, with what the slot held. -/
def freePeer (s : Server) (peerId : Nat) : Except Fault (Occupant × Server) :=
  match s.peers[peerId]? with
  | none => .error .outOfBounds
  | some ⟨_, none⟩ => .error .useAfterFree
  | some ⟨_, some occupant⟩ =>
      .ok (occupant, { s.setOccupant peerId none with peersCount := s.peersCount - 1 })

/-! ## Scripts -/

/-- The calls by which a script changes the state. -/
inductive ScriptCall where
  | serverset (key value : CString)
  /-- `peerId` is `none` where `Jim_GetLong` fails. -/
  | peerset (type : CString) (peerId : Option Int) (key value : CString)

def cmdServerset (s : Server) (key value : CString) : Server :=
  { s with serverData := ddSet s.serverData key value }

/-- `cmd_peerset`, called with four arguments: the new state, or the error it raises. -/
def cmdPeerset (s : Server) (type : CString) (peerId : Option Int) (key value : CString) :
    Except String Server :=
  if type.bytes ≠ cstr "priv" ∧ type.bytes ≠ cstr "pub" then
    .error "peerset argument 1 should be 'pub' or 'priv'"
  else
    match peerId with
    | none => .error "peerset argument 2 should be an integer peer ID"
    | some peerId =>
        -- `peer_id >= 0 && peer_id < peers_size && !peers[peer_id].empty`
        match (if 0 ≤ peerId ∧ peerId < s.peersSize then s.occupantAt peerId.toNat else none) with
        | none => .error "peerset argument 2: peer doesn't exist "
        | some occupant =>
            if type.bytes = cstr "priv" then
              .ok (s.setOccupant peerId.toNat
                (some { occupant with privData := ddSet occupant.privData key value }))
            else
              .ok (s.setOccupant peerId.toNat
                (some { occupant with pubData := ddSet occupant.pubData key value }))

/-- The state after a call; a call that raises an error changes nothing. -/
def runCall (s : Server) : ScriptCall → Server
  | .serverset key value => cmdServerset s key value
  | .peerset type peerId key value =>
      match cmdPeerset s type peerId key value with
      | .ok s' => s'
      | .error _ => s

def runScript (s : Server) (calls : List ScriptCall) : Server := calls.foldl runCall s

inductive ConnectResult where
  /-- the script raised an error -/
  | error
  /-- `Jim_GetLong` fails on the result -/
  | notInteger
  | integer (val : Int)
  deriving DecidableEq

def ConnectResult.accepts : ConnectResult → Bool
  | .error | .notInteger => false
  | .integer val => val ≠ 0

/-! ## Packets -/

def encodeSset (ddn : DataDictNode) : Bytes :=
  cstr "SSET \"" ++ dstrlexEscapeMem ddn.key.bytes ++ cstr "\" \"" ++
    dstrlexEscapeMem ddn.value.bytes ++ cstr "\"\n"

/-- The bytes of one `PSET` command; `buff` is the peer id in decimal. -/
def encodePset (buff : Bytes) (ddn : DataDictNode) : Bytes :=
  cstr "PSET " ++ buff ++ cstr " \"" ++ dstrlexEscapeMem ddn.key.bytes ++ cstr "\" \"" ++
    dstrlexEscapeMem ddn.value.bytes ++ cstr "\"\n"

def encodePadd (buff : Bytes) : Bytes := cstr "PADD " ++ buff ++ cstr "\n"

def encodeSnapshot (s : Server) (peerId : Nat) : Bytes :=
  cstr "YARE " ++ (decimal peerId ++ cstr "\n") ++ s.serverData.flatMap encodeSset ++
    s.occupants.flatMap fun (i, occupant) =>
      encodePadd (decimal i) ++ occupant.pubData.flatMap (encodePset (decimal i))

def encodeModified (s : Server) : Bytes :=
  (s.serverData.flatMap fun ddn => if ddn.dirty then encodeSset ddn else []) ++
    s.occupants.flatMap fun (i, occupant) =>
      occupant.pubData.flatMap fun ddn => if ddn.dirty then encodePset (decimal i) ddn else []

def clearDirty (dd : DataDict) : DataDict := dd.map fun ddn => { ddn with dirty := false }

def Server.clearDirty (s : Server) : Server :=
  { s with
    serverData := Svcenet.clearDirty s.serverData
    peers := s.peers.map fun p =>
      { p with occupant := p.occupant.map fun occupant =>
          { occupant with pubData := Svcenet.clearDirty occupant.pubData } } }

/-! ## Handlers -/

/-- What a handler does besides changing the globals. -/
inductive ServerEffect where
  /-- a reliable packet on channel 0 -/
  | sent (peer : ENetPeer) (data : Bytes)
  /-- `enet_peer_disconnect` -/
  | disconnected (peer : ENetPeer)
  /-- `get_new_peer` returned the slot -/
  | allocated (peerId : Nat)
  /-- `free_peer` was called on the slot for `caller` while it held `occupant` -/
  | freed (peerId : Nat) (caller : ENetPeer) (occupant : Option ENetPeer)
  deriving DecidableEq

def enetPeerSend (data : Bytes) (occupant : Occupant) : Except Fault ServerEffect :=
  match occupant.peer with
  | some peer => .ok (.sent peer data)
  | none => .error .nullPointer

def sendToOthers (s : Server) (peerId : Nat) (data : Bytes) : Except Fault (List ServerEffect) :=
  (s.occupants.filter fun (i, _) => i ≠ peerId).mapM fun (_, occupant) => enetPeerSend data occupant

/-- `handle_peer_connect`, where `on_peer_connect` makes `calls` and ends in `result`. -/
def handlePeerConnect (s : Server) (eventPeer : ENetPeer) (calls : List ScriptCall)
    (result : ConnectResult) : Except Fault (Server × List ServerEffect) := do
  let (peerId, s) ← getNewPeer s
  let s := runScript (s.attachPeer peerId eventPeer) calls
  if result.accepts then
    match s.occupantAt peerId with
    | none => .error .useAfterFree
    | some occupant =>
        let snapshot ← enetPeerSend (encodeSnapshot s peerId) occupant
        let hello ← sendToOthers s peerId (encodePadd (decimal peerId))
        return (s, .allocated peerId :: snapshot :: hello)
  else
    let (occupant, s) ← freePeer s peerId
    return (s, [.allocated peerId, .disconnected eventPeer,
      .freed peerId eventPeer occupant.peer])

def handlePeerDisconnect (s : Server) (eventPeer : ENetPeer) (calls : List ScriptCall) :
    Except Fault (Server × List ServerEffect) :=
  match s.peerData eventPeer with
  | none => .error .nullPointer
  | some slot =>
      match s.peers[slot]? with
      | none => .error .outOfBounds
      | some entry => do
          let peerId := entry.id
          let s := runScript s calls
          let bye ← sendToOthers s peerId (cstr "PDEL " ++ decimal peerId)
          let (occupant, s) ← freePeer s peerId
          return (s, .disconnected eventPeer :: bye ++ [.freed peerId eventPeer occupant.peer])

def sendModifiedData (s : Server) : Except Fault (Server × List ServerEffect) := do
  let sends ← s.occupants.mapM fun (_, occupant) => enetPeerSend (encodeModified s) occupant
  return (s.clearDirty, sends)

/-! ## Runs -/

/-- What the main loop reacts to.  Scripts also run on packets and on every tick;
what they do to the state there is a sequence of calls. -/
inductive ServerEvent where
  | connect (peer : ENetPeer) (calls : List ScriptCall) (result : ConnectResult)
  | disconnect (peer : ENetPeer) (calls : List ScriptCall)
  | call (call : ScriptCall)
  | sendModified

def handleEvent (s : Server) : ServerEvent → Except Fault (Server × List ServerEffect)
  | .connect peer calls result => handlePeerConnect s peer calls result
  | .disconnect peer calls => handlePeerDisconnect s peer calls
  | .call call => .ok (runCall s call, [])
  | .sendModified => sendModifiedData s

def serverMachine : Machine (Except Fault Server) ServerEvent (List ServerEffect) where
  step
    | .error fault, _ => (.error fault, [])
    | .ok s, event =>
        match handleEvent s event with
        | .ok (s', effects) => (.ok s', effects)
        | .error fault => (.error fault, [])

end Svc.Svcenet
