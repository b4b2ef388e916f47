import Svc.Svcenet.Client

/-!
# The state of the client program

`ClientState` is the connection together with what the commands of the server change.
The user opens and closes the connection, ENet reports what becomes of it, and the end
of `main` releases what is left.
-/

namespace Svc.Svcenet

open Svc.Common Svc.Lib

inductive ConnectionState where
  | disconnected
  | connecting
  | connected
  deriving DecidableEq

/-- A host that `enet_host_create` made, by the number of those made before it. -/
abbrev ENetHost := Nat

structure ClientState extends Client where
  state : ConnectionState
  /-- `none` is `NULL` -/
  host : Option ENetHost
  /-- the host that the `ENetPeer` belongs to -/
  client : Option ENetHost
  serverHostName : Bytes
  serverHostAddr : Bytes
  serverHostPort : Nat
  muted : Bool
  deafen : Bool
  /-- how many hosts `enet_host_create` made -/
  hostsCreated : Nat
  /-- the hosts that were passed to `enet_host_destroy` -/
  hostsDestroyed : List ENetHost

namespace ClientState

/-- `init_client_state` and `svc_init` -/
def init : ClientState where
  serverInfo := .null
  myId := 2 ^ 32 - 1
  peers := []
  peersSize := 0
  joined := []
  nextPeer := 0
  stdout := []
  stderr := []
  state := .disconnected
  host := none
  client := none
  serverHostName := []
  serverHostAddr := []
  serverHostPort := 0
  muted := false
  deafen := false
  hostsCreated := 0
  hostsDestroyed := []

def print (s : ClientState) (line : Bytes) : ClientState := { s with stdout := s.stdout ++ [line] }

def printError (s : ClientState) (line : Bytes) : ClientState :=
  { s with toClient := s.toClient.complain line }

def msgServer (s : ClientState) : ClientState :=
  s.print (cstr ":SERVER \"" ++ (asCString s.serverHostName).bytes ++ cstr "\" \"" ++
    (asCString s.serverHostAddr).bytes ++ cstr "\" " ++ decimal s.serverHostPort ++ cstr "\n")

def msgState (s : ClientState) : ClientState :=
  match s.state with
  | .connected => s.msgServer.print (cstr ":STATE connected\n")
  | .connecting => s.msgServer.print (cstr ":STATE connecting\n")
  | .disconnected => s.print (cstr ":STATE disconnected\n")

def enetHostCreate (s : ClientState) : ClientState :=
  { s with host := some s.hostsCreated, hostsCreated := s.hostsCreated + 1 }

/-- `enet_host_destroy(client.host)`, unless that is `NULL` -/
def enetHostDestroy (s : ClientState) : ClientState :=
  { s with hostsDestroyed := s.hostsDestroyed ++ s.host.toList }

end ClientState

/-! ## Releasing the server state -/

def freePeerEntry (c : Client) (entry : ClientPeer) : Except Fault Client :=
  if entry.connected then do
    let _ ← entry.data.deref
    match entry.peer with
    | some peer => c.svcPeerLeave peer
    | none => return c
  else return c

def freeServerDict (c : Client) : Except Fault Client :=
  match c.serverInfo with
  | .null => .ok c
  | ptr => do
      let _ ← ptr.deref
      return { c with serverInfo := .null }

def freeServerInfo (c : Client) : Except Fault Client := do
  let c ← freeServerDict c
  let c := { c with myId := 2 ^ 32 - 1 }
  let c ← (List.range c.peersSize).foldlM (fun c' i => do freePeerEntry c' (← c.peerAt i)) c
  return { c with peers := [], peersSize := 0 }

namespace ClientState

def abandon (s : ClientState) : ClientState :=
  ({ s.enetHostDestroy with client := none, host := none, state := .disconnected }).msgState

end ClientState

/-! ## Commands of the user -/

/-- How far `/connect` gets once the host name is resolved. -/
inductive ConnectProgress where
  /-- `enet_host_create` fails -/
  | noHost
  /-- `enet_host_connect` fails -/
  | noPeer
  | initiated
  deriving DecidableEq

/-- `cmd_connect`; `resolved` is the address of the host, or `none` if
`enet_address_set_host` fails. -/
def cmdConnect (s : ClientState) (argv : List Bytes) (resolved : Option Bytes)
    (result : ConnectProgress) : ClientState :=
  match s.state with
  | .connected => s.printError (cstr "Already connected.\n")
  | .connecting => s.printError (cstr "Already trying to connect.\n")
  | .disconnected =>
      match argv, resolved with
      | [_, name, _], none =>
          s.printError (cstr "Failed to resolve '" ++ (asCString name).bytes ++ cstr "'\n")
      | [_, name, port], some addr =>
          let s := { s with
            serverHostName := name
            serverHostAddr := addr
            serverHostPort := (atoi (asCString port) % 2 ^ 16).toNat }
          match result with
          | .noHost =>
              ({ s with host := none }).printError
                (cstr "An error occurred while trying to create enet host.\n")
          | .noPeer =>
              -- `client.host` keeps pointing to the destroyed host
              { s.enetHostCreate with client := none }.enetHostDestroy.printError
                (cstr "No available peers to initiate a connection.\n")
          | .initiated =>
              let s := s.enetHostCreate
              ({ s with client := s.host, state := .connecting }).msgState
      | _, _ => s.printError (cstr "usage: /connect host port\n")

def cmdDisconnect (s : ClientState) : Except Fault ClientState :=
  match s.state with
  | .connected => do
      let c ← freeServerInfo s.toClient
      return { s with toClient := c }.abandon
  | .connecting => .ok s.abandon
  | .disconnected => .ok (s.printError (cstr "Not connected.\n"))

def decodeFlag (arg : Bytes) : Bool := atoi (asCString arg) ≠ 0

def printFlag (flag : Bool) : Bytes := if flag then cstr "1" else cstr "0"

def cmdMute (s : ClientState) (argv : List Bytes) : ClientState :=
  match argv with
  | [_, flag] =>
      ({ s with muted := decodeFlag flag }).print
        (cstr ":MUTED " ++ printFlag (decodeFlag flag) ++ cstr "\n")
  | _ => s.printError (cstr "usage: /mute flag\n")

def cmdDeafen (s : ClientState) (argv : List Bytes) : ClientState :=
  match argv with
  | [_, flag] =>
      ({ s with deafen := decodeFlag flag }).print
        (cstr ":DEAFEN " ++ printFlag (decodeFlag flag) ++ cstr "\n")
  | _ => s.printError (cstr "usage: /deafen flag\n")

/-! ## The end of the program -/

/-- `svc_incoming_close`, of the peers in the order of the list -/
def svcIncomingClose (c : Client) : Except Fault Client := c.joined.foldlM Client.svcPeerLeave c

def quitClientState (s : ClientState) : Except Fault ClientState := do
  let s := s.enetHostDestroy
  let c ← freeServerInfo s.toClient
  return { s with toClient := c }

/-- The end of `main`, after its loop: `svc_close` and `quit_client_state`. -/
def exitMain (s : ClientState) : Except Fault ClientState := do
  let s := s.print (cstr ":STATE exiting\n")
  let c ← svcIncomingClose s.toClient
  quitClientState { s with toClient := c }

end Svc.Svcenet
