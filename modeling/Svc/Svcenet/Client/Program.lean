import Svc.Lib.Fallible
import Svc.Svcenet.Audio

/-!
# Runs of the client program

The main loop of the client carries out the commands of the user and what ENet reports.
A packet of channel 0 comes as the lines that `handle_server_msg` cuts it into.
-/

namespace Svc.Svcenet

open Svc.Common Svc.Lib

inductive ENetEvent where
  | connect
  | disconnect
  /-- a line of a packet received on channel 0 -/
  | line (string : Bytes)
  /-- a packet received on channel 1 -/
  | audio (packet : ENetPacket)
  /-- a packet received on another channel -/
  | other (channelID : Nat)

inductive ClientEvent where
  | connect (argv : List Bytes) (resolved : Option Bytes) (progress : ConnectProgress)
  | disconnect
  | mute (argv : List Bytes)
  | deafen (argv : List Bytes)
  | enet (event : ENetEvent)

/-- The event in state `SVCECLIENT_STATE_CONNECTED` -/
def handleConnected (s : ClientState) : ENetEvent → Except Fault ClientState
  | .disconnect => do
      let c ← freeServerInfo s.toClient
      return { s with toClient := c, state := .disconnected }.msgState
  | .line string => do
      let c ← handleServerDecodedMsg s.toClient string
      return { s with toClient := c }
  | .audio packet => do
      let (s, _) ← handleServerAudio s packet
      return s
  | .other channelID =>
      .ok (s.printError (cstr "Received message from server on invalid channel " ++
        decimal channelID ++ cstr ".\n"))
  | .connect => .ok s

def handleConnecting (s : ClientState) : ENetEvent → ClientState
  | .connect => { s with state := .connected, serverInfo := .live [] }.msgState
  | _ => s.abandon

def handleClientEvent (s : ClientState) : ClientEvent → Except Fault ClientState
  | .connect argv resolved progress => .ok (cmdConnect s argv resolved progress)
  | .disconnect => cmdDisconnect s
  | .mute argv => .ok (cmdMute s argv)
  | .deafen argv => .ok (cmdDeafen s argv)
  | .enet event =>
      match s.state with
      | .connected => handleConnected s event
      | .connecting => .ok (handleConnecting s event)
      -- `enet_host_service` is not called; the peer that went away sends nothing more
      | .disconnected => .ok s

def clientMachine : Machine (Except Fault ClientState) ClientEvent Unit :=
  .fallible handleClientEvent

def clientAfter (events : List ClientEvent) : Except Fault ClientState :=
  clientMachine.run (.ok .init) events

def connection : List ClientEvent :=
  [.connect [cstr "/connect", cstr "localhost", cstr "4000"] (some (cstr "127.0.0.1")) .initiated,
    .enet .connect]

end Svc.Svcenet
