import Svc.Lib.Machine
import Svc.Svcenet.Client
import Svc.Svcenet.Server

/-!
# The server and its clients

The server, and for each ENet peer that is connected the client at its other end with
the packets of channel 0 that are on their way to it.  ENet delivers these packets
reliably and in order.  A packet holds the bytes it had when it was sent, also the
snapshot, which the server makes without a copy of its buffer.
-/

namespace Svc.Svcenet

open Svc.Common Svc.Lib

structure Link where
  client : Except Fault Client
  inFlight : List Bytes

def Link.opened : Link := ⟨.ok .connected, []⟩

def Link.push (l : Link) (packets : List Bytes) : Link :=
  { l with inFlight := l.inFlight ++ packets }

def Link.deliver : Link → Link
  | ⟨client, []⟩ => ⟨client, []⟩
  | ⟨client, data :: inFlight⟩ => ⟨client.bind fun c => handleServerMsg c data, inFlight⟩

/-- The client after every packet that was sent to it. -/
def Link.drained (l : Link) : Except Fault Client :=
  l.client.bind fun c => l.inFlight.foldlM handleServerMsg c

structure Network where
  server : Except Fault Server
  links : ENetPeer → Option Link

def Network.init : Network := ⟨.ok .init, fun _ => none⟩

inductive NetworkEvent where
  | server (event : ServerEvent)
  | deliver (peer : ENetPeer)

def packetsTo (peer : ENetPeer) (effects : List ServerEffect) : List Bytes :=
  effects.filterMap fun
    | .sent peer' data => if peer' = peer then some data else none
    | _ => none

/-- ENet's part of an event: a connection begins or is gone. -/
def relink (links : ENetPeer → Option Link) : ServerEvent → ENetPeer → Option Link
  | .connect peer _ _ => Function.update links peer (some .opened)
  | .disconnect peer _ => Function.update links peer none
  | .call _ | .sendModified => links

def networkMachine : Machine Network NetworkEvent (List ServerEffect) where
  step n
    | .server event =>
        let effects := serverMachine.out n.server event
        (⟨serverMachine.next n.server event, fun peer =>
          (relink n.links event peer).map fun l => l.push (packetsTo peer effects)⟩, effects)
    | .deliver peer =>
        (⟨n.server, Function.update n.links peer ((n.links peer).map Link.deliver)⟩, [])

def networkAfter (events : List NetworkEvent) : Network := networkMachine.run .init events

def Network.occupiedCount (n : Network) : Nat :=
  match n.server with
  | .ok s => s.peers.countP fun p => p.occupant.isSome
  | .error _ => 0

/-- Every connect is of a peer that is not connected and is accepted, while fewer than
ten slots are occupied; every disconnect is of a peer that is connected. -/
def Admissible (n : Network) : NetworkEvent → Prop
  | .server (.connect peer _ result) =>
      n.links peer = none ∧ result.accepts = true ∧ n.occupiedCount < 10
  | .server (.disconnect peer _) => n.links peer ≠ none
  | .server (.call _) | .server .sendModified | .deliver _ => True

instance (n : Network) : (event : NetworkEvent) → Decidable (Admissible n event)
  | .server (.connect peer _ result) =>
      decidable_of_iff
        ((n.links peer).isNone = true ∧ result.accepts = true ∧ n.occupiedCount < 10)
        (by simp [Admissible])
  | .server (.disconnect peer _) =>
      decidable_of_iff ((n.links peer).isSome = true)
        (by simp [Admissible, Option.isSome_iff_ne_none])
  | .server (.call _) | .server .sendModified | .deliver _ => .isTrue trivial

theorem networkAfter_concat (events : List NetworkEvent) (event : NetworkEvent) :
    networkAfter (events ++ [event]) = networkMachine.next (networkAfter events) event := by
  simp [networkAfter]

/-! ## Packets on their way -/

theorem drained_push (l : Link) (packets : List Bytes) :
    (l.push packets).drained =
      l.drained.bind fun c => packets.foldlM handleServerMsg c := by
  unfold Link.drained Link.push
  cases l.client with
  | error fault => rfl
  | ok c => simp [Except.bind, List.foldlM_append, bind]

theorem drained_deliver (l : Link) : l.deliver.drained = l.drained := by
  obtain ⟨client, inFlight⟩ := l
  cases inFlight with
  | nil => rfl
  | cons data inFlight =>
      cases client with
      | error fault => rfl
      | ok c => rfl

theorem packetsTo_sent {l : List ENetPeer} (hl : l.Nodup) (peer : ENetPeer) (data : Bytes) :
    packetsTo peer (l.map fun p => .sent p data) = if peer ∈ l then [data] else [] := by
  induction l with
  | nil => rfl
  | cons p l ih =>
      rw [List.nodup_cons] at hl
      have ih := ih hl.2
      unfold packetsTo at ih ⊢
      by_cases hp : p = peer
      · subst hp
        rw [if_neg hl.1] at ih
        simp [ih]
      · simp [ih, hp, Ne.symm hp]

theorem packetsTo_connect {others : List ENetPeer} (hothers : others.Nodup) (i : Nat)
    (p peer : ENetPeer) (snapshot hello : Bytes) :
    packetsTo peer (.allocated i :: .sent p snapshot :: others.map fun q => .sent q hello) =
      (if p = peer then [snapshot] else []) ++ if peer ∈ others then [hello] else [] := by
  rw [← packetsTo_sent hothers peer]
  by_cases hp : p = peer
  · simp [packetsTo, hp]
  · simp [packetsTo, hp]

theorem packetsTo_disconnect {others : List ENetPeer} (hothers : others.Nodup) (i : Nat)
    (p peer : ENetPeer) (occupant : Option ENetPeer) (bye : Bytes) :
    packetsTo peer (.disconnected p :: others.map (fun q => ServerEffect.sent q bye) ++
      [.freed i p occupant]) = if peer ∈ others then [bye] else [] := by
  rw [← packetsTo_sent hothers peer]
  simp [packetsTo]

theorem next_server {n : Network} {s s' : Server} {event : ServerEvent}
    {effects : List ServerEffect} (hserver : n.server = .ok s)
    (hok : handleEvent s event = .ok (s', effects)) :
    networkMachine.next n (.server event) = ⟨.ok s', fun peer =>
      (relink n.links event peer).map fun l => l.push (packetsTo peer effects)⟩ := by
  simp [networkMachine, Machine.next, Machine.out, serverMachine, hserver, hok]

end Svc.Svcenet
