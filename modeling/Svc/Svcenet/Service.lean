import Svc.Lib.Fallible
import Svc.Svcenet.Network.Membership
import Svc.Svcenet.Server.Script.Calls
import Svc.Svcenet.Server.Speaking

/-!
# The server with `main.tcl`

The rounds of the main loop of `svcd` with the scripts of `main.tcl`, and everyone who is
connected.  The scripts of one round, their calls and the packets that tell the clients of
them are one step; the packets arrive when ENet delivers them.
-/

namespace Svc.Svcenet

open Svc.Common Svc.Lib RaiseM

/-- The server with what its scripts were given, and the connections -/
structure Service where
  session : Session
  links : ENetPeer → Option Link

inductive ServiceEvent where
  | connect (peer : ENetPeer)
  | disconnect (peer : ENetPeer)
  /-- a packet on channel 1, where `[millitime]` is `time` -/
  | audio (peer : ENetPeer) (packet : ENetPacket) (time : Int)
  /-- the end of a round: `on_logic`, where `[millitime]` is `times p` for the peer `p`, and
  `send_modified_data` -/
  | tick (times : Nat → Int)
  /-- a script besides `main.tcl` sets a public value -/
  | peerset (slot : Nat) (key value : CString)
  | deliver (peer : ENetPeer)

def Service.init : Service := ⟨⟨.init, fun _ => none, 0⟩, fun _ => none⟩

/-- `*(unsigned int*)event->peer->data` -/
def Server.idOf (s : Server) (eventPeer : ENetPeer) : Except Fault Nat :=
  match s.peerData eventPeer with
  | none => .error .nullPointer
  | some slot =>
      match s.peers[slot]? with
      | none => .error .outOfBounds
      | some entry => .ok entry.id

def Service.relinked (service : Service) (event : ServerEvent) (effects : List ServerEffect) :
    ENetPeer → Option Link :=
  fun peer => (relink service.links event peer).map fun l => l.push (packetsTo peer effects)

section Steps

variable (E : JimExpr) (speakTime : Int) (defaultChannel : CString)

def Session.advance (session : Session) (server : Server) (event : SessionEvent) : Session :=
  ⟨server, session.timeoutAfter E speakTime event, session.clockAfter event⟩

def serviceStep (service : Service) : ServiceEvent → Except Fault Service
  | .connect peer => do
      let (slot, _) ← getNewPeer service.session.server
      -- `on_peer_connect` makes these calls and returns 1
      let calls := greeting defaultChannel slot
      let (server, effects) ← handlePeerConnect service.session.server peer calls (.integer 1)
      return {
        session := service.session.advance E speakTime server (.connect slot peer)
        links := service.relinked (.connect peer calls (.integer 1)) effects }
  | .disconnect peer => do
      -- `on_peer_disconnect` only reads
      let (server, effects) ← handlePeerDisconnect service.session.server peer []
      return {
        session := { service.session with server }
        links := service.relinked (.disconnect peer []) effects }
  | .audio peer packet time => do
      let slot ← service.session.server.idOf peer
      let (server, _) :=
        handlePacketInputAudio E speakTime time service.session.server slot packet
      return { service with
        session := service.session.advance E speakTime server (.audio slot packet time) }
  | .tick times => do
      let (server, effects) ←
        sendModifiedData (service.session.server.afterScript (onLogic E times))
      return {
        session := service.session.advance E speakTime server (.logic times)
        links := service.relinked .sendModified effects }
  | .peerset slot key value =>
      let server := service.session.server.afterScript (peerset pub slot key value)
      .ok { service with session := { service.session with server } }
  | .deliver peer =>
      .ok { service with
        links := Function.update service.links peer ((service.links peer).map Link.deliver) }

def serviceMachine : Machine (Except Fault Service) ServiceEvent Unit :=
  .fallible (serviceStep E speakTime defaultChannel)

end Steps

/-- ENet reports connects and disconnects in turn, fewer than ten peers are connected when one
connects, packets are from connected peers, `SPEAKING` is left to `main.tcl`, and the clock does
not go back. -/
def Service.Allowed (service : Service) : ServiceEvent → Prop
  | .connect peer => service.links peer = none ∧ service.session.server.occupiedCount < 10
  | .disconnect peer => service.links peer ≠ none
  | .audio peer _ time => service.links peer ≠ none ∧ service.session.clock ≤ time
  | .tick times => (∀ p q, p ≤ q → times p ≤ times q) ∧ service.session.clock ≤ times 0
  | .peerset slot key _ =>
      (∃ o, service.session.server.occupantAt slot = some o) ∧ key ≠ speakingKey
  | .deliver _ => True

def Service.network (service : Service) : Network := ⟨.ok service.session.server, service.links⟩

/-- The server and the connections are ones that the events of the network lead to, and the
session is in order. -/
structure Service.Ok (W : Int → Prop) (service : Service) : Prop where
  reached : ∃ events, networkMachine.Guarded Admissible .init events ∧
    networkAfter events = service.network
  session : service.session.Ok W

def ServiceEvent.Within (W : Int → Prop) (speakTime : Int) : ServiceEvent → Prop
  | .audio _ _ time => W (time + speakTime)
  | .tick times => ∀ p, W (times p)
  | .connect _ | .disconnect _ | .peerset .. | .deliver _ => True

/-! ## Steps of the network -/

section NetworkSteps

variable {s : Server} {R : Replicas} {links : ENetPeer → Option Link}

def callEvents (calls : List ScriptCall) : List NetworkEvent :=
  calls.map fun call => .server (.call call)

theorem run_callEvents (s : Server) (links : ENetPeer → Option Link) (calls : List ScriptCall) :
    networkMachine.run ⟨.ok s, links⟩ (callEvents calls) = ⟨.ok (runScript s calls), links⟩ := by
  induction calls generalizing s with
  | nil => rfl
  | cons call calls ih =>
      have hlinks : (fun peer => (relink links (.call call) peer).map fun l =>
          l.push (packetsTo peer [])) = links := by
        funext peer
        have hpush : (fun l : Link => l.push (packetsTo peer [])) = id :=
          funext fun l => congrArg (Link.mk l.client) (List.append_nil _)
        rw [hpush, Option.map_id]
        rfl
      have hnext := next_server (n := ⟨.ok s, links⟩) rfl
        (show handleEvent s (.call call) = .ok (runCall s call, []) from rfl)
      rw [hlinks] at hnext
      rw [callEvents, List.map_cons, Machine.run_cons, hnext]
      exact ih (runCall s call)

theorem guarded_callEvents (n : Network) (calls : List ScriptCall) :
    networkMachine.Guarded Admissible n (callEvents calls) := by
  induction calls generalizing n with
  | nil => trivial
  | cons call calls ih => exact ⟨trivial, ih _⟩

/-- The slot of a peer that is connected -/
theorem NetworkOk.exists_slot (h : NetworkOk ⟨.ok s, links⟩ s R) {peer : ENetPeer}
    (hpeer : links peer ≠ none) :
    ∃ slot o, s.peerAt slot = some (some peer) ∧ s.occupantAt slot = some o ∧
      o.peer = some peer ∧ s.idOf peer = .ok slot := by
  have hsome : (R peer).isSome = true := by
    rw [← h.isSome_links]
    exact Option.isSome_iff_ne_none.2 hpeer
  obtain ⟨slot, hslot⟩ := (h.owner_iff peer).1 hsome
  obtain ⟨_, heq, hdata⟩ := h.linked.peerData_of_peerAt slot _ hslot
  cases heq
  obtain ⟨o, ho, hown⟩ := occupantAt_of_peerAt hslot
  obtain ⟨entry, hentry, -⟩ := getElem?_of_occupantAt ho
  refine ⟨slot, o, hslot, ho, hown, ?_⟩
  simp only [Server.idOf, hdata, hentry, h.tableOk.id_eq slot entry hentry]

end NetworkSteps

section ReachedSteps

variable {W : Int → Prop} {service service' : Service}

theorem Service.Ok.networkOk (h : service.Ok W) :
    ∃ R, NetworkOk service.network service.session.server R := by
  obtain ⟨events, hadm, hafter⟩ := h.reached
  obtain ⟨s, R, hok⟩ := networkOk_run hadm
  rw [hafter] at hok
  obtain rfl : service.session.server = s := Except.ok.inj hok.server_eq
  exact ⟨R, hok⟩

theorem Service.Ok.reached_run (h : service.Ok W) (events : List NetworkEvent)
    (hadm : networkMachine.Guarded Admissible service.network events)
    (hrun : networkMachine.run service.network events = service'.network) :
    ∃ events, networkMachine.Guarded Admissible .init events ∧
      networkAfter events = service'.network := by
  obtain ⟨past, hpast, hafter⟩ := h.reached
  refine ⟨past ++ events, (networkMachine.guarded_append _ _ _ _).2 ⟨hpast, ?_⟩, ?_⟩
  · exact (show networkMachine.run .init past = service.network from hafter) ▸ hadm
  · rw [networkAfter, Machine.run_append]
    exact (congrArg (networkMachine.run · events) hafter).trans hrun

/-- An event of the server that goes well -/
theorem Service.Ok.reached_server (h : service.Ok W) (event : ServerEvent) {server : Server}
    {effects : List ServerEffect} (hadm : Admissible service.network (.server event))
    (hhandled : handleEvent service.session.server event = .ok (server, effects))
    (hnetwork : service'.network = ⟨.ok server, service.relinked event effects⟩) :
    ∃ events, networkMachine.Guarded Admissible .init events ∧
      networkAfter events = service'.network :=
  h.reached_run [.server event] ⟨hadm, trivial⟩
    ((next_server (n := service.network) rfl hhandled).trans hnetwork.symm)

/-- Calls of scripts -/
theorem Service.Ok.reached_calls (h : service.Ok W) (calls : List ScriptCall)
    (hnetwork : service'.network = ⟨.ok (runScript service.session.server calls), service.links⟩) :
    ∃ events, networkMachine.Guarded Admissible .init events ∧
      networkAfter events = service'.network :=
  h.reached_run (callEvents calls) (guarded_callEvents _ calls)
    ((run_callEvents _ _ calls).trans hnetwork.symm)

end ReachedSteps

theorem ddGet_clearDirty (dd : DataDict) (key : CString) :
    ddGet (clearDirty dd) key = ddGet dd key := by
  rw [ddGet_eq, ddGet_eq, ddValue_clearDirty]

theorem indicates_clearDirty {W : Int → Prop} {o : Occupant} {lastTimeout : Option Int}
    {clock : Int} (h : o.Indicates W lastTimeout clock) :
    Occupant.Indicates W { o with pubData := clearDirty o.pubData } lastTimeout clock := by
  have hsame := ddGet_clearDirty o.pubData speakingKey
  have hspeaking : Occupant.isSpeaking { o with pubData := clearDirty o.pubData } ↔
      o.isSpeaking := by
    rw [Occupant.isSpeaking, Occupant.isSpeaking, hsame]
  exact ⟨h.held, hsame ▸ h.flag, h.timeout, fun hs => h.started (hspeaking.1 hs),
    fun hs => h.expired fun hs' => hs (hspeaking.2 hs')⟩

theorem Session.Ok.clearDirty {W : Int → Prop} {session : Session} (h : session.Ok W) :
    Session.Ok W { session with server := session.server.clearDirty } := by
  refine ⟨?_, fun p o ho => ?_⟩
  · simpa [Server.Sized, Server.clearDirty] using h.sized
  · rw [occupantAt_clearDirty] at ho
    obtain ⟨o', ho', rfl⟩ := Option.map_eq_some_iff.1 ho
    exact indicates_clearDirty (h.indicates p o' ho')

/-! ## Steps of the service -/

section ServiceSteps

variable (E : JimExpr) (speakTime : Int) (defaultChannel : CString)

def Service.SlotsAfter (service : Service) (slots : Nat → Option Occupant) : ServiceEvent → Prop
  | .connect peer => ∃ slot, service.session.server.occupantAt slot = none ∧
      slots = Function.update service.session.server.occupantAt slot
        (some (Occupant.greeted ⟨some peer, [], []⟩ defaultChannel slot))
  | .disconnect _ => ∃ slot, slots = Function.update service.session.server.occupantAt slot none
  | .audio _ _ time => slots = service.session.server.occupantAt ∨
      ∃ slot o, service.session.server.occupantAt slot = some o ∧
        slots = Function.update service.session.server.occupantAt slot
          (some (o.heard (time + speakTime)))
  | .tick times => slots = fun p => (service.session.server.occupantAt p).map fun o =>
      { o.quietened E (times p) with pubData := clearDirty (o.quietened E (times p)).pubData }
  | .peerset slot key value => ∃ o, service.session.server.occupantAt slot = some o ∧
      slots = Function.update service.session.server.occupantAt slot (some (o.setPub key value))
  | .deliver _ => slots = service.session.server.occupantAt

variable (W : Int → Prop)

def Service.Handles (service : Service) (event : ServiceEvent) : Prop :=
  ∃ service', serviceStep E speakTime defaultChannel service event = .ok service' ∧
    service'.Ok W ∧
      service.SlotsAfter E speakTime defaultChannel service'.session.server.occupantAt event

variable {E speakTime defaultChannel W} {service : Service}

theorem handles_connect (h : service.Ok W) {peer : ENetPeer}
    (hallowed : service.Allowed (.connect peer)) :
    service.Handles E speakTime defaultChannel W (.connect peer) := by
  obtain ⟨R, hnetwork⟩ := h.networkOk
  obtain ⟨hlink, hcount⟩ := hallowed
  have hnew : ∀ j, service.session.server.peerAt j ≠ some (some peer) := by
    intro j hj
    have howner := (hnetwork.owner_iff peer).2 ⟨j, hj⟩
    rw [hnetwork.eq_none_of_link hlink] at howner
    cases howner
  obtain ⟨slot, s₁, hok, hattach⟩ := attachPeer_spec hnetwork.tableOk hcount peer
  let calls := greeting defaultChannel slot
  obtain ⟨effects, hhandled⟩ : ∃ effects, handlePeerConnect service.session.server peer calls
      (.integer 1) = .ok (runScript (s₁.attachPeer slot peer) calls, effects) :=
    ⟨_, handlePeerConnect_of_attached calls hnetwork.tableOk hnetwork.linked hnew hok hattach
      (show (ConnectResult.integer 1).accepts = true from rfl)⟩
  have hjoined := hattach.joined calls hnetwork.tableOk hnetwork.linked hnew
  have ho : (s₁.attachPeer slot peer).occupantAt slot = some ⟨some peer, [], []⟩ := by
    rw [hattach.occupantAt_eq, Function.update_self]
  have hsized : (s₁.attachPeer slot peer).Sized := hattach.tableOk.peersSize_eq
  have hslots : (runScript (s₁.attachPeer slot peer) calls).occupantAt =
      Function.update service.session.server.occupantAt slot
        (some (Occupant.greeted ⟨some peer, [], []⟩ defaultChannel slot)) := by
    have hrun := exec_onPeerConnect (i := ⟨s₁.attachPeer slot peer, none, []⟩) hsized ho
      defaultChannel
    rw [runScript_greeting hsized ho, Server.afterScript, hrun, Interp.server_setOccupant,
      occupantAt_setOccupant_eq_update (lt_length_of_occupantAt ho), hattach.occupantAt_eq,
      Function.update_idem]
  -- from here on only the slots of the server matter
  generalize runScript (s₁.attachPeer slot peer) calls = server at hhandled hjoined hslots
  have hstep : serviceStep E speakTime defaultChannel service (.connect peer) = .ok {
      session := service.session.advance E speakTime server (.connect slot peer)
      links := service.relinked (.connect peer calls (.integer 1)) effects } := by
    simp only [serviceStep, hok, bind, Except.bind, hhandled, calls]
    rfl
  have hfree : service.session.server.occupantAt slot = none := by
    rw [← Option.not_isSome_iff_eq_none, isSome_occupantAt, hjoined.peerAt_eq_none]
    exact Bool.false_ne_true
  have hadm : Admissible service.network (.server (.connect peer calls (.integer 1))) :=
    ⟨hlink, rfl, hcount⟩
  refine ⟨_, hstep, ⟨h.reached_server _ hadm hhandled rfl, ?_⟩, slot, hfree, hslots⟩
  refine h.session.write hjoined.tableOk.peersSize_eq hslots
    (fun p hp => Function.update_of_ne hp _ _) le_rfl ?_
  rintro o ⟨⟩
  rw [show service.session.timeoutAfter E speakTime (.connect slot peer) slot = none by
    simp [Session.timeoutAfter]]
  exact indicates_greeted rfl defaultChannel slot service.session.clock

theorem handles_disconnect (h : service.Ok W) {peer : ENetPeer}
    (hallowed : service.links peer ≠ none) :
    service.Handles E speakTime defaultChannel W (.disconnect peer) := by
  obtain ⟨R, hnetwork⟩ := h.networkOk
  obtain ⟨slot, o, hslot, ho, hown, -⟩ := hnetwork.exists_slot hallowed
  obtain ⟨s', hset, -, hremoved⟩ :=
    handlePeerDisconnect_of_owner [] hnetwork.tableOk hnetwork.linked hslot
  obtain ⟨effects, hhandled⟩ : ∃ effects,
      handlePeerDisconnect service.session.server peer [] = .ok (s', effects) := ⟨_, hremoved⟩
  have hstep : serviceStep E speakTime defaultChannel service (.disconnect peer) = .ok {
      session := { service.session with server := s' }
      links := service.relinked (.disconnect peer []) effects } := by
    simp only [serviceStep, bind, Except.bind, hhandled]
    rfl
  refine ⟨_, hstep, ⟨h.reached_server (.disconnect peer []) hallowed hhandled rfl, ?_⟩, slot,
    hset.occupantAt_eq⟩
  exact h.session.write hset.tableOk.peersSize_eq hset.occupantAt_eq (fun _ _ => rfl) le_rfl
    fun _ hnone => nomatch hnone

theorem handles_audio (hE : E.Lawful) (h : service.Ok W) {peer : ENetPeer} (packet : ENetPacket)
    {time : Int} (hlink : service.links peer ≠ none) (htime : service.session.clock ≤ time)
    (htimeout : W (time + speakTime)) :
    service.Handles E speakTime defaultChannel W (.audio peer packet time) := by
  obtain ⟨R, hnetwork⟩ := h.networkOk
  obtain ⟨slot, o, -, ho, -, hid⟩ := hnetwork.exists_slot hlink
  obtain ⟨calls, hcalls⟩ := exists_calls_handlePacketInputAudio (E := E) speakTime time
    service.session.server slot packet
  have hstep : serviceStep E speakTime defaultChannel service (.audio peer packet time) = .ok {
      service with
        session := service.session.advance E speakTime
          (handlePacketInputAudio E speakTime time service.session.server slot packet).1
          (.audio slot packet time) } := by
    simp only [serviceStep, hid, bind, Except.bind]
    rfl
  refine ⟨_, hstep, ⟨h.reached_calls calls ?_,
    h.session.next_audio speakTime defaultChannel hE ho packet htime htimeout⟩, ?_⟩
  · rw [← hcalls]
    rfl
  · have hserver := server_handlePacketInputAudio hE h.session.sized ho
      (h.session.indicates slot o ho).flag speakTime time packet
    change (handlePacketInputAudio E speakTime time service.session.server slot packet).1.occupantAt
      = _ ∨ _
    rw [hserver]
    split_ifs
    · exact .inr ⟨slot, o, ho,
        occupantAt_setOccupant_eq_update (lt_length_of_occupantAt ho) _⟩
    · exact .inl rfl

theorem handles_tick (hE : E.ComparesTimes W) (h : service.Ok W) {times : Nat → Int}
    (hmono : ∀ p q, p ≤ q → times p ≤ times q) (hclock : service.session.clock ≤ times 0)
    (htimes : ∀ p, W (times p)) :
    service.Handles E speakTime defaultChannel W (.tick times) := by
  obtain ⟨R, hnetwork⟩ := h.networkOk
  obtain ⟨calls, hcalls⟩ := exists_calls_afterScript (inSteps_onLogic (E := E) times)
    service.session.server
  have hlinked : (service.session.server.afterScript (onLogic E times)).Linked := by
    rw [hcalls]
    exact (sameSlots_runScript _ calls).linked hnetwork.linked
  obtain ⟨effects, hsends⟩ : ∃ effects,
      sendModifiedData (service.session.server.afterScript (onLogic E times)) =
        .ok ((service.session.server.afterScript (onLogic E times)).clearDirty, effects) :=
    ⟨_, sendModifiedData_eq hlinked⟩
  have hstep : serviceStep E speakTime defaultChannel service (.tick times) = .ok {
      session := service.session.advance E speakTime
        (service.session.server.afterScript (onLogic E times)).clearDirty (.logic times)
      links := service.relinked .sendModified effects } := by
    simp only [serviceStep, bind, Except.bind, hsends]
    rfl
  have hscript := run_callEvents service.session.server service.links calls
  rw [← hcalls] at hscript
  refine ⟨_, hstep, ⟨h.reached_run (callEvents calls ++ [.server .sendModified]) ?_ ?_,
    (h.session.next_logic speakTime defaultChannel hE hmono hclock htimes).clearDirty⟩, ?_⟩
  · exact (networkMachine.guarded_concat _ _ _ _).2 ⟨guarded_callEvents _ calls, trivial⟩
  · rw [Machine.run_concat, show networkMachine.run service.network (callEvents calls) = _ from
      hscript]
    exact next_server rfl hsends
  · funext p
    have hslots :=
      congrFun (serverAfter_logic speakTime defaultChannel hE.toLawful h.session times).2 p
    change (service.session.server.afterScript (onLogic E times)).clearDirty.occupantAt p = _
    rw [occupantAt_clearDirty]
    rw [show (service.session.server.afterScript (onLogic E times)).occupantAt p = _ from hslots,
      Option.map_map]
    rfl

theorem handles_peerset (h : service.Ok W) {slot : Nat} {o : Occupant}
    (ho : service.session.server.occupantAt slot = some o) {key : CString}
    (hkey : key ≠ speakingKey) (value : CString) :
    service.Handles E speakTime defaultChannel W (.peerset slot key value) := by
  obtain ⟨calls, hcalls⟩ := exists_calls_afterScript (inSteps_peerset pub slot key value)
    service.session.server
  refine ⟨_, rfl, ⟨h.reached_calls calls ?_,
    h.session.next_peerset (E := E) speakTime defaultChannel ho hkey value⟩, o, ho, ?_⟩
  · rw [← hcalls]
    rfl
  · exact (serverAfter_peerset speakTime defaultChannel E h.session.sized ho key value).2

/-- Every event of the service keeps it in order. -/
theorem handles_event (hE : E.ComparesTimes W) (h : service.Ok W) {event : ServiceEvent}
    (hallowed : service.Allowed event) (hwithin : event.Within W speakTime) :
    service.Handles E speakTime defaultChannel W event := by
  cases event with
  | connect peer => exact handles_connect h hallowed
  | disconnect peer => exact handles_disconnect h hallowed
  | audio peer packet time =>
      exact handles_audio hE.toLawful h packet hallowed.1 hallowed.2 hwithin
  | tick times => exact handles_tick hE h hallowed.1 hallowed.2 hwithin
  | peerset slot key value =>
      obtain ⟨⟨o, ho⟩, hkey⟩ := hallowed
      exact handles_peerset h ho hkey value
  | deliver peer =>
      refine ⟨_, rfl, ⟨?_, h.session⟩, rfl⟩
      exact h.reached_run [.deliver peer] ⟨trivial, trivial⟩ rfl

end ServiceSteps

/-! ## Runs -/

section Runs

variable {E : JimExpr} {W : Int → Prop} {events : List ServiceEvent}

theorem serviceOk_init : Service.init.Ok W :=
  ⟨⟨[], trivial, rfl⟩, ok_start (show Server.init.Sized from rfl) (fun _ => rfl) 0⟩

theorem exists_run_service (hE : E.ComparesTimes W) (speakTime : Int) (defaultChannel : CString)
    (hallowed : (serviceMachine E speakTime defaultChannel).Guarded
      (Machine.OnOk Service.Allowed) (.ok .init) events)
    (hwithin : ∀ event ∈ events, event.Within W speakTime) :
    ∃ service, (serviceMachine E speakTime defaultChannel).run (.ok .init) events =
      .ok service ∧ service.Ok W := by
  have hboth := Machine.guarded_onOk_and.2
    ⟨hallowed, Machine.guarded_onOk_of_forall hwithin (.ok Service.init)⟩
  refine Machine.exists_run_of_guarded (I := Service.Ok W) (fun service event h hevent => ?_)
    serviceOk_init hboth
  obtain ⟨service', hstep, h', -⟩ := handles_event hE h hevent.1 hevent.2
  exact ⟨service', hstep, h'⟩

/-- A run of the service is one of the network: its scripts are calls between the packets. -/
theorem service_refines_network (hE : E.ComparesTimes W) (speakTime : Int)
    (defaultChannel : CString)
    (hallowed : (serviceMachine E speakTime defaultChannel).Guarded
      (Machine.OnOk Service.Allowed) (.ok .init) events)
    (hwithin : ∀ event ∈ events, event.Within W speakTime) :
    ∃ service, (serviceMachine E speakTime defaultChannel).run (.ok .init) events =
        .ok service ∧
      ∃ calls, networkMachine.Guarded Admissible .init calls ∧
        networkAfter calls = ⟨.ok service.session.server, service.links⟩ := by
  obtain ⟨service, hrun, h⟩ := exists_run_service hE speakTime defaultChannel hallowed hwithin
  exact ⟨service, hrun, h.reached⟩

end Runs

/-- Two peers connect, the first is heard, and the round ends. -/
theorem service_refines_network_two_peers :
    ∃ service, (serviceMachine integerExpr 50 (literal "lobby")).run (.ok .init)
        [.connect 5, .connect 6, .audio 5 oneBytePacket 100, .tick fun _ => 120] = .ok service ∧
      ∃ calls, networkMachine.Guarded Admissible .init calls ∧
        networkAfter calls = ⟨.ok service.session.server, service.links⟩ :=
  service_refines_network (comparesTimes_integerExpr IsWide) 50 (literal "lobby") (by
    refine ⟨?_, ?_, ?_, ?_, trivial⟩
    · exact Machine.onOk_ok.2 ⟨rfl, by decide⟩
    · rintro service hs
      cases hs
      exact ⟨rfl, by decide⟩
    · rintro service hs
      cases hs
      exact ⟨Option.some_ne_none _, by decide⟩
    · rintro service hs
      cases hs
      exact ⟨fun _ _ _ => le_rfl, by decide⟩) (by
    simp only [List.forall_mem_cons, ServiceEvent.Within, IsWide]
    exact ⟨trivial, trivial, by decide, fun _ => by decide, List.forall_mem_nil _⟩)

end Svc.Svcenet
