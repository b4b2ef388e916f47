import Svc.Svcenet.Network.Tables
import Svc.Svcenet.Server.Routing
import Svc.Svcenet.Service

/-!
# Who hears a voice

In whatever state the service has come to, a frame that a user sends is heard by those who share
its channel and are not deafened, as the frame that was sent and as a frame of that user; by
nobody, if the user is muted on the server.
-/

namespace Svc.Svcenet

open Svc.Common Svc.Lib

/-! ## The flags of the peers -/

def ServiceEvent.KeepsFlags : ServiceEvent → Prop
  | .peerset _ key value => key = mutedKey ∨ key = deafenKey → IsFlag value.bytes
  | .connect _ | .disconnect _ | .audio _ _ _ | .tick _ | .deliver _ => True

namespace Occupant

def HasFlags (o : Occupant) : Prop :=
  IsFlag (ddGet o.pubData mutedKey) ∧ IsFlag (ddGet o.pubData deafenKey)

variable {o : Occupant}

theorem HasFlags.of_ddGet {o' : Occupant} (h : o.HasFlags)
    (hsame : ∀ key, key ≠ speakingKey → ddGet o'.pubData key = ddGet o.pubData key) :
    o'.HasFlags := by
  rw [HasFlags, hsame mutedKey (by decide), hsame deafenKey (by decide)]
  exact h

theorem hasFlags_greeted (peer : ENetPeer) (defaultChannel : CString) (slot : Nat) :
    (Occupant.greeted ⟨some peer, [], []⟩ defaultChannel slot).HasFlags :=
  ⟨.inl rfl, .inl rfl⟩

theorem HasFlags.setPub (h : o.HasFlags) {key value : CString}
    (hflag : key = mutedKey ∨ key = deafenKey → IsFlag value.bytes) :
    (o.setPub key value).HasFlags := by
  constructor
  · rw [ddGet_setPub]
    split_ifs with hkey
    · exact hflag (.inl hkey.symm)
    · exact h.1
  · rw [ddGet_setPub]
    split_ifs with hkey
    · exact hflag (.inr hkey.symm)
    · exact h.2

theorem ddGet_quietened (E : JimExpr) (o : Occupant) (time : Int) {key : CString}
    (hkey : key ≠ speakingKey) :
    ddGet (o.quietened E time).pubData key = ddGet o.pubData key := by
  rw [quietened]
  split_ifs
  · rw [ddGet_setPub, if_neg hkey]
  · rfl

end Occupant

section Flags

variable {E : JimExpr} {speakTime : Int} {defaultChannel : CString} {service service' : Service}

theorem flagged_update {s s' : Server} (h : s.Flagged) {slot : Nat} {o' : Option Occupant}
    (hslots : s'.occupantAt = Function.update s.occupantAt slot o')
    (ho' : ∀ o, o' = some o → o.HasFlags) : s'.Flagged := by
  intro p o ho
  rw [hslots] at ho
  rcases Dict.update_eq_some.1 ho with ⟨-, hnew⟩ | ⟨-, hold⟩
  · exact ho' o hnew
  · exact h p o hold

theorem flagged_slotsAfter (h : service.session.server.Flagged) {event : ServiceEvent}
    (hkeeps : event.KeepsFlags)
    (hslots : service.SlotsAfter E speakTime defaultChannel service'.session.server.occupantAt
      event) : service'.session.server.Flagged := by
  cases event with
  | connect peer =>
      obtain ⟨slot, -, hslots⟩ := hslots
      refine flagged_update h hslots ?_
      rintro o ⟨⟩
      exact Occupant.hasFlags_greeted peer defaultChannel slot
  | disconnect peer =>
      obtain ⟨slot, hslots⟩ := hslots
      exact flagged_update h hslots fun _ hnone => nomatch hnone
  | audio peer packet time =>
      rcases hslots with hsame | ⟨slot, o, ho, hslots⟩
      · intro p o ho
        exact h p o ((congrFun hsame p).symm.trans ho)
      · refine flagged_update h hslots ?_
        rintro o' ⟨⟩
        exact Occupant.HasFlags.of_ddGet (h slot o ho) fun key hkey =>
          Occupant.ddGet_heard o _ hkey
  | tick times =>
      intro p o' ho'
      obtain ⟨o, ho, rfl⟩ := Option.map_eq_some_iff.1 ((congrFun hslots p).symm.trans ho')
      refine Occupant.HasFlags.of_ddGet (h p o ho) fun key hkey => ?_
      dsimp only
      rw [ddGet_clearDirty, Occupant.ddGet_quietened E o (times p) hkey]
  | peerset slot key value =>
      obtain ⟨o, ho, hslots⟩ := hslots
      refine flagged_update h hslots ?_
      rintro o' ⟨⟩
      exact Occupant.HasFlags.setPub (h slot o ho) hkeeps
  | deliver peer => exact fun p o ho => h p o ((congrFun hslots p).symm.trans ho)

end Flags

/-! ## The clients -/

section Clients

variable {W : Int → Prop} {service : Service}

/-- The peer has a slot, and its client, once it has read its packets, knows that slot and has
a peer of libsvc for everyone else who is connected. -/
structure Service.Attends (service : Service) (peer : ENetPeer) (slot : Nat) (o : Occupant)
    (c : Client) : Prop where
  drained : ∃ l, service.links peer = some l ∧ l.drained = .ok c
  occupant : service.session.server.occupantAt slot = some o
  owner : o.peer = some peer
  myId : c.myId = slot
  lt : slot < 2 ^ 31
  joined : ∀ other o', service.session.server.occupantAt other = some o' → other ≠ slot →
    ∃ svcPeer, c.HasJoined other svcPeer

theorem exists_attends (h : service.Ok W) {peer : ENetPeer} (hpeer : service.links peer ≠ none) :
    ∃ slot o c, service.Attends peer slot o c := by
  obtain ⟨l, hl⟩ := Option.ne_none_iff_exists'.1 hpeer
  obtain ⟨R, hnetwork⟩ := h.networkOk
  obtain ⟨c, r, hr, hdrained, hc⟩ := hnetwork.exists_client hl
  obtain ⟨events, hadm, hafter⟩ := h.reached
  obtain ⟨msgs, coming, hcarries⟩ :=
    carriesTo_run events hadm peer l ((congrArg (Network.links · peer) hafter).trans hl)
  obtain ⟨c', hdrained', horder⟩ := hcarries.inOrder
  obtain rfl : c = c' := Except.ok.inj (hdrained.symm.trans hdrained')
  have hown := hnetwork.own_slot peer r hr
  obtain ⟨o, ho, howner⟩ := occupantAt_of_peerAt hown
  have htable : ∀ other o', service.session.server.occupantAt other = some o' →
      (r.table other).isSome := by
    intro other o' ho'
    obtain ⟨data, hdata, -⟩ := (hnetwork.replicated peer r hr).table other o' ho'
    rw [hdata]
    rfl
  refine ⟨r.myId, o, c, ⟨l, hl, hdrained⟩, ho, howner, hc.myId, ?_, fun other o' ho' hne => ?_⟩
  · obtain ⟨e, he, -⟩ := (hc.connected_iff r.myId).2 (htable r.myId o ho)
    have hlt := (List.getElem?_eq_some_iff.1 he).1
    have hlength := hc.length_lt
    omega
  · exact horder.hasJoined hc (htable other o' ho') fun hmine => hne (hmine.symm.trans hc.myId)

/-- The owner of an occupied slot is connected. -/
theorem exists_attends_of_occupant (h : service.Ok W) {slot : Nat} {o : Occupant}
    (ho : service.session.server.occupantAt slot = some o) :
    ∃ peer c, o.peer = some peer ∧ service.Attends peer slot o c := by
  obtain ⟨R, hnetwork⟩ := h.networkOk
  have hat : service.session.server.peerAt slot = some o.peer := congrArg (Option.map _) ho
  obtain ⟨peer, hpeer, hdata⟩ := hnetwork.linked.peerData_of_peerAt slot _ hat
  have hsome := (hnetwork.owner_iff peer).2 ⟨slot, hpeer ▸ hat⟩
  rw [← hnetwork.isSome_links] at hsome
  obtain ⟨slot', o', c, hattends⟩ := exists_attends h (Option.isSome_iff_ne_none.1 hsome)
  have hat' : service.session.server.peerAt slot' = some o'.peer :=
    congrArg (Option.map _) hattends.occupant
  obtain ⟨peer', hpeer', hdata'⟩ := hnetwork.linked.peerData_of_peerAt slot' _ hat'
  obtain rfl : peer' = peer := Option.some.inj (hpeer'.symm.trans hattends.owner)
  obtain rfl : slot' = slot := Option.some.inj (hdata'.symm.trans hdata)
  obtain rfl : o' = o := Option.some.inj (hattends.occupant.symm.trans ho)
  exact ⟨peer', c, hpeer, hattends⟩

end Clients

/-! ## A frame -/

/-- A client that is not deafened gives the packet to its peer of libsvc for the slot, as the
frame `np`. -/
def ENetPacket.PlayedFrom (packet : ENetPacket) (c : Client) (slot : Nat) (np : NetworkPacket) :
    Prop :=
  ∃ svcPeer, c.HasJoined slot svcPeer ∧
    ∀ (listener : ClientState) (memory : Nat → UInt8), listener.toClient = c →
      listener.deafen = false →
        ∃ received, handleServerAudio listener (packet.arriveIn memory) =
            .ok (listener, some (svcPeer, received)) ∧
          received.time = np.time ∧ received.dataLen = np.dataLen ∧
          Block.first received.data received.dataLen = Block.first np.data np.dataLen

structure Service.Passes (service : Service) (E : JimExpr) (slot : Nat) (o : Occupant)
    (np : NetworkPacket) (packet : ENetPacket) (sends : List AudioSend) : Prop where
  muted : o.isMuted → sends = []
  chosen : ¬ o.isMuted → ∀ q, sentTo q sends =
    match service.session.server.occupantAt q with
    | some o' =>
        if q ≠ slot ∧ E.equal o'.channel o.channel = true ∧ ¬ o'.isDeaf then
          [(q, o'.peer, packet)]
        else []
    | none => []
  played : ∀ q target relayed, (q, target, relayed) ∈ sends →
    ∃ listener o' c, target = some listener ∧ service.Attends listener q o' c ∧
      relayed.PlayedFrom c slot np

section Frames

variable {E : JimExpr} {W : Int → Prop} {service : Service}

theorem playedFrom_of_carries {packet : ENetPacket} {c : Client} {slot : Nat} {np : NetworkPacket}
    (h : packet.Carries (UInt32.ofNat slot) np) (hslot : slot < 2 ^ 31)
    (htime : np.time.toNat < 2 ^ 16) (hlen : np.dataLen + 10 < 2 ^ 32) {svcPeer : SvcPeer}
    (hjoined : c.HasJoined slot svcPeer) : packet.PlayedFrom c slot np := by
  refine ⟨svcPeer, hjoined, fun listener memory hclient hdeafen => ?_⟩
  subst hclient
  exact handleServerAudio_of_carries (h.arriveIn memory) hslot htime hlen hdeafen hjoined

theorem passes_of_carries (hE : E.ComparesSlots (· < 2 ^ 31)) (h : service.Ok W)
    (hflagged : service.session.server.Flagged) {speaker : ENetPeer} {slot : Nat} {o : Occupant}
    {c : Client} (hattends : service.Attends speaker slot o c) {np : NetworkPacket}
    {packet : ENetPacket} (hcarries : packet.Carries (UInt32.ofNat slot) np)
    (htime : np.time.toNat < 2 ^ 16) (hlen : np.dataLen + 10 < 2 ^ 32) (speakTime time : Int) :
    service.Passes E slot o np packet
      (handlePacketInputAudio E speakTime time service.session.server slot packet).2 := by
  have haccepted := decodeAudioPacket_of_carries hcarries hattends.lt hlen
  have hflag := (h.session.indicates slot o hattends.occupant).flag
  have hmuted : o.isMuted →
      (handlePacketInputAudio E speakTime time service.session.server slot packet).2 = [] :=
    fun hmuted => sends_of_muted hE.toLawful h.session.sized hattends.occupant haccepted hmuted
      speakTime time
  have hslots : ∀ q o', service.session.server.occupantAt q = some o' → q < 2 ^ 31 := by
    intro q o' ho'
    obtain ⟨_, _, _, hlistens⟩ := exists_attends_of_occupant h ho'
    exact hlistens.lt
  have hchosen := fun hmuted : ¬ o.isMuted =>
    sentTo_of_not_muted hE hslots h.session.sized hflagged hattends.occupant hflag haccepted hmuted
      speakTime time
  refine ⟨hmuted, hchosen, fun q target relayed hmem => ?_⟩
  have hloud : ¬ o.isMuted := by
    intro hquiet
    rw [hmuted hquiet] at hmem
    cases hmem
  have hsent : (q, target, relayed) ∈
      sentTo q (handlePacketInputAudio E speakTime time service.session.server slot packet).2 :=
    List.mem_filter.2 ⟨hmem, decide_eq_true rfl⟩
  rw [hchosen hloud q] at hsent
  cases ho' : service.session.server.occupantAt q with
  | none =>
      rw [ho'] at hsent
      cases hsent
  | some o' =>
      simp only [ho'] at hsent
      split_ifs at hsent with hheard
      · obtain ⟨-, rfl, rfl⟩ : q = q ∧ target = o'.peer ∧ relayed = packet := by
          simpa using hsent
        obtain ⟨listener, c', howner, hlistens⟩ := exists_attends_of_occupant h ho'
        obtain ⟨svcPeer, hjoined⟩ := hlistens.joined slot o hattends.occupant (Ne.symm hheard.1)
        exact ⟨listener, o', c', howner, hlistens,
          playedFrom_of_carries hcarries hattends.lt htime hlen hjoined⟩
      · cases hsent

end Frames

/-! ## Runs -/

/-- In every state of the service, a frame that the user of a connected peer sends goes to those
who share its channel and are not deafened, and is played there as a frame of that user. -/
theorem voice_reaches_channel {E : JimExpr} {W : Int → Prop} (hE : E.ComparesTimes W)
    (hslots : E.ComparesSlots (· < 2 ^ 31)) (speakTime : Int) (defaultChannel : CString)
    {events : List ServiceEvent}
    (hallowed : (serviceMachine E speakTime defaultChannel).Guarded
      (Machine.OnOk fun service event => service.Allowed event ∧ event.KeepsFlags) (.ok .init)
      events)
    (hwithin : ∀ event ∈ events, event.Within W speakTime) :
    ∃ service, (serviceMachine E speakTime defaultChannel).run (.ok .init) events =
        .ok service ∧
      ∀ speaker, service.links speaker ≠ none → ∃ slot o c, service.Attends speaker slot o c ∧
        ∀ (sender : ClientState) (np : NetworkPacket) (memory atServer : Nat → UInt8) (time : Int),
          sender.toClient = c → sender.muted = false → np.time.toNat < 2 ^ 16 →
            np.dataLen + 10 < 2 ^ 32 →
              ∃ packet, sendCallback memory sender np = some packet ∧
                service.Passes E slot o np (packet.arriveIn atServer)
                  (handlePacketInputAudio E speakTime time service.session.server slot
                    (packet.arriveIn atServer)).2 := by
  have hstart : Service.init.Ok W ∧ Service.init.session.server.Flagged :=
    ⟨serviceOk_init, fun p o ho => nomatch ho⟩
  obtain ⟨service, hrun, h, hflagged⟩ := Machine.exists_run_of_guarded
    (I := fun service => service.Ok W ∧ service.session.server.Flagged)
    (fun service event hs hevent => by
      obtain ⟨service', hstep, h', hslots⟩ := handles_event hE hs.1 hevent.1.1 hevent.2
      exact ⟨service', hstep, h', flagged_slotsAfter hs.2 hevent.1.2 hslots⟩) hstart
    (Machine.guarded_onOk_and.2
      ⟨hallowed, Machine.guarded_onOk_of_forall hwithin (.ok Service.init)⟩)
  refine ⟨service, hrun, fun speaker hspeaker => ?_⟩
  obtain ⟨slot, o, c, hattends⟩ := exists_attends h hspeaker
  refine ⟨slot, o, c, hattends, fun sender np memory atServer time hclient hmuted htime hlen => ?_⟩
  have hid : sender.myId = slot := (congrArg Client.myId hclient).trans hattends.myId
  obtain ⟨packet, hsends, hcarries⟩ := sendCallback_carries hid hattends.lt hmuted memory np
  exact ⟨packet, hsends, passes_of_carries hslots h hflagged hattends (hcarries.arriveIn atServer)
    htime hlen speakTime time⟩

/-- Three peers connect, the second is deafened, and the round ends. -/
theorem voice_reaches_channel_three_peers :
    ∃ service, (serviceMachine integerExpr 50 (literal "lobby")).run (.ok .init)
        [.connect 5, .connect 6, .connect 7, .peerset 1 deafenKey (literal "1"),
          .tick fun _ => 120] = .ok service ∧
      ∀ speaker, service.links speaker ≠ none → ∃ slot o c, service.Attends speaker slot o c ∧
        ∀ (sender : ClientState) (np : NetworkPacket) (memory atServer : Nat → UInt8) (time : Int),
          sender.toClient = c → sender.muted = false → np.time.toNat < 2 ^ 16 →
            np.dataLen + 10 < 2 ^ 32 →
              ∃ packet, sendCallback memory sender np = some packet ∧
                service.Passes integerExpr slot o np (packet.arriveIn atServer)
                  (handlePacketInputAudio integerExpr 50 time service.session.server slot
                    (packet.arriveIn atServer)).2 :=
  voice_reaches_channel (comparesTimes_integerExpr IsWide) (comparesSlots_integerExpr _) 50
    (literal "lobby") (by
    refine ⟨?_, ?_, ?_, ?_, ?_, trivial⟩
    · exact Machine.onOk_ok.2 ⟨⟨rfl, by decide⟩, trivial⟩
    · rintro service hs
      cases hs
      exact ⟨⟨rfl, by decide⟩, trivial⟩
    · rintro service hs
      cases hs
      exact ⟨⟨rfl, by decide⟩, trivial⟩
    · rintro service hs
      cases hs
      exact ⟨⟨⟨_, rfl⟩, by decide⟩, fun _ => .inr rfl⟩
    · rintro service hs
      cases hs
      exact ⟨⟨fun _ _ _ => le_rfl, by decide⟩, trivial⟩) (by
    simp only [List.forall_mem_cons, ServiceEvent.Within, IsWide]
    exact ⟨trivial, trivial, trivial, trivial, fun _ => by decide, List.forall_mem_nil _⟩)

end Svc.Svcenet
