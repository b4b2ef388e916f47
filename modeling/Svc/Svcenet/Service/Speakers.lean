import Svc.Svcenet.Service

/-!
# Who the clients show as speaking

`main.tcl` marks a peer when it is heard and takes the mark back in a later round; the mark
travels as any other public value.  What a client has of it once its packets have arrived is
compared here with what was heard.
-/

namespace Svc.Svcenet

open Svc.Common Svc.Lib

/-- The peer in the slot was heard since it connected, and its timeout is not over yet. -/
def Session.InTime (session : Session) (slot : Nat) (time : Int) : Prop :=
  ∃ timeout, session.lastTimeout slot = some timeout ∧ time ≤ timeout

def Client.SpeakingIs (c : Client) (slot : Nat) (value : CString) : Prop :=
  ∃ e dict, c.peers[slot]? = some e ∧ e.connected = true ∧ e.data = .live dict ∧
    dsdictGet dict speakingKey = some value.bytes

/-- Every client, once it has read its packets, has everyone who is connected as speaking
exactly if that peer was in time when the round read the clock for it. -/
def Service.SpeakersShown (service : Service) (times : Nat → Int) : Prop :=
  ∀ p l, service.links p = some l → ∃ c, l.drained = .ok c ∧
    ∀ slot o, service.session.server.occupantAt slot = some o →
      (service.session.InTime slot (times slot) → c.SpeakingIs slot (literal "1")) ∧
        (¬ service.session.InTime slot (times slot) → c.SpeakingIs slot (literal "0"))

theorem not_mem_ddDirty_clearDirty (dd : DataDict) (key : CString) :
    key ∉ ddDirty (clearDirty dd) := by
  rintro ⟨ddn, hfind, hdirty⟩
  obtain ⟨ddn', -, rfl⟩ := List.mem_map.1 (List.mem_of_find?_eq_some hfind)
  cases hdirty

/-- A client has every value that is not pending. -/
theorem NetworkOk.exists_value {n : Network} {s : Server} {R : Replicas} (h : NetworkOk n s R)
    {p : ENetPeer} {r : Replica} (hr : R p = some r) {c : Client} (hc : c.Shows r) {slot : Nat}
    {o : Occupant} (ho : s.occupantAt slot = some o) {key : CString}
    (hkey : key ∉ ddDirty o.pubData) {value : Bytes} (hvalue : ddValue o.pubData key = some value) :
    ∃ e dict, c.peers[slot]? = some e ∧ e.connected = true ∧ e.data = .live dict ∧
      dsdictGet dict key = some value := by
  obtain ⟨data, hdata, hfollows⟩ := (h.replicated p r hr).table slot o ho
  obtain ⟨e, dict, he, hconn, hlive, hget⟩ := exists_entry hc hdata
  exact ⟨e, dict, he, hconn, hlive, by rw [hget, hfollows.eq_of_not_mem hkey, hvalue]⟩

theorem ddValue_of_ddGet {dd : DataDict} {key : CString} {value : Bytes}
    (h : ddGet dd key = value) (hvalue : value ≠ []) : ddValue dd key = some value := by
  rw [ddGet_eq] at h
  cases hfind : ddValue dd key with
  | none =>
      rw [hfind] at h
      exact absurd h.symm hvalue
  | some bytes =>
      rw [hfind] at h
      exact congrArg some h

theorem speakersShown_tick {E : JimExpr} {W : Int → Prop} (speakTime : Int)
    (defaultChannel : CString) {service : Service} (hE : E.ComparesTimes W) (h : service.Ok W)
    {times : Nat → Int} (hmono : ∀ p q, p ≤ q → times p ≤ times q)
    (hclock : service.session.clock ≤ times 0) (htimes : ∀ p, W (times p)) :
    ∃ service', serviceStep E speakTime defaultChannel service (.tick times) = .ok service' ∧
      service'.SpeakersShown times := by
  have hhandles : service.Handles E speakTime defaultChannel W (.tick times) :=
    handles_tick hE h hmono hclock htimes
  obtain ⟨service', hstep, hok, hslots⟩ := hhandles
  have htimeouts : service'.session.lastTimeout = service.session.lastTimeout := by
    obtain ⟨sent, -, hsent⟩ := bind_eq_ok.1 hstep
    rw [← Except.ok.inj hsent]
    rfl
  refine ⟨service', hstep, fun p l hl => ?_⟩
  obtain ⟨R', hnetwork⟩ := hok.networkOk
  obtain ⟨c, r, hr, hdrained, hc⟩ := hnetwork.exists_client hl
  refine ⟨c, hdrained, fun slot o ho => ?_⟩
  obtain ⟨o₀, ho₀, rfl⟩ := Option.map_eq_some_iff.1 ((congrFun hslots slot).symm.trans ho)
  have hindicates := h.session.indicates slot o₀ ho₀
  have hle : service.session.clock ≤ times slot := Int.le_trans hclock (hmono 0 slot slot.zero_le)
  have hspeaking := hindicates.isSpeaking_quietened hE (htimes slot) hle
  have hflag := (hindicates.quietened hE (htimes slot) hle le_rfl).flag
  have hshown : ∀ value : CString, value.bytes ≠ [] →
      ddGet (o₀.quietened E (times slot)).pubData speakingKey = value.bytes →
        c.SpeakingIs slot value := by
    intro value hne hget
    refine hnetwork.exists_value hr hc ho (not_mem_ddDirty_clearDirty _ _) ?_
    rw [ddValue_clearDirty]
    exact ddValue_of_ddGet hget hne
  rw [Session.InTime, htimeouts]
  refine ⟨fun hin => hshown (literal "1") (by decide) (hspeaking.2 hin), fun hout => ?_⟩
  exact hshown (literal "0") (by decide) (hflag.resolve_right fun hone => hout (hspeaking.1 hone))

/-- After any run of the service, the next end of a round shows every client who is
speaking. -/
theorem speakers_shown {E : JimExpr} {W : Int → Prop} (hE : E.ComparesTimes W) (speakTime : Int)
    (defaultChannel : CString) {events : List ServiceEvent} {times : Nat → Int}
    (hallowed : (serviceMachine E speakTime defaultChannel).Guarded
      (Machine.OnOk Service.Allowed) (.ok .init) (events ++ [.tick times]))
    (hwithin : ∀ event ∈ events ++ [.tick times], event.Within W speakTime) :
    ∃ service, (serviceMachine E speakTime defaultChannel).run (.ok .init)
      (events ++ [.tick times]) = .ok service ∧ service.SpeakersShown times := by
  obtain ⟨hevents, htick⟩ := (Machine.guarded_concat _ _ _ _ _).1 hallowed
  obtain ⟨hpast, hlast⟩ := List.forall_mem_append.1 hwithin
  obtain ⟨service, hrun, h⟩ := exists_run_service hE speakTime defaultChannel hevents hpast
  obtain ⟨hmono, hclock⟩ := htick service hrun
  obtain ⟨service', hstep, hshown⟩ :=
    speakersShown_tick speakTime defaultChannel hE h hmono hclock
      (List.forall_mem_singleton.1 hlast)
  refine ⟨service', ?_, hshown⟩
  rw [Machine.run_concat, hrun]
  exact hstep

/-- A peer is heard at 100, and another connects before the round ends at 120. -/
theorem speakers_shown_two_peers :
    ∃ service, (serviceMachine integerExpr 50 (literal "lobby")).run (.ok .init)
      ([.connect 5, .audio 5 oneBytePacket 100, .connect 6] ++ [.tick fun _ => 120]) =
        .ok service ∧ service.SpeakersShown fun _ => 120 :=
  speakers_shown (comparesTimes_integerExpr IsWide) 50 (literal "lobby") (by
    refine ⟨?_, ?_, ?_, ?_, trivial⟩
    · exact Machine.onOk_ok.2 ⟨rfl, by decide⟩
    · rintro service hs
      cases hs
      exact ⟨Option.some_ne_none _, by decide⟩
    · rintro service hs
      cases hs
      exact ⟨rfl, by decide⟩
    · rintro service hs
      cases hs
      exact ⟨fun _ _ _ => le_rfl, by decide⟩) (by
    simp only [List.forall_mem_append, List.forall_mem_cons, ServiceEvent.Within, IsWide]
    exact ⟨⟨trivial, by decide, trivial, List.forall_mem_nil _⟩, fun _ => by decide,
      List.forall_mem_nil _⟩)

end Svc.Svcenet
