import Svc.Svcenet.Client.Invariant

/-!
# What the server can make a client use

`PDEL`, `PSET` and audio packets name an entry of the table, and the client checks only
that the table is large enough.  So the entry may be one that nobody added, one that was
deleted, or the client's own, which has no peer.
-/

namespace Svc.Svcenet

open Svc.Common Svc.Lib

/-- A line is a whole command, and an audio packet has a whole header. -/
def ClientEvent.WellFormed : ClientEvent → Prop
  | .enet (.line string) =>
      ∃ line : ServerLine, dstrlexParse string = .ok line.tokens ∧
        ∀ id ∈ line.peerId, decodePeerId id < 2 ^ 31 - 1
  | .enet (.audio packet) => 10 ≤ packet.dataLength
  | .connect _ _ _ | .disconnect | .mute _ | .deafen _ | .enet .connect | .enet .disconnect
  | .enet (.other _) => True

/-- The source of an audio packet is out of the table or connected, and not the client
itself, unless the client ignores the packet. -/
def ClientState.CanHear (s : ClientState) (packet : ENetPacket) : Prop :=
  let src := (net32 packet.data 0).toNat
  s.deafen = true ∨ s.peersSize ≤ src ∨
    ∃ e peer, s.peers[src]? = some e ∧ e.connected = true ∧ e.peer = some peer

def UsesConnected (s : ClientState) : ClientEvent → Prop
  | .enet (.line string) =>
      s.state = .connected →
        ∀ line : ServerLine, dstrlexParse string = .ok line.tokens → line.Safe s.toClient
  | .enet (.audio packet) => s.state = .connected → s.CanHear packet
  | .connect _ _ _ | .disconnect | .mute _ | .deafen _ | .enet .connect | .enet .disconnect
  | .enet (.other _) => True

section Steps

variable {s : ClientState} {leaked : List SvcPeer}

/-! ## Audio packets -/

theorem svcPacketRecieve_fault {c : Client} {peer : Option SvcPeer}
    (hleft : ∀ p ∈ peer, p ∉ c.joined) : ∃ fault, svcPacketRecieve c peer = .error fault := by
  cases peer with
  | none => exact ⟨.nullPointer, rfl⟩
  | some p => exact ⟨.useAfterFree, if_neg (hleft p rfl)⟩

theorem handleServerAudio_of_canHear (h : s.Ok leaked) {packet : ENetPacket}
    (hhear : s.CanHear packet) :
    ∃ s' given, handleServerAudio s packet = .ok (s', given) ∧ SameSession s s' ∧
      s'.state = s.state := by
  cases hdeafen : s.deafen with
  | true =>
      have hrun := decodeServerAudio_run_of_deafen packet hdeafen
      exact ⟨s, none, by rw [handleServerAudio, hrun], rfl, rfl⟩
  | false =>
      have hrun := decodeServerAudio_run packet hdeafen
      by_cases hsize : s.peersSize ≤ (net32 packet.data 0).toNat
      · simp only [ge_iff_le, if_pos hsize] at hrun
        simp only [handleServerAudio, hrun]
        exact ⟨_, none, rfl, rfl, rfl⟩
      · simp only [ge_iff_le, if_neg hsize] at hrun
        rcases hhear with hdeaf | hle | ⟨e, peer, he, hconn, hpeer⟩
        · exact absurd (hdeafen.symm.trans hdeaf) Bool.noConfusion
        · exact absurd hle hsize
        · have hlive := livePeer_eq_some.2 ⟨hconn, hpeer⟩
          have hjoined := h.table.mem_joined (List.mem_of_getElem? he) hlive
          simp only [handleServerAudio, hrun, peerAt_eq he, hpeer, svcPacketRecieve,
            if_pos hjoined, bind, Except.bind]
          exact ⟨s, _, rfl, rfl, rfl⟩

theorem handleServerAudio_fault (h : s.Ok leaked) {packet : ENetPacket}
    (hhear : ¬ s.CanHear packet) : ∃ fault, handleServerAudio s packet = .error fault := by
  unfold ClientState.CanHear at hhear
  simp only [not_or, not_exists, not_and, Bool.not_eq_true, not_le] at hhear
  obtain ⟨hdeafen, hsize, hnone⟩ := hhear
  have hrun := decodeServerAudio_run packet hdeafen
  simp only [ge_iff_le, if_neg (not_le.2 hsize)] at hrun
  obtain ⟨e, he⟩ : ∃ e, s.peers[(net32 packet.data 0).toNat]? = some e :=
    ⟨_, List.getElem?_eq_getElem (h.table.size ▸ hsize)⟩
  have hleft : ∀ peer ∈ e.peer, peer ∉ s.joined := fun peer hpeer => by
    refine (h.table.entries e (List.mem_of_getElem? he)).left ?_ peer hpeer
    exact Bool.eq_false_iff.2 fun hconn => hnone e peer he hconn hpeer
  obtain ⟨fault, hfault⟩ := svcPacketRecieve_fault hleft
  exact ⟨fault, by simp only [handleServerAudio, hrun, peerAt_eq he, hfault, bind, Except.bind]⟩

/-! ## Events -/

/-- An event that is not a line leaves the table alone or releases it. -/
theorem handleClientEvent_other (h : s.Ok leaked) {e : ClientEvent}
    (hother : s.state = .connected → ∀ string, e ≠ .enet (.line string))
    (huses : UsesConnected s e) :
    ∃ s', handleClientEvent s e = .ok s' ∧ s'.Ok leaked ∧ KeepsTable s s' := by
  cases e with
  | connect argv resolved progress =>
      have hsame := sameSession_cmdConnect s argv resolved progress
      exact ⟨_, rfl, ok_cmdConnect h argv resolved progress, hsame.keepsTable⟩
  | disconnect =>
      obtain ⟨s', hs', hok, hdown⟩ := cmdDisconnect_ok h
      exact ⟨s', hs', hok, hok.keepsTable (by rw [hdown]; nofun)⟩
  | mute argv =>
      have hsame := sameSession_cmdMute s argv
      exact ⟨_, rfl, h.congr hsame (by rw [state_cmdMute]), hsame.keepsTable⟩
  | deafen argv =>
      have hsame := sameSession_cmdDeafen s argv
      exact ⟨_, rfl, h.congr hsame (by rw [state_cmdDeafen]), hsame.keepsTable⟩
  | enet event =>
      rw [handleClientEvent]
      cases hstate : s.state with
      | disconnected => exact ⟨s, rfl, h, .inr ⟨rfl, rfl⟩⟩
      | connecting =>
          obtain ⟨hok, hnil⟩ := ok_handleConnecting h hstate event
          exact ⟨_, rfl, hok, .inl hnil⟩
      | connected =>
          cases event with
          | connect => exact ⟨s, rfl, h, .inr ⟨rfl, rfl⟩⟩
          | disconnect =>
              obtain ⟨s', hs', hok, hdown⟩ := handleConnected_disconnect h
              exact ⟨s', hs', hok, hok.keepsTable (by rw [hdown]; nofun)⟩
          | line string => exact absurd rfl (hother hstate string)
          | audio packet =>
              obtain ⟨s', given, hs', hsame, hstate'⟩ :=
                handleServerAudio_of_canHear h (huses hstate)
              refine ⟨s', ?_, h.congr hsame (by rw [hstate']), hsame.keepsTable⟩
              simp only [handleConnected, hs']
              rfl
          | other channelID => exact ⟨_, rfl, h.congr rfl Iff.rfl, .inr ⟨rfl, rfl⟩⟩

/-- A line does to the client what its command does. -/
theorem handleClientEvent_line (h : s.Ok leaked) (hstate : s.state = .connected) {string : Bytes}
    {line : ServerLine} (hparse : dstrlexParse string = .ok line.tokens)
    (hsafe : line.Safe s.toClient) (hfits : line.Fits s.toClient) :
    ∃ c, line.run s.toClient string = .ok c ∧
      handleClientEvent s (.enet (.line string)) = .ok { s with toClient := c } ∧
      { s with toClient := c }.Ok (line.loses s.toClient ++ leaked) := by
  obtain ⟨c, hrun, htable, hinfo⟩ := run_of_safe h.table (h.up hstate) string hsafe hfits
  refine ⟨c, hrun, ?_, htable, fun _ => hinfo, fun hdown => absurd hstate hdown⟩
  simp only [handleClientEvent, hstate, handleConnected, handleServerDecodedMsg_eq hparse, hrun]
  rfl

theorem fits_of_wellFormed {c : Client} {line : ServerLine}
    (h : ∀ id ∈ line.peerId, decodePeerId id < 2 ^ 31 - 1) : line.Fits c := by
  cases line with
  | padd id => exact fits_of_lt (h id rfl)
  | sset | yare | pdel | pset | mesg => trivial

/-- An event that uses only connected entries goes well. -/
theorem handleClientEvent_ok (h : s.Ok leaked) {e : ClientEvent} (hform : e.WellFormed)
    (huses : UsesConnected s e) :
    ∃ s', handleClientEvent s e = .ok s' ∧ ∃ leaked', s'.Ok leaked' := by
  by_cases hline : s.state = .connected ∧ ∃ string, e = .enet (.line string)
  · obtain ⟨hstate, string, rfl⟩ := hline
    obtain ⟨line, hparse, hids⟩ := hform
    have hsafe := huses hstate line hparse
    obtain ⟨c, -, hs', hok⟩ :=
      handleClientEvent_line h hstate hparse hsafe (fits_of_wellFormed hids)
    exact ⟨_, hs', _, hok⟩
  · have hother : s.state = .connected → ∀ string, e ≠ .enet (.line string) :=
      fun hstate string he => hline ⟨hstate, string, he⟩
    obtain ⟨s', hs', hok, -⟩ := handleClientEvent_other h hother huses
    exact ⟨s', hs', leaked, hok⟩

/-- Any other event uses something that is not there. -/
theorem handleClientEvent_fault (h : s.Ok leaked) {e : ClientEvent} (huses : ¬ UsesConnected s e) :
    ∃ fault, handleClientEvent s e = .error fault := by
  cases e with
  | connect | disconnect | mute | deafen => exact absurd trivial huses
  | enet event =>
      cases event with
      | connect | disconnect | other => exact absurd trivial huses
      | line string =>
          simp only [UsesConnected, Classical.not_imp, not_forall] at huses
          obtain ⟨hstate, line, hparse, hsafe⟩ := huses
          obtain ⟨fault, hfault⟩ := fault_of_not_safe h.table string hsafe
          refine ⟨fault, ?_⟩
          simp only [handleClientEvent, hstate, handleConnected, handleServerDecodedMsg_eq hparse,
            hfault]
          rfl
      | audio packet =>
          simp only [UsesConnected, Classical.not_imp] at huses
          obtain ⟨hstate, hhear⟩ := huses
          obtain ⟨fault, hfault⟩ := handleServerAudio_fault h hhear
          refine ⟨fault, ?_⟩
          simp only [handleClientEvent, hstate, handleConnected, hfault]
          rfl

end Steps

/-- The client uses only what is there exactly if all events name connected entries. -/
theorem useSafety_iff {events : List ClientEvent} (hform : ∀ e ∈ events, e.WellFormed) :
    (∀ pre, pre <+: events → ∃ s, clientAfter pre = .ok s) ↔
      clientMachine.Guarded (Machine.OnOk UsesConnected) (.ok .init) events := by
  refine Machine.forall_prefix_succeeds_iff_guarded (I := fun s => ∃ leaked, s.Ok leaked)
    (Machine.guarded_onOk_of_forall hform _) ⟨[], ok_init⟩ ?_
  rintro s e ⟨leaked, hok⟩ hform
  exact ⟨handleClientEvent_ok hok hform, handleClientEvent_fault hok⟩

def described : List ClientEvent :=
  connection ++ [.enet (.line (cstr "PADD 1")), .enet (.line (cstr "PSET 1 name bob")),
    .enet (.line (cstr "PDEL 1"))]

theorem useSafety_described :
    (∀ pre, pre <+: described → ∃ s, clientAfter pre = .ok s) ↔
      clientMachine.Guarded (Machine.OnOk UsesConnected) (.ok .init) described := by
  refine useSafety_iff ?_
  simp only [described, connection, List.cons_append, List.nil_append, List.forall_mem_cons]
  refine ⟨trivial, trivial, ⟨.padd (cstr "1"), by decide, by decide⟩,
    ⟨.pset (cstr "1") (cstr "name") (cstr "bob"), by decide, by decide⟩,
    ⟨.pdel (cstr "1"), by decide, by decide⟩, List.forall_mem_nil _⟩

def deletedTwice : List ClientEvent :=
  connection ++ [.enet (.line (cstr "PADD 1")), .enet (.line (cstr "PDEL 1")),
    .enet (.line (cstr "PDEL 1"))]

theorem not_useSafety_of_deleted_twice :
    (∀ e ∈ deletedTwice, e.WellFormed) ∧ clientAfter deletedTwice = .error .useAfterFree := by
  refine ⟨?_, rfl⟩
  simp only [deletedTwice, connection, List.cons_append, List.nil_append, List.forall_mem_cons]
  exact ⟨trivial, trivial, ⟨.padd (cstr "1"), by decide, by decide⟩,
    ⟨.pdel (cstr "1"), by decide, by decide⟩, ⟨.pdel (cstr "1"), by decide, by decide⟩,
    List.forall_mem_nil _⟩

end Svc.Svcenet
