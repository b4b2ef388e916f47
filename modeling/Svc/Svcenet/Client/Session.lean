import Svc.Svcenet.Client.Program
import Svc.Svcenet.Client.Replica

/-!
# A session of the client

The client that a server accepted knows nothing, whatever it did before.  While it stays
connected, the commands of the server make it a replica; what the user does to the microphone
and the speaker does not matter, nor does the audio.
-/

namespace Svc.Svcenet

open Svc.Common Svc.Lib

structure Client.Fresh (c : Client) : Prop where
  serverInfo : c.serverInfo = .null
  myId : c.myId = 2 ^ 32 - 1
  peers : c.peers = []
  peersSize : c.peersSize = 0

def ClientEvent.Stays : ClientEvent → Prop
  | .mute _ | .deafen _ | .enet (.line _) | .enet (.audio _) => True
  | .connect .. | .disconnect | .enet .connect | .enet .disconnect | .enet (.other _) => False

def heardLines (events : List ClientEvent) : List Bytes :=
  events.flatMap fun
    | .enet (.line string) => [string]
    | _ => []

section Fresh

variable {s s' : ClientState} {c c' : Client}

theorem fresh_msgState (h : s.toClient.Fresh) : s.msgState.toClient.Fresh := by
  unfold ClientState.msgState
  cases s.state with
  | connected | connecting | disconnected => exact ⟨h.serverInfo, h.myId, h.peers, h.peersSize⟩

theorem fresh_printError (h : s.toClient.Fresh) (line : Bytes) :
    (s.printError line).toClient.Fresh := ⟨h.serverInfo, h.myId, h.peers, h.peersSize⟩

theorem serverInfo_freePeerEntry {entry : ClientPeer} (h : freePeerEntry c entry = .ok c') :
    (c'.serverInfo, c'.myId) = (c.serverInfo, c.myId) := by
  unfold freePeerEntry at h
  split_ifs at h
  · obtain ⟨dict, -, h⟩ := bind_eq_ok.1 h
    split at h
    · unfold Client.svcPeerLeave at h
      split_ifs at h
      cases h
      rfl
    · cases h
      rfl
  · cases h
    rfl

/-- Whatever there was of a server is released. -/
theorem fresh_freeServerInfo (h : freeServerInfo c = .ok c') : c'.Fresh := by
  obtain ⟨c₁, hdict, h⟩ := bind_eq_ok.1 h
  obtain ⟨c₂, hpeers, h⟩ := bind_eq_ok.1 h
  have hnull : c₁.serverInfo = .null := by
    unfold freeServerDict at hdict
    split at hdict
    · cases hdict
      assumption
    · obtain ⟨dict, -, hdict⟩ := bind_eq_ok.1 hdict
      cases hdict
      rfl
  have hview : (c₂.serverInfo, c₂.myId) = (c₁.serverInfo, 2 ^ 32 - 1) := by
    refine (view_foldlM (fun c => (c.serverInfo, c.myId)) (fun c i c' hround => ?_) hpeers :)
    obtain ⟨entry, -, hentry⟩ := bind_eq_ok.1 hround
    exact serverInfo_freePeerEntry hentry
  obtain ⟨hinfo, hid⟩ := Prod.ext_iff.1 hview
  cases h
  exact ⟨hinfo.trans hnull, hid, rfl, rfl⟩

theorem fresh_abandon (h : s.toClient.Fresh) : s.abandon.toClient.Fresh :=
  fresh_msgState ⟨h.serverInfo, h.myId, h.peers, h.peersSize⟩

theorem fresh_cmdConnect (h : s.state ≠ .connected → s.toClient.Fresh) (argv : List Bytes)
    (resolved : Option Bytes) (progress : ConnectProgress)
    (hdown : (cmdConnect s argv resolved progress).state ≠ .connected) :
    (cmdConnect s argv resolved progress).toClient.Fresh := by
  unfold cmdConnect at hdown ⊢
  cases hstate : s.state with
  | connected =>
      rw [hstate] at hdown
      exact absurd hstate hdown
  | connecting =>
      exact fresh_printError (h (by rw [hstate]; nofun)) _
  | disconnected =>
      have hfresh := h (by rw [hstate]; nofun)
      dsimp only
      split
      · exact fresh_printError hfresh _
      · cases progress with
        | noHost | noPeer =>
            exact ⟨hfresh.serverInfo, hfresh.myId, hfresh.peers, hfresh.peersSize⟩
        | initiated =>
            exact fresh_msgState
              ⟨hfresh.serverInfo, hfresh.myId, hfresh.peers, hfresh.peersSize⟩
      · exact fresh_printError hfresh _

theorem fresh_cmdDisconnect (h : s.state ≠ .connected → s.toClient.Fresh)
    (hrun : cmdDisconnect s = .ok s') : s'.toClient.Fresh := by
  unfold cmdDisconnect at hrun
  split at hrun
  · obtain ⟨c, hfree, hrun⟩ := bind_eq_ok.1 hrun
    cases hrun
    have hfresh := fresh_freeServerInfo hfree
    exact fresh_msgState ⟨hfresh.serverInfo, hfresh.myId, hfresh.peers, hfresh.peersSize⟩
  · rename_i hstate
    cases hrun
    exact fresh_abandon (h (by rw [hstate]; nofun))
  · rename_i hstate
    cases hrun
    exact fresh_printError (h (by rw [hstate]; nofun)) _

theorem state_handleServerAudio {packet : ENetPacket} {given : Option (SvcPeer × NetworkPacket)}
    (h : handleServerAudio s packet = .ok (s', given)) : s'.state = s.state := by
  unfold handleServerAudio at h
  split at h
  · cases h
    rfl
  · cases h
    rfl
  · obtain ⟨entry, -, h⟩ := bind_eq_ok.1 h
    obtain ⟨peer, -, h⟩ := bind_eq_ok.1 h
    cases h
    rfl

theorem fresh_event (h : s.state ≠ .connected → s.toClient.Fresh) {event : ClientEvent}
    (hrun : handleClientEvent s event = .ok s') (hdown : s'.state ≠ .connected) :
    s'.toClient.Fresh := by
  cases event with
  | connect argv resolved progress =>
      cases hrun
      exact fresh_cmdConnect h argv resolved progress hdown
  | disconnect => exact fresh_cmdDisconnect h hrun
  | mute argv =>
      cases hrun
      have hfresh : s.state ≠ .connected → (cmdMute s argv).toClient.Fresh := by
        intro hold
        have hfresh := h hold
        unfold cmdMute
        split
        · exact ⟨hfresh.serverInfo, hfresh.myId, hfresh.peers, hfresh.peersSize⟩
        · exact fresh_printError hfresh _
      refine hfresh fun hup => hdown ?_
      unfold cmdMute
      split
      · exact hup
      · exact hup
  | deafen argv =>
      cases hrun
      have hfresh : s.state ≠ .connected → (cmdDeafen s argv).toClient.Fresh := by
        intro hold
        have hfresh := h hold
        unfold cmdDeafen
        split
        · exact ⟨hfresh.serverInfo, hfresh.myId, hfresh.peers, hfresh.peersSize⟩
        · exact fresh_printError hfresh _
      refine hfresh fun hup => hdown ?_
      unfold cmdDeafen
      split
      · exact hup
      · exact hup
  | enet event =>
      rw [handleClientEvent] at hrun
      split at hrun
      · rename_i hup
        cases event with
        | connect =>
            cases hrun
            exact absurd hup hdown
        | disconnect =>
            obtain ⟨c, hfree, hrun⟩ := bind_eq_ok.1 hrun
            cases hrun
            have hfresh := fresh_freeServerInfo hfree
            exact fresh_msgState ⟨hfresh.serverInfo, hfresh.myId, hfresh.peers, hfresh.peersSize⟩
        | line string =>
            obtain ⟨c, -, hrun⟩ := bind_eq_ok.1 hrun
            cases hrun
            exact absurd hup hdown
        | audio packet =>
            obtain ⟨⟨s₁, given⟩, haudio, hrun⟩ := bind_eq_ok.1 hrun
            cases hrun
            exact absurd ((state_handleServerAudio haudio).trans hup) hdown
        | other channelID =>
            cases hrun
            exact absurd hup hdown
      · rename_i hstate
        cases hrun
        have hfresh := h (by rw [hstate]; nofun)
        cases event with
        | connect =>
            refine absurd ?_ hdown
            rfl
        | disconnect | line | audio | other => exact fresh_abandon hfresh
      · cases hrun
        exact h hdown

theorem fresh_run {events : List ClientEvent} (h : clientAfter events = .ok s)
    (hdown : s.state ≠ .connected) : s.toClient.Fresh := by
  induction events using List.reverseRecOn generalizing s with
  | nil =>
      cases h
      exact ⟨rfl, rfl, rfl, rfl⟩
  | append_singleton events event ih =>
      rw [clientAfter, Machine.run_concat] at h
      obtain ⟨s₀, hbefore, hstep⟩ : ∃ s₀, clientAfter events = .ok s₀ ∧
          handleClientEvent s₀ event = .ok s := bind_eq_ok.1 h
      exact fresh_event (ih hbefore) hstep hdown

end Fresh

/-! ## While it is connected -/

section Session

variable {s s' : ClientState} {r : Replica}

theorem Client.Shows.congr {c c' : Client} (h : c.Shows r) (hinfo : c'.serverInfo = c.serverInfo)
    (hid : c'.myId = c.myId) (hpeers : c'.peers = c.peers) (hsize : c'.peersSize = c.peersSize) :
    c'.Shows r where
  info := hinfo ▸ h.info
  myId := hid.trans h.myId
  peersSize_eq := by rw [hsize, hpeers, h.peersSize_eq]
  length_lt := hpeers ▸ h.length_lt
  live := hpeers ▸ h.live
  table := hpeers ▸ h.table

/-- The server accepts the client. -/
theorem shows_connected (hfresh : s.toClient.Fresh) (hstate : s.state = .connecting)
    (h : handleClientEvent s (.enet .connect) = .ok s') :
    s'.state = .connected ∧ s'.toClient.Shows .init := by
  rw [handleClientEvent, hstate] at h
  cases h
  refine ⟨rfl, shows_init.congr rfl ?_ ?_ ?_⟩
  · exact hfresh.myId
  · exact hfresh.peers
  · exact hfresh.peersSize

/-- What an event that is not a command of the server leaves as it is -/
theorem shows_stays (hup : s.state = .connected) (hshows : s.toClient.Shows r) {event : ClientEvent}
    (hstays : event.Stays) (hquiet : heardLines [event] = [])
    (h : handleClientEvent s event = .ok s') : s'.state = .connected ∧ s'.toClient.Shows r := by
  cases event with
  | connect | disconnect => cases hstays
  | mute argv =>
      cases h
      unfold cmdMute
      split
      · exact ⟨hup, hshows.congr rfl rfl rfl rfl⟩
      · exact ⟨hup, hshows.congr rfl rfl rfl rfl⟩
  | deafen argv =>
      cases h
      unfold cmdDeafen
      split
      · exact ⟨hup, hshows.congr rfl rfl rfl rfl⟩
      · exact ⟨hup, hshows.congr rfl rfl rfl rfl⟩
  | enet event =>
      rw [handleClientEvent, hup] at h
      cases event with
      | connect | disconnect | other => cases hstays
      | line string => cases hquiet
      | audio packet =>
          obtain ⟨⟨s₁, given⟩, haudio, h⟩ := bind_eq_ok.1 h
          cases h
          refine ⟨(state_handleServerAudio haudio).trans hup, ?_⟩
          unfold handleServerAudio at haudio
          split at haudio
          · cases haudio
            exact hshows
          · cases haudio
            exact hshows.congr rfl rfl rfl rfl
          · obtain ⟨entry, -, haudio⟩ := bind_eq_ok.1 haudio
            obtain ⟨peer, -, haudio⟩ := bind_eq_ok.1 haudio
            cases haudio
            exact hshows

theorem heardLines_concat (events : List ClientEvent) (event : ClientEvent) :
    heardLines (events ++ [event]) = heardLines events ++ heardLines [event] :=
  List.flatMap_append

/-- A session makes of the client what the commands that it heard make of a replica. -/
theorem shows_session {session : List ClientEvent} {msgs : List ServerMsg}
    (hup : s.state = .connected) (hshows : s.toClient.Shows r) (hstays : ∀ e ∈ session, e.Stays)
    (hheard : heardLines session = msgs.map ServerMsg.line) (hfits : r.FitsAll msgs)
    (h : clientMachine.run (.ok s) session = .ok s') :
    s'.state = .connected ∧ s'.toClient.Shows (msgs.foldl Replica.apply r) := by
  induction session using List.reverseRecOn generalizing s' msgs with
  | nil =>
      obtain rfl : msgs = [] := List.map_eq_nil_iff.1 hheard.symm
      cases h
      exact ⟨hup, hshows⟩
  | append_singleton session event ih =>
      rw [Machine.run_concat] at h
      obtain ⟨s₀, hbefore, hstep⟩ : ∃ s₀, clientMachine.run (.ok s) session = .ok s₀ ∧
          handleClientEvent s₀ event = .ok s' := bind_eq_ok.1 h
      have hstays' := fun e he => hstays e (List.mem_append_left _ he)
      have hstay : event.Stays := hstays event (List.mem_append_right _ List.mem_cons_self)
      rw [heardLines_concat, eq_comm, List.map_eq_append_iff] at hheard
      obtain ⟨first, last, rfl, hfirst, hlast⟩ := hheard
      obtain ⟨hfits, hfits'⟩ := (r.fitsAll_append first last).1 hfits
      obtain ⟨hup₀, hshows₀⟩ := ih hstays' hfirst.symm hfits hbefore
      rw [List.foldl_append]
      by_cases hquiet : heardLines [event] = []
      · obtain rfl : last = [] := List.map_eq_nil_iff.1 (hlast.trans hquiet)
        exact shows_stays hup₀ hshows₀ hstay hquiet hstep
      · match event, hquiet with
        | .enet (.line string), _ =>
            rw [handleClientEvent, hup₀] at hstep
            obtain ⟨c, hline, hdone⟩ := bind_eq_ok.1 hstep
            obtain ⟨m, rfl⟩ : ∃ m, last = [m] := List.length_eq_one_iff.1
              ((List.length_map _).symm.trans (congrArg List.length hlast))
            obtain rfl : m.line = string := List.head_eq_of_cons_eq hlast
            obtain ⟨c', hok, hc'⟩ := handleServerDecodedMsg_spec hshows₀ hfits'.1
            obtain rfl : c = c' := Except.ok.inj (hline.symm.trans hok)
            cases hdone
            exact ⟨hup₀, hc'⟩

end Session

end Svc.Svcenet
