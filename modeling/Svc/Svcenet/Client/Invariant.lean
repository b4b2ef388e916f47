import Svc.Svcenet.Client.Program
import Svc.Svcenet.Client.TableSteps

/-!
# The client between two events

The dictionary of the server and the table are there only while the client is connected,
and the table is in order.  Every event that does not fault keeps this.
-/

namespace Svc.Svcenet

open Svc.Common Svc.Lib

structure ClientState.Ok (s : ClientState) (leaked : List SvcPeer) : Prop where
  table : s.toClient.TableOk leaked
  up : s.state = .connected → ∃ dict, s.serverInfo = .live dict
  down : s.state ≠ .connected → s.serverInfo = .null ∧ s.peers = [] ∧ s.myId = 2 ^ 32 - 1

/-- The two clients differ only in the connection and in what they printed. -/
def SameSession (s s' : ClientState) : Prop :=
  s'.toClient = { s.toClient with stdout := s'.stdout, stderr := s'.stderr }

section Steps

variable {s s' : ClientState} {leaked : List SvcPeer}

theorem ok_init : ClientState.init.Ok [] where
  table := ⟨rfl, fun _ he => absurd he List.not_mem_nil, .refl _, .nil,
    fun _ hp => absurd hp List.not_mem_nil⟩
  up := nofun
  down _ := ⟨rfl, rfl, rfl⟩

theorem Client.TableOk.of_eq {c : Client} (h : c.TableOk leaked) (stdout stderr : List Bytes) :
    { c with stdout, stderr }.TableOk leaked := ⟨h.size, h.entries, h.joined, h.nodup, h.known⟩

theorem ClientState.Ok.congr (h : s.Ok leaked) (hsame : SameSession s s')
    (hstate : s'.state = .connected ↔ s.state = .connected) : s'.Ok leaked where
  table := by
    rw [hsame]
    exact h.table.of_eq _ _
  up hup := by
    rw [hsame]
    exact h.up (hstate.1 hup)
  down hdown := by
    rw [hsame]
    exact h.down fun hup => hdown (hstate.2 hup)

theorem SameSession.trans {s'' : ClientState} (h : SameSession s s') (h' : SameSession s' s'') :
    SameSession s s'' := by
  unfold SameSession at *
  rw [h', h]

def KeepsTable (s s' : ClientState) : Prop :=
  s'.peers = [] ∨ (s'.peers = s.peers ∧ s'.myId = s.myId)

theorem SameSession.keepsTable (h : SameSession s s') : KeepsTable s s' := by
  refine .inr ?_
  rw [h]
  exact ⟨rfl, rfl⟩

theorem ClientState.Ok.keepsTable (h : s'.Ok leaked) (hdown : s'.state ≠ .connected) :
    KeepsTable s s' := .inl (h.down hdown).2.1

/-! ## The connection -/

theorem sameSession_msgState (s : ClientState) : SameSession s s.msgState := by
  unfold ClientState.msgState
  cases s.state <;> rfl

@[simp] theorem state_msgState (s : ClientState) : s.msgState.state = s.state := by
  unfold ClientState.msgState
  cases h : s.state <;> exact h

theorem ok_msgState (h : s.Ok leaked) : s.msgState.Ok leaked :=
  h.congr (sameSession_msgState s) (by rw [state_msgState])

theorem state_abandon (s : ClientState) : s.abandon.state = .disconnected := state_msgState _

theorem ok_abandon (h : s.Ok leaked) (hdown : s.state ≠ .connected) : s.abandon.Ok leaked := by
  refine ok_msgState (h.congr rfl ?_)
  exact iff_of_false nofun hdown

theorem sameSession_cmdConnect (s : ClientState) (argv : List Bytes) (resolved : Option Bytes)
    (progress : ConnectProgress) : SameSession s (cmdConnect s argv resolved progress) := by
  unfold cmdConnect
  cases s.state with
  | connected | connecting => rfl
  | disconnected =>
      dsimp only
      split
      · rfl
      · cases progress with
        | noHost | noPeer => rfl
        | initiated => exact SameSession.trans rfl (sameSession_msgState _)
      · rfl

theorem cmdConnect_up (s : ClientState) (argv : List Bytes) (resolved : Option Bytes)
    (progress : ConnectProgress) :
    (cmdConnect s argv resolved progress).state = .connected ↔ s.state = .connected := by
  unfold cmdConnect
  cases hstate : s.state with
  | connected => exact iff_of_true hstate rfl
  | connecting =>
      have hdown : s.state ≠ .connected := by rw [hstate]; nofun
      exact iff_of_false hdown nofun
  | disconnected =>
      have hdown : s.state ≠ .connected := by rw [hstate]; nofun
      refine iff_of_false ?_ nofun
      dsimp only
      split
      · exact hdown
      · cases progress with
        | noHost | noPeer => nofun
        | initiated =>
            rw [state_msgState]
            nofun
      · exact hdown

theorem ok_cmdConnect (h : s.Ok leaked) (argv : List Bytes) (resolved : Option Bytes)
    (progress : ConnectProgress) : (cmdConnect s argv resolved progress).Ok leaked :=
  h.congr (sameSession_cmdConnect s argv resolved progress) (cmdConnect_up s argv resolved progress)

theorem sameSession_cmdMute (s : ClientState) (argv : List Bytes) :
    SameSession s (cmdMute s argv) := by
  unfold cmdMute
  split <;> rfl

theorem state_cmdMute (s : ClientState) (argv : List Bytes) : (cmdMute s argv).state = s.state := by
  unfold cmdMute
  split <;> rfl

theorem sameSession_cmdDeafen (s : ClientState) (argv : List Bytes) :
    SameSession s (cmdDeafen s argv) := by
  unfold cmdDeafen
  split <;> rfl

theorem state_cmdDeafen (s : ClientState) (argv : List Bytes) :
    (cmdDeafen s argv).state = s.state := by
  unfold cmdDeafen
  split <;> rfl

/-- The client when its server state is released and the connection is down. -/
theorem ok_released {joined : List SvcPeer} (h : s.Ok leaked) (hperm : joined.Perm leaked)
    (hsame : s'.toClient =
      { s.toClient with
        serverInfo := .null, myId := 2 ^ 32 - 1, peers := [], peersSize := 0, joined })
    (hstate : s'.state = .disconnected) : s'.Ok leaked where
  table := by
    rw [hsame]
    exact tableOk_released h.table hperm
  up hup := by
    rw [hstate] at hup
    cases hup
  down _ := by
    rw [hsame]
    exact ⟨rfl, rfl, rfl⟩

theorem serverInfo_ne_freed (h : s.Ok leaked) : s.serverInfo ≠ .freed := by
  by_cases hup : s.state = .connected
  · obtain ⟨dict, hdict⟩ := h.up hup
    rw [hdict]
    nofun
  · rw [(h.down hup).1]
    nofun

theorem cmdDisconnect_ok (h : s.Ok leaked) :
    ∃ s', cmdDisconnect s = .ok s' ∧ s'.Ok leaked ∧ s'.state = .disconnected := by
  unfold cmdDisconnect
  cases hstate : s.state with
  | connected =>
      obtain ⟨joined, hfree, hperm⟩ := freeServerInfo_eq h.table (serverInfo_ne_freed h)
      simp only [hfree, bind, Except.bind]
      exact ⟨_, rfl, ok_msgState (ok_released h hperm rfl rfl), state_msgState _⟩
  | connecting => exact ⟨_, rfl, ok_abandon h (by rw [hstate]; nofun), state_abandon s⟩
  | disconnected => exact ⟨_, rfl, h.congr rfl Iff.rfl, hstate⟩

theorem handleConnected_disconnect (h : s.Ok leaked) :
    ∃ s', handleConnected s .disconnect = .ok s' ∧ s'.Ok leaked ∧ s'.state = .disconnected := by
  obtain ⟨joined, hfree, hperm⟩ := freeServerInfo_eq h.table (serverInfo_ne_freed h)
  simp only [handleConnected, hfree, bind, Except.bind]
  exact ⟨_, rfl, ok_msgState (ok_released h hperm rfl rfl), state_msgState _⟩

theorem ok_handleConnecting (h : s.Ok leaked) (hstate : s.state = .connecting) (event : ENetEvent) :
    (handleConnecting s event).Ok leaked ∧ (handleConnecting s event).peers = [] := by
  have hdown : s.state ≠ .connected := by rw [hstate]; nofun
  cases event with
  | connect =>
      have hup : { s with state := .connected, serverInfo := .live [] }.Ok leaked := by
        refine ⟨?_, fun _ => ⟨[], rfl⟩, fun hne => absurd rfl hne⟩
        exact ⟨h.table.size, h.table.entries, h.table.joined, h.table.nodup, h.table.known⟩
      exact ⟨ok_msgState hup, (h.down hdown).2.1⟩
  | disconnect | line | audio | other =>
      have hok := ok_abandon h hdown
      exact ⟨hok, (hok.down (by rw [state_abandon]; nofun)).2.1⟩

end Steps

/-! ## Lines -/

/-- The command uses the entry of a peer only if that is connected. -/
def ServerLine.Safe (c : Client) : ServerLine → Prop
  | .pdel id | .pset id _ _ => c.peersSize ≤ decodePeerId id ∨ c.IsConnected (decodePeerId id)
  | .sset _ _ | .yare _ | .padd _ | .mesg _ => True

/-- The peer that the table loses because its entry is added again. -/
def ServerLine.loses (c : Client) : ServerLine → List SvcPeer
  | .padd id => (c.peers[decodePeerId id]?.bind ClientPeer.livePeer).toList
  | .sset _ _ | .yare _ | .pdel _ | .pset _ _ _ | .mesg _ => []

def ServerLine.Fits (c : Client) : ServerLine → Prop
  | .padd id => c.Fits (decodePeerId id)
  | .sset _ _ | .yare _ | .pdel _ | .pset _ _ _ | .mesg _ => True

theorem exists_padd_of_not_fits {c : Client} {line : ServerLine} (h : ¬ line.Fits c) :
    ∃ id, line = .padd id ∧ ¬ c.Fits (decodePeerId id) := by
  cases line with
  | padd id => exact ⟨id, rfl, h⟩
  | sset | yare | pdel | pset | mesg => exact absurd trivial h

section Lines

variable {c : Client} {leaked : List SvcPeer}

/-- An id leads out of the table, or to an entry that is connected or not. -/
theorem entry_cases (h : c.TableOk leaked) (id : Nat) :
    c.peersSize ≤ id ∨
      (∃ e, c.peers[id]? = some e ∧ e.connected = true) ∨
      ((∃ e, c.peers[id]? = some e ∧ e.connected = false) ∧
        ¬ (c.peersSize ≤ id ∨ c.IsConnected id)) := by
  by_cases hle : c.peersSize ≤ id
  · exact .inl hle
  · have hlt : id < c.peers.length := by rw [← h.size]; omega
    have he : c.peers[id]? = some c.peers[id] := List.getElem?_eq_getElem hlt
    cases hconn : c.peers[id].connected with
    | true => exact .inr (.inl ⟨_, he, hconn⟩)
    | false =>
        refine .inr (.inr ⟨⟨_, he, hconn⟩, ?_⟩)
        rintro (hle' | ⟨e, he', hconn'⟩)
        · exact hle hle'
        · rw [he, Option.some_inj] at he'
          exact absurd (hconn.symm.trans (he' ▸ hconn')) Bool.noConfusion

theorem run_of_safe (h : c.TableOk leaked) (hinfo : ∃ dict, c.serverInfo = .live dict) (cmd : Bytes)
    {line : ServerLine} (hsafe : line.Safe c) (hfits : line.Fits c) :
    ∃ c', line.run c cmd = .ok c' ∧ c'.TableOk (line.loses c ++ leaked) ∧
      ∃ dict, c'.serverInfo = .live dict := by
  cases line with
  | sset key value =>
      obtain ⟨dict, hdict⟩ := hinfo
      simp only [ServerLine.run, scmdSset, hdict]
      exact ⟨_, rfl, ⟨h.size, h.entries, h.joined, h.nodup, h.known⟩, _, rfl⟩
  | yare id => exact ⟨_, rfl, ⟨h.size, h.entries, h.joined, h.nodup, h.known⟩, hinfo⟩
  | padd id =>
      obtain ⟨e, he⟩ := exists_grown h (decodePeerId id)
      have hadded := tableOk_added (tableOk_grown h (decodePeerId id)) he
      rw [livePeer_grown he] at hadded
      exact ⟨_, scmdPadd_eq h cmd (cstr "PADD") hfits he, hadded.of_eq _ _, hinfo⟩
  | pdel id =>
      rcases hsafe with hle | ⟨e, he, hconn⟩
      · exact ⟨_, if_pos hle, h.of_eq _ _, hinfo⟩
      · exact ⟨_, scmdPdel_eq h cmd (cstr "PDEL") he hconn, (h.delete he hconn).of_eq _ _, hinfo⟩
  | pset id key value =>
      rcases hsafe with hle | ⟨e, he, hconn⟩
      · exact ⟨_, if_pos hle, h.of_eq _ _, hinfo⟩
      · obtain ⟨dict, hrun⟩ := scmdPset_eq h cmd (cstr "PSET") key value he hconn
        exact ⟨_, hrun, (h.setData he hconn dict).of_eq _ _, hinfo⟩
  | mesg text => exact ⟨_, rfl, h.of_eq _ _, hinfo⟩

theorem fault_of_not_safe (h : c.TableOk leaked) (cmd : Bytes) {line : ServerLine}
    (hsafe : ¬ line.Safe c) : ∃ fault, line.run c cmd = .error fault := by
  cases line with
  | sset | yare | padd | mesg => exact absurd trivial hsafe
  | pdel id =>
      rcases entry_cases h (decodePeerId id) with hle | hconn | ⟨⟨e, he, hdead⟩, -⟩
      · exact absurd (.inl hle) hsafe
      · exact absurd (.inr hconn) hsafe
      · exact scmdPdel_fault h cmd (cstr "PDEL") he hdead
  | pset id key value =>
      rcases entry_cases h (decodePeerId id) with hle | hconn | ⟨⟨e, he, hdead⟩, -⟩
      · exact absurd (.inl hle) hsafe
      · exact absurd (.inr hconn) hsafe
      · exact scmdPset_fault h cmd (cstr "PSET") key value he hdead

end Lines

end Svc.Svcenet
