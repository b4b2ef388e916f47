import Svc.Svcenet.Client.Exit
import Svc.Svcenet.Client.UseSafety

/-!
# The ENet handles of the client

Every way out of a connection destroys the host and resets both handles, but for two: a
failing `enet_host_connect` leaves a handle to the host it destroys, and when the server
closes the connection both handles and the host stay.
-/

namespace Svc.Svcenet

open Svc.Common Svc.Lib

namespace ClientState

def HostAlive (s : ClientState) : Prop := ∃ host, host < s.hostsCreated ∧ host ∉ s.hostsDestroyed

/-- No handle is left without a host, and nothing of a connection without one. -/
structure HandlesOk (s : ClientState) : Prop where
  alive : ¬ s.HostAlive → s.host = none ∧ s.client = none
  down : s.state = .disconnected →
    s.host = none ∧ s.client = none ∧ s.serverInfo = .null ∧ s.peers = [] ∧ s.myId = 2 ^ 32 - 1

def HostsDestroyedOnce (s : ClientState) : Prop :=
  s.hostsDestroyed.Perm (List.range s.hostsCreated)

/-- The handles are as they should be, and if the program ends now, it destroys each host
once. -/
def HandlesKept (s : ClientState) : Prop :=
  s.HandlesOk ∧ ∃ s', exitMain s = .ok s' ∧ s'.HostsDestroyedOnce

structure HostsOk (s : ClientState) : Prop where
  host : s.state = .disconnected ↔ s.host = none
  client : s.client = s.host
  hosts : (s.hostsDestroyed ++ s.host.toList).Perm (List.range s.hostsCreated)

end ClientState

def ReceivesNothing (s : ClientState) : ClientEvent → Prop
  | .enet (.line _) | .enet (.audio _) => s.state ≠ .connected
  | .connect _ _ _ | .disconnect | .mute _ | .deafen _ | .enet .connect | .enet .disconnect
  | .enet (.other _) => True

def KeepsHandles (s : ClientState) : ClientEvent → Prop
  | .connect argv resolved progress =>
      s.state = .disconnected → argv.length = 3 → resolved.isSome → progress ≠ .noPeer
  | .enet .disconnect => s.state ≠ .connected
  | .disconnect | .mute _ | .deafen _ | .enet .connect | .enet (.line _) | .enet (.audio _)
  | .enet (.other _) => True

section Steps

variable {s s' : ClientState}

theorem hostsOk_init : ClientState.init.HostsOk := ⟨iff_of_true rfl rfl, rfl, .refl _⟩

theorem handlesOk (h : s.Ok []) (hhosts : s.HostsOk) : s.HandlesOk where
  alive hnone := by
    rw [hhosts.client]
    cases hhost : s.host with
    | none => exact ⟨rfl, rfl⟩
    | some host =>
        have hperm := hhosts.hosts
        rw [hhost] at hperm
        have hmem : host ∈ List.range s.hostsCreated := hperm.mem_iff.1 (by simp)
        have hfresh : host ∉ s.hostsDestroyed := by
          have hnodup := hperm.nodup_iff.2 List.nodup_range
          exact fun hold => List.disjoint_of_nodup_append hnodup hold (by simp)
        exact absurd ⟨host, List.mem_range.1 hmem, hfresh⟩ hnone
  down hstate := by
    obtain ⟨hinfo, hpeers, hmyId⟩ := h.down (by simp [hstate])
    have hhost := hhosts.host.1 hstate
    exact ⟨hhost, hhosts.client.trans hhost, hinfo, hpeers, hmyId⟩

/-! ## Events -/

theorem hostsOk_msgState (h : s.HostsOk) : s.msgState.HostsOk := by
  unfold ClientState.msgState
  split <;> exact ⟨h.host, h.client, h.hosts⟩

theorem hostsOk_abandon (h : s.HostsOk) : s.abandon.HostsOk := by
  refine hostsOk_msgState ⟨iff_of_true rfl rfl, rfl, ?_⟩
  exact (List.append_nil _).symm ▸ h.hosts

theorem hostsOk_cmdConnect (h : s.HostsOk) {argv : List Bytes} {resolved : Option Bytes}
    {progress : ConnectProgress} (hkeeps : KeepsHandles s (.connect argv resolved progress)) :
    (cmdConnect s argv resolved progress).HostsOk := by
  unfold cmdConnect
  cases hstate : s.state with
  | connected | connecting => exact ⟨h.host, h.client, h.hosts⟩
  | disconnected =>
      have hnone := h.host.1 hstate
      have hhosts : s.hostsDestroyed.Perm (List.range s.hostsCreated) := by
        simpa [hnone] using h.hosts
      have hnext : (s.hostsDestroyed ++ [s.hostsCreated]).Perm (List.range (s.hostsCreated + 1)) :=
        List.range_succ ▸ hhosts.append_right [s.hostsCreated]
      dsimp only
      split
      · exact ⟨h.host, h.client, h.hosts⟩
      · cases progress with
        | noHost =>
            refine ⟨iff_of_true rfl rfl, h.client.trans hnone, ?_⟩
            exact (List.append_nil _).symm ▸ hhosts
        | noPeer => exact absurd rfl (hkeeps hstate rfl rfl)
        | initiated =>
            have hne : ConnectionState.connecting ≠ .disconnected := by decide
            exact hostsOk_msgState ⟨iff_of_false hne (Option.some_ne_none _), rfl, hnext⟩
      · exact ⟨h.host, h.client, h.hosts⟩

theorem hostsOk_cmdDisconnect (h : s.HostsOk) (hs' : cmdDisconnect s = .ok s') : s'.HostsOk := by
  unfold cmdDisconnect at hs'
  cases hstate : s.state with
  | connected =>
      simp only [hstate] at hs'
      obtain ⟨c, -, hs'⟩ := bind_eq_ok.1 hs'
      cases hs'
      exact hostsOk_abandon ⟨hstate ▸ h.host, h.client, h.hosts⟩
  | connecting =>
      simp only [hstate] at hs'
      cases hs'
      exact hostsOk_abandon h
  | disconnected =>
      simp only [hstate] at hs'
      cases hs'
      exact ⟨h.host, h.client, h.hosts⟩

theorem hostsOk_handleConnecting (h : s.HostsOk) (hstate : s.state = .connecting)
    (event : ENetEvent) : (handleConnecting s event).HostsOk := by
  cases event with
  | connect =>
      have hne : ConnectionState.connected ≠ .disconnected := by decide
      have hhost : s.host ≠ none := fun hnone => by simpa [hstate] using h.host.2 hnone
      have hup : { s with state := .connected, serverInfo := .live [] }.HostsOk :=
        ⟨iff_of_false hne hhost, h.client, h.hosts⟩
      exact hostsOk_msgState hup
  | disconnect | line | audio | other => exact hostsOk_abandon h

/-- An event that keeps the handles keeps the account of the hosts. -/
theorem hostsOk_event (h : s.HostsOk) {e : ClientEvent} (hreceives : ReceivesNothing s e)
    (hkeeps : KeepsHandles s e) (hs' : handleClientEvent s e = .ok s') : s'.HostsOk := by
  cases e with
  | connect argv resolved progress =>
      cases hs'
      exact hostsOk_cmdConnect h hkeeps
  | disconnect => exact hostsOk_cmdDisconnect h hs'
  | mute argv =>
      cases hs'
      unfold cmdMute
      split <;> exact ⟨h.host, h.client, h.hosts⟩
  | deafen argv =>
      cases hs'
      unfold cmdDeafen
      split <;> exact ⟨h.host, h.client, h.hosts⟩
  | enet event =>
      rw [handleClientEvent] at hs'
      cases hstate : s.state with
      | disconnected =>
          simp only [hstate] at hs'
          cases hs'
          exact h
      | connecting =>
          simp only [hstate] at hs'
          cases hs'
          exact hostsOk_handleConnecting h hstate event
      | connected =>
          simp only [hstate] at hs'
          cases event with
          | disconnect => exact absurd hstate hkeeps
          | line string => exact absurd hstate hreceives
          | audio packet => exact absurd hstate hreceives
          | connect | other =>
              cases hs'
              exact ⟨h.host, h.client, h.hosts⟩

/-- Any other event leaves a handle behind. -/
theorem host_ne_none_of_not_keeps (h : s.HostsOk) {e : ClientEvent} (hkeeps : ¬ KeepsHandles s e)
    (hs' : handleClientEvent s e = .ok s') : s'.state = .disconnected ∧ s'.host ≠ none := by
  cases e with
  | disconnect | mute | deafen => exact absurd trivial hkeeps
  | connect argv resolved progress =>
      simp only [KeepsHandles, Classical.not_imp, not_not] at hkeeps
      obtain ⟨hstate, hargv, hresolved, rfl⟩ := hkeeps
      obtain ⟨name, host, port, rfl⟩ := List.length_eq_three.1 hargv
      obtain ⟨addr, rfl⟩ := Option.isSome_iff_exists.1 hresolved
      simp only [handleClientEvent, cmdConnect, hstate] at hs'
      cases hs'
      exact ⟨rfl, Option.some_ne_none _⟩
  | enet event =>
      cases event with
      | connect | line | audio | other => exact absurd trivial hkeeps
      | disconnect =>
          have hstate : s.state = .connected := not_not.1 hkeeps
          have hhost : s.host ≠ none := fun hnone => by simpa [hstate] using h.host.2 hnone
          simp only [handleClientEvent, hstate, handleConnected] at hs'
          obtain ⟨c, -, hs'⟩ := bind_eq_ok.1 hs'
          cases hs'
          exact ⟨rfl, hhost⟩

/-! ## Runs -/

/-- The client when nothing was received: there are no peers, and the hosts are in order. -/
structure ClientState.Quiet (s : ClientState) : Prop where
  ok : s.Ok []
  peers : s.peers = []
  hosts : s.HostsOk

theorem quiet_init : ClientState.init.Quiet := ⟨ok_init, rfl, hostsOk_init⟩

theorem exitMain_of_quiet (h : s.Quiet) : exitMain s = .ok s.exited :=
  exitMain_ok h.ok (by rw [h.peers, livePeers_nil])

/-- The end of the program destroys the host that is left. -/
theorem exited_hostsDestroyedOnce (h : s.Quiet) : s.exited.HostsDestroyedOnce := h.hosts.hosts

theorem handlesKept (h : s.Quiet) : s.HandlesKept :=
  ⟨handlesOk h.ok h.hosts, s.exited, exitMain_of_quiet h, exited_hostsDestroyedOnce h⟩

/-- `quit_client_state` does not reset the handles itself. -/
theorem exited_handlesOk_iff (h : s.Quiet) : s.exited.HandlesOk ↔ s.state = .disconnected := by
  constructor
  · intro hhandles
    have hdead : ¬ s.exited.HostAlive := by
      rintro ⟨host, hlt, hnot⟩
      exact hnot ((exited_hostsDestroyedOnce h).mem_iff.2 (List.mem_range.2 hlt))
    exact h.hosts.host.2 (hhandles.alive hdead).1
  · intro hdown
    have hhost := h.hosts.host.1 hdown
    have hclient := h.hosts.client.trans hhost
    exact ⟨fun _ => ⟨hhost, hclient⟩, fun _ => ⟨hhost, hclient, rfl, rfl, rfl⟩⟩

theorem exists_handleClientEvent (h : s.Quiet) {e : ClientEvent} (hreceives : ReceivesNothing s e) :
    ∃ s', handleClientEvent s e = .ok s' ∧ s'.Ok [] ∧ s'.peers = [] := by
  have hother : s.state = .connected → ∀ string, e ≠ .enet (.line string) := by
    rintro hstate string rfl
    exact hreceives hstate
  have huses : UsesConnected s e := by
    cases e with
    | connect | disconnect | mute | deafen => trivial
    | enet event =>
        cases event with
        | connect | disconnect | other => trivial
        | line | audio => exact fun hstate => absurd hstate hreceives
  obtain ⟨s', hs', hok, hkeeps⟩ := handleClientEvent_other h.ok hother huses
  refine ⟨s', hs', hok, ?_⟩
  rcases hkeeps with hnil | ⟨hpeers, -⟩
  · exact hnil
  · exact hpeers.trans h.peers

theorem exists_quiet (h : s.Quiet) {e : ClientEvent} (hreceives : ReceivesNothing s e)
    (hkeeps : KeepsHandles s e) : ∃ s', handleClientEvent s e = .ok s' ∧ s'.Quiet := by
  obtain ⟨s', hs', hok, hnil⟩ := exists_handleClientEvent h hreceives
  exact ⟨s', hs', hok, hnil, hostsOk_event h.hosts hreceives hkeeps hs'⟩

theorem handlesKept_step (h : s.Quiet) {e : ClientEvent} (hreceives : ReceivesNothing s e) :
    (KeepsHandles s e → ∃ s', handleClientEvent s e = .ok s' ∧ s'.Quiet ∧ s'.HandlesKept) ∧
      (¬ KeepsHandles s e → ∀ s', handleClientEvent s e = .ok s' → ¬ s'.HandlesKept) := by
  constructor
  · intro hkeeps
    obtain ⟨s', hs', hquiet⟩ := exists_quiet h hreceives hkeeps
    exact ⟨s', hs', hquiet, handlesKept hquiet⟩
  · intro hkeeps s' hs' hkept
    obtain ⟨hstate, hhost⟩ := host_ne_none_of_not_keeps h.hosts hkeeps hs'
    exact hhost (hkept.1.down hstate).1

/-- The handles are kept exactly as long as no connection fails in `enet_host_connect` and
the server closes none; after the end of the program they are in order exactly if there was
no connection. -/
theorem connectionHandles_iff {events : List ClientEvent}
    (hreceives : clientMachine.Guarded (Machine.OnOk ReceivesNothing) (.ok .init) events) :
    ((∀ pre, pre <+: events → ∃ s, clientAfter pre = .ok s ∧ s.HandlesKept) ↔
        clientMachine.Guarded (Machine.OnOk KeepsHandles) (.ok .init) events) ∧
      (clientMachine.Guarded (Machine.OnOk KeepsHandles) (.ok .init) events →
        ∀ s s', clientAfter events = .ok s → exitMain s = .ok s' →
          (s'.HandlesOk ↔ s.state = .disconnected)) := by
  constructor
  · exact Machine.forall_prefix_ok_iff_guarded (I := ClientState.Quiet) hreceives
      quiet_init (handlesKept quiet_init) fun _ _ hquiet _ he => handlesKept_step hquiet he
  · intro hkeeps s s' hs hs'
    obtain ⟨s'', hs'', hquiet⟩ := Machine.exists_run_of_guarded
      (fun s e hquiet he => exists_quiet hquiet he.1 he.2) quiet_init
      (Machine.guarded_onOk_and.2 ⟨hreceives, hkeeps⟩)
    have hs'' : clientAfter events = .ok s'' := hs''
    rw [hs, Except.ok.injEq] at hs''
    subst hs''
    rw [exitMain_of_quiet hquiet, Except.ok.injEq] at hs'
    subst hs'
    exact exited_handlesOk_iff hquiet

def session : List ClientEvent := connection ++ [.disconnect]

theorem connectionHandles_session :
    ((∀ pre, pre <+: session → ∃ s, clientAfter pre = .ok s ∧ s.HandlesKept) ↔
        clientMachine.Guarded (Machine.OnOk KeepsHandles) (.ok .init) session) ∧
      (clientMachine.Guarded (Machine.OnOk KeepsHandles) (.ok .init) session →
        ∀ s s', clientAfter session = .ok s → exitMain s = .ok s' →
          (s'.HandlesOk ↔ s.state = .disconnected)) :=
  connectionHandles_iff ⟨fun _ _ => trivial, fun _ _ => trivial, fun _ _ => trivial, trivial⟩

def failedConnect : List ClientEvent :=
  [.connect [cstr "/connect", cstr "localhost", cstr "4000"] (some (cstr "127.0.0.1")) .noPeer]

def reconnect : List ClientEvent :=
  connection ++ .enet .disconnect :: connection ++ [.disconnect]

/-- The first host is destroyed twice, or never. -/
theorem hosts_not_destroyed_once :
    (∃ s s', clientAfter failedConnect = .ok s ∧ ¬ s.HandlesOk ∧ exitMain s = .ok s' ∧
      s'.hostsDestroyed = [0, 0] ∧ ¬ s'.HostsDestroyedOnce) ∧
    (∃ s s', clientAfter reconnect = .ok s ∧ exitMain s = .ok s' ∧
      s'.hostsCreated = 2 ∧ s'.hostsDestroyed = [1] ∧ ¬ s'.HostsDestroyedOnce) := by
  refine ⟨⟨_, _, rfl, fun h => ?_, rfl, rfl, fun h => ?_⟩, _, _, rfl, rfl, rfl, rfl, fun h => ?_⟩
  · exact Option.some_ne_none _ (h.down rfl).1
  · exact absurd h.length_eq (by decide)
  · exact absurd h.length_eq (by decide)

end Steps

end Svc.Svcenet
