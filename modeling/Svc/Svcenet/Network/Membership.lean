import Svc.Svcenet.Network.Replication

/-!
# Who is connected

A client keeps a table of the connected peers.  It learns of new ones, but never of
those that leave, as long as it stays itself.
-/

namespace Svc.Svcenet

open Svc.Common Svc.Lib

/-- Every connected client that has read what was sent to it has marked the occupied
slots of the server as connected, and no other, and knows its own slot. -/
def MembershipAgrees (n : Network) : Prop :=
  ∃ s, n.server = .ok s ∧ ∀ p l, n.links p = some l → ∃ c, l.drained = .ok c ∧
    (∀ i, (∃ e, c.peers[i]? = some e ∧ e.connected = true) ↔ (s.occupantAt i).isSome = true) ∧
    s.peerAt c.myId = some (some p)

def LeavesAlone (n : Network) : NetworkEvent → Prop
  | .server (.disconnect peer _) => ∀ other, (n.links other).isSome = true → other = peer
  | .server (.connect _ _ _) | .server (.call _) | .server .sendModified | .deliver _ => True

def Members (s : Server) (R : Replicas) : Prop :=
  ∀ p r, R p = some r → ∀ i, (r.table i).isSome = (s.peerAt i).isSome

theorem Client.Shows.connected_iff {c : Client} {r : Replica} (h : c.Shows r) (i : Nat) :
    (∃ e, c.peers[i]? = some e ∧ e.connected = true) ↔ (r.table i).isSome = true := by
  constructor
  · rintro ⟨e, he, hconn⟩
    obtain ⟨dict, hlive⟩ := h.live i e he hconn
    rw [← h.table i, he]
    simp [ClientPeer.shown, hconn, hlive]
  · intro hsome
    obtain ⟨data, hdata⟩ := Option.isSome_iff_exists.1 hsome
    obtain ⟨e, -, he, hconn, -⟩ := exists_entry h hdata
    exact ⟨e, he, hconn⟩

section Steps

variable {n : Network} {s s' : Server} {R R' : Replicas} {event : NetworkEvent}

theorem NetworkOk.agrees_iff_members (h : NetworkOk n s R) : MembershipAgrees n ↔ Members s R := by
  constructor
  · rintro ⟨s₀, hs₀, hall⟩ p r hr i
    obtain rfl : s₀ = s := Except.ok.inj (hs₀.symm.trans h.server_eq)
    have hlink : (n.links p).isSome := by
      rw [h.isSome_links, hr]
      rfl
    obtain ⟨l, hl⟩ := Option.isSome_iff_exists.1 hlink
    obtain ⟨c, hdrained, hconn, -⟩ := hall p l hl
    obtain ⟨c', r', hr', hdrained', hc⟩ := h.exists_client hl
    obtain rfl : r' = r := Option.some.inj (hr'.symm.trans hr)
    obtain rfl : c = c' := Except.ok.inj (hdrained.symm.trans hdrained')
    rw [Bool.eq_iff_iff, ← hc.connected_iff, hconn, isSome_occupantAt]
  · intro hmembers
    refine ⟨s, h.server_eq, fun p l hl => ?_⟩
    obtain ⟨c, r, hr, hdrained, hc⟩ := h.exists_client hl
    refine ⟨c, hdrained, fun i => ?_, ?_⟩
    · rw [hc.connected_iff, hmembers p r hr, isSome_occupantAt]
    · rw [hc.myId]
      exact h.own_slot p r hr

theorem isSome_table_modifiedMsgs (s : Server) (r : Replica) (i : Nat) :
    (((modifiedMsgs s).foldl Replica.apply r).table i).isSome = (r.table i).isSome := by
  rw [foldl_modifiedMsgs]
  dsimp only
  cases s.occupantAt i <;> simp

theorem isSome_table_snapshotMsgs (hk : s.KeysOk) (i j : Nat) :
    (((snapshotMsgs s i).foldl Replica.apply .init).table j).isSome = (s.peerAt j).isSome := by
  rw [foldl_snapshotMsgs hk, ← isSome_occupantAt]
  simp

/-- Everyone learns of a peer that connects. -/
theorem members_connect {p : ENetPeer} {calls : List ScriptCall} {result : ConnectResult}
    (hkeys : s'.KeysOk) (hstep : ReplicaStep s s' R R' (.server (.connect p calls result)))
    (hmembers : Members s R) : Members s' R' := by
  obtain ⟨i, hnone, hpeerAt, rfl⟩ := hstep
  intro q r hr j
  rcases Dict.update_eq_some.1 hr with ⟨-, hnew⟩ | ⟨-, hold⟩
  · obtain rfl := Option.some.inj hnew
    exact isSome_table_snapshotMsgs hkeys i j
  · obtain ⟨r₀, hr₀, rfl⟩ := Option.map_eq_some_iff.1 hold
    rw [hpeerAt]
    by_cases hj : j = i
    · subst hj
      simp [Replica.apply]
    · simp [Replica.apply, Function.update_of_ne hj, hmembers q r₀ hr₀ j]

/-- Nobody learns of a peer that disconnects. -/
theorem members_disconnect_iff (h : NetworkOk n s R) {p : ENetPeer} {calls : List ScriptCall}
    (hstep : ReplicaStep s s' R R' (.server (.disconnect p calls))) (hmembers : Members s R) :
    Members s' R' ↔ ∀ other, (n.links other).isSome = true → other = p := by
  obtain ⟨i, hi, hpeerAt, rfl⟩ := hstep
  constructor
  · intro hafter q hq
    by_contra hne
    rw [h.isSome_links] at hq
    obtain ⟨r, hr⟩ := Option.isSome_iff_exists.1 hq
    have hbefore := hmembers q r hr i
    have hafter := hafter q r (Dict.update_eq_some.2 (.inr ⟨hne, hr⟩)) i
    rw [hbefore, hi, hpeerAt, Function.update_self] at hafter
    cases hafter
  · intro halone q r hr
    rcases Dict.update_eq_some.1 hr with ⟨-, hnone⟩ | ⟨hne, hold⟩
    · cases hnone
    · refine absurd (halone q ?_) hne
      rw [h.isSome_links, hold]
      rfl

/-- A step keeps the agreement exactly when nobody is left behind by a disconnect. -/
theorem members_step_iff (h : NetworkOk n s R) (h' : NetworkOk (networkMachine.next n event) s' R')
    (hstep : ReplicaStep s s' R R' event) (hmembers : Members s R) :
    Members s' R' ↔ LeavesAlone n event := by
  match event with
  | .server (.connect _ _ _) => exact iff_of_true (members_connect h'.keysOk hstep hmembers) trivial
  | .server (.disconnect _ _) => exact members_disconnect_iff h hstep hmembers
  | .server (.call _) | .deliver _ =>
      refine iff_of_true ?_ trivial
      obtain ⟨hpeerAt, rfl⟩ := hstep
      intro q r hr j
      rw [hpeerAt]
      exact hmembers q r hr j
  | .server .sendModified =>
      refine iff_of_true ?_ trivial
      obtain ⟨hpeerAt, rfl⟩ := hstep
      intro q r hr j
      obtain ⟨r₀, hr₀, rfl⟩ := Option.map_eq_some_iff.1 hr
      rw [hpeerAt, isSome_table_modifiedMsgs]
      exact hmembers q r₀ hr₀ j

end Steps

theorem membershipAgrees_init : MembershipAgrees .init :=
  ⟨.init, rfl, fun p l hl => by cases hl⟩

theorem members_run {events : List NetworkEvent}
    (hadm : networkMachine.Guarded Admissible .init events)
    (halone : networkMachine.Guarded LeavesAlone .init events) :
    ∃ s R, NetworkOk (networkAfter events) s R ∧ Members s R := by
  refine networkMachine.invariant_run_of_guarded
    (I := fun n => ∃ s R, NetworkOk n s R ∧ Members s R) ?_
    ⟨_, _, networkOk_init, fun p r hr => by cases hr⟩
    (networkMachine.guarded_and.2 ⟨hadm, halone⟩)
  rintro n event ⟨s, R, h, hmembers⟩ ⟨hevent, hleaves⟩
  obtain ⟨s', R', h', hstep⟩ := networkOk_next h hevent
  exact ⟨s', R', h', (members_step_iff h h' hstep hmembers).2 hleaves⟩

/-- The clients agree with the server on who is connected at every moment of a run if
and only if nobody leaves while somebody else stays. -/
theorem membershipAgrees_iff (events : List NetworkEvent)
    (hadm : networkMachine.Guarded Admissible .init events) :
    (∀ pre, pre <+: events → MembershipAgrees (networkAfter pre)) ↔
      networkMachine.Guarded LeavesAlone .init events := by
  refine networkMachine.forall_prefix_iff_guarded events membershipAgrees_init ?_
  intro pre event hpre halone
  have hadm := networkMachine.guarded_of_prefix hpre hadm
  rw [Machine.guarded_concat] at hadm
  obtain ⟨s, R, h, hmembers⟩ := members_run hadm.1 halone
  obtain ⟨s', R', h', hstep⟩ := networkOk_next h hadm.2
  rw [networkAfter_concat, h'.agrees_iff_members, members_step_iff h h' hstep hmembers]
  rfl

/-- A peer comes and goes before two others come. -/
theorem membershipAgrees_iff_in_turn :
    (∀ pre, pre <+: [.server (.connect 1 [] (.integer 1)), .deliver 1,
        .server (.disconnect 1 []), .server (.connect 2 [] (.integer 1)),
        .server (.connect 3 [] (.integer 1))] → MembershipAgrees (networkAfter pre)) ↔
      networkMachine.Guarded LeavesAlone .init
        [.server (.connect 1 [] (.integer 1)), .deliver 1, .server (.disconnect 1 []),
          .server (.connect 2 [] (.integer 1)), .server (.connect 3 [] (.integer 1))] :=
  membershipAgrees_iff _ (by decide)

/-- Two peers come and the first one leaves; the second one still takes it for connected. -/
theorem not_membershipAgrees_of_leave :
    networkMachine.Guarded Admissible .init [.server (.connect 1 [] (.integer 1)),
        .server (.connect 2 [] (.integer 1)), .server (.disconnect 1 [])] ∧
      ¬ MembershipAgrees (networkAfter [.server (.connect 1 [] (.integer 1)),
        .server (.connect 2 [] (.integer 1)), .server (.disconnect 1 [])]) := by
  have hadm : networkMachine.Guarded Admissible .init [.server (.connect 1 [] (.integer 1)),
      .server (.connect 2 [] (.integer 1))] := by decide
  obtain ⟨s, R, h, hmembers⟩ := members_run hadm ⟨trivial, trivial, trivial⟩
  have hlast : Admissible (networkAfter [.server (.connect 1 [] (.integer 1)),
      .server (.connect 2 [] (.integer 1))]) (.server (.disconnect 1 [])) := by decide
  obtain ⟨s', R', h', hstep⟩ := networkOk_next h hlast
  refine ⟨⟨hadm.1, hadm.2.1, hlast, trivial⟩, fun hagrees => ?_⟩
  have halone := (members_step_iff h h' hstep hmembers).1 (h'.agrees_iff_members.1 hagrees)
  exact absurd (halone 2 (by decide)) (by decide)

end Svc.Svcenet
