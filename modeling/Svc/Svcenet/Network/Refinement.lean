import Svc.Svcenet.Network
import Svc.Svcenet.Replicated

/-!
# Clients as replicas

Each event of the network is one step on replicas: a connecting client becomes a
replica of everything, a packet of modified data brings every replica up to date, and
the announcement that a peer left does nothing, since it has no newline.
-/

namespace Svc.Svcenet

open Svc.Common Svc.Lib

/-! ## One connection -/

def Link.Shows (l : Link) (r : Replica) : Prop := ∃ c, l.drained = .ok c ∧ c.Shows r

theorem shows_opened : Link.opened.Shows .init := ⟨_, rfl, shows_init⟩

section Links

variable {l : Link} {r : Replica}

theorem Link.Shows.push_nil (h : l.Shows r) : (l.push []).Shows r := by
  obtain ⟨c, hdrained, hc⟩ := h
  exact ⟨c, by rw [drained_push, hdrained]; rfl, hc⟩

theorem Link.Shows.push_msgs (h : l.Shows r) {msgs : List ServerMsg} (hmsgs : r.FitsAll msgs) :
    (l.push [msgs.flatMap ServerMsg.encode]).Shows (msgs.foldl Replica.apply r) := by
  obtain ⟨c, hdrained, hc⟩ := h
  obtain ⟨c', hok, hc'⟩ := handleServerMsg_spec hc hmsgs
  refine ⟨c', ?_, hc'⟩
  rw [drained_push, hdrained]
  simp [Except.bind, hok]

theorem Link.Shows.push_lost (h : l.Shows r) {data : Bytes} (hdata : chr '\n' ∉ data) :
    (l.push [data]).Shows r := by
  obtain ⟨c, hdrained, hc⟩ := h
  refine ⟨c, ?_, hc⟩
  rw [drained_push, hdrained]
  simp [Except.bind, handleServerMsg_of_not_mem hdata]

theorem Link.Shows.deliver (h : l.Shows r) : l.deliver.Shows r := by
  obtain ⟨c, hdrained, hc⟩ := h
  exact ⟨c, by rw [drained_deliver, hdrained], hc⟩

end Links

theorem newline_not_mem_pdel (i : Nat) : chr '\n' ∉ cstr "PDEL " ++ decimal i := by
  rw [List.mem_append, not_or]
  exact ⟨by decide, newline_not_mem_decimal i⟩

/-! ## The network -/

/-- What each client is a replica of, by its ENet peer. -/
abbrev Replicas := ENetPeer → Option Replica

/-- The network is in order: the server's table is, every connection is of an owner of
a slot, and every client shows a replica of the server that knows its own slot. -/
structure NetworkOk (n : Network) (s : Server) (R : Replicas) : Prop where
  server_eq : n.server = .ok s
  tableOk : s.TableOk
  linked : s.Linked
  keysOk : s.KeysOk
  shows : ∀ p, Option.Rel Link.Shows (n.links p) (R p)
  owner_iff : ∀ p, (R p).isSome ↔ ∃ i, s.peerAt i = some (some p)
  replicated : ∀ p r, R p = some r → s.Replicated r
  own_slot : ∀ p r, R p = some r → s.peerAt r.myId = some (some p)

def ReplicaStep (s s' : Server) (R R' : Replicas) : NetworkEvent → Prop
  | .server (.connect p _ _) => ∃ i, s.peerAt i = none ∧
      s'.peerAt = Function.update s.peerAt i (some (some p)) ∧
      R' = Function.update (fun q => (R q).map fun r => r.apply (.padd i)) p
        (some ((snapshotMsgs s' i).foldl Replica.apply .init))
  | .server (.disconnect p _) => ∃ i, s.peerAt i = some (some p) ∧
      s'.peerAt = Function.update s.peerAt i none ∧ R' = Function.update R p none
  | .server (.call _) => s'.peerAt = s.peerAt ∧ R' = R
  | .server .sendModified => s'.peerAt = s.peerAt ∧
      R' = fun q => (R q).map fun r => (modifiedMsgs s).foldl Replica.apply r
  | .deliver _ => s'.peerAt = s.peerAt ∧ R' = R

theorem networkOk_init : NetworkOk .init .init fun _ => none where
  server_eq := rfl
  tableOk := ⟨.inl rfl, rfl, by simp [Server.init], rfl⟩
  linked := ⟨by simp [Server.init, Server.peerAt, Server.occupantAt], by simp [Server.init]⟩
  keysOk := ⟨List.nodup_nil, by simp [Server.init, Server.occupantAt]⟩
  shows _ := .none
  owner_iff p := by simp [Server.init, Server.peerAt, Server.occupantAt]
  replicated p r hr := by cases hr
  own_slot p r hr := by cases hr

section Rel

variable {α β : Type} {rel : α → β → Prop} {a : Option α} {b : Option β}

theorem isSome_eq_of_rel (h : Option.Rel rel a b) : a.isSome = b.isSome := by
  cases h <;> rfl

theorem rel_map (h : Option.Rel rel a b) {f : α → α} {g : β → β}
    (hfg : ∀ x y, b = some y → rel x y → rel (f x) (g y)) : Option.Rel rel (a.map f) (b.map g) := by
  cases h with
  | none => exact .none
  | some hxy => exact .some (hfg _ _ rfl hxy)

theorem rel_map_left (h : Option.Rel rel a b) {f : α → α}
    (hf : ∀ x y, b = some y → rel x y → rel (f x) y) : Option.Rel rel (a.map f) b := by
  cases h with
  | none => exact .none
  | some hxy => exact .some (hf _ _ rfl hxy)

end Rel

section Steps

variable {n : Network} {s : Server} {R : Replicas}

theorem NetworkOk.isSome_links (h : NetworkOk n s R) (p : ENetPeer) :
    (n.links p).isSome = (R p).isSome :=
  isSome_eq_of_rel (h.shows p)

theorem NetworkOk.occupiedCount_eq (h : NetworkOk n s R) : n.occupiedCount = s.occupiedCount := by
  rw [Network.occupiedCount, h.server_eq]
  rfl

theorem networkOk_deliver (h : NetworkOk n s R) (peer : ENetPeer) :
    NetworkOk (networkMachine.next n (.deliver peer)) s R where
  server_eq := h.server_eq
  tableOk := h.tableOk
  linked := h.linked
  keysOk := h.keysOk
  shows p := by
    change Option.Rel _ (Function.update n.links peer _ p) _
    have hrel := h.shows p
    by_cases hp : p = peer
    · subst hp
      rw [Function.update_self]
      exact rel_map_left hrel fun l r _ hshows => hshows.deliver
    · rwa [Function.update_of_ne hp]
  owner_iff := h.owner_iff
  replicated := h.replicated
  own_slot := h.own_slot

theorem networkOk_call (h : NetworkOk n s R) (call : ScriptCall) :
    NetworkOk (networkMachine.next n (.server (.call call))) (runCall s call) R := by
  have hsame := sameSlots_runCall s call
  rw [next_server h.server_eq (show handleEvent s (.call call) = .ok (runCall s call, []) from rfl)]
  refine ⟨rfl, hsame.tableOk h.tableOk, hsame.linked h.linked, keysOk_runCall h.keysOk call,
    fun p => ?_, ?_, fun p r hr => replicated_runCall (h.replicated p r hr) call, ?_⟩
  · exact rel_map_left (h.shows p) fun l r _ hshows => hshows.push_nil
  · rw [hsame.peerAt_eq]
    exact h.owner_iff
  · rw [hsame.peerAt_eq]
    exact h.own_slot

theorem networkOk_sendModified (h : NetworkOk n s R) :
    NetworkOk (networkMachine.next n (.server .sendModified)) s.clearDirty
      fun q => (R q).map fun r => (modifiedMsgs s).foldl Replica.apply r := by
  have hsame := sameSlots_clearDirty s
  have hhandle : handleEvent s .sendModified = _ := sendModifiedData_eq h.linked
  rw [next_server h.server_eq hhandle]
  refine ⟨rfl, hsame.tableOk h.tableOk, hsame.linked h.linked, keysOk_clearDirty h.keysOk,
    fun p => ?_, fun p => ?_, fun p r hr => ?_, fun p r hr => ?_⟩
  · refine rel_map (h.shows p) fun l r hr hshows => ?_
    have hmem : p ∈ s.occupants.map fun x => x.2.owner := by
      rw [h.linked.mem_owners, ← h.owner_iff, hr]
      rfl
    have hpackets := packetsTo_sent h.linked.nodup_owners p (encodeModified s)
    rw [if_pos hmem, List.map_map] at hpackets
    have hpackets : packetsTo p (s.occupants.map fun x => .sent x.2.owner (encodeModified s)) =
        [encodeModified s] := hpackets
    rw [hpackets, encodeModified_eq]
    exact hshows.push_msgs (h.replicated p r hr).fitsAll_modifiedMsgs
  · rw [Option.isSome_map, hsame.peerAt_eq]
    exact h.owner_iff p
  · obtain ⟨r₀, hr₀, rfl⟩ := Option.map_eq_some_iff.1 hr
    exact replicated_modified h.keysOk (h.replicated p r₀ hr₀)
  · obtain ⟨r₀, hr₀, rfl⟩ := Option.map_eq_some_iff.1 hr
    rw [hsame.peerAt_eq, foldl_modifiedMsgs]
    exact h.own_slot p r₀ hr₀

theorem NetworkOk.eq_none_of_link (h : NetworkOk n s R) {p : ENetPeer} (hlink : n.links p = none) :
    R p = none := by
  rw [← Option.isNone_iff_eq_none, ← Option.not_isSome, ← h.isSome_links, hlink]
  rfl

theorem NetworkOk.myId_ne_of_free (h : NetworkOk n s R) {q : ENetPeer} {i : Nat}
    (hi : s.peerAt i = none) {r : Replica} (hr : R q = some r) : r.myId ≠ i := by
  intro heq
  have hown := h.own_slot q r hr
  rw [heq, hi] at hown
  cases hown

theorem networkOk_connect (h : NetworkOk n s R) {p : ENetPeer} {calls : List ScriptCall}
    {result : ConnectResult} (hadm : Admissible n (.server (.connect p calls result))) :
    ∃ s' R', NetworkOk (networkMachine.next n (.server (.connect p calls result))) s' R' ∧
      ReplicaStep s s' R R' (.server (.connect p calls result)) := by
  obtain ⟨hlink, haccepts, hcount⟩ := hadm
  rw [h.occupiedCount_eq] at hcount
  have hp := h.eq_none_of_link hlink
  have hnew : ∀ j, s.peerAt j ≠ some (some p) := by
    intro j hj
    have howner := (h.owner_iff p).2 ⟨j, hj⟩
    rw [hp] at howner
    cases howner
  obtain ⟨i, s₁, hattach, hhandle⟩ :=
    handlePeerConnect_of_accepts calls h.tableOk h.linked hcount hnew haccepts
  have hhandle : handleEvent s (.connect p calls result) = _ := hhandle
  have hjoined := hattach.joined calls h.tableOk h.linked hnew
  have hkeys := keysOk_connect h.keysOk hattach calls
  refine ⟨runScript s₁ calls, _, ?_, i, hjoined.peerAt_eq_none, hjoined.peerAt_eq, rfl⟩
  rw [next_server h.server_eq hhandle]
  refine ⟨rfl, hjoined.tableOk, hjoined.linked, hkeys, fun q => ?_, fun q => ?_,
    fun q r hr => ?_, fun q r hr => ?_⟩
  · simp only [relink, packetsTo_connect (hjoined.linked.nodup_ownersBut i), hjoined.mem_ownersBut,
      ← h.owner_iff]
    by_cases hq : q = p
    · subst hq
      simp only [Function.update_self, Option.map_some, hp, if_true, Option.isSome_none,
        Bool.false_eq_true, if_false, List.append_nil]
      rw [encodeSnapshot_eq]
      exact .some (shows_opened.push_msgs (fitsAll_snapshotMsgs hjoined.tableOk hattach.lt))
    · simp only [Function.update_of_ne hq, if_neg (Ne.symm hq), List.nil_append]
      refine rel_map (h.shows q) fun l r hr hshows => ?_
      rw [hr, if_pos Option.isSome_some, encodePadd_eq]
      have hlt : i < 2 ^ 31 - 1 := by
        have := hattach.lt
        omega
      have hfits : r.FitsAll [.padd i] := ⟨hlt, trivial⟩
      simpa using hshows.push_msgs hfits
  · rw [hjoined.peerAt_eq, exists_update_some hjoined.peerAt_eq_none, ← h.owner_iff]
    by_cases hq : q = p
    · simp [hq]
    · simp [hq, Ne.symm hq]
  · rcases Dict.update_eq_some.1 hr with ⟨-, hsnapshot⟩ | ⟨-, hold⟩
    · exact Option.some.inj hsnapshot ▸ replicated_snapshot hkeys i
    · obtain ⟨r₀, hr₀, rfl⟩ := Option.map_eq_some_iff.1 hold
      exact replicated_connect (h.replicated q r₀ hr₀) hattach calls
  · rw [hjoined.peerAt_eq]
    rcases Dict.update_eq_some.1 hr with ⟨rfl, hsnapshot⟩ | ⟨-, hold⟩
    · obtain rfl := Option.some.inj hsnapshot
      rw [foldl_snapshotMsgs hkeys, Function.update_self]
    · obtain ⟨r₀, hr₀, rfl⟩ := Option.map_eq_some_iff.1 hold
      have hne := h.myId_ne_of_free hjoined.peerAt_eq_none hr₀
      exact (Function.update_of_ne hne ..).trans (h.own_slot q r₀ hr₀)

theorem NetworkOk.myId_ne (h : NetworkOk n s R) {p q : ENetPeer} {i : Nat}
    (hi : s.peerAt i = some (some p)) {r : Replica} (hr : R q = some r) (hq : q ≠ p) :
    r.myId ≠ i := by
  intro heq
  have hown := h.own_slot q r hr
  rw [heq, hi] at hown
  exact hq (Option.some.inj (Option.some.inj hown)).symm

theorem networkOk_disconnect (h : NetworkOk n s R) {p : ENetPeer} {calls : List ScriptCall}
    (hadm : Admissible n (.server (.disconnect p calls))) :
    ∃ s' R', NetworkOk (networkMachine.next n (.server (.disconnect p calls))) s' R' ∧
      ReplicaStep s s' R R' (.server (.disconnect p calls)) := by
  have hp : (R p).isSome := by
    rw [← h.isSome_links]
    exact Option.isSome_iff_ne_none.2 hadm
  obtain ⟨i, hi⟩ := (h.owner_iff p).1 hp
  obtain ⟨s', hset, hleft, hhandle⟩ := handlePeerDisconnect_of_owner calls h.tableOk h.linked hi
  have hhandle : handleEvent s (.disconnect p calls) = _ := hhandle
  have hsame := sameSlots_runScript s calls
  have hlinked := hsame.linked h.linked
  have hstays : ∀ q r, Function.update R p none q = some r → q ≠ p ∧ R q = some r := by
    intro q r hr
    rcases Dict.update_eq_some.1 hr with ⟨-, hnone⟩ | hstays
    · cases hnone
    · exact hstays
  refine ⟨s', _, ?_, i, hi, hleft.peerAt_eq, rfl⟩
  rw [next_server h.server_eq hhandle]
  refine ⟨rfl, hleft.tableOk, hleft.linked, keysOk_disconnect h.keysOk calls hset, fun q => ?_,
    fun q => ?_, fun q r hr => ?_, fun q r hr => ?_⟩
  · simp only [relink, packetsTo_disconnect (hlinked.nodup_ownersBut i)]
    by_cases hq : q = p
    · subst hq
      rw [Function.update_self, Function.update_self]
      exact .none
    · rw [Function.update_of_ne hq, Function.update_of_ne hq]
      refine rel_map_left (h.shows q) fun l r hr hshows => ?_
      have hmem : q ∈ (runScript s calls).ownersBut i := by
        rw [hlinked.mem_ownersBut, hsame.peerAt_eq]
        exact ⟨r.myId, h.myId_ne hi hr hq, h.own_slot q r hr⟩
      rw [if_pos hmem]
      exact hshows.push_lost (newline_not_mem_pdel i)
  · rw [hleft.peerAt_eq, h.linked.exists_owner_freed hi, ← h.owner_iff]
    by_cases hq : q = p
    · simp [hq]
    · simp [hq]
  · exact replicated_disconnect (h.replicated q r (hstays q r hr).2) calls hset
  · obtain ⟨hq, hr⟩ := hstays q r hr
    rw [hleft.peerAt_eq, Function.update_of_ne (h.myId_ne hi hr hq)]
    exact h.own_slot q r hr

theorem networkOk_next (h : NetworkOk n s R) {event : NetworkEvent} (hadm : Admissible n event) :
    ∃ s' R', NetworkOk (networkMachine.next n event) s' R' ∧ ReplicaStep s s' R R' event := by
  match event with
  | .server (.connect _ _ _) => exact networkOk_connect h hadm
  | .server (.disconnect _ _) => exact networkOk_disconnect h hadm
  | .server (.call call) =>
      exact ⟨_, _, networkOk_call h call, (sameSlots_runCall s call).peerAt_eq, rfl⟩
  | .server .sendModified =>
      exact ⟨_, _, networkOk_sendModified h, (sameSlots_clearDirty s).peerAt_eq, rfl⟩
  | .deliver peer => exact ⟨_, _, networkOk_deliver h peer, rfl, rfl⟩

end Steps

theorem networkOk_run {events : List NetworkEvent}
    (hadm : networkMachine.Guarded Admissible .init events) :
    ∃ s R, NetworkOk (networkAfter events) s R := by
  refine networkMachine.invariant_run_of_guarded (I := fun n => ∃ s R, NetworkOk n s R) ?_
    ⟨_, _, networkOk_init⟩ hadm
  rintro n event ⟨s, R, h⟩ hevent
  obtain ⟨s', R', h', -⟩ := networkOk_next h hevent
  exact ⟨s', R', h'⟩

end Svc.Svcenet
