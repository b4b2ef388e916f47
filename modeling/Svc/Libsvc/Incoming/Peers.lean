import Svc.Libsvc.Incoming.Refinement
import Svc.Lib.Fallible

/-!
# Mixing over the peers

The list of peers is the list of those that joined and did not leave over any run, and a
request takes one packet from each of them.  Its buffer has room for `MAX_PEERS` of them,
which no call checks.
-/

namespace Svc.Libsvc

open Svc.Lib Svc.Lib.Links

/-- The joined peers, the last one first -/
def joinedNext (joined : List PeerPtr) : IncomingOp → List PeerPtr
  | .join newPeer => newPeer :: joined
  | .leave peer => joined.filter (· ≠ peer)
  | .recieve _ _ _ => joined
  | .request _ => joined

def joinedAfter (ops : List IncomingOp) : List PeerPtr := ops.foldl joinedNext []

def Incoming.cageAt (s : Incoming) (peer : PeerPtr) : Option PeerCage :=
  (s.peers peer).bind Node.val

/-- The list from `peer_list` on has these peers, and `prev` leads back through them. -/
structure ListsPeers (s : Incoming) (joined : List PeerPtr) : Prop where
  forwards : walk s.peers Node.next s.peerCount s.peerList = .ok joined
  backwards : walk s.peers Node.prev s.peerCount joined.getLast? = .ok joined.reverse
  nodup : joined.Nodup
  count : s.peerCount = joined.length

/-- A request takes one packet from the cage of each peer, writes to the buffer, and destroys
each packet that it took once. -/
structure MixedOnce (s s' : Incoming) (joined : List PeerPtr) (log : MixLog) : Prop where
  peers : log.taken.map Prod.fst = joined
  taken : ∀ t ∈ log.taken, ∃ cage, s.cageAt t.1 = some cage ∧
    t.2 = (packetCageGetData cage).1 ∧ s'.cageAt t.1 = some (packetCageGetData cage).2.1
  written : ∀ i ∈ log.written, i < maxPeers
  destroyed : log.destroyed = log.taken.filterMap Prod.snd
  once : log.destroyed.Nodup
  silent : s.silentSound ∉ log.destroyed

/-- The list has the joined peers, and a request mixes one packet of each. -/
def MixesPeers (s : Incoming) (joined : List PeerPtr) : Prop :=
  ListsPeers s joined ∧
    ∀ size, ∃ s' log, svcRequestIncomingAudio s size = .ok (s', log) ∧ MixedOnce s s' joined log

def MixesAfter (init : Incoming) (ops : List IncomingOp) : Prop :=
  ∃ s, (Machine.fallible incomingStep).run (.ok init) ops = .ok s ∧ MixesPeers s (joinedAfter ops)

/-- A peer joins while the buffer has room for it. -/
def HasRoom (m : Mixer) : IncomingOp → Prop
  | .join _ => m.joined.length < maxPeers
  | .leave _ => True
  | .recieve _ _ _ => True
  | .request _ => True

instance (m : Mixer) : (op : IncomingOp) → Decidable (HasRoom m op)
  | .join _ => inferInstanceAs (Decidable (m.joined.length < maxPeers))
  | .leave _ => .isTrue trivial
  | .recieve _ _ _ => .isTrue trivial
  | .request _ => .isTrue trivial

/-! ## Steps -/

section Steps

variable {s : Incoming} {m : Mixer}

theorem joined_next (m : Mixer) (op : IncomingOp) :
    (m.next op).joined = joinedNext m.joined op := by
  cases op with
  | join newPeer => rfl
  | leave peer =>
      rw [Mixer.next]
      cases hfind : Dict.find Prod.fst peer m.peers with
      | none =>
          refine (List.filter_eq_self.2 fun p hp => ?_).symm
          simpa using ne_of_mem_of_not_mem hp (Dict.find_eq_none.1 hfind)
      | some x =>
          have hfilter : (m.peers.filter (·.1 ≠ peer)).map Prod.fst =
              (m.peers.map Prod.fst).filter (· ≠ peer) := by
            rw [List.filter_map]
            rfl
          exact hfilter
  | recieve audioData time peer =>
      rw [Mixer.next]
      cases hfind : Dict.find Prod.fst peer m.peers with
      | none => rfl
      | some x =>
          have hx := (Dict.find_eq_some.1 hfind).1
          have hpeer : peer ∈ m.peers.map Prod.fst := Classical.not_not.1 fun hnot => by
            rw [Dict.find_eq_none.2 hnot] at hfind
            cases hfind
          have hkeys (cage : PeerCage) :
              (Dict.set Prod.fst peer (fun y => (y.1, cage)) x m.peers).map Prod.fst = _ :=
            Dict.keys_set (fun _ => rfl) hx
          exact (hkeys _).trans (if_pos hpeer)
  | request size =>
      rw [Mixer.next, Mixer.joined, List.map_map]
      rfl

theorem length_joined_next (h : m.joined.length ≤ maxPeers) (op : IncomingOp) :
    (m.next op).joined.length ≤ maxPeers ↔ HasRoom m op := by
  rw [joined_next]
  cases op with
  | join newPeer => exact Nat.succ_le_iff
  | leave peer => exact iff_of_true ((List.length_filter_le _ _).trans h) trivial
  | recieve audioData time peer => exact iff_of_true h trivial
  | request size => exact iff_of_true h trivial

/-- Each call on the list is that on the mixer. -/
theorem incomingStep_refines (h : Refines s m) (howned : m.Owned) {op : IncomingOp}
    (hop : m.Allowed op) (hfew : m.joined.length ≤ maxPeers) :
    ∃ s', incomingStep s op = .ok s' ∧ Refines s' (m.next op) := by
  cases op with
  | join newPeer =>
      have hlength : m.peers.length ≤ 1000 := List.length_map Prod.fst ▸ hfew
      exact svcPeerJoin_refines h (fun hmem => hop (List.mem_append_left _ hmem)) (by omega)
  | leave peer => exact svcPeerLeave_refines h howned hop
  | recieve audioData time peer => exact svcPacketRecieve_refines h howned time hop.1 hop.2
  | request size =>
      obtain ⟨s', log, hrun, hrefines, -⟩ := svcRequestIncomingAudio_refines h howned size
      refine ⟨s', ?_, hrefines⟩
      rw [incomingStep, hrun]
      rfl

theorem cageAt_of_mem (h : Refines s m) {x : PeerPtr × PeerCage} (hx : x ∈ m.peers) :
    s.cageAt x.1 = some x.2 := by
  obtain ⟨before, after, hpeers⟩ := List.append_of_mem hx
  have hl := h.linked
  rw [hpeers, nodesOf_append_cons] at hl
  rw [Incoming.cageAt, hl.at]
  rfl

theorem listsPeers_of_refines (h : Refines s m) (howned : m.Owned) : ListsPeers s m.joined where
  forwards := by
    rw [h.first, walk_next h.linked.seg (by simp [nodesOf, h.count]), map_fst_nodesOf]
    rfl
  backwards := by
    have hlast : m.joined.getLast? = back (nodesOf m.peers) := by
      rw [Mixer.joined, ← map_fst_nodesOf, List.getLast?_map]
      rfl
    rw [hlast, walk_prev h.linked.seg (by simp [nodesOf, h.count]), map_fst_nodesOf]
    rfl
  nodup := howned.nodup.of_append_left
  count := h.count.trans (List.length_map Prod.fst).symm

/-- What a request does is right as long as the buffer is large enough. -/
theorem mixesPeers_iff_of_refines (h : Refines s m) (howned : m.Owned) :
    MixesPeers s m.joined ↔ m.joined.length ≤ maxPeers := by
  have hlength : m.joined.length = m.peers.length := List.length_map Prod.fst
  rw [hlength]
  constructor
  · rintro ⟨-, hmixes⟩
    obtain ⟨s', log, hrun, hmixed⟩ := hmixes 0
    obtain ⟨s'', log', hrun', -, -, hwritten, -⟩ := svcRequestIncomingAudio_refines h howned 0
    obtain ⟨-, rfl⟩ := Prod.mk.inj (Except.ok.inj (hrun.symm.trans hrun'))
    by_contra hmany
    exact absurd (hmixed.written maxPeers ((hwritten maxPeers).2 (by omega))) (lt_irrefl _)
  · intro hroom
    refine ⟨listsPeers_of_refines h howned, fun size => ?_⟩
    obtain ⟨s', log, hrun, hrefines, htaken, hwritten, hdestroyed⟩ :=
      svcRequestIncomingAudio_refines h howned size
    refine ⟨s', log, hrun, ?_, ?_, ?_, ?_, ?_, ?_⟩
    · rw [htaken, m.map_fst_taken]
    · intro t ht
      rw [htaken] at ht
      obtain ⟨x, hx, rfl⟩ := List.mem_map.1 ht
      have hnext : (x.1, (packetCageGetData x.2).2.1) ∈ (m.next (.request size)).peers :=
        List.mem_map_of_mem hx
      exact ⟨x.2, cageAt_of_mem h hx, rfl, cageAt_of_mem hrefines hnext⟩
    · exact fun i hi => ((hwritten i).1 hi).trans_le hroom
    · rw [hdestroyed, htaken, m.filterMap_taken]
    · rw [hdestroyed]
      exact List.nodup_iff_count_le_one.2 fun a =>
        (m.count_due_le a).trans (howned.packets.once a)
    · rw [hdestroyed, h.silent]
      exact howned.packets.not_mem m.count_due_le

end Steps

/-! ## Runs -/

section Runs

variable (frameSize : Nat) (silentSound : AudioPtr) (mixerBuffer : Nat → Option AudioPtr)

theorem joined_run (m : Mixer) (ops : List IncomingOp) :
    (mixerMachine.run m ops).joined = ops.foldl joinedNext m.joined := by
  induction ops generalizing m with
  | nil => rfl
  | cons op ops ih =>
      rw [Machine.run_cons, ih, List.foldl_cons, ← joined_next]
      rfl

theorem joinedAfter_eq (frameSize : Nat) (silentSound : AudioPtr) (ops : List IncomingOp) :
    joinedAfter ops = (mixerMachine.run (.init frameSize silentSound) ops).joined :=
  (joined_run (.init frameSize silentSound) ops).symm

variable {frameSize silentSound} {ops : List IncomingOp}

/-- A run in which no peer joins without room for it -/
theorem exists_run_refines
    (hops : mixerMachine.Guarded Mixer.Allowed (.init frameSize silentSound) ops)
    (hroom : mixerMachine.Guarded HasRoom (.init frameSize silentSound) ops) :
    ∃ s, (Machine.fallible incomingStep).run
        (.ok (svcIncomingInit frameSize silentSound mixerBuffer)) ops = .ok s ∧
      Refines s (mixerMachine.run (.init frameSize silentSound) ops) ∧
      (mixerMachine.run (.init frameSize silentSound) ops).Owned ∧
      (mixerMachine.run (.init frameSize silentSound) ops).joined.length ≤ maxPeers := by
  refine Machine.exists_run_of_simulates
    (R := fun s m => Refines s m ∧ m.Owned ∧ m.joined.length ≤ maxPeers)
    (fun s m op => ?_)
    ⟨refines_init frameSize silentSound mixerBuffer, Mixer.owned_init frameSize silentSound,
      Nat.zero_le _⟩
    ((Machine.guarded_and _).2 ⟨hops, hroom⟩)
  rintro ⟨h, howned, hfew⟩ ⟨hop, hroom⟩
  obtain ⟨s', hrun, hrefines⟩ := incomingStep_refines h howned hop hfew
  exact ⟨s', hrun, hrefines, Mixer.owned_next howned hop, (length_joined_next hfew op).2 hroom⟩

theorem mixesAfter_concat_iff {op : IncomingOp}
    (hops : mixerMachine.Guarded Mixer.Allowed (.init frameSize silentSound) (ops ++ [op]))
    (hroom : mixerMachine.Guarded HasRoom (.init frameSize silentSound) ops) :
    MixesAfter (svcIncomingInit frameSize silentSound mixerBuffer) (ops ++ [op]) ↔
      HasRoom (mixerMachine.run (.init frameSize silentSound) ops) op := by
  obtain ⟨hops, hop⟩ := (Machine.guarded_concat ..).1 hops
  obtain ⟨s, hrun, h, howned, hfew⟩ := exists_run_refines mixerBuffer hops hroom
  obtain ⟨s', hstep, hrefines⟩ := incomingStep_refines h howned hop hfew
  have hrun' : (Machine.fallible incomingStep).run
      (.ok (svcIncomingInit frameSize silentSound mixerBuffer)) (ops ++ [op]) = .ok s' := by
    rw [Machine.run_concat, hrun, Machine.fallible_next_ok, hstep]
  have hjoined : joinedAfter (ops ++ [op]) =
      ((mixerMachine.run (.init frameSize silentSound) ops).next op).joined := by
    rw [joinedAfter_eq frameSize silentSound, Machine.run_concat]
    rfl
  have hiff := mixesPeers_iff_of_refines hrefines (Mixer.owned_next howned hop)
  rw [length_joined_next hfew, ← hjoined] at hiff
  constructor
  · rintro ⟨s'', hs'', hmixes⟩
    obtain rfl := Except.ok.inj (hrun'.symm.trans hs'')
    exact hiff.1 hmixes
  · exact fun hroom => ⟨s', hrun', hiff.2 hroom⟩

/-- The list has the joined peers and a request mixes one packet of each at every moment of a
run if and only if no peer joins when the buffer is full. -/
theorem mixesPeers_iff (frameSize : Nat) (silentSound : AudioPtr)
    (mixerBuffer : Nat → Option AudioPtr) (ops : List IncomingOp)
    (hops : mixerMachine.Guarded Mixer.Allowed (.init frameSize silentSound) ops) :
    (∀ pre, pre <+: ops → MixesAfter (svcIncomingInit frameSize silentSound mixerBuffer) pre) ↔
      mixerMachine.Guarded HasRoom (.init frameSize silentSound) ops := by
  refine mixerMachine.forall_prefix_iff_guarded ops ?_ fun pre op hpre hroom =>
    mixesAfter_concat_iff mixerBuffer (Machine.guarded_of_prefix _ hpre hops) hroom
  have hinit := mixesPeers_iff_of_refines (refines_init frameSize silentSound mixerBuffer)
    (Mixer.owned_init frameSize silentSound)
  exact ⟨_, rfl, hinit.2 (Nat.zero_le _)⟩

/-- Two peers, one of which leaves with a packet in its cage. -/
theorem mixesPeers_two_peers :
    MixesAfter (svcIncomingInit 4 9 fun _ => none)
      [.join 1, .join 2, .recieve 10 7 1, .recieve 11 7 2, .request 4, .leave 1] :=
  (mixesPeers_iff 4 9 (fun _ => none)
    [.join 1, .join 2, .recieve 10 7 1, .recieve 11 7 2, .request 4, .leave 1] (by decide)).2
    (by decide) _ List.prefix_rfl

end Runs

/-! ## A full buffer -/

@[irreducible]
def joins (n : Nat) : List IncomingOp := (List.range n).map .join

theorem joins_zero : joins 0 = [] := by
  rw [joins]
  rfl

theorem joins_succ (n : Nat) : joins (n + 1) = joins n ++ [.join n] := by
  rw [joins, joins, List.range_succ, List.map_append]
  rfl

theorem run_joins (m : Mixer) (n : Nat) :
    (mixerMachine.run m (joins n)).joined = (List.range n).reverse ++ m.joined ∧
      (mixerMachine.run m (joins n)).left = m.left := by
  induction n with
  | zero =>
      rw [joins_zero]
      exact ⟨rfl, rfl⟩
  | succ n ih =>
      rw [joins_succ, Machine.run_concat, List.range_succ, List.reverse_append]
      exact ⟨congrArg (n :: ·) ih.1, ih.2⟩

theorem guarded_joins {m : Mixer} (hjoined : m.joined = []) (hleft : m.left = []) (n : Nat) :
    mixerMachine.Guarded Mixer.Allowed m (joins n) := by
  induction n with
  | zero =>
      rw [joins_zero]
      trivial
  | succ n ih =>
      obtain ⟨hjoins, hnone⟩ := run_joins m n
      rw [joins_succ, Machine.guarded_concat]
      refine ⟨ih, ?_⟩
      rw [Mixer.Allowed, hjoins, hnone, hjoined, hleft]
      simp

theorem guarded_hasRoom_joins {m : Mixer} (hjoined : m.joined = []) {n : Nat}
    (hn : n ≤ maxPeers) : mixerMachine.Guarded HasRoom m (joins n) := by
  induction n with
  | zero =>
      rw [joins_zero]
      trivial
  | succ n ih =>
      rw [joins_succ, Machine.guarded_concat]
      refine ⟨ih (Nat.le_of_succ_le hn), ?_⟩
      rw [HasRoom, (run_joins m n).1, hjoined]
      simpa using Nat.lt_of_succ_le hn

/-- The request of one peer more than the buffer has room for writes behind it. -/
theorem not_mixesAfter_of_full_buffer :
    mixerMachine.Guarded Mixer.Allowed (.init 4 0) (joins (maxPeers + 1)) ∧
      ¬ MixesAfter (svcIncomingInit 4 0 fun _ => none) (joins (maxPeers + 1)) := by
  have hallowed : mixerMachine.Guarded Mixer.Allowed (.init 4 0) (joins (maxPeers + 1)) :=
    guarded_joins rfl rfl _
  refine ⟨hallowed, ?_⟩
  rw [joins_succ] at hallowed ⊢
  rw [mixesAfter_concat_iff _ hallowed (guarded_hasRoom_joins rfl le_rfl), HasRoom,
    (run_joins _ maxPeers).1]
  simp [Mixer.init, Mixer.joined]

end Svc.Libsvc
