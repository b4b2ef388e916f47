import Svc.Svcenet.Client.State

/-!
# The table of peers of a client

In every order of commands an entry of the table has its dictionary exactly while it is
connected, and the peers of the connected entries have joined.  A peer whose entry was
added again without having been deleted stays joined, but the table has lost it.
-/

namespace Svc.Svcenet

open Svc.Common Svc.Lib

def ClientPeer.livePeer (e : ClientPeer) : Option SvcPeer := if e.connected then e.peer else none

def livePeers (peers : List ClientPeer) : List SvcPeer := peers.filterMap ClientPeer.livePeer

/-- An entry of a table, beside the peers that joined and the next one that will. -/
structure EntryOk (joined : List SvcPeer) (nextPeer : SvcPeer) (e : ClientPeer) : Prop where
  live : e.connected = true → ∃ dict, e.data = .live dict
  dead : e.connected = false → ∀ dict, e.data ≠ .live dict
  left : e.connected = false → ∀ p ∈ e.peer, p ∉ joined
  known : ∀ p ∈ e.peer, p < nextPeer

/-- The table and the peers that joined, of which the table has lost `leaked`. -/
structure Client.TableOk (c : Client) (leaked : List SvcPeer) : Prop where
  size : c.peersSize = c.peers.length
  entries : ∀ e ∈ c.peers, EntryOk c.joined c.nextPeer e
  joined : c.joined.Perm (livePeers c.peers ++ leaked)
  nodup : c.joined.Nodup
  known : ∀ p ∈ c.joined, p < c.nextPeer

/-! ## The peers in use -/

@[simp] theorem livePeers_nil : livePeers [] = [] := rfl

theorem livePeers_cons (e : ClientPeer) (peers : List ClientPeer) :
    livePeers (e :: peers) = e.livePeer.toList ++ livePeers peers := by
  unfold livePeers
  cases h : e.livePeer with
  | none => simp [h]
  | some p => simp [h]

theorem livePeers_append (peers peers' : List ClientPeer) :
    livePeers (peers ++ peers') = livePeers peers ++ livePeers peers' := List.filterMap_append

/-- Changing one entry changes one peer in use. -/
theorem livePeers_set {peers : List ClientPeer} {i : Nat} {e : ClientPeer}
    (h : peers[i]? = some e) (e' : ClientPeer) :
    ∃ rest, (livePeers peers).Perm (e.livePeer.toList ++ rest) ∧
      (livePeers (peers.set i e')).Perm (e'.livePeer.toList ++ rest) := by
  obtain ⟨hi, he⟩ := List.getElem?_eq_some_iff.1 h
  have hsplit : peers = peers.take i ++ e :: peers.drop (i + 1) := by
    rw [← he, ← List.drop_eq_getElem_cons hi, List.take_append_drop]
  have hset : peers.set i e' = peers.take i ++ e' :: peers.drop (i + 1) := by
    rw [List.set_eq_take_append_cons_drop, if_pos hi]
  refine ⟨livePeers (peers.take i) ++ livePeers (peers.drop (i + 1)), ?_, ?_⟩
  · rw [hsplit, livePeers_append, livePeers_cons, ← hsplit]
    exact List.perm_append_comm_assoc _ _ _
  · rw [hset, livePeers_append, livePeers_cons]
    exact List.perm_append_comm_assoc _ _ _

theorem livePeer_eq_some {e : ClientPeer} {p : SvcPeer} :
    e.livePeer = some p ↔ e.connected = true ∧ e.peer = some p := by
  unfold ClientPeer.livePeer
  split <;> simp [*]

section TableOk

variable {c : Client} {leaked : List SvcPeer}

theorem EntryOk.of_subset {joined joined' : List SvcPeer} {nextPeer : SvcPeer} {e : ClientPeer}
    (h : EntryOk joined nextPeer e) (hsub : joined' ⊆ joined) : EntryOk joined' nextPeer e :=
  ⟨h.live, h.dead, fun hdead p hp hmem => h.left hdead p hp (hsub hmem), h.known⟩

theorem Client.TableOk.mem_joined (h : c.TableOk leaked) {e : ClientPeer} (he : e ∈ c.peers)
    {p : SvcPeer} (hp : e.livePeer = some p) : p ∈ c.joined :=
  h.joined.mem_iff.2 (List.mem_append_left _ (List.mem_filterMap.2 ⟨e, he, hp⟩))

/-! ## Releasing the table -/

def joinedWithout (joined : List SvcPeer) (peer : Option SvcPeer) : List SvcPeer :=
  peer.elim joined joined.erase

theorem perm_joinedWithout {joined rest : List SvcPeer} {peer : Option SvcPeer}
    (h : joined.Perm (peer.toList ++ rest)) : (joinedWithout joined peer).Perm rest := by
  cases peer with
  | none => exact h
  | some p => simpa [joinedWithout] using h.erase p

theorem joinedWithout_sublist (joined : List SvcPeer) (peer : Option SvcPeer) :
    (joinedWithout joined peer).Sublist joined := by
  cases peer with
  | none => exact List.Sublist.refl _
  | some p => exact List.erase_sublist

theorem svcPeerLeave_eq {p : SvcPeer} (hp : p ∈ c.joined) :
    c.svcPeerLeave p = .ok { c with joined := c.joined.erase p } := if_pos hp

theorem freePeerEntry_eq {e : ClientPeer} (hlive : e.connected = true → ∃ dict, e.data = .live dict)
    (hjoined : ∀ p ∈ e.livePeer, p ∈ c.joined) :
    freePeerEntry c e =
      .ok { c with joined := joinedWithout c.joined e.livePeer } := by
  unfold freePeerEntry ClientPeer.livePeer at *
  cases hconn : e.connected with
  | false => rfl
  | true =>
      obtain ⟨dict, hdict⟩ := hlive hconn
      simp only [hconn, if_true] at hjoined
      cases hpeer : e.peer with
      | none =>
          rw [hdict]
          rfl
      | some p =>
          rw [hdict]
          exact svcPeerLeave_eq (hjoined p hpeer)

/-- Releasing entries leaves the peers that the others have in use. -/
theorem foldlM_freePeerEntry {peers : List ClientPeer} {others : List SvcPeer}
    (hlive : ∀ e ∈ peers, e.connected = true → ∃ dict, e.data = .live dict)
    (hjoined : c.joined.Perm (livePeers peers ++ others)) :
    ∃ joined, peers.foldlM freePeerEntry c = .ok { c with joined := joined } ∧
      joined.Perm others := by
  induction peers generalizing c with
  | nil => exact ⟨c.joined, rfl, hjoined⟩
  | cons e peers ih =>
      obtain ⟨hlive, hlives⟩ := List.forall_mem_cons.1 hlive
      rw [livePeers_cons, List.append_assoc] at hjoined
      have hmem : ∀ p ∈ e.livePeer, p ∈ c.joined := fun p hp =>
        hjoined.mem_iff.2 (List.mem_append_left _ (Option.mem_toList.2 hp))
      have ih := @ih { c with joined := joinedWithout c.joined e.livePeer }
      obtain ⟨joined, hfold, hperm⟩ := ih hlives (perm_joinedWithout hjoined)
      refine ⟨joined, ?_, hperm⟩
      rw [List.foldlM_cons, freePeerEntry_eq hlive hmem]
      exact hfold

theorem foldlM_range_peerAt {peers : List ClientPeer} {first : Nat}
    (h : ∀ i e, peers[i]? = some e → c.peerAt (first + i) = .ok e) (c' : Client) :
    (List.range' first peers.length).foldlM (fun c' i => do freePeerEntry c' (← c.peerAt i)) c' =
      peers.foldlM freePeerEntry c' := by
  induction peers generalizing first c' with
  | nil => rfl
  | cons e peers ih =>
      have hfirst : c.peerAt first = .ok e := h 0 e rfl
      have hnext : ∀ i e, peers[i]? = some e → c.peerAt (first + 1 + i) = .ok e := fun i e he => by
        rw [Nat.add_assoc, Nat.add_comm 1]
        exact h (i + 1) e he
      rw [List.length_cons, List.range'_succ, List.foldlM_cons, List.foldlM_cons]
      simp only [ih hnext, hfirst]
      rfl

theorem peerAt_eq {i : Nat} {e : ClientPeer} (h : c.peers[i]? = some e) : c.peerAt i = .ok e := by
  rw [Client.peerAt, h]

theorem freeEntries_eq (hsize : c.peersSize = c.peers.length) :
    (List.range c.peersSize).foldlM (fun c' i => do freePeerEntry c' (← c.peerAt i)) c =
      c.peers.foldlM freePeerEntry c := by
  have hat : ∀ i e, c.peers[i]? = some e → c.peerAt (0 + i) = .ok e := fun i e he => by
    rw [Nat.zero_add]
    exact peerAt_eq he
  rw [hsize, List.range_eq_range']
  exact foldlM_range_peerAt hat c

theorem freeServerDict_eq (hinfo : c.serverInfo ≠ .freed) :
    freeServerDict c = .ok { c with serverInfo := .null } := by
  cases c with
  | mk serverInfo =>
      cases serverInfo with
      | null => rfl
      | freed => exact absurd rfl hinfo
      | live dict => rfl

theorem freeServerInfo_eq_foldlM (hsize : c.peersSize = c.peers.length)
    (hinfo : c.serverInfo ≠ .freed) :
    freeServerInfo c = do
      let c ← c.peers.foldlM freePeerEntry { c with serverInfo := .null, myId := 2 ^ 32 - 1 }
      return { c with peers := [], peersSize := 0 } := by
  have hentries := freeEntries_eq (c := { c with serverInfo := .null, myId := 2 ^ 32 - 1 }) hsize
  rw [freeServerInfo, freeServerDict_eq hinfo]
  exact congrArg (fun r => r >>= fun c => pure { c with peers := [], peersSize := 0 }) hentries

/-- `free_server_info` leaves every peer but the lost ones. -/
theorem freeServerInfo_eq (h : c.TableOk leaked) (hinfo : c.serverInfo ≠ .freed) :
    ∃ joined, freeServerInfo c =
        .ok { c with
          serverInfo := .null, myId := 2 ^ 32 - 1, peers := [], peersSize := 0, joined } ∧
      joined.Perm leaked := by
  obtain ⟨joined, hfree, hperm⟩ :=
    foldlM_freePeerEntry (c := { c with serverInfo := .null, myId := 2 ^ 32 - 1 })
      (fun e he => (h.entries e he).live) h.joined
  refine ⟨joined, ?_, hperm⟩
  rw [freeServerInfo_eq_foldlM h.size hinfo, hfree]
  rfl

theorem tableOk_released {joined : List SvcPeer} (h : c.TableOk leaked)
    (hperm : joined.Perm leaked) :
    { c with
      serverInfo := .null, myId := 2 ^ 32 - 1, peers := [], peersSize := 0, joined }.TableOk
        leaked where
  size := rfl
  entries _ he := absurd he List.not_mem_nil
  joined := hperm
  nodup := hperm.nodup_iff.2 (h.joined.nodup_iff.1 h.nodup).of_append_right
  known p hp := h.known p (h.joined.mem_iff.2 (List.mem_append_right _ (hperm.mem_iff.1 hp)))

/-! ## Changing an entry -/

def Client.IsConnected (c : Client) (i : Nat) : Prop :=
  ∃ e, c.peers[i]? = some e ∧ e.connected = true

/-- The table when an entry has changed and with it the peers that joined. -/
theorem Client.TableOk.set (h : c.TableOk leaked) {i : Nat} {e e' : ClientPeer}
    {joined leaked' : List SvcPeer} {nextPeer : SvcPeer} (he : c.peers[i]? = some e)
    (hentry : EntryOk joined nextPeer e')
    (hothers : ∀ e', EntryOk c.joined c.nextPeer e' → EntryOk joined nextPeer e')
    (hjoined : ∀ rest, c.joined.Perm (e.livePeer.toList ++ (rest ++ leaked)) →
      joined.Perm (e'.livePeer.toList ++ (rest ++ leaked')))
    (hnodup : joined.Nodup) (hknown : ∀ p ∈ joined, p < nextPeer) :
    { c with peers := c.peers.set i e', joined, nextPeer }.TableOk leaked' where
  size := by rw [List.length_set]; exact h.size
  entries e'' he'' := by
    rcases List.mem_or_eq_of_mem_set he'' with hold | rfl
    · exact hothers e'' (h.entries e'' hold)
    · exact hentry
  joined := by
    obtain ⟨rest, hbefore, hafter⟩ := livePeers_set he e'
    have hold := h.joined.trans (hbefore.append_right leaked)
    rw [List.append_assoc] at hold
    refine (hjoined rest hold).trans ?_
    rw [← List.append_assoc]
    exact (hafter.append_right leaked').symm
  nodup := hnodup
  known := hknown

/-- A connected entry gets another dictionary. -/
theorem Client.TableOk.setData (h : c.TableOk leaked) {i : Nat} {e : ClientPeer}
    (he : c.peers[i]? = some e) (hconn : e.connected = true) (dict : Dsdict) :
    (c.setPeer i { e with data := .live dict }).TableOk leaked := by
  have hold := h.entries e (List.mem_of_getElem? he)
  refine h.set he ⟨fun _ => ⟨dict, rfl⟩, ?_, ?_, hold.known⟩ (fun _ h => h)
    (fun _ h => h) h.nodup h.known
  · exact fun hdead => absurd (hconn.symm.trans hdead) Bool.noConfusion
  · exact fun hdead => absurd (hconn.symm.trans hdead) Bool.noConfusion

theorem Client.TableOk.delete (h : c.TableOk leaked) {i : Nat} {e : ClientPeer}
    (he : c.peers[i]? = some e) (hconn : e.connected = true) :
    { c with
      peers := c.peers.set i { e with connected := false, data := .freed }
      joined := joinedWithout c.joined e.peer }.TableOk leaked := by
  have hold := h.entries e (List.mem_of_getElem? he)
  have hsub := joinedWithout_sublist c.joined e.peer
  have hlive : e.livePeer = e.peer := if_pos hconn
  refine h.set he ⟨nofun, nofun, ?_, hold.known⟩ (fun _ h => h.of_subset hsub.subset) ?_
    (h.nodup.sublist hsub) fun p hp => h.known p (hsub.subset hp)
  · intro _ p hp
    rw [Option.mem_def.1 hp]
    exact h.nodup.not_mem_erase
  · intro rest hrest
    exact perm_joinedWithout (hlive ▸ hrest)

/-- An entry is added, with a peer that joins for it unless it is the client's own. -/
theorem Client.TableOk.add (h : c.TableOk leaked) {i : Nat} {e : ClientPeer}
    (he : c.peers[i]? = some e) {peer : Option SvcPeer} {nextPeer : SvcPeer}
    (hnext : c.nextPeer ≤ nextPeer) (hpeer : ∀ p ∈ peer, p = c.nextPeer ∧ p < nextPeer) :
    { c with
      peers := c.peers.set i { e with connected := true, data := .live [], peer }
      joined := peer.toList ++ c.joined
      nextPeer }.TableOk (e.livePeer.toList ++ leaked) := by
  have hnew {p : SvcPeer} (hp : p ∈ peer.toList) : ¬ p < c.nextPeer ∧ p < nextPeer := by
    obtain ⟨heq, hlt⟩ := hpeer p (Option.mem_toList.1 hp)
    exact ⟨heq.not_lt, hlt⟩
  refine h.set he ⟨fun _ => ⟨[], rfl⟩, nofun, nofun, fun p hp => (hpeer p hp).2⟩ ?_ ?_ ?_ ?_
  · intro e' he'
    refine ⟨he'.live, he'.dead, fun hdead p hp hmem => ?_,
      fun p hp => (he'.known p hp).trans_le hnext⟩
    rcases List.mem_append.1 hmem with hmem | hold
    · exact (hnew hmem).1 (he'.known p hp)
    · exact he'.left hdead p hp hold
  · intro rest hrest
    refine (hrest.append_left _).trans (List.Perm.append_left _ ?_)
    exact List.perm_append_comm_assoc _ _ _
  · refine List.nodup_append.2 ⟨by cases peer <;> simp, h.nodup, fun p hp q hq => ?_⟩
    rintro rfl
    exact (hnew hp).1 (h.known p hq)
  · intro p hp
    rcases List.mem_append.1 hp with hp | hold
    · exact (hnew hp).2
    · exact (h.known p hold).trans_le hnext

end TableOk

end Svc.Svcenet
