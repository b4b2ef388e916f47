import Svc.Svcenet.Client.Invariant

/-!
# The end of the program

`svc_close` makes all peers leave before `quit_client_state` releases the table, which
makes the peers of the connected entries leave.  So the program ends well exactly if no
connected entry has a peer.
-/

namespace Svc.Svcenet

open Svc.Common Svc.Lib

section Close

variable {c : Client} {leaked : List SvcPeer}

theorem foldlM_svcPeerLeave {peers : List SvcPeer} (h : c.joined = peers) :
    peers.foldlM Client.svcPeerLeave c = .ok { c with joined := [] } := by
  induction peers generalizing c with
  | nil =>
      rw [List.foldlM_nil, ← h]
      rfl
  | cons p peers ih =>
      have hp : p ∈ c.joined := by rw [h]; exact List.mem_cons_self
      have herase : (c.joined.erase p) = peers := by rw [h, List.erase_cons_head]
      rw [List.foldlM_cons, svcPeerLeave_eq hp]
      exact ih (c := { c with joined := c.joined.erase p }) herase

theorem svcIncomingClose_eq (c : Client) : svcIncomingClose c = .ok { c with joined := [] } :=
  foldlM_svcPeerLeave rfl

/-- Once all peers have left, releasing an entry that has one in use stumbles. -/
theorem foldlM_freePeerEntry_fault {peers : List ClientPeer} (hjoined : c.joined = [])
    (hlive : ∀ e ∈ peers, e.connected = true → ∃ dict, e.data = .live dict)
    (hsome : livePeers peers ≠ []) : ∃ fault, peers.foldlM freePeerEntry c = .error fault := by
  induction peers with
  | nil => exact absurd rfl hsome
  | cons e peers ih =>
      obtain ⟨hlive, hlives⟩ := List.forall_mem_cons.1 hlive
      rw [List.foldlM_cons]
      cases hpeer : e.livePeer with
      | none =>
          have hfree := freePeerEntry_eq (c := c) hlive (by simp [hpeer])
          rw [hfree, hpeer]
          exact ih hlives (by simpa [livePeers_cons, hpeer] using hsome)
      | some p =>
          obtain ⟨hconn, hp⟩ := livePeer_eq_some.1 hpeer
          obtain ⟨dict, hdict⟩ := hlive hconn
          refine ⟨.useAfterFree, ?_⟩
          simp [freePeerEntry, hconn, hdict, hp, DsdictPtr.deref, Client.svcPeerLeave, hjoined,
            bind, Except.bind]

def Client.closed (c : Client) : Client := { c with joined := [] }

theorem tableOk_closed (h : c.TableOk leaked) (hnone : livePeers c.peers = []) :
    c.closed.TableOk [] where
  size := h.size
  entries e he := (h.entries e he).of_subset (List.nil_subset _)
  joined := by
    rw [Client.closed, hnone]
    exact .refl _
  nodup := .nil
  known _ hp := absurd hp List.not_mem_nil

theorem freeServerInfo_closed (h : c.TableOk leaked) (hinfo : c.serverInfo ≠ .freed)
    (hnone : livePeers c.peers = []) :
    freeServerInfo c.closed =
      .ok { c with
        serverInfo := .null, myId := 2 ^ 32 - 1, peers := [], peersSize := 0, joined := [] } := by
  obtain ⟨joined, hfree, hperm⟩ := freeServerInfo_eq (tableOk_closed h hnone) hinfo
  rw [hfree, hperm.eq_nil]
  rfl

theorem freeServerInfo_closed_fault (h : c.TableOk leaked) (hinfo : c.serverInfo ≠ .freed)
    (hsome : livePeers c.peers ≠ []) : ∃ fault, freeServerInfo c.closed = .error fault := by
  have hfree := freeServerInfo_eq_foldlM (c := c.closed) h.size hinfo
  obtain ⟨fault, hfault⟩ :=
    foldlM_freePeerEntry_fault (c := { c.closed with serverInfo := .null, myId := 2 ^ 32 - 1 })
      rfl (fun e he => (h.entries e he).live) hsome
  exact ⟨fault, by rw [hfree]; exact congrArg (· >>= _) hfault⟩

end Close

section Exit

variable {s : ClientState} {leaked : List SvcPeer}

theorem exitMain_eq (s : ClientState) :
    exitMain s = do
      let c ← freeServerInfo (s.print (cstr ":STATE exiting\n")).toClient.closed
      return { (s.print (cstr ":STATE exiting\n")).enetHostDestroy with toClient := c } := by
  simp only [exitMain, svcIncomingClose_eq]
  rfl

def ClientState.exited (s : ClientState) : ClientState :=
  { (s.print (cstr ":STATE exiting\n")).enetHostDestroy with
    serverInfo := .null, myId := 2 ^ 32 - 1, peers := [], peersSize := 0, joined := [] }

/-- The program ends well if no connected entry has a peer. -/
theorem exitMain_ok (h : s.Ok leaked) (hnone : livePeers s.peers = []) :
    exitMain s = .ok s.exited := by
  have hprint : (s.print (cstr ":STATE exiting\n")).Ok leaked := h.congr rfl Iff.rfl
  have hfree := freeServerInfo_closed hprint.table (serverInfo_ne_freed hprint) hnone
  rw [exitMain_eq, hfree]
  rfl

theorem exitMain_fault (h : s.Ok leaked) (hsome : livePeers s.peers ≠ []) :
    ∃ fault, exitMain s = .error fault := by
  have hprint : (s.print (cstr ":STATE exiting\n")).Ok leaked := h.congr rfl Iff.rfl
  obtain ⟨fault, hfault⟩ :=
    freeServerInfo_closed_fault hprint.table (serverInfo_ne_freed hprint) hsome
  exact ⟨fault, by rw [exitMain_eq, hfault]; rfl⟩

end Exit

end Svc.Svcenet
