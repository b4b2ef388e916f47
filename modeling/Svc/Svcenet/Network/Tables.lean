import Svc.Svcenet.Audio.Relay
import Svc.Svcenet.Client.Lifecycle
import Svc.Svcenet.Network.History
import Svc.Svcenet.Network.Membership

/-!
# The tables of the clients

The server tells a client its id before it tells of any peer, and describes only peers that it
has told of.  So the table of every client is in order, although the peers of libsvc that an id
had before its slot was used again stay behind.
-/

namespace Svc.Svcenet

open Svc.Common Svc.Lib

structure Client.InOrder (c : Client) : Prop where
  table : ∃ leaked, c.TableOk leaked
  ids : c.IdsOk

def ServerMsg.toLine : ServerMsg → ServerLine
  | .sset key value => .sset key.bytes value.bytes
  | .yare id => .yare (decimal id)
  | .padd id => .padd (decimal id)
  | .pset id key value => .pset (decimal id) key.bytes value.bytes

theorem tokens_toLine (m : ServerMsg) : m.toLine.tokens = m.tokens := by
  cases m <;> rfl

section Messages

variable {c : Client} {r : Replica} {m : ServerMsg}

theorem inOrder_connected : Client.connected.InOrder where
  table := ⟨[], rfl, fun _ he => absurd he List.not_mem_nil, .refl _, .nil,
    fun _ hp => absurd hp List.not_mem_nil⟩
  ids := idsOk_nil rfl

/-- A connected peer of the replica has a connected entry. -/
theorem Client.Shows.isConnected (h : c.Shows r) {id : Nat} (hid : (r.table id).isSome) :
    c.IsConnected (decodePeerId (decimal id)) := by
  obtain ⟨e, he, hconn⟩ := (h.connected_iff id).2 hid
  have hlt := (List.getElem?_eq_some_iff.1 he).1
  have hlength := h.length_lt
  rw [decodePeerId_decimal (by omega)]
  exact ⟨e, he, hconn⟩

theorem orderly_toLine (h : c.Shows r) (hfits : r.Fits m)
    (hnamed : ∀ id, m = .yare id → c.peers = []) : m.toLine.Orderly c := by
  cases m with
  | sset | padd => trivial
  | yare id => exact hnamed id rfl
  | pset id key value => exact h.isConnected hfits

theorem fits_toLine (hfits : r.Fits m) : m.toLine.Fits c := by
  cases m with
  | sset | yare | pset => trivial
  | padd id =>
      have hlt : id < 2 ^ 31 - 1 := hfits
      exact fits_of_lt (by rwa [decodePeerId_decimal (by omega)])

/-- A command that fits leaves the table in order, if it is not a second id. -/
theorem inOrder_msg (h : c.Shows r) (hc : c.InOrder) (hfits : r.Fits m)
    (hnamed : ∀ id, m = .yare id → c.peers = []) :
    ∃ c', handleServerDecodedMsg c m.line = .ok c' ∧ c'.Shows (r.apply m) ∧ c'.InOrder := by
  obtain ⟨c', hok, hshows⟩ := handleServerDecodedMsg_spec h hfits
  obtain ⟨leaked, htable⟩ := hc.table
  have hline : dstrlexParse m.line = .ok m.toLine.tokens := by
    rw [tokens_toLine]
    exact dstrlexParse_line m
  have horder := orderly_toLine h hfits hnamed
  have hroom : m.toLine.Fits c := fits_toLine hfits
  obtain ⟨dict, hdict, -⟩ := h.info
  obtain ⟨c₁, hrun, htable', -⟩ := run_of_safe htable ⟨dict, hdict⟩ m.line horder.safe hroom
  have hsame := hok
  rw [handleServerDecodedMsg_eq hline, hrun] at hsame
  obtain rfl : c₁ = c' := Except.ok.inj hsame
  exact ⟨c₁, hok, hshows, ⟨_, htable'⟩, idsOk_run htable hc.ids horder hroom hrun⟩

theorem inOrder_msgs {msgs : List ServerMsg} (h : c.Shows r) (hc : c.InOrder)
    (hfits : r.FitsAll msgs) (hnamed : ∀ id, ServerMsg.yare id ∉ msgs) :
    ∃ c', msgs.foldlM (fun c m => handleServerDecodedMsg c m.line) c = .ok c' ∧ c'.InOrder := by
  induction msgs generalizing c r with
  | nil => exact ⟨c, rfl, hc⟩
  | cons m msgs ih =>
      have hfirst : ∀ id, m = .yare id → c.peers = [] := fun id heq =>
        absurd (heq ▸ List.mem_cons_self) (hnamed id)
      obtain ⟨c₁, hok, h₁, hc₁⟩ := inOrder_msg h hc hfits.1 hfirst
      obtain ⟨c', hrest, hc'⟩ := ih h₁ hc₁ hfits.2 fun id hmem =>
        hnamed id (List.mem_cons_of_mem m hmem)
      refine ⟨c', ?_, hc'⟩
      rw [List.foldlM_cons, hok]
      exact hrest

/-- What a link carries leaves its client in order. -/
theorem Link.Carries.inOrder {l : Link} {heard : List Bytes} {msgs coming : List ServerMsg}
    (h : l.Carries heard msgs coming) : ∃ c, l.drained = .ok c ∧ c.InOrder := by
  rw [h.drained_eq]
  have hfits := h.fits
  have hnamed := h.named
  cases hall : msgs ++ coming with
  | nil => exact ⟨_, rfl, inOrder_connected⟩
  | cons m rest =>
      rw [hall] at hfits hnamed
      obtain ⟨c₁, hok, h₁, hc₁⟩ := inOrder_msg shows_init inOrder_connected hfits.1 fun _ _ => rfl
      obtain ⟨c', hrest, hc'⟩ := inOrder_msgs h₁ hc₁ hfits.2 hnamed
      refine ⟨c', ?_, hc'⟩
      rw [List.foldlM_cons, hok]
      exact hrest

end Messages

/-! ## Who has joined -/

/-- A connected entry of another has a peer of libsvc that has joined. -/
theorem Client.InOrder.hasJoined {c : Client} {r : Replica} (h : c.InOrder) (hc : c.Shows r)
    {id : Nat} (hid : (r.table id).isSome) (hother : c.myId ≠ id) :
    ∃ peer, c.HasJoined id peer := by
  obtain ⟨e, he, hconn⟩ := (hc.connected_iff id).2 hid
  obtain ⟨leaked, htable⟩ := h.table
  have hmem := List.mem_of_getElem? he
  have hsome : e.peer ≠ none := fun hnone =>
    hother ((h.ids.own e hmem hconn).1 hnone ▸ h.ids.id_eq id e he)
  obtain ⟨peer, hpeer⟩ := Option.ne_none_iff_exists'.1 hsome
  refine ⟨peer, ?_, ⟨e, he, hconn, hpeer⟩, ?_⟩
  · rw [htable.size]
    exact (List.getElem?_eq_some_iff.1 he).1
  · exact htable.mem_joined hmem (livePeer_eq_some.2 ⟨hconn, hpeer⟩)

end Svc.Svcenet
