import Svc.Svcenet.Client.Table

/-!
# What the commands of the server do to the table

Each command that names a peer either does one change to the entry of the peer or
stumbles: `PDEL` and `PSET` over an entry that is not connected, `PADD` over an id for
which there cannot be a table.
-/

namespace Svc.Svcenet

open Svc.Common Svc.Lib

/-! ## Lines -/

/-- The tokens of a command with all its arguments. -/
inductive ServerLine where
  | sset (key value : Bytes)
  | yare (id : Bytes)
  | padd (id : Bytes)
  | pdel (id : Bytes)
  | pset (id key value : Bytes)
  | mesg (text : Bytes)

namespace ServerLine

def tokens : ServerLine → List Bytes
  | sset key value => [cstr "SSET", key, value]
  | yare id => [cstr "YARE", id]
  | padd id => [cstr "PADD", id]
  | pdel id => [cstr "PDEL", id]
  | pset id key value => [cstr "PSET", id, key, value]
  | mesg text => [cstr "MESG", text]

theorem tokens_injective : Function.Injective tokens := by
  rintro (_ | _ | _ | _ | _ | _) (_ | _ | _ | _ | _ | _) h
  all_goals first
    | exact absurd (List.cons.inj h).1 (by decide)
    | simpa [tokens] using h

def peerId : ServerLine → Option Bytes
  | sset _ _ | mesg _ => none
  | yare id | padd id | pdel id | pset id _ _ => some id

def run (c : Client) (cmd : Bytes) : ServerLine → Except Fault Client
  | sset key value => scmdSset c cmd [cstr "SSET", key, value]
  | yare id => scmdYare c cmd [cstr "YARE", id]
  | padd id => scmdPadd c cmd [cstr "PADD", id]
  | pdel id => scmdPdel c cmd [cstr "PDEL", id]
  | pset id key value => scmdPset c cmd [cstr "PSET", id, key, value]
  | mesg text => scmdMesg c cmd [cstr "MESG", text]

end ServerLine

theorem handleServerDecodedMsg_eq {string : Bytes} {line : ServerLine}
    (h : dstrlexParse string = .ok line.tokens) (c : Client) :
    handleServerDecodedMsg c string = line.run c string := by
  unfold handleServerDecodedMsg
  rw [h]
  cases line <;> rfl

/-! ## Growing -/

section Steps

variable {c : Client} {leaked : List SvcPeer}

def Client.Fits (c : Client) (id : Nat) : Prop :=
  id < c.peersSize ∨ (c.peersSize = 0 ∧ id < 2 ^ 31 - 1) ∨ (c.peersSize ≠ 0 ∧ id < 2 ^ 32 - 1)

def Client.grown (c : Client) (id : Nat) : Client :=
  { c with
    peersSize := max c.peersSize (id + 1)
    peers := c.peers ++ (List.range' c.peersSize (id + 1 - c.peersSize)).map .new }

theorem fits_of_lt {id : Nat} (h : id < 2 ^ 31 - 1) : c.Fits id := by
  unfold Client.Fits
  omega

theorem decodePeerId_lt (id : Bytes) : decodePeerId id < 2 ^ 32 := by
  unfold decodePeerId
  omega

theorem growPeers_eq (h : c.TableOk leaked) {id : Nat} (hfits : c.Fits id) :
    c.growPeers id = .ok (c.grown id) := by
  have hsize := h.size
  unfold Client.Fits at hfits
  unfold Client.growPeers Client.grown
  by_cases hzero : c.peersSize = 0
  · have hmod : (id + 1) % 2 ^ 32 = id + 1 := Nat.mod_eq_of_lt (by omega)
    have hnil : c.peers = [] := List.length_eq_zero_iff.1 (hsize ▸ hzero)
    simp only [hmod, if_pos (show id + 1 < 2 ^ 31 by omega), hzero, hnil, if_true, Nat.zero_max,
      Nat.sub_zero, List.nil_append, List.range_eq_range']
  · by_cases hle : c.peersSize ≤ id
    · have hmod : (id + 1) % 2 ^ 32 = id + 1 := Nat.mod_eq_of_lt (by omega)
      simp only [hmod, if_neg hzero, if_pos hle, if_neg (Nat.succ_ne_zero id),
        Nat.max_eq_right (show c.peersSize ≤ id + 1 by omega)]
    · simp only [if_neg hzero, if_neg hle, Nat.max_eq_left (show id + 1 ≤ c.peersSize by omega),
        Nat.sub_eq_zero_of_le (show id + 1 ≤ c.peersSize by omega), List.range'_zero, List.map_nil,
        List.append_nil]

theorem entryOk_new (joined : List SvcPeer) (nextPeer : SvcPeer) (id : Nat) :
    EntryOk joined nextPeer (.new id) := ⟨nofun, nofun, nofun, nofun⟩

theorem tableOk_grown (h : c.TableOk leaked) (id : Nat) : (c.grown id).TableOk leaked where
  size := by
    have hsize := h.size
    simp only [Client.grown, List.length_append, List.length_map, List.length_range']
    omega
  entries e he := by
    rcases List.mem_append.1 he with hold | hnew
    · exact h.entries e hold
    · obtain ⟨i, -, rfl⟩ := List.mem_map.1 hnew
      exact entryOk_new _ _ i
  joined := by
    have hnone : livePeers ((List.range' c.peersSize (id + 1 - c.peersSize)).map .new) = [] := by
      refine List.filterMap_eq_nil_iff.2 fun e he => ?_
      obtain ⟨i, -, rfl⟩ := List.mem_map.1 he
      rfl
    simpa only [Client.grown, livePeers_append, hnone, List.append_nil] using h.joined
  nodup := h.nodup
  known := h.known

theorem exists_grown (h : c.TableOk leaked) (id : Nat) :
    ∃ e, (c.grown id).peers[id]? = some e := by
  have hsize := (tableOk_grown h id).size
  have hlt : id < (c.grown id).peers.length := by
    rw [← hsize]
    exact Nat.lt_of_lt_of_le (Nat.lt_succ_self id) (Nat.le_max_right _ _)
  exact ⟨_, List.getElem?_eq_getElem hlt⟩

/-- A new entry has no peer in use. -/
theorem livePeer_grown {id : Nat} {e : ClientPeer}
    (he : (c.grown id).peers[id]? = some e) :
    e.livePeer = c.peers[id]?.bind ClientPeer.livePeer := by
  by_cases hlt : id < c.peers.length
  · rw [Client.grown, List.getElem?_append_left hlt] at he
    rw [he]
    rfl
  · rw [Client.grown, List.getElem?_append_right (not_lt.1 hlt), List.getElem?_map,
      Option.map_eq_some_iff] at he
    obtain ⟨i, -, rfl⟩ := he
    rw [List.getElem?_eq_none (not_lt.1 hlt)]
    rfl

/-! ## PADD -/

def Client.added (c : Client) (id : Nat) (e : ClientPeer) : Client :=
  let peer := if id = c.myId then none else some c.nextPeer
  { c with
    peers := c.peers.set id { e with connected := true, data := .live [], peer }
    joined := peer.toList ++ c.joined
    nextPeer := c.nextPeer + peer.toList.length }

theorem tableOk_added (h : c.TableOk leaked) {id : Nat} {e : ClientPeer}
    (he : c.peers[id]? = some e) : (c.added id e).TableOk (e.livePeer.toList ++ leaked) := by
  by_cases hmine : id = c.myId
  · simp only [Client.added, if_pos hmine]
    exact h.add he (Nat.le_refl _) nofun
  · simp only [Client.added, if_neg hmine]
    refine h.add he (Nat.le_succ _) fun p hp => ?_
    rw [Option.mem_def, Option.some_inj] at hp
    exact ⟨hp.symm, hp ▸ Nat.lt_succ_self _⟩

theorem scmdPadd_eq (h : c.TableOk leaked) (cmd name : Bytes) {id : Bytes} {e : ClientPeer}
    (hfits : c.Fits (decodePeerId id))
    (he : (c.grown (decodePeerId id)).peers[decodePeerId id]? = some e) :
    scmdPadd c cmd [name, id] =
      .ok (((c.grown (decodePeerId id)).added (decodePeerId id) e).echo cmd) := by
  simp only [scmdPadd, growPeers_eq h hfits, bind, Except.bind, peerAt_eq he, Client.added]
  split_ifs
  · rfl
  · rfl

theorem scmdPadd_fault (cmd name : Bytes) {id : Bytes}
    (hfits : ¬ c.Fits (decodePeerId id)) : ∃ fault, scmdPadd c cmd [name, id] = .error fault := by
  have hlt := decodePeerId_lt id
  unfold Client.Fits at hfits
  have hgrow : (∃ fault, c.growPeers (decodePeerId id) = .error fault) ∨
      ∃ c', c.growPeers (decodePeerId id) = .ok c' ∧ c'.peers[decodePeerId id]? = none := by
    unfold Client.growPeers
    by_cases hzero : c.peersSize = 0
    · by_cases hwrap : decodePeerId id = 2 ^ 32 - 1
      · refine .inr ⟨_, by rw [if_pos hzero, if_pos (by omega)], ?_⟩
        rw [hwrap]
        rfl
      · have hmod : (decodePeerId id + 1) % 2 ^ 32 = decodePeerId id + 1 :=
          Nat.mod_eq_of_lt (by omega)
        exact .inl ⟨_, by rw [if_pos hzero, if_neg (by omega)]⟩
    · have hwrap : (decodePeerId id + 1) % 2 ^ 32 = 0 := by omega
      exact .inl ⟨_, by rw [if_neg hzero, if_pos (by omega), if_pos hwrap]⟩
  rcases hgrow with ⟨fault, hfault⟩ | ⟨c', hok, hnone⟩
  · exact ⟨fault, by simp only [scmdPadd, hfault, bind, Except.bind]⟩
  · exact ⟨.outOfBounds, by simp only [scmdPadd, hok, bind, Except.bind, Client.peerAt, hnone]⟩

/-! ## PDEL and PSET -/

theorem Client.TableOk.not_le_of_getElem? (h : c.TableOk leaked) {id : Nat} {e : ClientPeer}
    (he : c.peers[id]? = some e) : ¬ c.peersSize ≤ id := by
  rw [h.size, not_le]
  exact (List.getElem?_eq_some_iff.1 he).1

theorem deref_dead {joined : List SvcPeer} {nextPeer : SvcPeer} {e : ClientPeer}
    (h : EntryOk joined nextPeer e) (hdead : e.connected = false) :
    ∃ fault, e.data.deref = .error fault := by
  cases hdata : e.data with
  | null => exact ⟨_, rfl⟩
  | freed => exact ⟨_, rfl⟩
  | live dict => exact absurd hdata (h.dead hdead dict)

def Client.deleted (c : Client) (id : Nat) (e : ClientPeer) : Client :=
  { c with
    peers := c.peers.set id { e with connected := false, data := .freed }
    joined := joinedWithout c.joined e.peer }

theorem scmdPdel_eq (h : c.TableOk leaked) (cmd name : Bytes) {id : Bytes} {e : ClientPeer}
    (he : c.peers[decodePeerId id]? = some e) (hconn : e.connected = true) :
    scmdPdel c cmd [name, id] = .ok ((c.deleted (decodePeerId id) e).echo cmd) := by
  have hlt := h.not_le_of_getElem? he
  have hmem := List.mem_of_getElem? he
  obtain ⟨dict, hdict⟩ := (h.entries e hmem).live hconn
  simp only [scmdPdel, if_neg hlt, bind, Except.bind, peerAt_eq he, Client.deleted]
  cases hpeer : e.peer with
  | none =>
      rw [hdict]
      rfl
  | some p =>
      have hjoined := h.mem_joined hmem (livePeer_eq_some.2 ⟨hconn, hpeer⟩)
      simp only [svcPeerLeave_eq hjoined]
      rw [hdict]
      rfl

theorem scmdPdel_fault (h : c.TableOk leaked) (cmd name : Bytes) {id : Bytes} {e : ClientPeer}
    (he : c.peers[decodePeerId id]? = some e) (hdead : e.connected = false) :
    ∃ fault, scmdPdel c cmd [name, id] = .error fault := by
  have hlt := h.not_le_of_getElem? he
  have hentry := h.entries e (List.mem_of_getElem? he)
  obtain ⟨fault, hfault⟩ := deref_dead hentry hdead
  simp only [scmdPdel, if_neg hlt, bind, Except.bind, peerAt_eq he]
  cases hpeer : e.peer with
  | none => exact ⟨fault, by rw [hfault]; rfl⟩
  | some p =>
      have hleft : p ∉ c.joined := hentry.left hdead p hpeer
      exact ⟨.useAfterFree, by simp [Client.svcPeerLeave, hleft]⟩

theorem scmdPset_eq (h : c.TableOk leaked) (cmd name : Bytes) {id : Bytes} (key value : Bytes)
    {e : ClientPeer} (he : c.peers[decodePeerId id]? = some e) (hconn : e.connected = true) :
    ∃ dict, scmdPset c cmd [name, id, key, value] =
      .ok ((c.setPeer (decodePeerId id) { e with data := .live dict }).echo cmd) := by
  have hlt := h.not_le_of_getElem? he
  obtain ⟨dict, hdict⟩ := (h.entries e (List.mem_of_getElem? he)).live hconn
  refine ⟨dsdictSet dict (asCString key) value, ?_⟩
  simp only [scmdPset, if_neg hlt, bind, Except.bind, peerAt_eq he, hdict]
  rfl

theorem scmdPset_fault (h : c.TableOk leaked) (cmd name : Bytes) {id : Bytes} (key value : Bytes)
    {e : ClientPeer} (he : c.peers[decodePeerId id]? = some e) (hdead : e.connected = false) :
    ∃ fault, scmdPset c cmd [name, id, key, value] = .error fault := by
  have hlt := h.not_le_of_getElem? he
  obtain ⟨fault, hfault⟩ := deref_dead (h.entries e (List.mem_of_getElem? he)) hdead
  exact ⟨fault, by simp only [scmdPset, if_neg hlt, bind, Except.bind, peerAt_eq he, hfault]⟩

end Steps

end Svc.Svcenet
