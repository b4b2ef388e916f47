import Svc.Svcenet.Messages

/-!
# What a client shows

A client is a replica of the server: a map for the server's data, the client's own
id, and a map for each connected peer.  The commands of the server act on these
maps, and the client's code computes that action without a fault.
-/

namespace Svc.Svcenet

open Svc.Common Svc.Lib

/-- The state of a client in terms of its purpose. -/
structure Replica where
  info : CString → Option Bytes
  myId : Nat
  /-- the public data of each peer that is connected -/
  table : Nat → Option (CString → Option Bytes)

def Replica.init : Replica := ⟨fun _ => none, 2 ^ 32 - 1, fun _ => none⟩

def Replica.apply (r : Replica) : ServerMsg → Replica
  | .sset key value => { r with info := Function.update r.info key (some value.bytes) }
  | .yare id => { r with myId := id }
  | .padd id => { r with table := Function.update r.table id (some fun _ => none) }
  | .pset id key value =>
      { r with
        table := Function.update r.table id
          ((r.table id).map fun data => Function.update data key (some value.bytes)) }

/-- A command that a client can carry out: ids fit the table, and only a connected
peer has data. -/
def Replica.Fits (r : Replica) : ServerMsg → Prop
  | .sset _ _ => True
  | .yare id => id < 2 ^ 31
  | .padd id => id < 2 ^ 31 - 1
  | .pset id _ _ => (r.table id).isSome

def Replica.FitsAll (r : Replica) : List ServerMsg → Prop
  | [] => True
  | m :: msgs => r.Fits m ∧ (r.apply m).FitsAll msgs

theorem Replica.fitsAll_append (r : Replica) (msgs msgs' : List ServerMsg) :
    r.FitsAll (msgs ++ msgs') ↔ r.FitsAll msgs ∧ (msgs.foldl apply r).FitsAll msgs' := by
  induction msgs generalizing r with
  | nil => simp [FitsAll]
  | cons m msgs ih => simp [FitsAll, ih, and_assoc]

/-! ## The client's state as a replica -/

def ClientPeer.shown (entry : ClientPeer) : Option (CString → Option Bytes) :=
  match entry.connected, entry.data with
  | true, .live dict => some (dsdictGet dict)
  | _, _ => none

structure Client.Shows (c : Client) (r : Replica) : Prop where
  info : ∃ dict, c.serverInfo = .live dict ∧ dsdictGet dict = r.info
  myId : c.myId = r.myId
  peersSize_eq : c.peersSize = c.peers.length
  length_lt : c.peers.length < 2 ^ 31
  live : ∀ (i : Nat) (e : ClientPeer), c.peers[i]? = some e → e.connected = true →
    ∃ dict, e.data = .live dict
  table : ∀ i, c.peers[i]?.bind ClientPeer.shown = r.table i

theorem shows_init : Client.connected.Shows .init where
  info := ⟨[], rfl, rfl⟩
  myId := rfl
  peersSize_eq := rfl
  length_lt := by decide
  live i e he := by simp [Client.connected] at he
  table i := by simp [Client.connected, Replica.init]

variable {c : Client} {r : Replica}

theorem dsdictGet_set (dict : Dsdict) (key : CString) (value : Bytes) :
    dsdictGet (dsdictSet dict key value) = Function.update (dsdictGet dict) key (some value) := by
  have hchange : ∀ node : DsdictNode, ({ node with value } : DsdictNode).key = node.key :=
    fun _ => rfl
  have hnew : (DsdictNode.mk key value).key = key := rfl
  funext k
  unfold dsdictGet dsdictSet
  by_cases hk : k = key
  · subst hk
    rw [Dict.find_set_self hchange hnew, Function.update_self]
    cases Dict.find DsdictNode.key k dict <;> rfl
  · rw [Dict.find_set_of_ne hk hchange hnew, Function.update_of_ne hk]

theorem Client.Shows.echo (h : c.Shows r) (cmd : Bytes) : (c.echo cmd).Shows r :=
  ⟨h.info, h.myId, h.peersSize_eq, h.length_lt, h.live, h.table⟩

theorem Client.Shows.svcPeerJoin (h : c.Shows r) : c.svcPeerJoin.2.Shows r :=
  ⟨h.info, h.myId, h.peersSize_eq, h.length_lt, h.live, h.table⟩

theorem Client.Shows.setPeer (h : c.Shows r) {i : Nat} (hi : i < c.peers.length) {e : ClientPeer}
    {dict : Dsdict} (hconn : e.connected = true) (hdata : e.data = .live dict) :
    (c.setPeer i e).Shows
      { r with table := Function.update r.table i (some (dsdictGet dict)) } where
  info := h.info
  myId := h.myId
  peersSize_eq := by simpa [Client.setPeer] using h.peersSize_eq
  length_lt := by simpa [Client.setPeer] using h.length_lt
  live j e' he' hconn' := by
    rw [Client.setPeer, List.getElem?_set] at he'
    by_cases hij : i = j
    · rw [if_pos hij, if_pos hi] at he'
      exact ⟨dict, Option.some.inj he' ▸ hdata⟩
    · exact h.live j e' (by simpa [hij] using he') hconn'
  table j := by
    change (c.peers.set i e)[j]?.bind ClientPeer.shown = Function.update r.table i _ j
    rw [List.getElem?_set]
    by_cases hij : i = j
    · subst hij
      simp [hi, ClientPeer.shown, hconn, hdata]
    · rw [if_neg hij, Function.update_of_ne (Ne.symm hij)]
      exact h.table j

/-! ## The commands -/

theorem decodePeerId_decimal {i : Nat} (hi : i < 2 ^ 31) : decodePeerId (decimal i) = i := by
  rw [decodePeerId, atoi_decimal hi]
  omega

theorem growPeers_spec (h : c.Shows r) {i : Nat} (hi : i < 2 ^ 31 - 1) :
    ∃ c', c.growPeers i = .ok c' ∧ c'.Shows r ∧ i < c'.peers.length := by
  have hsize := h.peersSize_eq
  have hmod : (i + 1) % 2 ^ 32 = i + 1 := Nat.mod_eq_of_lt (by omega)
  unfold Client.growPeers
  simp only [hmod]
  by_cases hzero : c.peersSize = 0
  · rw [if_pos hzero, if_pos (by omega)]
    refine ⟨_, rfl, ⟨h.info, h.myId, by simp, by simp; omega, ?_, ?_⟩, by simp⟩
    · intro j e he hconn
      simp only [List.getElem?_map, Option.map_eq_some_iff] at he
      obtain ⟨k, -, rfl⟩ := he
      cases hconn
    · intro j
      have hnil : c.peers = [] := List.length_eq_zero_iff.1 (hsize ▸ hzero)
      rw [← h.table j, hnil, List.getElem?_map, Option.bind_map]
      cases (List.range (i + 1))[j]? <;> rfl
  · rw [if_neg hzero]
    by_cases hle : c.peersSize ≤ i
    · rw [if_pos hle, if_neg (by omega)]
      refine ⟨_, rfl, ⟨h.info, h.myId, by simp; omega, by simp; omega, ?_, ?_⟩, by simp; omega⟩
      · intro j e he hconn
        rw [List.getElem?_append] at he
        split at he
        · exact h.live j e he hconn
        · simp only [List.getElem?_map, Option.map_eq_some_iff] at he
          obtain ⟨k, -, rfl⟩ := he
          cases hconn
      · intro j
        rw [← h.table j, List.getElem?_append]
        split
        · rfl
        · rename_i hout
          have hold : c.peers[j]? = none := List.getElem?_eq_none (by omega)
          rw [hold, List.getElem?_map, Option.bind_map]
          cases (List.range' c.peersSize (i + 1 - c.peersSize))[j - c.peers.length]? <;> rfl
    · exact ⟨c, by rw [if_neg hle], h, by omega⟩

theorem scmdSset_spec (h : c.Shows r) (cmd : Bytes) (key value : CString) :
    ∃ c', scmdSset c cmd (ServerMsg.sset key value).tokens = .ok c' ∧
      c'.Shows (r.apply (.sset key value)) := by
  obtain ⟨dict, hdict, hinfo⟩ := h.info
  refine ⟨_, by simp only [scmdSset, ServerMsg.tokens, hdict]; rfl, Client.Shows.echo ?_ cmd⟩
  refine ⟨⟨_, rfl, ?_⟩, h.myId, h.peersSize_eq, h.length_lt, h.live, h.table⟩
  rw [dsdictGet_set, hinfo, asCString_bytes]
  rfl

theorem scmdYare_spec (h : c.Shows r) (cmd : Bytes) {i : Nat} (hi : i < 2 ^ 31) :
    ∃ c', scmdYare c cmd (ServerMsg.yare i).tokens = .ok c' ∧ c'.Shows (r.apply (.yare i)) := by
  refine ⟨_, rfl, Client.Shows.echo ?_ cmd⟩
  exact ⟨h.info, decodePeerId_decimal hi, h.peersSize_eq, h.length_lt, h.live, h.table⟩

theorem scmdPadd_spec (h : c.Shows r) (cmd : Bytes) {i : Nat} (hi : i < 2 ^ 31 - 1) :
    ∃ c', scmdPadd c cmd (ServerMsg.padd i).tokens = .ok c' ∧ c'.Shows (r.apply (.padd i)) := by
  obtain ⟨c₁, hgrow, h₁, hlt⟩ := growPeers_spec h hi
  have hentry : c₁.peerAt i = .ok c₁.peers[i] := by
    simp [Client.peerAt, List.getElem?_eq_getElem hlt]
  have hid : decodePeerId (decimal i) = i := decodePeerId_decimal (by omega)
  by_cases hmine : i = c₁.myId
  · refine ⟨_, ?_, (h₁.setPeer hlt (e := { c₁.peers[i] with
      connected := true, data := .live [], peer := none }) rfl rfl).echo cmd⟩
    simp only [scmdPadd, ServerMsg.tokens, hid, hgrow, bind, Except.bind, hentry, if_pos hmine]
    rfl
  · refine ⟨_, ?_, (h₁.svcPeerJoin.setPeer hlt (e := { c₁.peers[i] with
      connected := true, data := .live [], peer := some c₁.nextPeer }) rfl rfl).echo cmd⟩
    simp only [scmdPadd, ServerMsg.tokens, hid, hgrow, bind, Except.bind, hentry, if_neg hmine]
    rfl

theorem exists_entry (h : c.Shows r) {i : Nat} {data : CString → Option Bytes}
    (hi : r.table i = some data) :
    ∃ e dict, c.peers[i]? = some e ∧ e.connected = true ∧ e.data = .live dict ∧
      dsdictGet dict = data := by
  have htable := h.table i
  rw [hi, Option.bind_eq_some_iff] at htable
  obtain ⟨e, he, hshown⟩ := htable
  refine ⟨e, ?_⟩
  unfold ClientPeer.shown at hshown
  split at hshown
  · rename_i dict hconn hdata
    exact ⟨dict, he, hconn, hdata, Option.some.inj hshown⟩
  · cases hshown

theorem scmdPset_spec (h : c.Shows r) (cmd : Bytes) {i : Nat} (key value : CString)
    (hi : (r.table i).isSome) :
    ∃ c', scmdPset c cmd (ServerMsg.pset i key value).tokens = .ok c' ∧
      c'.Shows (r.apply (.pset i key value)) := by
  obtain ⟨data, hdata⟩ := Option.isSome_iff_exists.1 hi
  obtain ⟨e, dict, he, hconn, hlive, hget⟩ := exists_entry h hdata
  have hlt : i < c.peers.length := (List.getElem?_eq_some_iff.1 he).1
  have hlength := h.length_lt
  have hsize := h.peersSize_eq
  have hid : decodePeerId (decimal i) = i := decodePeerId_decimal (by omega)
  have hset := (h.setPeer hlt (e := { e with data := .live (dsdictSet dict key value.bytes) })
    hconn rfl).echo cmd
  refine ⟨(c.setPeer i { e with data := .live (dsdictSet dict key value.bytes) }).echo cmd, ?_, ?_⟩
  · simp only [scmdPset, ServerMsg.tokens, hid, if_neg (show ¬ c.peersSize ≤ i by omega),
      Client.peerAt, he, hlive, bind, Except.bind, DsdictPtr.deref, asCString_bytes]
    rfl
  · rw [dsdictGet_set, hget] at hset
    rw [Replica.apply, hdata]
    exact hset

theorem handleServerDecodedMsg_spec (h : c.Shows r) {m : ServerMsg} (hm : r.Fits m) :
    ∃ c', handleServerDecodedMsg c m.line = .ok c' ∧ c'.Shows (r.apply m) := by
  have hparse := dstrlexParse_line m
  unfold handleServerDecodedMsg
  rw [hparse]
  cases m with
  | sset key value => exact scmdSset_spec h _ key value
  | yare i => exact scmdYare_spec h _ hm
  | padd i => exact scmdPadd_spec h _ hm
  | pset i key value => exact scmdPset_spec h _ key value hm

/-- A packet of commands that fit does to the client what the commands do to the
replica it shows. -/
theorem handleServerMsg_spec (h : c.Shows r) {msgs : List ServerMsg} (hmsgs : r.FitsAll msgs) :
    ∃ c', handleServerMsg c (msgs.flatMap ServerMsg.encode) = .ok c' ∧
      c'.Shows (msgs.foldl Replica.apply r) := by
  rw [handleServerMsg_encode]
  induction msgs generalizing c r with
  | nil => exact ⟨c, rfl, h⟩
  | cons m msgs ih =>
      obtain ⟨c₁, hok, h₁⟩ := handleServerDecodedMsg_spec h hmsgs.1
      obtain ⟨c', hrest, h'⟩ := ih h₁ hmsgs.2
      refine ⟨c', ?_, h'⟩
      rw [List.foldlM_cons, hok]
      exact hrest

end Svc.Svcenet
