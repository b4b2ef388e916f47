import Svc.Svcenet.Server

/-!
# The slots of the server's table

What each operation on the table does to the slots, to their number and to the
counters, for a table that never grows beyond its first ten entries.
-/

namespace Svc.Svcenet

open Svc.Common Svc.Lib

def Server.occupiedCount (s : Server) : Nat := s.peers.countP fun p => p.occupant.isSome

/-- The table is unallocated or has its first ten entries, each with its own number
as id, and the counters are right. -/
structure Server.TableOk (s : Server) : Prop where
  length_eq : s.peers.length = 0 ∨ s.peers.length = 10
  peersSize_eq : s.peersSize = s.peers.length
  id_eq : ∀ i (p : Peer), s.peers[i]? = some p → p.id = i
  peersCount_eq : s.peersCount = s.occupiedCount

def Server.peerAt (s : Server) (i : Nat) : Option (Option ENetPeer) :=
  (s.occupantAt i).map Occupant.peer

variable {s : Server}

/-! ## Reading the table -/

theorem occupantAt_of_getElem? {i : Nat} {p : Peer} (h : s.peers[i]? = some p) :
    s.occupantAt i = p.occupant := by
  simp [Server.occupantAt, h]

theorem getElem?_of_occupantAt {i : Nat} {o : Occupant} (h : s.occupantAt i = some o) :
    ∃ p, s.peers[i]? = some p ∧ p.occupant = some o :=
  Option.bind_eq_some_iff.1 h

theorem lt_length_of_occupantAt {i : Nat} {o : Occupant} (h : s.occupantAt i = some o) :
    i < s.peers.length := by
  obtain ⟨p, hp, -⟩ := getElem?_of_occupantAt h
  exact (List.getElem?_eq_some_iff.1 hp).1

theorem mem_occupants {i : Nat} {o : Occupant} :
    (i, o) ∈ s.occupants ↔ s.occupantAt i = some o := by
  simp only [Server.occupants, List.mem_filterMap, Prod.exists, List.mem_zipIdx_iff_getElem?,
    Option.map_eq_some_iff, Prod.mk.injEq, Server.occupantAt, Option.bind_eq_some_iff]
  constructor
  · rintro ⟨p, j, hp, o', ho, rfl, rfl⟩
    exact ⟨p, hp, ho⟩
  · rintro ⟨p, hp, ho⟩
    exact ⟨p, i, hp, o, ho, rfl, rfl⟩

theorem nodup_occupants : (s.occupants.map Prod.fst).Nodup := by
  have hsub : (s.occupants.map Prod.fst).Sublist (List.range' 0 s.peers.length) := by
    rw [← List.zipIdx_map_snd 0 s.peers, Server.occupants, List.map_filterMap,
      ← List.filterMap_eq_map]
    generalize s.peers.zipIdx = l
    induction l with
    | nil => simp
    | cons a l ih =>
        obtain ⟨⟨_, o⟩, i⟩ := a
        cases o with
        | none => simpa using ih.cons i
        | some o => simpa using ih.cons_cons i
  exact hsub.nodup List.nodup_range'

/-! ## Writing a slot -/

theorem occupantAt_setOccupant (i j : Nat) (o : Option Occupant) :
    (s.setOccupant i o).occupantAt j =
      if i = j ∧ j < s.peers.length then o else s.occupantAt j := by
  simp only [Server.occupantAt, Server.setOccupant, List.getElem?_modify]
  by_cases hij : i = j
  · subst hij
    by_cases hlt : i < s.peers.length
    · simp [hlt]
    · simp [hlt]
  · simp [hij]

theorem occupantAt_setOccupant_eq_update {i : Nat} (hi : i < s.peers.length)
    (o : Option Occupant) :
    (s.setOccupant i o).occupantAt = Function.update s.occupantAt i o := by
  funext j
  rw [occupantAt_setOccupant]
  by_cases hij : i = j
  · subst hij
    simp [hi]
  · rw [Function.update_of_ne (Ne.symm hij), if_neg (fun h => hij h.1)]

theorem occupiedCount_setOccupant {i : Nat} (hi : i < s.peers.length) (o : Option Occupant) :
    (s.setOccupant i o).occupiedCount + (s.occupantAt i).isSome.toNat =
      s.occupiedCount + o.isSome.toNat := by
  obtain ⟨l₁, a, l₂, hpeers, hlen, hmodify⟩ :=
    List.exists_of_modify (fun p : Peer => { p with occupant := o }) hi
  have hat : s.occupantAt i = a.occupant := by
    rw [Server.occupantAt, hpeers, ← hlen]
    simp
  simp only [Server.occupiedCount, Server.setOccupant, hmodify, hat]
  rw [hpeers]
  simp only [List.countP_append, List.countP_cons]
  cases a.occupant <;> cases o <;> simp <;> omega

@[simp] theorem length_peers_setOccupant (i : Nat) (o : Option Occupant) :
    (s.setOccupant i o).peers.length = s.peers.length := by
  simp [Server.setOccupant]

theorem id_setOccupant (hid : ∀ i (p : Peer), s.peers[i]? = some p → p.id = i) (i : Nat)
    (o : Option Occupant) : ∀ j (p : Peer), (s.setOccupant i o).peers[j]? = some p → p.id = j := by
  intro j p hp
  rw [Server.setOccupant, List.getElem?_modify, Option.map_eq_map, Option.map_eq_some_iff] at hp
  obtain ⟨q, hq, rfl⟩ := hp
  split
  · exact hid j q hq
  · exact hid j q hq

/-! ## `get_new_peer` and `free_peer` -/

@[simp] theorem peersSize_setOccupant (i : Nat) (o : Option Occupant) :
    (s.setOccupant i o).peersSize = s.peersSize := rfl

theorem tableOk_setOccupant (hs : s.TableOk) {i : Nat} (hi : i < s.peers.length)
    (o : Option Occupant) (count : Int)
    (hcount : count + (s.occupantAt i).isSome.toNat = s.peersCount + o.isSome.toNat) :
    ({ s.setOccupant i o with peersCount := count } : Server).TableOk where
  length_eq := by simpa using hs.length_eq
  peersSize_eq := by simpa using hs.peersSize_eq
  id_eq := id_setOccupant hs.id_eq i o
  peersCount_eq := by
    have hset := occupiedCount_setOccupant hi o
    have hold := hs.peersCount_eq
    change count = ((s.setOccupant i o).occupiedCount : Int)
    omega

/-- What `get_new_peer` and `free_peer` share: slot `i` is given `o`, the counters
follow, and nothing else changes. -/
structure SlotSet (s s' : Server) (i : Nat) (o : Option Occupant) : Prop where
  tableOk : s'.TableOk
  length_eq : s'.peers.length = 10
  occupantAt_eq : s'.occupantAt = Function.update s.occupantAt i o
  occupiedCount_eq : s'.occupiedCount + (s.occupantAt i).isSome.toNat =
    s.occupiedCount + o.isSome.toNat
  serverData_eq : s'.serverData = s.serverData
  peerData_eq : s'.peerData = s.peerData

theorem slotSet_setOccupant (hs : s.TableOk) (hlen : s.peers.length = 10) {i : Nat}
    (hi : i < s.peers.length) (o : Option Occupant) (count : Int)
    (hcount : count + (s.occupantAt i).isSome.toNat = s.peersCount + o.isSome.toNat) :
    SlotSet s { s.setOccupant i o with peersCount := count } i o where
  tableOk := tableOk_setOccupant hs hi o count hcount
  length_eq := by simpa using hlen
  occupantAt_eq := occupantAt_setOccupant_eq_update hi o
  occupiedCount_eq := occupiedCount_setOccupant hi o
  serverData_eq := rfl
  peerData_eq := rfl

theorem occupySlot_spec (hs : s.TableOk) (hlen : s.peers.length = 10) {i : Nat} (hi : i < 10)
    (hnone : s.occupantAt i = none) :
    ∃ s', occupySlot s i = .ok (i, s') ∧ SlotSet s s' i (some ⟨none, [], []⟩) := by
  have hi : i < s.peers.length := hlen ▸ hi
  exact ⟨_, if_pos hi, slotSet_setOccupant hs hlen hi _ _ (by simp [hnone])⟩

theorem occupantAt_emptyPeers (i : Nat) :
    (emptyPeers 0 10)[i]?.bind Peer.occupant = none := by
  simp only [emptyPeers, List.getElem?_map, Option.bind_map]
  cases (List.range' 0 10)[i]? <;> rfl

theorem tableOk_emptyPeers :
    ({ s with peersSize := 10, peers := emptyPeers 0 10, peersCount := 0 } : Server).TableOk where
  length_eq := .inr rfl
  peersSize_eq := rfl
  id_eq := by
    intro i p hp
    simp only [emptyPeers, List.getElem?_map, Option.map_eq_some_iff] at hp
    obtain ⟨j, hj, rfl⟩ := hp
    obtain ⟨hlt, rfl⟩ := List.getElem?_eq_some_iff.1 hj
    simp
  peersCount_eq := rfl

theorem occupantAt_of_length_zero (hlen : s.peers.length = 0) : s.occupantAt = fun _ => none := by
  funext i
  simp [Server.occupantAt, List.length_eq_zero_iff.1 hlen]

/-- A full-sized table with an empty slot gives out one that is empty. -/
theorem getNewPeer_eq_occupySlot (hs : s.TableOk) (hlen : s.peers.length = 10)
    (hcount : s.occupiedCount < 10) :
    ∃ i, getNewPeer s = occupySlot s i ∧ i < 10 ∧ s.occupantAt i = none := by
  have hsize := hs.peersSize_eq
  have hcountEq := hs.peersCount_eq
  cases hfind : s.peers.findIdx? fun p => p.occupant.isNone with
  | none =>
      rw [List.findIdx?_eq_none_iff] at hfind
      have hall : s.occupiedCount = s.peers.length :=
        List.countP_eq_length.2 fun p hp => by simpa using hfind p hp
      omega
  | some i =>
      obtain ⟨hi, hempty, -⟩ := List.findIdx?_eq_some_iff_getElem.1 hfind
      refine ⟨i, ?_, hlen ▸ hi, ?_⟩
      · rw [getNewPeer, if_neg (by omega), if_neg (by omega), hfind]
      · rw [occupantAt_of_getElem? (List.getElem?_eq_getElem hi)]
        simpa using hempty

/-- A table with an empty slot among the first ten gives out one of them. -/
theorem getNewPeer_spec (hs : s.TableOk) (hcount : s.occupiedCount < 10) :
    ∃ i s', getNewPeer s = .ok (i, s') ∧ i < 10 ∧ s.occupantAt i = none ∧
      SlotSet s s' i (some ⟨none, [], []⟩) := by
  have hsize := hs.peersSize_eq
  rcases hs.length_eq with hlen | hlen
  · -- the first call allocates the table
    have hat := occupantAt_of_length_zero hlen
    obtain ⟨s', hok, hset⟩ := occupySlot_spec (s := { s with
      peersSize := 10, peers := emptyPeers 0 10, peersCount := 0 }) tableOk_emptyPeers rfl
      (show 0 < 10 by decide) (occupantAt_emptyPeers 0)
    have hfresh : Server.occupantAt { s with
        peersSize := 10, peers := emptyPeers 0 10, peersCount := 0 } = s.occupantAt := by
      rw [hat]
      funext i
      exact occupantAt_emptyPeers i
    refine ⟨0, s', ?_, by decide, by rw [hat], ⟨hset.tableOk, hset.length_eq, ?_, ?_,
      hset.serverData_eq, hset.peerData_eq⟩⟩
    · rw [getNewPeer, if_pos (by omega), hok]
    · rw [hset.occupantAt_eq, hfresh]
    · have hset := hset.occupiedCount_eq
      rw [hfresh] at hset
      rw [hset]
      simp [Server.occupiedCount, List.length_eq_zero_iff.1 hlen, emptyPeers]
  · obtain ⟨i, hchoice, hi, hnone⟩ := getNewPeer_eq_occupySlot hs hlen hcount
    obtain ⟨s', hok, hset⟩ := occupySlot_spec hs hlen hi hnone
    exact ⟨i, s', hchoice.trans hok, hi, hnone, hset⟩

theorem freePeer_spec (hs : s.TableOk) {i : Nat} {o : Occupant} (ho : s.occupantAt i = some o) :
    ∃ s', freePeer s i = .ok (o, s') ∧ SlotSet s s' i none := by
  have hi := lt_length_of_occupantAt ho
  have hlen : s.peers.length = 10 := by
    have := hs.length_eq
    omega
  obtain ⟨⟨id, occupant⟩, hp, rfl⟩ := getElem?_of_occupantAt ho
  refine ⟨{ s.setOccupant i none with peersCount := s.peersCount - 1 }, ?_,
    slotSet_setOccupant hs hlen hi none _ (by simp [ho])⟩
  simp only [freePeer, hp]

/-- An empty slot cannot: its dictionaries are gone. -/
theorem freePeer_of_none {i : Nat} (ho : s.occupantAt i = none) :
    ∃ fault, freePeer s i = .error fault := by
  unfold freePeer
  cases hp : s.peers[i]? with
  | none => exact ⟨_, rfl⟩
  | some p =>
      obtain ⟨id, occupant⟩ := p
      obtain rfl : occupant = none := (occupantAt_of_getElem? hp).symm.trans ho
      exact ⟨_, rfl⟩

/-! ## The rest of the handlers -/

/-- What keeps every slot with its owner and touches only the dictionaries. -/
structure SameSlots (s s' : Server) : Prop where
  tableOk : s.TableOk → s'.TableOk
  length_eq : s'.peers.length = s.peers.length
  peerAt_eq : s'.peerAt = s.peerAt
  occupiedCount_eq : s'.occupiedCount = s.occupiedCount
  peerData_eq : s'.peerData = s.peerData

theorem SameSlots.refl (s : Server) : SameSlots s s := ⟨fun hs => hs, rfl, rfl, rfl, rfl⟩

theorem SameSlots.trans {s₁ s₂ s₃ : Server} (h : SameSlots s₁ s₂) (h' : SameSlots s₂ s₃) :
    SameSlots s₁ s₃ where
  tableOk hs := h'.tableOk (h.tableOk hs)
  length_eq := h'.length_eq.trans h.length_eq
  peerAt_eq := h'.peerAt_eq.trans h.peerAt_eq
  occupiedCount_eq := h'.occupiedCount_eq.trans h.occupiedCount_eq
  peerData_eq := h'.peerData_eq.trans h.peerData_eq

theorem sameSlots_setOccupant {i : Nat} {o o' : Occupant} (ho : s.occupantAt i = some o)
    (hpeer : o'.peer = o.peer) : SameSlots s (s.setOccupant i (some o')) := by
  have hi := lt_length_of_occupantAt ho
  have hcount := occupiedCount_setOccupant hi (some o')
  simp only [ho, Option.isSome_some, Bool.toNat_true, Nat.add_right_cancel_iff] at hcount
  refine ⟨fun hs => ?_, by simp, ?_, hcount, rfl⟩
  · exact tableOk_setOccupant hs hi (some o') s.peersCount (by simp [ho])
  · funext j
    simp only [Server.peerAt, occupantAt_setOccupant]
    split
    · rename_i h
      obtain ⟨rfl, -⟩ := h
      simp [ho, hpeer]
    · rfl

/-- A `peerset` changes nothing, or one key in a dictionary of one slot. -/
theorem runCall_peerset (s : Server) (type : CString) (peerId : Option Int) (key value : CString) :
    runCall s (.peerset type peerId key value) = s ∨
      ∃ i o, s.occupantAt i = some o ∧
        (runCall s (.peerset type peerId key value) =
            s.setOccupant i (some { o with privData := ddSet o.privData key value }) ∨
          runCall s (.peerset type peerId key value) =
            s.setOccupant i (some { o with pubData := ddSet o.pubData key value })) := by
  simp only [runCall, cmdPeerset]
  by_cases htype : type.bytes ≠ cstr "priv" ∧ type.bytes ≠ cstr "pub"
  · exact .inl (by simp only [if_pos htype])
  cases peerId with
  | none => exact .inl (by simp only [if_neg htype])
  | some peerId =>
      simp only [if_neg htype]
      cases hat : (if 0 ≤ peerId ∧ peerId < s.peersSize then s.occupantAt peerId.toNat
          else none) with
      | none => exact .inl rfl
      | some o =>
          have ho : s.occupantAt peerId.toNat = some o := by
            split at hat
            · exact hat
            · cases hat
          refine .inr ⟨peerId.toNat, o, ho, ?_⟩
          by_cases hpriv : type.bytes = cstr "priv"
          · exact .inl (by simp only [if_pos hpriv])
          · exact .inr (by simp only [if_neg hpriv])

theorem sameSlots_runCall (s : Server) (call : ScriptCall) : SameSlots s (runCall s call) := by
  cases call with
  | serverset key value =>
      exact ⟨fun hs => ⟨hs.length_eq, hs.peersSize_eq, hs.id_eq, hs.peersCount_eq⟩, rfl, rfl, rfl,
        rfl⟩
  | peerset type peerId key value =>
      rcases runCall_peerset s type peerId key value with h | ⟨i, o, ho, h | h⟩
      · rw [h]
        exact .refl s
      · rw [h]
        exact sameSlots_setOccupant ho rfl
      · rw [h]
        exact sameSlots_setOccupant ho rfl

theorem sameSlots_runScript (s : Server) (calls : List ScriptCall) :
    SameSlots s (runScript s calls) := by
  induction calls generalizing s with
  | nil => exact .refl s
  | cons call calls ih => exact (sameSlots_runCall s call).trans (ih _)

theorem occupantAt_clearDirty (s : Server) (i : Nat) :
    s.clearDirty.occupantAt i = (s.occupantAt i).map fun o =>
      { o with pubData := clearDirty o.pubData } := by
  simp only [Server.occupantAt, Server.clearDirty, List.getElem?_map]
  cases s.peers[i]? <;> rfl

theorem occupiedCount_clearDirty (s : Server) : s.clearDirty.occupiedCount = s.occupiedCount := by
  simp only [Server.occupiedCount, Server.clearDirty, List.countP_map]
  refine List.countP_congr fun p _ => ?_
  simp

theorem sameSlots_clearDirty (s : Server) : SameSlots s s.clearDirty where
  tableOk hs := by
    refine ⟨by simpa [Server.clearDirty] using hs.length_eq,
      by simpa [Server.clearDirty] using hs.peersSize_eq, ?_, ?_⟩
    · intro i p hp
      simp only [Server.clearDirty, List.getElem?_map, Option.map_eq_some_iff] at hp
      obtain ⟨q, hq, rfl⟩ := hp
      exact hs.id_eq i q hq
    · rw [occupiedCount_clearDirty]
      exact hs.peersCount_eq
  length_eq := by simp [Server.clearDirty]
  peerAt_eq := by
    funext i
    simp only [Server.peerAt, occupantAt_clearDirty, Option.map_map]
    rfl
  occupiedCount_eq := occupiedCount_clearDirty s
  peerData_eq := rfl

end Svc.Svcenet
