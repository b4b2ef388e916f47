import Svc.Svcenet.Server.Slots

/-!
# What the server's handlers do

One lemma for each handler, for a table in order whose slots and ENet peers point
to each other.
-/

namespace Svc.Svcenet

open Svc.Common Svc.Lib

structure Server.Linked (s : Server) : Prop where
  peerData_of_peerAt : ∀ i q, s.peerAt i = some q → ∃ p, q = some p ∧ s.peerData p = some i
  lt_of_peerData : ∀ p i, s.peerData p = some i → i < s.peers.length

def Occupant.owner (o : Occupant) : ENetPeer := o.peer.getD 0

def Server.ownersBut (s : Server) (i : Nat) : List ENetPeer :=
  (s.occupants.filter fun (j, _) => j ≠ i).map fun (_, o) => o.owner

variable {s : Server}

/-! ## Slots and their owners -/

theorem peerAt_of_occupantAt {i : Nat} {o : Occupant} (ho : s.occupantAt i = some o) :
    s.peerAt i = some o.peer := by
  simp [Server.peerAt, ho]

theorem occupantAt_of_peerAt {i : Nat} {q : Option ENetPeer} (h : s.peerAt i = some q) :
    ∃ o, s.occupantAt i = some o ∧ o.peer = q :=
  Option.map_eq_some_iff.1 h

theorem peerAt_eq_none {i : Nat} : s.peerAt i = none ↔ s.occupantAt i = none := by
  simp [Server.peerAt]

theorem isSome_occupantAt (s : Server) (i : Nat) :
    (s.occupantAt i).isSome = (s.peerAt i).isSome := by
  simp [Server.peerAt]

theorem Server.Linked.peer_eq (hl : s.Linked) {i : Nat} {o : Occupant}
    (ho : s.occupantAt i = some o) : o.peer = some o.owner := by
  obtain ⟨p, hp, -⟩ := hl.peerData_of_peerAt i _ (peerAt_of_occupantAt ho)
  simp [Occupant.owner, hp]

theorem Server.Linked.eq_of_peerAt (hl : s.Linked) {i j : Nat} {p : ENetPeer}
    (hi : s.peerAt i = some (some p)) (hj : s.peerAt j = some (some p)) : i = j := by
  obtain ⟨_, heq, hi⟩ := hl.peerData_of_peerAt i _ hi
  obtain ⟨_, heq', hj⟩ := hl.peerData_of_peerAt j _ hj
  cases heq
  cases heq'
  exact Option.some.inj (hi.symm.trans hj)

theorem exists_update_some {α : Type} {f : Nat → Option α} {i : Nat} (hi : f i = none) (a b : α) :
    (∃ j, Function.update f i (some a) j = some b) ↔ a = b ∨ ∃ j, f j = some b := by
  constructor
  · rintro ⟨j, hj⟩
    rcases Dict.update_eq_some.1 hj with ⟨-, hab⟩ | ⟨-, hj⟩
    · exact .inl (Option.some.inj hab)
    · exact .inr ⟨j, hj⟩
  · rintro (rfl | ⟨j, hj⟩)
    · exact ⟨i, Function.update_self ..⟩
    · have hji : j ≠ i := by
        rintro rfl
        simp [hi] at hj
      exact ⟨j, Dict.update_eq_some.2 (.inr ⟨hji, hj⟩)⟩

theorem Server.Linked.exists_owner_freed (hl : s.Linked) {i : Nat} {p q : ENetPeer}
    (hi : s.peerAt i = some (some p)) :
    (∃ j, Function.update s.peerAt i none j = some (some q)) ↔
      (∃ j, s.peerAt j = some (some q)) ∧ q ≠ p := by
  constructor
  · rintro ⟨j, hj⟩
    rcases Dict.update_eq_some.1 hj with ⟨-, hnone⟩ | ⟨hij, hj⟩
    · cases hnone
    · refine ⟨⟨j, hj⟩, ?_⟩
      rintro rfl
      exact hij (hl.eq_of_peerAt hj hi)
  · rintro ⟨⟨j, hj⟩, hqp⟩
    have hij : j ≠ i := by
      rintro rfl
      exact hqp (Option.some.inj (Option.some.inj (hj.symm.trans hi)))
    exact ⟨j, Dict.update_eq_some.2 (.inr ⟨hij, hj⟩)⟩

theorem SameSlots.linked {s s' : Server} (h : SameSlots s s') (hl : s.Linked) : s'.Linked where
  peerData_of_peerAt i q hq := by
    rw [h.peerAt_eq] at hq
    rw [h.peerData_eq]
    exact hl.peerData_of_peerAt i q hq
  lt_of_peerData p i hi := by
    rw [h.peerData_eq] at hi
    rw [h.length_eq]
    exact hl.lt_of_peerData p i hi

theorem peerAt_update {s s' : Server} {i : Nat} {o : Option Occupant}
    (h : s'.occupantAt = Function.update s.occupantAt i o) :
    s'.peerAt = Function.update s.peerAt i (o.map Occupant.peer) := by
  funext j
  by_cases hij : j = i
  · subst hij
    simp [Server.peerAt, h]
  · simp [Server.peerAt, h, Function.update_of_ne hij]

theorem SlotSet.linked {s s' : Server} {i : Nat} (h : SlotSet s s' i none) (hl : s.Linked)
    (hlen : s.peers.length = 10) : s'.Linked where
  peerData_of_peerAt j q hq := by
    rw [peerAt_update h.occupantAt_eq, Dict.update_eq_some] at hq
    rw [h.peerData_eq]
    rcases hq with ⟨-, hnone⟩ | ⟨-, hold⟩
    · cases hnone
    · exact hl.peerData_of_peerAt j q hold
  lt_of_peerData p j hj := by
    rw [h.peerData_eq] at hj
    have := hl.lt_of_peerData p j hj
    have := h.length_eq
    omega

structure Attached (s s' : Server) (i : Nat) (p : ENetPeer) : Prop where
  tableOk : s'.TableOk
  length_eq : s'.peers.length = 10
  lt : i < 10
  occupantAt_eq_none : s.occupantAt i = none
  occupantAt_eq : s'.occupantAt = Function.update s.occupantAt i (some ⟨some p, [], []⟩)
  occupiedCount_eq : s'.occupiedCount = s.occupiedCount + 1
  serverData_eq : s'.serverData = s.serverData
  peerData_eq : s'.peerData = Function.update s.peerData p (some i)

theorem Attached.linked {s s' : Server} {i : Nat} {p : ENetPeer} (h : Attached s s' i p)
    (hs : s.TableOk) (hl : s.Linked) (hp : ∀ j, s.peerAt j ≠ some (some p)) : s'.Linked where
  peerData_of_peerAt j q hq := by
    rw [peerAt_update h.occupantAt_eq, Dict.update_eq_some] at hq
    rw [h.peerData_eq]
    rcases hq with ⟨rfl, hnew⟩ | ⟨-, hold⟩
    · exact ⟨p, (Option.some.inj hnew).symm, Function.update_self ..⟩
    · obtain ⟨q', rfl, hdata⟩ := hl.peerData_of_peerAt j q hold
      have hne : q' ≠ p := by
        rintro rfl
        exact hp j hold
      exact ⟨q', rfl, Dict.update_eq_some.2 (.inr ⟨hne, hdata⟩)⟩
  lt_of_peerData q j hj := by
    rw [h.peerData_eq, Dict.update_eq_some] at hj
    rw [h.length_eq]
    rcases hj with ⟨-, hnew⟩ | ⟨-, hold⟩
    · exact Option.some.inj hnew ▸ h.lt
    · have := hl.lt_of_peerData q j hold
      have := hs.length_eq
      omega

theorem attachPeer_spec (hs : s.TableOk) (hcount : s.occupiedCount < 10) (p : ENetPeer) :
    ∃ i s₁, getNewPeer s = .ok (i, s₁) ∧ Attached s (s₁.attachPeer i p) i p := by
  obtain ⟨i, s₁, hok, hi, hnone, hset⟩ := getNewPeer_spec hs hcount
  have hlen := hset.length_eq
  have hat : s₁.occupantAt i = some ⟨none, [], []⟩ := by
    rw [hset.occupantAt_eq, Function.update_self]
  have hattach := slotSet_setOccupant hset.tableOk hlen (hlen ▸ hi) (some ⟨some p, [], []⟩)
    s₁.peersCount (by simp [hat])
  refine ⟨i, s₁, hok, ?_⟩
  simp only [Server.attachPeer, hat, Option.map_some]
  refine ⟨⟨hattach.tableOk.length_eq, hattach.tableOk.peersSize_eq, hattach.tableOk.id_eq,
    hattach.tableOk.peersCount_eq⟩, hattach.length_eq, hi, hnone, ?_, ?_, hset.serverData_eq, ?_⟩
  · refine hattach.occupantAt_eq.trans ?_
    rw [hset.occupantAt_eq, Function.update_idem]
  · have h₁ := hset.occupiedCount_eq
    have h₂ := hattach.occupiedCount_eq
    simp only [hnone, hat, Option.isSome_some, Option.isSome_none, Bool.toNat_true,
      Bool.toNat_false, Nat.add_zero] at h₁ h₂
    exact (Nat.add_right_cancel h₂).trans h₁
  · exact congrArg (Function.update · p (some i)) hset.peerData_eq

theorem Server.Linked.nodup_owners (hl : s.Linked) :
    (s.occupants.map fun x => x.2.owner).Nodup := by
  refine List.Nodup.map_on ?_ (List.Nodup.of_map Prod.fst nodup_occupants)
  rintro ⟨i, o⟩ hi ⟨j, o'⟩ hj (heq : o.owner = o'.owner)
  have hi := mem_occupants.1 hi
  have hj := mem_occupants.1 hj
  have hpi := peerAt_of_occupantAt hi
  have hpj := peerAt_of_occupantAt hj
  rw [hl.peer_eq hi] at hpi
  rw [hl.peer_eq hj, ← heq] at hpj
  obtain rfl := hl.eq_of_peerAt hpi hpj
  rw [Option.some.inj (hi.symm.trans hj)]

theorem Server.Linked.mem_owners (hl : s.Linked) {p : ENetPeer} :
    p ∈ (s.occupants.map fun x => x.2.owner) ↔ ∃ i, s.peerAt i = some (some p) := by
  simp only [List.mem_map, Prod.exists, mem_occupants]
  constructor
  · rintro ⟨i, o, ho, rfl⟩
    exact ⟨i, by rw [peerAt_of_occupantAt ho, hl.peer_eq ho]⟩
  · rintro ⟨i, hi⟩
    obtain ⟨o, ho, hpeer⟩ := occupantAt_of_peerAt hi
    exact ⟨i, o, ho, by simp [Occupant.owner, hpeer]⟩

theorem Server.Linked.nodup_ownersBut (hl : s.Linked) (i : Nat) : (s.ownersBut i).Nodup :=
  hl.nodup_owners.sublist (List.filter_sublist.map _)

theorem Server.Linked.mem_ownersBut (hl : s.Linked) {i : Nat} {p : ENetPeer} :
    p ∈ s.ownersBut i ↔ ∃ j, j ≠ i ∧ s.peerAt j = some (some p) := by
  simp only [Server.ownersBut, List.mem_map, List.mem_filter, Prod.exists, mem_occupants,
    decide_eq_true_eq]
  constructor
  · rintro ⟨j, o, ⟨ho, hji⟩, rfl⟩
    exact ⟨j, hji, by rw [peerAt_of_occupantAt ho, hl.peer_eq ho]⟩
  · rintro ⟨j, hji, hj⟩
    obtain ⟨o, ho, hpeer⟩ := occupantAt_of_peerAt hj
    exact ⟨j, o, ⟨ho, hji⟩, by simp [Occupant.owner, hpeer]⟩

/-! ## Sending -/

theorem enetPeerSend_of_peer {o : Occupant} {p : ENetPeer} (h : o.peer = some p) (data : Bytes) :
    enetPeerSend data o = .ok (.sent p data) := by
  simp [enetPeerSend, h]

theorem mapM_enetPeerSend {l : List (Nat × Occupant)}
    (hl : ∀ x ∈ l, x.2.peer = some x.2.owner) (data : Bytes) :
    (l.mapM fun x => enetPeerSend data x.2) = .ok (l.map fun x => .sent x.2.owner data) := by
  induction l with
  | nil => rfl
  | cons x l ih =>
      rw [List.mapM_cons, enetPeerSend_of_peer (hl x (by simp)),
        ih fun y hy => hl y (by simp [hy])]
      rfl

theorem Server.Linked.peer_eq_of_mem (hl : s.Linked) {x : Nat × Occupant}
    (hx : x ∈ s.occupants) : x.2.peer = some x.2.owner :=
  hl.peer_eq (mem_occupants.1 hx)

theorem sendToOthers_eq (hl : s.Linked) (i : Nat) (data : Bytes) :
    sendToOthers s i data = .ok ((s.ownersBut i).map fun p => .sent p data) := by
  rw [sendToOthers, mapM_enetPeerSend fun x hx => hl.peer_eq_of_mem (List.mem_filter.1 hx).1]
  simp [Server.ownersBut]

theorem sendModifiedData_eq (hl : s.Linked) :
    sendModifiedData s =
      .ok (s.clearDirty, s.occupants.map fun x => .sent x.2.owner (encodeModified s)) := by
  rw [sendModifiedData, mapM_enetPeerSend fun x hx => hl.peer_eq_of_mem hx]
  rfl

/-! ## The handlers -/

section Connect

variable {i : Nat} {p : ENetPeer} (calls : List ScriptCall) {result : ConnectResult}

theorem occupantAt_runScript {o : Occupant} (ho : s.occupantAt i = some o) :
    ∃ o', (runScript s calls).occupantAt i = some o' ∧ o'.peer = o.peer := by
  have hpeer := peerAt_of_occupantAt ho
  rw [← (sameSlots_runScript s calls).peerAt_eq] at hpeer
  exact occupantAt_of_peerAt hpeer

/-- What a connecting peer finds when the script has run: it owns slot `i`. -/
structure Joined (s s' : Server) (i : Nat) (p : ENetPeer) : Prop where
  tableOk : s'.TableOk
  linked : s'.Linked
  length_eq : s'.peers.length = 10
  peerAt_eq_none : s.peerAt i = none
  peerAt_eq : s'.peerAt = Function.update s.peerAt i (some (some p))
  peerData_eq : s'.peerData = Function.update s.peerData p (some i)

theorem Attached.joined {s₁ : Server} (h : Attached s s₁ i p) (hs : s.TableOk) (hl : s.Linked)
    (hp : ∀ j, s.peerAt j ≠ some (some p)) : Joined s (runScript s₁ calls) i p := by
  have hsame := sameSlots_runScript s₁ calls
  refine ⟨hsame.tableOk h.tableOk, hsame.linked (h.linked hs hl hp),
    hsame.length_eq.trans h.length_eq, peerAt_eq_none.2 h.occupantAt_eq_none, ?_,
    hsame.peerData_eq.trans h.peerData_eq⟩
  rw [hsame.peerAt_eq, peerAt_update h.occupantAt_eq]
  rfl

theorem Joined.mem_ownersBut {s' : Server} (h : Joined s s' i p) {q : ENetPeer} :
    q ∈ s'.ownersBut i ↔ ∃ j, s.peerAt j = some (some q) := by
  rw [h.linked.mem_ownersBut, h.peerAt_eq]
  constructor
  · rintro ⟨j, hj, hq⟩
    rw [Function.update_of_ne hj] at hq
    exact ⟨j, hq⟩
  · rintro ⟨j, hq⟩
    have hj : j ≠ i := by
      rintro rfl
      rw [h.peerAt_eq_none] at hq
      cases hq
    exact ⟨j, hj, by rw [Function.update_of_ne hj, hq]⟩

theorem Attached.occupantAt_runScript {s₁ : Server} (h : Attached s s₁ i p) :
    ∃ o, (runScript s₁ calls).occupantAt i = some o ∧ o.peer = some p :=
  Svcenet.occupantAt_runScript calls (by rw [h.occupantAt_eq, Function.update_self])

theorem handlePeerConnect_of_attached (hs : s.TableOk) (hl : s.Linked)
    (hp : ∀ j, s.peerAt j ≠ some (some p)) {s₁ : Server} (hok : getNewPeer s = .ok (i, s₁))
    (hattach : Attached s (s₁.attachPeer i p) i p) (haccepts : result.accepts = true) :
    handlePeerConnect s p calls result = .ok (runScript (s₁.attachPeer i p) calls,
      .allocated i :: .sent p (encodeSnapshot (runScript (s₁.attachPeer i p) calls) i) ::
        ((runScript (s₁.attachPeer i p) calls).ownersBut i).map fun q =>
          .sent q (encodePadd (decimal i))) := by
  obtain ⟨o, ho, hpeer⟩ := hattach.occupantAt_runScript calls
  have hothers := sendToOthers_eq (hattach.joined calls hs hl hp).linked i (encodePadd (decimal i))
  simp only [handlePeerConnect, hok, haccepts, if_true, bind, Except.bind, ho,
    enetPeerSend_of_peer hpeer, hothers]
  rfl

theorem handlePeerConnect_of_accepts (hs : s.TableOk) (hl : s.Linked)
    (hcount : s.occupiedCount < 10) (hp : ∀ j, s.peerAt j ≠ some (some p))
    (haccepts : result.accepts = true) :
    ∃ i s₁, Attached s s₁ i p ∧
      handlePeerConnect s p calls result = .ok (runScript s₁ calls,
        .allocated i :: .sent p (encodeSnapshot (runScript s₁ calls) i) ::
          ((runScript s₁ calls).ownersBut i).map fun q => .sent q (encodePadd (decimal i))) := by
  obtain ⟨i, s₁, hok, hattach⟩ := attachPeer_spec hs hcount p
  exact ⟨i, _, hattach, handlePeerConnect_of_attached calls hs hl hp hok hattach haccepts⟩

theorem handlePeerConnect_of_rejects (hs : s.TableOk) (hcount : s.occupiedCount < 10)
    (hrejects : result.accepts = false) :
    ∃ i s₁ s', Attached s s₁ i p ∧ SlotSet (runScript s₁ calls) s' i none ∧
      handlePeerConnect s p calls result =
        .ok (s', [.allocated i, .disconnected p, .freed i p (some p)]) := by
  obtain ⟨i, s₁, hok, hattach⟩ := attachPeer_spec hs hcount p
  obtain ⟨o, ho, hpeer⟩ := hattach.occupantAt_runScript calls
  obtain ⟨s', hfree, hset⟩ :=
    freePeer_spec ((sameSlots_runScript _ calls).tableOk hattach.tableOk) ho
  refine ⟨i, _, s', hattach, hset, ?_⟩
  simp only [handlePeerConnect, hok, hrejects, bind, Except.bind, hfree, hpeer]
  rfl

end Connect

section Disconnect

variable {i : Nat} {p : ENetPeer} (calls : List ScriptCall)

theorem handlePeerDisconnect_eq (hs : s.TableOk) (hl : s.Linked) (hp : s.peerData p = some i) :
    handlePeerDisconnect s p calls = (do
      let (occupant, s') ← freePeer (runScript s calls) i
      return (s', .disconnected p ::
        ((runScript s calls).ownersBut i).map (fun q =>
          ServerEffect.sent q (cstr "PDEL " ++ decimal i)) ++
        [.freed i p occupant.peer])) := by
  have hi := hl.lt_of_peerData p i hp
  have hid : (s.peers[i]).id = i := hs.id_eq i _ (List.getElem?_eq_getElem hi)
  simp only [handlePeerDisconnect, hp, List.getElem?_eq_getElem hi, hid,
    sendToOthers_eq ((sameSlots_runScript s calls).linked hl)]
  rfl

theorem handlePeerDisconnect_of_some (hs : s.TableOk) (hl : s.Linked)
    (hp : s.peerData p = some i) {o : Occupant} (ho : s.occupantAt i = some o) :
    ∃ s', SlotSet (runScript s calls) s' i none ∧
      handlePeerDisconnect s p calls = .ok (s', .disconnected p ::
        ((runScript s calls).ownersBut i).map (fun q =>
          ServerEffect.sent q (cstr "PDEL " ++ decimal i)) ++
        [.freed i p o.peer]) := by
  obtain ⟨o', ho', hpeer⟩ := occupantAt_runScript calls ho
  obtain ⟨s', hfree, hset⟩ := freePeer_spec ((sameSlots_runScript s calls).tableOk hs) ho'
  refine ⟨s', hset, ?_⟩
  rw [handlePeerDisconnect_eq calls hs hl hp, hfree, ← hpeer]
  rfl

/-- What the end of a connection leaves: slot `i` is free. -/
structure Left (s s' : Server) (i : Nat) : Prop where
  tableOk : s'.TableOk
  linked : s'.Linked
  peerAt_eq : s'.peerAt = Function.update s.peerAt i none
  peerData_eq : s'.peerData = s.peerData

theorem handlePeerDisconnect_of_owner (hs : s.TableOk) (hl : s.Linked)
    (hi : s.peerAt i = some (some p)) :
    ∃ s', SlotSet (runScript s calls) s' i none ∧ Left s s' i ∧
      handlePeerDisconnect s p calls = .ok (s', .disconnected p ::
        ((runScript s calls).ownersBut i).map (fun q =>
          ServerEffect.sent q (cstr "PDEL " ++ decimal i)) ++
        [.freed i p (some p)]) := by
  obtain ⟨_, heq, hdata⟩ := hl.peerData_of_peerAt i _ hi
  cases heq
  obtain ⟨o, ho, hpeer⟩ := occupantAt_of_peerAt hi
  have hsame := sameSlots_runScript s calls
  have hlen : (runScript s calls).peers.length = 10 := by
    have := lt_length_of_occupantAt ho
    have := hs.length_eq
    have := hsame.length_eq
    omega
  obtain ⟨s', hset, hhandle⟩ := handlePeerDisconnect_of_some calls hs hl hdata ho
  rw [hpeer] at hhandle
  refine ⟨s', hset, ⟨hset.tableOk, hset.linked (hsame.linked hl) hlen, ?_,
    hset.peerData_eq.trans hsame.peerData_eq⟩, hhandle⟩
  rw [peerAt_update hset.occupantAt_eq, hsame.peerAt_eq]
  rfl

theorem handlePeerDisconnect_of_none (hs : s.TableOk) (hl : s.Linked)
    (hp : s.peerData p = some i) (ho : s.occupantAt i = none) :
    ∃ fault, handlePeerDisconnect s p calls = .error fault := by
  have hnone : (runScript s calls).occupantAt i = none := by
    rw [← peerAt_eq_none, (sameSlots_runScript s calls).peerAt_eq, peerAt_eq_none, ho]
  obtain ⟨fault, hfree⟩ := freePeer_of_none hnone
  refine ⟨fault, ?_⟩
  rw [handlePeerDisconnect_eq calls hs hl hp, hfree]
  rfl

end Disconnect

end Svc.Svcenet
