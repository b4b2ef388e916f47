import Mathlib.Tactic.Linarith
import Svc.Libsvc.Incoming
import Svc.Lib.Dict

/-!
# What the mixer is for

The abstract mixer has the peers that joined and did not leave, the last one first, each
with its cage.  Every packet in a cage is allocated, is no silence and is there once, and
the calls keep it so.
-/

namespace Svc.Libsvc

open Svc.Lib

structure Mixer where
  peers : List (PeerPtr × PeerCage)
  /-- the peers that left -/
  left : List PeerPtr
  audio : AudioHeap
  silentSound : AudioPtr
  frameSize : Nat

def AudioHeap.release (audio : AudioHeap) (packets : List AudioPtr) : AudioHeap :=
  fun a => if a ∈ packets then none else audio a

def dueIn (peers : List (PeerPtr × PeerCage)) : List AudioPtr :=
  peers.filterMap fun x => (packetCageGetData x.2).1

def heldIn (peers : List (PeerPtr × PeerCage)) (a : AudioPtr) : Nat :=
  (peers.map fun x => x.2.held a).sum

/-- Every packet that is held is held once, is allocated and is not the silent one. -/
structure AudioHeap.Accounted (audio : AudioHeap) (held : AudioPtr → Nat)
    (silentSound : AudioPtr) : Prop where
  once : ∀ a, held a ≤ 1
  allocated : ∀ a, 0 < held a → audio a ≠ none ∧ a ≠ silentSound
  silent : audio silentSound ≠ none

namespace Mixer

def init (frameSize : Nat) (silentSound : AudioPtr) : Mixer where
  peers := []
  left := []
  audio := Function.update (fun _ => none) silentSound (some frameSize)
  silentSound := silentSound
  frameSize := frameSize

def joined (m : Mixer) : List PeerPtr := m.peers.map Prod.fst

def due (m : Mixer) : List AudioPtr := dueIn m.peers

def next (m : Mixer) : IncomingOp → Mixer
  | .join newPeer => { m with peers := (newPeer, newPeerCage) :: m.peers }
  | .leave peer =>
      match Dict.find Prod.fst peer m.peers with
      | none => m
      | some x =>
          { m with
            peers := m.peers.filter (·.1 ≠ peer)
            left := peer :: m.left
            audio := m.audio.release x.2.packets }
  | .recieve audioData time peer =>
      match Dict.find Prod.fst peer m.peers with
      | none => m
      | some x =>
          let put := packetCagePutData x.2 audioData time
          { m with
            peers := Dict.set Prod.fst peer (fun x => (x.1, put.1)) x m.peers
            audio := AudioHeap.release (Function.update m.audio audioData (some m.frameSize))
              (destroyedBy put.2) }
  | .request _ =>
      { m with
        peers := m.peers.map fun x => (x.1, (packetCageGetData x.2).2.1)
        audio := m.audio.release m.due }

/-- A peer is left at most once and gets packets while it is joined, and `malloc` returns
no block that is in use. -/
def Allowed (m : Mixer) : IncomingOp → Prop
  | .join newPeer => newPeer ∉ m.joined ++ m.left
  | .leave peer => peer ∈ m.joined
  | .recieve audioData _ peer => m.audio audioData = none ∧ peer ∈ m.joined
  | .request _ => True

instance (m : Mixer) : (op : IncomingOp) → Decidable (m.Allowed op)
  | .join newPeer => inferInstanceAs (Decidable (newPeer ∉ m.joined ++ m.left))
  | .leave peer => inferInstanceAs (Decidable (peer ∈ m.joined))
  | .recieve audioData _ peer =>
      inferInstanceAs (Decidable (m.audio audioData = none ∧ peer ∈ m.joined))
  | .request _ => .isTrue trivial

def held (m : Mixer) (a : AudioPtr) : Nat := heldIn m.peers a

/-- The peers differ, and so do the packets in their cages. -/
structure Owned (m : Mixer) : Prop where
  nodup : (m.joined ++ m.left).Nodup
  packets : m.audio.Accounted m.held m.silentSound

end Mixer

def mixerMachine : Machine Mixer IncomingOp Unit where
  step m op := (m.next op, ())

/-! ## Packets -/

theorem count_packets {α : Type} [DecidableEq α] {size : Nat} (cage : PacketCage α size) (a : α) :
    cage.packets.count a = cage.held a := by
  have hcount (l : List (Option α)) : (l.filterMap id).count a = l.count (some a) := by
    induction l with
    | nil => rfl
    | cons x l ih =>
        cases x with
        | none => rw [List.filterMap_cons_none rfl, ih, List.count_cons_of_ne (by simp)]
        | some b =>
            rw [List.filterMap_cons_some (f := id) (b := b) rfl, List.count_cons, List.count_cons,
              ih]
            simp
  rw [PacketCage.packets, hcount, PacketCage.held, Vector.count_toList]

theorem count_destroyedBy {α : Type} [DecidableEq α] (events : List (CageEvent α)) (a : α) :
    (destroyedBy events).count a = events.count (.destroyed a) := by
  unfold destroyedBy
  induction events with
  | nil => rfl
  | cons event events ih => cases event <;> simp [List.count_cons, ih]

/-- What a put adds to a cage, with what it destroys -/
theorem held_putData (cage : PeerCage) (audioData : AudioPtr) (time : PacketTime) (a : AudioPtr) :
    (packetCagePutData cage audioData time).1.held a +
        (destroyedBy (packetCagePutData cage audioData time).2).count a ≤
      cage.held a + if a = audioData then 1 else 0 := by
  have hbalance := balance_next cage a (.putData audioData time)
  have hhanded : [audioData].count a = if a = audioData then 1 else 0 := by
    rw [List.count_singleton]
    simp only [beq_iff_eq, eq_comm (a := audioData)]
  rw [next_putData, out_putData] at hbalance
  simp only [CageOp.handed, Option.toList_some, Option.toList_none, List.count_nil,
    hhanded] at hbalance
  rw [count_destroyedBy]
  omega

theorem held_getData (cage : PeerCage) (a : AudioPtr) :
    (packetCageGetData cage).2.1.held a + (packetCageGetData cage).1.toList.count a =
      cage.held a := by
  cases hstarving : cage.cageStarvation with
  | true =>
      rw [packetCageGetData_of_starving cage hstarving]
      rfl
  | false =>
      rw [packetCageGetData_of_not_starving cage hstarving]
      exact held_advance cage a

theorem held_newPeerCage (a : AudioPtr) : newPeerCage.held a = 0 := by
  simp [newPeerCage, PacketCage.held, packetCageCreate, Vector.count_replicate]

section HeldIn

variable (xs ys : List (PeerPtr × PeerCage)) (a : AudioPtr)

theorem heldIn_cons (x : PeerPtr × PeerCage) :
    heldIn (x :: xs) a = x.2.held a + heldIn xs a := rfl

theorem dueIn_cons (x : PeerPtr × PeerCage) :
    dueIn (x :: xs) = (packetCageGetData x.2).1.toList ++ dueIn xs := by
  unfold dueIn
  rw [List.filterMap_cons]
  cases (packetCageGetData x.2).1 <;> rfl

theorem heldIn_append : heldIn (xs ++ ys) a = heldIn xs a + heldIn ys a := by
  simp [heldIn]

/-- What the cages hold they hold after a request, except for what it takes. -/
theorem heldIn_getData :
    heldIn (xs.map fun x => (x.1, (packetCageGetData x.2).2.1)) a + (dueIn xs).count a =
      heldIn xs a := by
  induction xs with
  | nil => rfl
  | cons x xs ih =>
      have hx := held_getData x.2 a
      rw [List.map_cons, heldIn_cons, heldIn_cons, dueIn_cons, List.count_append]
      dsimp only
      omega

end HeldIn

@[simp] theorem release_nil (audio : AudioHeap) : audio.release [] = audio :=
  funext fun _ => by simp [AudioHeap.release]

theorem release_cons (audio : AudioHeap) (a : AudioPtr) (packets : List AudioPtr) :
    audio.release (a :: packets) =
      AudioHeap.release (Function.update audio a none) packets := by
  funext b
  by_cases hb : b = a <;> simp [AudioHeap.release, hb]

theorem free_eq {audio : AudioHeap} {a : AudioPtr} (ha : audio a ≠ none) :
    audio.free a = .ok (Function.update audio a none) := by
  obtain ⟨size, hsize⟩ := Option.ne_none_iff_exists'.1 ha
  rw [AudioHeap.free, hsize]

theorem foldlM_free {packets : List AudioPtr} (hnodup : packets.Nodup) {audio : AudioHeap}
    (haudio : ∀ a ∈ packets, audio a ≠ none) :
    packets.foldlM AudioHeap.free audio = .ok (audio.release packets) := by
  induction packets generalizing audio with
  | nil =>
      rw [release_nil]
      rfl
  | cons a packets ih =>
      obtain ⟨ha, hpackets⟩ := List.nodup_cons.1 hnodup
      obtain ⟨haudioA, haudio⟩ := List.forall_mem_cons.1 haudio
      rw [List.foldlM_cons, free_eq haudioA, release_cons]
      refine ih hpackets fun b hb => ?_
      rw [Function.update_of_ne (ne_of_mem_of_not_mem hb ha)]
      exact haudio b hb

/-! ## Ownership -/

section Accounted

variable {held held' : AudioPtr → Nat} {audio : AudioHeap} {silentSound : AudioPtr}

theorem AudioHeap.Accounted.not_mem (h : audio.Accounted held silentSound)
    {packets : List AudioPtr} (hpackets : ∀ a, packets.count a ≤ held a) :
    silentSound ∉ packets := fun hmem => by
  have hpos := List.count_pos_iff.2 hmem
  have hle := hpackets silentSound
  exact (h.allocated silentSound (by omega)).2 rfl

/-- Packets that are no longer held can be freed. -/
theorem AudioHeap.Accounted.release (h : audio.Accounted held silentSound)
    {freed : List AudioPtr} (hfreed : ∀ a, held' a + freed.count a ≤ held a) :
    (audio.release freed).Accounted held' silentSound where
  once a := by
    have hle := hfreed a
    have hone := h.once a
    omega
  allocated a ha := by
    have hle := hfreed a
    have hone := h.once a
    have hnot : a ∉ freed := fun hmem => by
      have hpos := List.count_pos_iff.2 hmem
      omega
    rw [AudioHeap.release, if_neg hnot]
    exact h.allocated a (by omega)
  silent := by
    rw [AudioHeap.release, if_neg (h.not_mem fun a => (Nat.le_add_left _ _).trans (hfreed a))]
    exact h.silent

/-- A new packet can be held. -/
theorem AudioHeap.Accounted.alloc (h : audio.Accounted held silentSound) {new : AudioPtr}
    (hnew : audio new = none) (size : Nat) :
    AudioHeap.Accounted (Function.update audio new (some size))
      (fun a => held a + if a = new then 1 else 0) silentSound where
  once a := by
    have hone := h.once a
    split
    · next ha =>
        have hzero : held a = 0 := Nat.eq_zero_of_not_pos fun hpos =>
          (h.allocated a hpos).1 (ha ▸ hnew)
        omega
    · exact hone
  allocated a ha := by
    by_cases heq : a = new
    · subst heq
      refine ⟨by simp, fun hsilent => h.silent (hsilent ▸ hnew)⟩
    · rw [if_neg heq] at ha
      rw [Function.update_of_ne heq]
      exact h.allocated a ha
  silent := by
    have hne : silentSound ≠ new := fun heq => h.silent (heq ▸ hnew)
    rw [Function.update_of_ne hne]
    exact h.silent

end Accounted

namespace Mixer

theorem owned_init (frameSize : Nat) (silentSound : AudioPtr) :
    (init frameSize silentSound).Owned where
  nodup := List.nodup_nil
  packets := ⟨fun _ => Nat.zero_le _, fun _ h => absurd h (Nat.lt_irrefl 0), by simp [init]⟩

variable {m : Mixer}

theorem exists_peer {peer : PeerPtr} (hpeer : peer ∈ m.joined) :
    ∃ x before after, x.1 = peer ∧ m.peers = before ++ x :: after ∧
      peer ∉ before.map Prod.fst := by
  cases hfind : Dict.find Prod.fst peer m.peers with
  | none => exact absurd hpeer (Dict.find_eq_none.1 hfind)
  | some x =>
      obtain ⟨hx, before, after, hpeers, hbefore⟩ := Dict.find_eq_some.1 hfind
      exact ⟨x, before, after, hx, hpeers, hbefore⟩

section Calls

variable {x : PeerPtr × PeerCage} {before after : List (PeerPtr × PeerCage)}

theorem next_leave (hpeers : m.peers = before ++ x :: after) (hnodup : m.joined.Nodup) :
    m.next (.leave x.1) =
      { m with
        peers := before ++ after
        left := x.1 :: m.left
        audio := m.audio.release x.2.packets } := by
  have hfind : Dict.find Prod.fst x.1 m.peers = some x :=
    Dict.find_of_mem hnodup (by simp [hpeers])
  rw [joined, hpeers] at hnodup
  rw [next, hfind]
  simp only [hpeers, Dict.filter_append_cons hnodup]

theorem next_recieve (hpeers : m.peers = before ++ x :: after)
    (hbefore : x.1 ∉ before.map Prod.fst) (audioData : AudioPtr) (time : PacketTime) :
    m.next (.recieve audioData time x.1) =
      { m with
        peers := before ++ (x.1, (packetCagePutData x.2 audioData time).1) :: after
        audio := AudioHeap.release (Function.update m.audio audioData (some m.frameSize))
          (destroyedBy (packetCagePutData x.2 audioData time).2) } := by
  have hfind : Dict.find Prod.fst x.1 m.peers = some x :=
    Dict.find_eq_some.2 ⟨rfl, before, after, hpeers, hbefore⟩
  rw [next, hfind]
  simp only [hpeers, Dict.set_append_cons hbefore]

end Calls

theorem owned_join (h : m.Owned) {newPeer : PeerPtr} (hnew : newPeer ∉ m.joined ++ m.left) :
    (m.next (.join newPeer)).Owned where
  nodup := List.nodup_cons.2 ⟨hnew, h.nodup⟩
  packets := by
    have hheld : (m.next (.join newPeer)).held = m.held := funext fun a =>
      (congrArg (· + heldIn m.peers a) (held_newPeerCage a)).trans (Nat.zero_add _)
    rw [hheld]
    exact h.packets

theorem owned_leave (h : m.Owned) {peer : PeerPtr} (hpeer : peer ∈ m.joined) :
    (m.next (.leave peer)).Owned := by
  obtain ⟨x, before, after, rfl, hpeers, -⟩ := exists_peer hpeer
  rw [next_leave hpeers h.nodup.of_append_left]
  refine ⟨?_, h.packets.release fun a => ?_⟩
  · have hperm : (m.joined ++ m.left).Perm
        ((before ++ after).map Prod.fst ++ x.1 :: m.left) := by
      rw [joined, hpeers, List.map_append, List.map_cons, List.map_append, List.append_assoc,
        List.append_assoc]
      exact (List.perm_middle.trans
        ((List.perm_middle.append_left (before.map Prod.fst)).trans List.perm_middle).symm)
    exact hperm.nodup_iff.1 h.nodup
  · have hheld : m.held a = _ := congrArg (heldIn · a) hpeers
    rw [count_packets, hheld, held, heldIn_append, heldIn_append, heldIn_cons]
    omega

theorem owned_recieve (h : m.Owned) {audioData : AudioPtr} (time : PacketTime) {peer : PeerPtr}
    (haudio : m.audio audioData = none) (hpeer : peer ∈ m.joined) :
    (m.next (.recieve audioData time peer)).Owned := by
  obtain ⟨x, before, after, rfl, hpeers, hbefore⟩ := exists_peer hpeer
  rw [next_recieve hpeers hbefore]
  refine ⟨?_, (h.packets.alloc haudio m.frameSize).release fun a => ?_⟩
  · have hnodup := h.nodup
    rw [joined, hpeers] at hnodup
    simpa [joined] using hnodup
  · have hheld : m.held a = _ := congrArg (heldIn · a) hpeers
    have hput := held_putData x.2 audioData time a
    rw [heldIn_append, heldIn_cons] at hheld
    rw [held, heldIn_append, heldIn_cons]
    dsimp only
    omega

theorem count_due_le (m : Mixer) (a : AudioPtr) : m.due.count a ≤ m.held a :=
  (Nat.le_add_left _ _).trans (heldIn_getData m.peers a).le

theorem owned_request (h : m.Owned) (size : Nat) : (m.next (.request size)).Owned where
  nodup := by
    have hjoined : (m.next (.request size)).joined = m.joined := by
      simp [joined, next]
    rw [hjoined]
    exact h.nodup
  packets := h.packets.release fun a => (heldIn_getData m.peers a).le

/-- The calls keep the packets in the cages apart. -/
theorem owned_next (h : m.Owned) {op : IncomingOp} (hop : m.Allowed op) : (m.next op).Owned := by
  cases op with
  | join newPeer => exact owned_join h hop
  | leave peer => exact owned_leave h hop
  | recieve audioData time peer => exact owned_recieve h time hop.1 hop.2
  | request size => exact owned_request h size

end Mixer

end Svc.Libsvc
