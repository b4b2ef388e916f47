import Svc.Libsvc.PacketCage.Order

/-!
# The timeline of the jitter buffer

Two packets that a cage returns in one stretch were put with times that lie as far
apart as the head has moved.  The labels of a labelled run only serve the proof: what is
assumed and what follows is about the run itself.
-/

namespace Svc.Libsvc

open Svc.Lib

variable {α β : Type} {size : Nat}

section Calls

variable (f : α → β) (cage : PacketCage α size)

theorem occupied_map : (cage.map f).Occupied ↔ cage.Occupied := by
  simp only [PacketCage.Occupied, slot_map, Option.isSome_map]

theorem moves_map (op : CageOp α) : (cage.map f).moves (op.map f) = cage.moves op := by
  cases op with
  | putData audioData time =>
      simp only [CageOp.map, PacketCage.moves, accepts_map, rebase_map]
      rfl
  | getData => rfl

theorem rebasesEmpty_map (op : CageOp α) :
    RebasesEmpty (cage.map f) (op.map f) ↔ RebasesEmpty cage op := by
  cases op with
  | putData audioData time =>
      simp only [CageOp.map, RebasesEmpty, slot_map, Option.map_eq_none_iff, headTime_map]
      rfl
  | getData => exact Iff.rfl

theorem next_map (op : CageOp α) :
    (cageMachine β size).next (cage.map f) (op.map f) =
      ((cageMachine α size).next cage op).map f := by
  simp only [Machine.next, step_map]

theorem headMoves_map (ops : List (CageOp α)) :
    headMoves (cage.map f) (ops.map (CageOp.map f)) = headMoves cage ops := by
  induction ops generalizing cage with
  | nil => rfl
  | cons op ops ih => simp only [List.map_cons, headMoves, moves_map, next_map, ih]

theorem guarded_rebasesEmpty_map (ops : List (CageOp α)) :
    (cageMachine β size).Guarded RebasesEmpty (cage.map f) (ops.map (CageOp.map f)) ↔
      (cageMachine α size).Guarded RebasesEmpty cage ops := by
  induction ops generalizing cage with
  | nil => exact Iff.rfl
  | cons op ops ih => simp only [List.map_cons, Machine.Guarded, rebasesEmpty_map, next_map, ih]

end Calls

/-! ## Runs -/

section Runs

variable (hsize : 0 < size) {ops pre mid : List (CageOp α)}

theorem map_tag (ops : List (CageOp α)) :
    (ops.map CageOp.tag).map (CageOp.map Packet.audioData) = ops := by
  rw [List.map_map]
  conv_rhs => rw [← List.map_id ops]
  refine List.map_congr_left fun op _ => ?_
  cases op <;> rfl

theorem map_taggedAfter (ops : List (CageOp α)) :
    (taggedAfter hsize ops).map Packet.audioData = cageAfter hsize ops :=
  (untag_run hsize ops).1

theorem rebasesOnlyEmpty_iff :
    RebasesOnlyEmpty hsize ops ↔
      (cageMachine α size).Guarded RebasesEmpty (packetCageCreate size hsize) ops := by
  have hmap := guarded_rebasesEmpty_map Packet.audioData (taggedAfter hsize [])
    (ops.map CageOp.tag)
  rw [map_tag, map_taggedAfter hsize []] at hmap
  exact hmap.symm

/-- What a cage returns, with the label of the labelled run. -/
theorem exists_tagged_of_getData {a : α}
    (ha : (packetCageGetData (cageAfter hsize ops)).1 = some a) :
    ∃ time, (packetCageGetData (taggedAfter hsize ops)).1 = some ⟨a, time⟩ := by
  rw [← map_taggedAfter, getData_map] at ha
  obtain ⟨p, hp, rfl⟩ := Option.map_eq_some_iff.1 ha
  exact ⟨p.time, hp⟩

theorem putData_mem_of_getData {p : Packet α}
    (hp : (packetCageGetData (taggedAfter hsize ops)).1 = some p) :
    CageOp.putData p.audioData p.time ∈ ops :=
  putData_mem_of_slot hsize ops (getData_eq_some hp).1

/-- Two packets that are returned in one stretch were put with times that lie as far apart
as the head has moved. -/
theorem times_of_returns (hhi : size ≤ 32768)
    (hops : (cageMachine α size).Guarded RebasesEmpty (packetCageCreate size hsize)
      (pre ++ .getData :: mid)) {a b : α}
    (ha : (packetCageGetData (cageAfter hsize pre)).1 = some a)
    (hb : (packetCageGetData (cageAfter hsize (pre ++ .getData :: mid))).1 = some b)
    (hoccupied : ∀ m, m <+: mid → (cageAfter hsize (pre ++ .getData :: m)).Occupied) :
    ∃ t u, CageOp.putData a t ∈ pre ∧ CageOp.putData b u ∈ pre ++ .getData :: mid ∧
      u = timeIncBy t (1 + headMoves (cageAfter hsize (pre ++ [.getData])) mid) := by
  obtain ⟨t, ht⟩ := exists_tagged_of_getData hsize ha
  obtain ⟨u, hu⟩ := exists_tagged_of_getData hsize hb
  have hret : ReturnsInStretch hsize pre mid ⟨a, t⟩ ⟨b, u⟩ := by
    refine ⟨ht, hu, fun m hm => ?_⟩
    have hm := hoccupied m hm
    rwa [← map_taggedAfter, occupied_map] at hm
  have htime : u = timeIncBy t (movesBetween hsize pre mid) :=
    time_of_returnsInStretch hhi ((rebasesOnlyEmpty_iff hsize).2 hops) hret
  refine ⟨t, u, putData_mem_of_getData hsize ht, putData_mem_of_getData hsize hu, ?_⟩
  have hmoves := headMoves_map Packet.audioData (taggedAfter hsize (pre ++ [.getData]))
    (mid.map CageOp.tag)
  rw [map_tag, map_taggedAfter] at hmoves
  rw [htime, movesBetween, hmoves]
  exact timeIncBy_congr _ (by omega)

end Runs

end Svc.Libsvc
