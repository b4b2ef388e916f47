import Svc.Libsvc.PacketCage.Steps

/-!
# Packets labelled with their put time

The cage moves audio data pointers without looking at them, so renaming them
commutes with every call.  A run may therefore be followed with each pointer
labelled by the time it was put with; dropping the labels gives the run back.
-/

namespace Svc.Libsvc

open Svc.Lib

variable {α β : Type} {size : Nat}

def CageEvent.map (f : α → β) : CageEvent α → CageEvent β
  | .destroyed audioData => .destroyed (f audioData)
  | .printed line => .printed line

def PacketCage.map (f : α → β) (cage : PacketCage α size) : PacketCage β size :=
  { cage with audioQueue := cage.audioQueue.map (Option.map f) }

def CageOp.map (f : α → β) : CageOp α → CageOp β
  | .putData audioData time => .putData (f audioData) time
  | .getData => .getData

def CageOut.map (f : α → β) (out : CageOut α) : CageOut β :=
  ⟨out.returned.map f, out.events.map (CageEvent.map f)⟩

section Calls

variable (f : α → β) (cage : PacketCage α size)

@[simp] theorem head_map : (cage.map f).head = cage.head := rfl

@[simp] theorem headTime_map : (cage.map f).headTime = cage.headTime := rfl

@[simp] theorem slot_map (i : Fin size) : (cage.map f).slot i = (cage.slot i).map f := by
  simp [PacketCage.slot, PacketCage.map]

@[simp] theorem accepts_map (time : PacketTime) :
    (cage.map f).accepts time = cage.accepts time := rfl

theorem set_map (i : Fin size) (x : Option α) :
    (cage.map f).audioQueue.set i (x.map f) i.isLt =
      (cage.audioQueue.set i x i.isLt).map (Option.map f) := by
  simp [PacketCage.map]

theorem advance_map : (cage.map f).advance = cage.advance.map f := by
  have hset := set_map f cage cage.head none
  simp only [Option.map_none] at hset
  simp only [PacketCage.advance, slot_map, head_map, Option.isSome_map, hset]
  rfl

theorem popped_map : (cage.map f).popped = cage.popped.map f := by
  unfold PacketCage.popped
  rw [advance_map]
  rfl

theorem destroyed_map (x : Option α) :
    (((x.map f).map CageEvent.destroyed).toList : List (CageEvent β)) =
      ((x.map CageEvent.destroyed).toList).map (CageEvent.map f) := by
  cases x <;> rfl

theorem printed_map {p : Prop} [Decidable p] (line : String) :
    (if p then [CageEvent.printed line] else [] : List (CageEvent β)) =
      (if p then [CageEvent.printed line] else [] : List (CageEvent α)).map (CageEvent.map f) := by
  split <;> rfl

theorem elementsCount_map : (cage.map f).elementsCount = cage.elementsCount := rfl

theorem flushOne_map (s : PacketCage α size × List (CageEvent α)) :
    flushOne (s.1.map f, s.2.map (CageEvent.map f)) =
      ((flushOne s).1.map f, (flushOne s).2.map (CageEvent.map f)) := by
  refine Prod.ext ?_ ?_
  · rw [flushOne_fst, flushOne_fst, popped_map]
  · simp only [flushOne, packetCagePop_eq, advance_map, slot_map, head_map, destroyed_map,
      elementsCount_map, printed_map f, List.map_append]
    rfl

theorem flush_map (time : PacketTime) :
    packetCageFlush (cage.map f) time =
      ((packetCageFlush cage time).1.map f,
        (packetCageFlush cage time).2.map (CageEvent.map f)) := by
  have hiterate (n : Nat) : ∀ s : PacketCage α size × List (CageEvent α),
      flushOne^[n] (s.1.map f, s.2.map (CageEvent.map f)) =
        ((flushOne^[n] s).1.map f, (flushOne^[n] s).2.map (CageEvent.map f)) := by
    induction n with
    | zero => exact fun _ => rfl
    | succ n ih =>
        intro s
        simp only [Function.iterate_succ_apply, flushOne_map, ih]
  rw [packetCageFlush_eq_iterate, packetCageFlush_eq_iterate]
  exact hiterate _ (cage, [])

theorem rebase_map (time : PacketTime) : (cage.map f).rebase time = (cage.rebase time).map f := by
  unfold PacketCage.rebase
  split <;> (split <;> first | rfl | contradiction)

theorem store_map (audioData : α) (time : PacketTime) :
    (cage.map f).store (f audioData) time = (cage.store audioData time).map f := by
  have hset := set_map f cage (deltaPointInCage cage.head (subTime time cage.headTime))
    (some audioData)
  simp only [Option.map_some] at hset
  simp only [PacketCage.store, head_map, headTime_map, hset]
  rfl

theorem putData_map (audioData : α) (time : PacketTime) :
    packetCagePutData (cage.map f) (f audioData) time =
      ((packetCagePutData cage audioData time).1.map f,
        (packetCagePutData cage audioData time).2.map (CageEvent.map f)) := by
  unfold packetCagePutData
  rw [accepts_map, rebase_map, flush_map]
  split
  · simp only [store_map]
  · rfl

theorem getData_map :
    packetCageGetData (cage.map f) =
      ((packetCageGetData cage).1.map f, (packetCageGetData cage).2.1.map f,
        (packetCageGetData cage).2.2.map (CageEvent.map f)) := by
  cases hstarving : cage.cageStarvation with
  | true =>
      rw [packetCageGetData_of_starving cage hstarving,
        packetCageGetData_of_starving (cage.map f) hstarving]
      rfl
  | false =>
      rw [packetCageGetData_of_not_starving cage hstarving,
        packetCageGetData_of_not_starving (cage.map f) hstarving]
      simp only [slot_map, head_map, advance_map, elementsCount_map, printed_map f]

theorem step_map (op : CageOp α) :
    (cageMachine β size).step (cage.map f) (op.map f) =
      (((cageMachine α size).step cage op).1.map f,
        ((cageMachine α size).step cage op).2.map f) := by
  cases op with
  | putData audioData time =>
      simp only [cageMachine, CageOp.map, putData_map]
      rfl
  | getData =>
      simp only [cageMachine, CageOp.map, getData_map]
      rfl

end Calls

/-! ## Runs -/

theorem run_map (f : α → β) (cage : PacketCage α size) (ops : List (CageOp α)) :
    (cageMachine β size).run (cage.map f) (ops.map (CageOp.map f)) =
        ((cageMachine α size).run cage ops).map f ∧
      (cageMachine β size).outputs (cage.map f) (ops.map (CageOp.map f)) =
        ((cageMachine α size).outputs cage ops).map (CageOut.map f) := by
  induction ops generalizing cage with
  | nil => exact ⟨rfl, rfl⟩
  | cons op ops ih =>
      have hnext : (cageMachine β size).next (cage.map f) (op.map f) =
          ((cageMachine α size).next cage op).map f := by
        simp only [Machine.next, step_map]
      have hout : (cageMachine β size).out (cage.map f) (op.map f) =
          ((cageMachine α size).out cage op).map f := by
        simp only [Machine.out, step_map]
      obtain ⟨hrun, houts⟩ := ih ((cageMachine α size).next cage op)
      simp only [List.map_cons, Machine.run_cons, Machine.outputs_cons, hnext, hout, hrun, houts]
      exact ⟨trivial, trivial⟩

/-- Audio data labelled with the time it was put with. -/
structure Packet (α : Type) where
  audioData : α
  time : PacketTime
  deriving DecidableEq

def CageOp.tag : CageOp α → CageOp (Packet α)
  | .putData audioData time => .putData ⟨audioData, time⟩ time
  | .getData => .getData

/-- Dropping the labels of a labelled run gives the run. -/
theorem untag_run (hsize : 0 < size) (ops : List (CageOp α)) :
    (cageAfter hsize (ops.map CageOp.tag)).map Packet.audioData = cageAfter hsize ops ∧
      (cageOutputs hsize (ops.map CageOp.tag)).map (CageOut.map Packet.audioData) =
        cageOutputs hsize ops := by
  have hops : (ops.map CageOp.tag).map (CageOp.map Packet.audioData) = ops := by
    rw [List.map_map]
    conv_rhs => rw [← List.map_id ops]
    refine List.map_congr_left fun op _ => ?_
    cases op <;> rfl
  have hstart : (packetCageCreate size hsize : PacketCage (Packet α) size).map
      Packet.audioData = packetCageCreate size hsize := by
    simp [packetCageCreate, PacketCage.map]
  obtain ⟨hrun, houts⟩ := run_map Packet.audioData
    (packetCageCreate size hsize : PacketCage (Packet α) size) (ops.map CageOp.tag)
  rw [hops, hstart] at hrun houts
  exact ⟨hrun.symm, houts.symm⟩

end Svc.Libsvc
