import Svc.Libsvc.PacketCage.Steps
import Mathlib.Tactic.Linarith

/-!
# The element count of the jitter buffer

`elements_count` is kept beside the slots, and starvation and re-basing are
decided on it.  The excess of the count over the occupied slots is the quantity
that every call is measured by: only a put that overwrites a packet changes it.
-/

namespace Svc.Libsvc

open Svc.Lib

variable {α : Type} {size : Nat}

/-- How far `elements_count` is above the number of occupied slots. -/
def PacketCage.excess (cage : PacketCage α size) : Int := cage.elementsCount - cage.occupied

/-- An empty count goes with starvation and a cage to be re-based. -/
def PacketCage.RestsWhenEmpty (cage : PacketCage α size) : Prop :=
  cage.elementsCount = 0 → cage.cageStarvation = true ∧ cage.newCage = true

section Calls

variable (cage : PacketCage α size) (audioData : α) (time : PacketTime)

theorem occupied_set (i : Fin size) (x : Option α) :
    (cage.audioQueue.set i x i.isLt).countP Option.isSome + (cage.slot i).isSome.toNat =
      cage.occupied + x.isSome.toNat := by
  have hset : (cage.audioQueue.set i x i.isLt).countP Option.isSome = _ := Vector.countP_set i.isLt
  rw [show cage.audioQueue[i.val] = cage.slot i from rfl] at hset
  have hmem : cage.slot i ∈ cage.audioQueue := Vector.getElem_mem i.isLt
  unfold PacketCage.occupied
  cases hslot : (cage.slot i).isSome with
  | true =>
      have hpos : 0 < cage.audioQueue.countP Option.isSome :=
        Vector.countP_pos_iff.2 ⟨_, hmem, hslot⟩
      rw [if_pos hslot] at hset
      cases x <;> simp at hset ⊢ <;> omega
  | false =>
      rw [if_neg (by simp [hslot])] at hset
      cases x <;> simp at hset ⊢ <;> omega

theorem elementsCount_advance :
    cage.advance.elementsCount = cage.elementsCount - (cage.slot cage.head).isSome.toNat := by
  cases hslot : (cage.slot cage.head).isSome <;> simp [PacketCage.advance, hslot]

@[simp] theorem excess_advance : cage.advance.excess = cage.excess := by
  have hset := occupied_set cage cage.head none
  have hcount := elementsCount_advance cage
  simp only [Option.isSome_none, Bool.toNat_false, Nat.add_zero] at hset
  unfold PacketCage.excess
  rw [hcount, show cage.advance.occupied =
    (cage.audioQueue.set cage.head none).countP Option.isSome from rfl]
  omega

@[simp] theorem excess_popped : cage.popped.excess = cage.excess := excess_advance cage

@[simp] theorem excess_rebase : (cage.rebase time).excess = cage.excess := by
  simp [PacketCage.excess, PacketCage.occupied]

theorem excess_flushed : (cage.flushed time).excess = cage.excess := by
  refine iterate_invariant 
    (I := fun c : PacketCage α size => c.excess = cage.excess) ?_ _ (excess_rebase cage time)
  intro c hc
  rw [excess_popped, hc]

theorem excess_store :
    (cage.store audioData time).excess =
      cage.excess + (cage.slot (cage.target time)).isSome.toNat := by
  have hset := occupied_set cage (cage.target time) (some audioData)
  simp only [Option.isSome_some, Bool.toNat_true] at hset
  unfold PacketCage.excess
  rw [elementsCount_store, show (cage.store audioData time).occupied =
    (cage.audioQueue.set (cage.target time) (some audioData)).countP Option.isSome from rfl]
  omega

theorem excess_putData :
    (packetCagePutData cage audioData time).1.excess =
      cage.excess + (decide (cage.Overwrites time)).toNat := by
  cases haccept : cage.accepts time with
  | true =>
      rw [packetCagePutData_of_accepts cage audioData time haccept, excess_store, excess_flushed]
      simp [overwrites_iff cage time haccept]
  | false =>
      rw [packetCagePutData_of_not_accepts cage audioData time haccept]
      simp [PacketCage.Overwrites, haccept]

theorem excess_getData : (packetCageGetData cage).2.1.excess = cage.excess := by
  cases hstarving : cage.cageStarvation with
  | true => rw [packetCageGetData_of_starving cage hstarving]
  | false => rw [packetCageGetData_of_not_starving cage hstarving, excess_advance]

theorem restsWhenEmpty_advance : cage.advance.RestsWhenEmpty := by
  intro hzero
  simp only [PacketCage.advance] at hzero ⊢
  simp [hzero]

theorem restsWhenEmpty_getData (h : cage.RestsWhenEmpty) :
    (packetCageGetData cage).2.1.RestsWhenEmpty := by
  cases hstarving : cage.cageStarvation with
  | true => rwa [packetCageGetData_of_starving cage hstarving]
  | false =>
      rw [packetCageGetData_of_not_starving cage hstarving]
      exact restsWhenEmpty_advance cage

theorem restsWhenEmpty_putData (h : cage.RestsWhenEmpty) (hexcess : 0 ≤ cage.excess) :
    (packetCagePutData cage audioData time).1.RestsWhenEmpty := by
  cases haccept : cage.accepts time with
  | true =>
      rw [packetCagePutData_of_accepts cage audioData time haccept]
      intro hzero
      have hflushed := excess_flushed cage time
      simp only [elementsCount_store] at hzero
      simp only [PacketCage.excess] at hflushed hexcess
      omega
  | false => rwa [packetCagePutData_of_not_accepts cage audioData time haccept]

end Calls

/-! ## Runs -/

/-- A call that does not overwrite a packet. -/
def KeepsCount (cage : PacketCage α size) : CageOp α → Prop
  | .putData _ time => ¬ cage.Overwrites time
  | .getData => True

instance (cage : PacketCage α size) : (op : CageOp α) → Decidable (KeepsCount cage op)
  | .putData _ time => inferInstanceAs (Decidable (¬ cage.Overwrites time))
  | .getData => .isTrue trivial

/-- What the count promises after a run. -/
structure CountExact (hsize : 0 < size) (ops : List (CageOp α)) : Prop where
  /-- `elements_count` is the number of non-`NULL` slots -/
  elementsCount_eq : (cageAfter hsize ops).elementsCount = (cageAfter hsize ops).occupied
  /-- a cage found without packets after a `get_data` is in starvation and new -/
  rests_of_getData : ∀ pre, ops = pre ++ [.getData] → (cageAfter hsize ops).occupied = 0 →
    (cageAfter hsize ops).cageStarvation = true ∧ (cageAfter hsize ops).newCage = true
  /-- a cage that is not in starvation holds a packet -/
  occupied_pos : (cageAfter hsize ops).cageStarvation = false → 0 < (cageAfter hsize ops).occupied

theorem countExact_of_excess {hsize : 0 < size} {ops : List (CageOp α)}
    (hexcess : (cageAfter hsize ops).excess = 0) (hrests : (cageAfter hsize ops).RestsWhenEmpty) :
    CountExact hsize ops := by
  have hcount : (cageAfter hsize ops).elementsCount = (cageAfter hsize ops).occupied := by
    unfold PacketCage.excess at hexcess
    omega
  refine ⟨hcount, fun _ _ hzero => hrests (by omega), fun hstarving => ?_⟩
  by_contra hzero
  have := (hrests (by omega)).1
  simp [hstarving] at this

theorem excess_create (hsize : 0 < size) :
    (packetCageCreate size hsize : PacketCage α size).excess = 0 := by
  simp [PacketCage.excess, PacketCage.occupied, packetCageCreate, Vector.countP_replicate]

theorem keepsCount_run {hsize : 0 < size} {ops : List (CageOp α)}
    (hops : (cageMachine α size).Guarded KeepsCount (packetCageCreate size hsize) ops) :
    (cageAfter hsize ops).excess = 0 ∧ (cageAfter hsize ops).RestsWhenEmpty := by
  refine (cageMachine α size).invariant_run_of_guarded
    (I := fun cage => cage.excess = 0 ∧ cage.RestsWhenEmpty) ?_ ?_ hops
  · rintro cage (⟨audioData, time⟩ | _) ⟨hexcess, hrests⟩ hkeeps
    · refine ⟨?_, restsWhenEmpty_putData cage audioData time hrests hexcess.ge⟩
      have hnot : ¬ cage.Overwrites time := hkeeps
      rw [next_putData, excess_putData, hexcess, decide_eq_false hnot]
      rfl
    · exact ⟨(excess_getData cage).trans hexcess, restsWhenEmpty_getData cage hrests⟩
  · exact ⟨excess_create hsize, fun _ => ⟨rfl, rfl⟩⟩

/-- The count is exact at every moment of a run if and only if no put of the run
overwrites a packet. -/
theorem countExact_iff (hsize : 0 < size) (ops : List (CageOp α)) :
    (∀ pre, pre <+: ops → CountExact hsize pre) ↔
      (cageMachine α size).Guarded KeepsCount (packetCageCreate size hsize) ops := by
  refine (cageMachine α size).forall_prefix_iff_guarded ops ?_ ?_
  · exact countExact_of_excess (excess_create hsize) fun _ => ⟨rfl, rfl⟩
  · intro pre op _ hpre
    have hbefore := keepsCount_run hpre
    constructor
    · intro hexact
      cases op with
      | getData => trivial
      | putData audioData time =>
          intro hover
          have hcount := hexact.elementsCount_eq
          have hexcess := excess_putData (cageAfter hsize pre) audioData time
          have hover : (cageAfter hsize pre).Overwrites time := hover
          rw [decide_eq_true hover, hbefore.1] at hexcess
          have hafter : (cageAfter hsize (pre ++ [.putData audioData time])).excess = 0 := by
            unfold PacketCage.excess
            omega
          simp only [cageAfter, Machine.run_concat, next_putData, Bool.toNat_true]
            at hafter hexcess
          omega
    · intro hkeeps
      have hguarded := ((cageMachine α size).guarded_concat _ _ pre op).2 ⟨hpre, hkeeps⟩
      exact countExact_of_excess (keepsCount_run hguarded).1 (keepsCount_run hguarded).2

/-- On two slots: one put of each time keeps the count. -/
theorem countExact_iff_two_slots :
    (∀ pre, pre <+: [CageOp.putData 10 7, .putData 11 8, .getData] →
      CountExact (by decide : 0 < 2) pre) ↔
      (cageMachine Nat 2).Guarded KeepsCount (packetCageCreate 2 (by decide))
        [.putData 10 7, .putData 11 8, .getData] :=
  countExact_iff (by decide) _

/-- A packet that arrives twice is counted twice and stored once. -/
theorem not_countExact_of_repeat :
    ¬ CountExact (by decide : 0 < 5)
      [CageOp.putData 10 7, .putData 11 8, .putData 12 8] := by
  intro hexact
  exact absurd hexact.elementsCount_eq (by decide)

end Svc.Libsvc
