import Svc.Libsvc.PacketCage.Occupancy
import Svc.Libsvc.PacketCage.Tagging

/-!
# The order of the jitter buffer

The slot at offset `k` from the head is for the packet of time `head_time + k`.
Every call keeps this, except a put that re-bases a cage which still holds a
packet: the flush loop may leave a cage both new and occupied.  As long as no
put does, head and head time move together, which orders the packets returned.
-/

namespace Svc.Libsvc

open Svc.Lib

variable {α : Type} {size : Nat}

/-- Every packet sits at the offset of its time from the head time. -/
def InWindow (cage : PacketCage (Packet α) size) : Prop :=
  ∀ k < size, ∀ p, cage.slot (Ring.offset cage.head k) = some p →
    p.time = timeIncBy cage.headTime k

/-- A put re-bases a cage only when it holds no packet, or to the head time it has. -/
def RebasesEmpty (cage : PacketCage α size) : CageOp α → Prop
  | .putData _ time => cage.newCage = true →
      (∀ i, cage.slot i = none) ∨ time = cage.headTime
  | .getData => True

instance (cage : PacketCage α size) (op : CageOp α) : Decidable (RebasesEmpty cage op) :=
  match op with
  | .putData _ time => inferInstanceAs (Decidable (cage.newCage = true →
      (∀ i, cage.slot i = none) ∨ time = cage.headTime))
  | .getData => .isTrue trivial

/-- The number of slots by which a call moves the head. -/
def PacketCage.moves (cage : PacketCage α size) : CageOp α → Nat
  | .putData _ time => if cage.accepts time then (cage.rebase time).pops time else 0
  | .getData => if cage.cageStarvation then 0 else 1

def headMoves (cage : PacketCage α size) : List (CageOp α) → Nat
  | [] => 0
  | op :: ops => cage.moves op + headMoves ((cageMachine α size).next cage op) ops

theorem head_next (cage : PacketCage α size) (op : CageOp α) :
    ((cageMachine α size).next cage op).head = Ring.offset cage.head (cage.moves op) := by
  cases op with
  | putData audioData time =>
      cases haccept : cage.accepts time with
      | true =>
          rw [next_putData, packetCagePutData_of_accepts cage audioData time haccept, head_store,
            PacketCage.flushed, head_iterate_popped, head_rebase]
          simp [PacketCage.moves, haccept]
      | false =>
          rw [next_putData, packetCagePutData_of_not_accepts cage audioData time haccept]
          simp [PacketCage.moves, haccept]
  | getData =>
      cases hstarving : cage.cageStarvation with
      | true =>
          rw [next_getData, packetCageGetData_of_starving cage hstarving]
          simp [PacketCage.moves, hstarving]
      | false =>
          rw [next_getData, packetCageGetData_of_not_starving cage hstarving]
          simp [PacketCage.moves, hstarving]

/-- `headMoves` counts what it says. -/
theorem head_run (cage : PacketCage α size) (ops : List (CageOp α)) :
    ((cageMachine α size).run cage ops).head = Ring.offset cage.head (headMoves cage ops) := by
  induction ops generalizing cage with
  | nil => simp [headMoves]
  | cons op ops ih => rw [Machine.run_cons, ih, head_next, Ring.offset_offset, headMoves]

/-! ## Where the flush loop ends -/

theorem subTime_rebase_nonneg (cage : PacketCage α size) (time : PacketTime)
    (h : cage.accepts time = true) : 0 ≤ subTime time (cage.rebase time).headTime := by
  cases hnew : cage.newCage with
  | true => simp [rebase_of_newCage cage time hnew]
  | false =>
      rw [rebase_of_not_newCage cage time hnew]
      rw [PacketCage.accepts, hnew, Bool.false_or] at h
      exact ((isNewer_iff_subTime_pos _ _).1 h).le

/-- The flush pops as many slots as the packet lies beyond the last one. -/
theorem pops_rebase (hsize : 0 < size) (hhi : size ≤ 32768) (cage : PacketCage α size)
    (time : PacketTime) (h : cage.accepts time = true) :
    (cage.rebase time).pops time =
      (subTime time (cage.rebase time).headTime - ((size : Int) - 1)).toNat := by
  have hnonneg := subTime_rebase_nonneg cage time h
  have hbounds := subTime_bounds time (cage.rebase time).headTime
  rw [PacketCage.pops, subTime_timeIncBy_right _ _ (by omega) (by omega)]

theorem subTime_flushed (hsize : 0 < size) (hhi : size ≤ 32768) (cage : PacketCage α size)
    (time : PacketTime) (h : cage.accepts time = true) :
    0 ≤ subTime time (cage.flushed time).headTime ∧
      subTime time (cage.flushed time).headTime < size := by
  have hnonneg := subTime_rebase_nonneg cage time h
  have hbounds := subTime_bounds time (cage.rebase time).headTime
  have hpops := pops_rebase hsize hhi cage time h
  rw [PacketCage.flushed, headTime_iterate_popped,
    subTime_timeIncBy_right _ _ (by omega) (by omega)]
  omega

theorem deltaPointInCage_eq (hhi : size ≤ 32768) (pos : Fin size) {delta : Int}
    (hnonneg : 0 ≤ delta) (hlt : delta < size) :
    deltaPointInCage pos delta = Ring.offset pos delta.toNat := by
  have hpos := pos.isLt
  ext
  have hsum : ((((pos.val : Int) + delta) % 2 ^ 32).toNat) = pos.val + delta.toNat := by omega
  have hlt := Nat.mod_lt (pos.val + delta.toNat) pos.pos
  simp only [deltaPointInCage, Ring.val_offset, hsum]
  rw [Nat.mod_eq_of_lt (by omega : (pos.val + delta.toNat) % size + size < 2 ^ 32),
    Nat.add_mod_right, Nat.mod_mod]

/-! ## The window is kept -/

theorem inWindow_advance {cage : PacketCage (Packet α) size} (h : InWindow cage) :
    InWindow cage.advance := by
  intro k hk p hp
  simp only [head_advance, Ring.offset_offset, slot_advance] at hp
  split at hp
  · contradiction
  · rename_i hne
    have hlt : 1 + k < size := by
      by_contra hge
      apply hne
      rw [show 1 + k = 0 + size by omega, Ring.offset_add_size, Ring.offset_zero]
    rw [h (1 + k) hlt p hp, headTime_advance, timeInc_eq_timeIncBy, timeIncBy_timeIncBy]
    exact timeIncBy_congr _ (by congr 1)

theorem inWindow_popped {cage : PacketCage (Packet α) size} (h : InWindow cage) :
    InWindow cage.popped := inWindow_advance h

theorem inWindow_rebase {cage : PacketCage (Packet α) size} {p : Packet α} (h : InWindow cage)
    (hrebase : RebasesEmpty cage (.putData p p.time)) : InWindow (cage.rebase p.time) := by
  cases hnew : cage.newCage with
  | true =>
      rw [rebase_of_newCage cage p.time hnew]
      rcases hrebase hnew with hempty | htime
      · intro k _ q hq
        exact absurd ((hempty _).symm.trans hq) (by simp)
      · rw [htime]
        exact h
  | false => rwa [rebase_of_not_newCage cage p.time hnew]

theorem inWindow_flushed {cage : PacketCage (Packet α) size} {p : Packet α} (h : InWindow cage)
    (hrebase : RebasesEmpty cage (.putData p p.time)) : InWindow (cage.flushed p.time) :=
  iterate_invariant (I := InWindow) (fun _ => inWindow_popped) _ (inWindow_rebase h hrebase)

theorem inWindow_store (hhi : size ≤ 32768) {cage : PacketCage (Packet α) size} {p : Packet α}
    (h : InWindow cage) (hnonneg : 0 ≤ subTime p.time cage.headTime)
    (hlt : subTime p.time cage.headTime < size) : InWindow (cage.store p p.time) := by
  intro k hk q hq
  rw [slot_store, head_store, PacketCage.target, deltaPointInCage_eq hhi _ hnonneg hlt] at hq
  split at hq
  · rename_i hslot
    have hk : (subTime p.time cage.headTime).toNat = k :=
      (Ring.offset_inj _ (by omega) hk).1 hslot
    cases hq
    rw [headTime_store, ← hk, Int.toNat_of_nonneg hnonneg, timeIncBy_subTime]
  · exact h k hk q hq

theorem inWindow_next (hsize : 0 < size) (hhi : size ≤ 32768)
    {cage : PacketCage (Packet α) size} (h : InWindow cage) (op : CageOp α)
    (hrebase : RebasesEmpty cage op.tag) :
    InWindow ((cageMachine (Packet α) size).next cage op.tag) := by
  cases op with
  | putData audioData time =>
      simp only [CageOp.tag, next_putData] at hrebase ⊢
      cases haccept : cage.accepts time with
      | true =>
          obtain ⟨hnonneg, hlt⟩ := subTime_flushed hsize hhi cage time haccept
          rw [packetCagePutData_of_accepts cage _ time haccept]
          exact inWindow_store (p := ⟨audioData, time⟩) hhi
            (inWindow_flushed (p := ⟨audioData, time⟩) h hrebase) hnonneg hlt
      | false => rwa [packetCagePutData_of_not_accepts cage _ time haccept]
  | getData =>
      simp only [CageOp.tag, next_getData]
      cases hstarving : cage.cageStarvation with
      | true => rwa [packetCageGetData_of_starving cage hstarving]
      | false =>
          rw [packetCageGetData_of_not_starving cage hstarving]
          exact inWindow_advance h

theorem inWindow_run (hsize : 0 < size) (hhi : size ≤ 32768)
    {cage : PacketCage (Packet α) size} (h : InWindow cage) {ops : List (CageOp α)}
    (hops : (cageMachine (Packet α) size).Guarded RebasesEmpty cage (ops.map CageOp.tag)) :
    InWindow ((cageMachine (Packet α) size).run cage (ops.map CageOp.tag)) := by
  induction ops generalizing cage with
  | nil => exact h
  | cons op ops ih => exact ih (inWindow_next hsize hhi h op hops.1) hops.2

/-! ## The slots hold packets that were put -/

def Holds (P : α → Prop) (cage : PacketCage α size) : Prop :=
  ∀ i a, cage.slot i = some a → P a

theorem holds_advance {P : α → Prop} {cage : PacketCage α size} (h : Holds P cage) :
    Holds P cage.advance := by
  intro i a hi
  rw [slot_advance] at hi
  split at hi
  · contradiction
  · exact h i a hi

theorem holds_flushed {P : α → Prop} {cage : PacketCage α size} (h : Holds P cage)
    (time : PacketTime) : Holds P (cage.flushed time) := by
  intro i a hi
  rw [slot_flushed] at hi
  split at hi
  · contradiction
  · exact h i a hi

theorem holds_next {P : α → Prop} {cage : PacketCage α size} (h : Holds P cage) (op : CageOp α)
    (hop : ∀ audioData time, op = .putData audioData time → P audioData) :
    Holds P ((cageMachine α size).next cage op) := by
  cases op with
  | putData audioData time =>
      rw [next_putData]
      cases haccept : cage.accepts time with
      | true =>
          rw [packetCagePutData_of_accepts cage audioData time haccept]
          intro i a hi
          rw [slot_store] at hi
          split at hi
          · cases hi
            exact hop audioData time rfl
          · exact holds_flushed h time i a hi
      | false => rwa [packetCagePutData_of_not_accepts cage audioData time haccept]
  | getData =>
      rw [next_getData]
      cases hstarving : cage.cageStarvation with
      | true => rwa [packetCageGetData_of_starving cage hstarving]
      | false =>
          rw [packetCageGetData_of_not_starving cage hstarving]
          exact holds_advance h

theorem holds_run {P : α → Prop} {cage : PacketCage α size} (h : Holds P cage)
    (ops : List (CageOp α)) (hops : ∀ audioData time, .putData audioData time ∈ ops → P audioData) :
    Holds P ((cageMachine α size).run cage ops) := by
  induction ops generalizing cage with
  | nil => exact h
  | cons op ops ih =>
      refine ih (holds_next h op ?_) fun audioData time hmem => hops audioData time (by simp [hmem])
      rintro audioData time rfl
      exact hops audioData time (by simp)

theorem putData_mem_of_slot (hsize : 0 < size) (ops : List (CageOp α)) {i : Fin size}
    {p : Packet α} (hp : (cageAfter hsize (ops.map CageOp.tag)).slot i = some p) :
    CageOp.putData p.audioData p.time ∈ ops := by
  have hstart : Holds (fun q : Packet α => CageOp.putData q.audioData q.time ∈ ops)
      (packetCageCreate size hsize) := by
    intro i q hq
    simp [packetCageCreate, PacketCage.slot] at hq
  refine holds_run hstart (ops.map CageOp.tag) ?_ i p hp
  intro q time hmem
  obtain ⟨op, hop, heq⟩ := List.mem_map.1 hmem
  cases op with
  | getData => simp [CageOp.tag] at heq
  | putData audioData t =>
      simp only [CageOp.tag, CageOp.putData.injEq] at heq
      obtain ⟨rfl, rfl⟩ := heq
      exact hop

/-! ## Head and head time move together -/

def PacketCage.Occupied (cage : PacketCage α size) : Prop := ∃ i, (cage.slot i).isSome = true

instance (cage : PacketCage α size) : Decidable cage.Occupied :=
  inferInstanceAs (Decidable (∃ _, _))

theorem headTime_next {cage : PacketCage α size} (hoccupied : cage.Occupied) (op : CageOp α)
    (hrebase : RebasesEmpty cage op) :
    ((cageMachine α size).next cage op).headTime = timeIncBy cage.headTime (cage.moves op) := by
  cases op with
  | putData audioData time =>
      have hbase : (cage.rebase time).headTime = cage.headTime := by
        cases hnew : cage.newCage with
        | true =>
            rw [rebase_of_newCage cage time hnew]
            rcases hrebase hnew with hempty | htime
            · obtain ⟨i, hi⟩ := hoccupied
              rw [hempty i] at hi
              simp at hi
            · exact htime
        | false => rw [rebase_of_not_newCage cage time hnew]
      cases haccept : cage.accepts time with
      | true =>
          rw [next_putData, packetCagePutData_of_accepts cage audioData time haccept,
            headTime_store, PacketCage.flushed, headTime_iterate_popped, hbase]
          simp [PacketCage.moves, haccept]
      | false =>
          rw [next_putData, packetCagePutData_of_not_accepts cage audioData time haccept]
          simp [PacketCage.moves, haccept]
  | getData =>
      cases hstarving : cage.cageStarvation with
      | true =>
          rw [next_getData, packetCageGetData_of_starving cage hstarving]
          simp [PacketCage.moves, hstarving]
      | false =>
          rw [next_getData, packetCageGetData_of_not_starving cage hstarving]
          simp [PacketCage.moves, hstarving, timeInc_eq_timeIncBy]

theorem headTime_run {cage : PacketCage α size} {ops : List (CageOp α)}
    (hoccupied : ∀ pre, pre <+: ops → ((cageMachine α size).run cage pre).Occupied)
    (hops : (cageMachine α size).Guarded RebasesEmpty cage ops) :
    ((cageMachine α size).run cage ops).headTime =
      timeIncBy cage.headTime (headMoves cage ops) := by
  induction ops generalizing cage with
  | nil => simp [headMoves]
  | cons op ops ih =>
      have hnow : cage.Occupied := hoccupied [] (List.nil_prefix)
      have hlater : ∀ pre, pre <+: ops →
          ((cageMachine α size).run ((cageMachine α size).next cage op) pre).Occupied :=
        fun pre hpre => hoccupied (op :: pre) ((List.prefix_cons_inj op).2 hpre)
      rw [Machine.run_cons, ih hlater hops.2, headTime_next hnow op hops.1, timeIncBy_timeIncBy]
      exact timeIncBy_congr _ (by simp [headMoves])

/-! ## Runs -/

def taggedAfter (hsize : 0 < size) (ops : List (CageOp α)) : PacketCage (Packet α) size :=
  cageAfter hsize (ops.map CageOp.tag)

def RebasesOnlyEmpty (hsize : 0 < size) (ops : List (CageOp α)) : Prop :=
  (cageMachine (Packet α) size).Guarded RebasesEmpty (packetCageCreate size hsize)
    (ops.map CageOp.tag)

instance (hsize : 0 < size) (ops : List (CageOp α)) : Decidable (RebasesOnlyEmpty hsize ops) :=
  inferInstanceAs (Decidable (Machine.Guarded _ _ _ _))

/-- In the run `pre`, `get_data`, `mid`, `get_data` the two `get_data` return `x` and `y`,
and the cage holds a packet at every moment between them. -/
structure ReturnsInStretch (hsize : 0 < size) (pre mid : List (CageOp α)) (x y : Packet α) :
    Prop where
  first : (packetCageGetData (taggedAfter hsize pre)).1 = some x
  second : (packetCageGetData (taggedAfter hsize (pre ++ .getData :: mid))).1 = some y
  occupied : ∀ m, m <+: mid → (taggedAfter hsize (pre ++ .getData :: m)).Occupied

/-- The number of slots by which the head moves from the packet returned after `pre` to
the one returned after `mid`. -/
def movesBetween (hsize : 0 < size) (pre mid : List (CageOp α)) : Nat :=
  1 + headMoves (taggedAfter hsize (pre ++ [.getData])) (mid.map CageOp.tag)

theorem getData_eq_some {cage : PacketCage α size} {a : α}
    (h : (packetCageGetData cage).1 = some a) :
    cage.slot cage.head = some a ∧ (packetCageGetData cage).2.1 = cage.advance := by
  cases hstarving : cage.cageStarvation with
  | true => simp [packetCageGetData_of_starving cage hstarving] at h
  | false =>
      rw [packetCageGetData_of_not_starving cage hstarving] at h ⊢
      exact ⟨h, rfl⟩

theorem inWindow_taggedAfter {hsize : 0 < size} (hhi : size ≤ 32768) {ops : List (CageOp α)}
    (hops : RebasesOnlyEmpty hsize ops) : InWindow (taggedAfter hsize ops) := by
  refine inWindow_run hsize hhi ?_ hops
  intro k _ p hp
  simp [packetCageCreate, PacketCage.slot] at hp

theorem rebasesOnlyEmpty_append {hsize : 0 < size} {ops ops' : List (CageOp α)} :
    RebasesOnlyEmpty hsize (ops ++ ops') ↔ RebasesOnlyEmpty hsize ops ∧
      (cageMachine (Packet α) size).Guarded RebasesEmpty (taggedAfter hsize ops)
        (ops'.map CageOp.tag) := by
  unfold RebasesOnlyEmpty
  rw [List.map_append, Machine.guarded_append]
  rfl

theorem taggedAfter_append (hsize : 0 < size) (ops ops' : List (CageOp α)) :
    taggedAfter hsize (ops ++ ops') =
      (cageMachine (Packet α) size).run (taggedAfter hsize ops) (ops'.map CageOp.tag) := by
  simp [taggedAfter, cageAfter, Machine.run_append]

theorem taggedAfter_concat (hsize : 0 < size) (ops : List (CageOp α)) (op : CageOp α) :
    taggedAfter hsize (ops ++ [op]) =
      (cageMachine (Packet α) size).next (taggedAfter hsize ops) op.tag := by
  simp [taggedAfter_append]

theorem time_of_getData {hsize : 0 < size} (hhi : size ≤ 32768) {ops : List (CageOp α)}
    (hops : RebasesOnlyEmpty hsize ops) {p : Packet α}
    (hp : (packetCageGetData (taggedAfter hsize ops)).1 = some p) :
    p.time = (taggedAfter hsize ops).headTime := by
  have hslot := (getData_eq_some hp).1
  have htime := inWindow_taggedAfter hhi hops 0 hsize p (by simpa using hslot)
  simpa using htime

/-- The times of two packets returned in one stretch differ by the moves of the head. -/
theorem time_of_returnsInStretch {hsize : 0 < size} (hhi : size ≤ 32768)
    {pre mid : List (CageOp α)} (hops : RebasesOnlyEmpty hsize (pre ++ .getData :: mid))
    {x y : Packet α} (hret : ReturnsInStretch hsize pre mid x y) :
    y.time = timeIncBy x.time (movesBetween hsize pre mid) := by
  have hsplit : pre ++ CageOp.getData :: mid = (pre ++ [.getData]) ++ mid := by simp
  have hpre := (rebasesOnlyEmpty_append.1 hops).1
  have hmid := (rebasesOnlyEmpty_append.1 (hsplit ▸ hops)).2
  have hx := time_of_getData hhi hpre hret.first
  have hy := time_of_getData hhi hops hret.second
  have hafter : (taggedAfter hsize (pre ++ [.getData])).headTime = timeIncBy x.time 1 := by
    have hadvance : (taggedAfter hsize (pre ++ [.getData])) = (taggedAfter hsize pre).advance := by
      rw [taggedAfter_concat]
      exact (getData_eq_some hret.first).2
    rw [hadvance, headTime_advance, timeInc_eq_timeIncBy, hx]
  have hoccupied : ∀ m, m <+: mid.map CageOp.tag →
      ((cageMachine (Packet α) size).run (taggedAfter hsize (pre ++ [.getData])) m).Occupied := by
    intro m hm
    obtain ⟨ops, hprefix, rfl⟩ := List.prefix_map_iff.1 hm
    have hocc := hret.occupied ops hprefix
    rwa [show pre ++ CageOp.getData :: ops = (pre ++ [.getData]) ++ ops by simp,
      taggedAfter_append] at hocc
  rw [hy, hsplit, taggedAfter_append, headTime_run hoccupied hmid, hafter, timeIncBy_timeIncBy]
  exact timeIncBy_congr _ (by simp [movesBetween])

/-- In a run whose puts re-base the cage only when it holds no packet, every slot
holds a packet of its time.  Of two packets returned in a stretch in which the cage
is never empty, the times differ by the moves of the head between the two, and the
later one is newer as long as the head moved by less than half the range. -/
theorem window_and_order (hsize : 0 < size) (hhi : size ≤ 32768) (ops : List (CageOp α))
    (hops : RebasesOnlyEmpty hsize ops) :
    (∀ k < size, ∀ p,
      (taggedAfter hsize ops).slot (Ring.offset (taggedAfter hsize ops).head k) = some p →
        p.time.val = ((taggedAfter hsize ops).headTime.val + k) % 65536 ∧
          CageOp.putData p.audioData p.time ∈ ops) ∧
    ∀ pre mid x y, ops = pre ++ .getData :: mid → ReturnsInStretch hsize pre mid x y →
      y.time.val = (x.time.val + movesBetween hsize pre mid) % 65536 ∧
        (movesBetween hsize pre mid ≤ 32767 → isNewer y.time x.time = true) := by
  refine ⟨fun k hk p hp => ⟨?_, putData_mem_of_slot hsize ops hp⟩, ?_⟩
  · have hval := val_timeIncBy (taggedAfter hsize ops).headTime k
    rw [← inWindow_taggedAfter hhi hops k hk p hp] at hval
    omega
  · rintro pre mid x y rfl hret
    have htime := time_of_returnsInStretch hhi hops hret
    have hval := val_timeIncBy x.time (movesBetween hsize pre mid)
    rw [← htime] at hval
    refine ⟨by omega, fun hmoves => ?_⟩
    rw [htime]
    exact isNewer_timeIncBy_self _ (by unfold movesBetween; omega) (by omega)

/-- On two slots: packets `7`, `8` and `9`, the first of them flushed and the other two
returned. -/
theorem window_and_order_two_slots :
    ((9 : PacketTime).val = ((taggedAfter (by decide : 0 < 2)
        [CageOp.putData 10 7, .putData 11 8, .putData 12 9]).headTime.val + 1) % 65536 ∧
      CageOp.putData 12 9 ∈ [CageOp.putData 10 7, .putData 11 8, .putData 12 9]) ∧
    isNewer 9 8 = true := by
  have hall := window_and_order (by decide : 0 < 2) (by decide)
    [CageOp.putData 10 7, .putData 11 8, .putData 12 9] (by decide)
  have hget := window_and_order (by decide : 0 < 2) (by decide)
    [CageOp.putData 10 7, .putData 11 8, .putData 12 9, .getData] (by decide)
  have hret : ReturnsInStretch (by decide : 0 < 2)
      [CageOp.putData 10 7, .putData 11 8, .putData 12 9] [] ⟨11, 8⟩ ⟨12, 9⟩ := by
    refine ⟨by decide, by decide, fun m hm => ?_⟩
    rw [List.prefix_nil.1 hm]
    decide
  exact ⟨hall.1 1 (by decide) ⟨12, 9⟩ (by decide), (hget.2 _ _ _ _ rfl hret).2 (by decide)⟩

/-! ## What the guard and the bound leave out -/

theorem flushed_eq_of_size_le (cage : PacketCage α size) (time : PacketTime)
    (hsize : size ≤ (cage.rebase time).pops time) :
    cage.flushed time =
      { head := Ring.offset cage.head ((cage.rebase time).pops time)
        headTime := timeIncBy (cage.rebase time).headTime ((cage.rebase time).pops time)
        tailTime := (cage.rebase time).tailTime
        cageStarvation := false
        newCage := (cage.flushed time).newCage
        elementsCount := cage.excess
        audioQueue := Vector.replicate size none } := by
  have hpos : 0 < size := cage.head.pos
  have hslots : (cage.flushed time).audioQueue = Vector.replicate size none := by
    apply Vector.ext
    intro i hi
    have hslot := slot_flushed cage time ⟨i, hi⟩
    rw [if_pos (lt_of_lt_of_le (Ring.dist_lt _ _) hsize)] at hslot
    simpa [PacketCage.slot] using hslot
  have hcount : (cage.flushed time).elementsCount = cage.excess := by
    have hexcess := excess_flushed cage time
    rw [PacketCage.excess, PacketCage.occupied, hslots] at hexcess
    simpa [Vector.countP_replicate] using hexcess
  rw [← hslots, ← hcount]
  unfold PacketCage.flushed
  rw [← head_rebase cage time, ← head_iterate_popped, ← headTime_iterate_popped,
    ← tailTime_iterate_popped (cage.rebase time) ((cage.rebase time).pops time),
    ← cageStarvation_iterate_popped (cage.rebase time)
      (show 0 < (cage.rebase time).pops time by omega)]

/-- The cage that holds packet `2` alone, after packet `1` was returned. -/
theorem taggedAfter_one_returned :
    taggedAfter (by decide : 0 < 2)
      [CageOp.putData 10 0, .putData 11 1, .putData 12 2, .getData] =
      { head := 0, headTime := 2, tailTime := 2, cageStarvation := false, newCage := false
        elementsCount := 1, audioQueue := #v[some ⟨12, 2⟩, none] } := by
  decide

/-- A put at the far end of the half range flushes packet `2`. -/
theorem taggedAfter_far_put :
    ∃ newCage, taggedAfter (by decide : 0 < 2)
      [CageOp.putData 10 0, .putData 11 1, .putData 12 2, .getData, .putData 13 32769] =
      { head := 0, headTime := 32768, tailTime := 32769, cageStarvation := false
        newCage := newCage, elementsCount := 1, audioQueue := #v[none, some ⟨13, 32769⟩] } := by
  have hconcrete := taggedAfter_one_returned
  rw [show [CageOp.putData 10 0, .putData 11 1, .putData 12 2, .getData, .putData 13 32769] =
    [CageOp.putData 10 0, .putData 11 1, .putData 12 2, .getData] ++ [.putData 13 32769] from rfl,
    taggedAfter_concat]
  generalize taggedAfter (by decide : 0 < 2)
    [CageOp.putData 10 0, .putData 11 1, .putData 12 2, .getData] = cage at hconcrete ⊢
  have haccept : cage.accepts 32769 = true := by rw [hconcrete]; decide
  have hpops : (cage.rebase 32769).pops 32769 = 32766 := by rw [hconcrete]; decide
  have hflushed := flushed_eq_of_size_le cage 32769 (by omega)
  rw [hpops] at hflushed
  refine ⟨(cage.flushed 32769).newCage, ?_⟩
  rw [CageOp.tag, next_putData, packetCagePutData_of_accepts cage _ _ haccept, hflushed]
  generalize (cage.flushed 32769).newCage = newCage
  rw [hconcrete]
  cases newCage <;> decide

/-- The next get finds the head slot empty, the one after it returns the far packet. -/
theorem taggedAfter_far_get :
    ∃ newCage, taggedAfter (by decide : 0 < 2)
      [CageOp.putData 10 0, .putData 11 1, .putData 12 2, .getData, .putData 13 32769,
        .getData] =
      { head := 1, headTime := 32769, tailTime := 32769, cageStarvation := false
        newCage := newCage, elementsCount := 1, audioQueue := #v[none, some ⟨13, 32769⟩] } := by
  obtain ⟨newCage, hfar⟩ := taggedAfter_far_put
  refine ⟨newCage, ?_⟩
  rw [show [CageOp.putData 10 0, .putData 11 1, .putData 12 2, .getData, .putData 13 32769,
      .getData] = [CageOp.putData 10 0, .putData 11 1, .putData 12 2, .getData,
      .putData 13 32769] ++ [.getData] from rfl, taggedAfter_concat, hfar]
  cases newCage <;> decide

/-- The two ways out of the order.  A put may re-base a cage that still holds a packet,
and then a slot holds a packet of another time than its own; and without any such put
the head may move by half the range between two packets returned one after the other
from a cage that is never empty. -/
theorem not_inWindow_and_not_newer :
    (¬ ∀ k < 2, ∀ p,
      (taggedAfter (by decide : 0 < 2)
        [CageOp.putData 10 0, .putData 11 2, .putData 12 100]).slot
          (Ring.offset (taggedAfter (by decide : 0 < 2)
            [CageOp.putData 10 0, .putData 11 2, .putData 12 100]).head k) = some p →
        p.time.val = ((taggedAfter (by decide : 0 < 2)
          [CageOp.putData 10 0, .putData 11 2, .putData 12 100]).headTime.val + k) % 65536) ∧
    (RebasesOnlyEmpty (by decide : 0 < 2)
        [CageOp.putData 10 0, .putData 11 1, .putData 12 2, .getData, .putData 13 32769, .getData] ∧
      ReturnsInStretch (by decide : 0 < 2) [CageOp.putData 10 0, .putData 11 1, .putData 12 2]
        [.putData 13 32769, .getData] ⟨11, 1⟩ ⟨13, 32769⟩ ∧
      isNewer 32769 1 = false) := by
  obtain ⟨newCage, hfarPut⟩ := taggedAfter_far_put
  obtain ⟨newCage', hfarGet⟩ := taggedAfter_far_get
  refine ⟨fun hall => ?_, by decide, ⟨by decide, ?_, ?_⟩, by decide⟩
  · exact absurd (hall 1 (by decide) ⟨11, 2⟩ (by decide)) (by decide)
  · simp only [List.cons_append, List.nil_append, hfarGet]
    cases newCage' <;> decide
  · intro m hm
    rcases List.prefix_cons_iff.1 hm with rfl | ⟨rest, rfl, hrest⟩
    · decide
    · rcases List.prefix_cons_iff.1 hrest with rfl | ⟨tail, rfl, htail⟩
      · simp only [List.cons_append, List.nil_append, hfarPut]
        cases newCage <;> decide
      · rw [List.prefix_nil.1 htail]
        simp only [List.cons_append, List.nil_append, hfarGet]
        cases newCage' <;> decide

end Svc.Libsvc
