import Mathlib.Data.List.Basic
import Mathlib.Data.List.Nodup
import Mathlib.Logic.Function.Basic
import Mathlib.Tactic.Common
import Svc.Lib.Fallible

/-!
# Doubly linked lists

A heap maps the pointers of the allocated nodes to their links and their value.  `Seg` says
that the heap links the nodes of a list in both directions, between what stands before and
after them.  The rules are those by which code changes such a list: stores to the link of
an end, with the frame of everything else, and loops that go along the links.
-/

namespace Svc.Lib.Links

inductive Fault where
  | nullPointer
  /-- the node is not allocated -/
  | dangling
  /-- an array is written behind its end -/
  | outOfBounds
  /-- a loop went around more often than it was given rounds -/
  | unending
  deriving DecidableEq

structure Node (ν α : Type) where
  prev : Option ν
  next : Option ν
  val : α

abbrev Heap (ν α : Type) := ν → Option (Node ν α)

variable {ν α β : Type}

def load (h : Heap ν α) : Option ν → Except Fault (Node ν α)
  | none => .error .nullPointer
  | some p =>
      match h p with
      | none => .error .dangling
      | some node => .ok node

theorem load_eq {h : Heap ν α} {p : ν} {node : Node ν α} (hp : h p = some node) :
    load h (some p) = .ok node := by
  rw [load, hp]

section Store

variable [DecidableEq ν]

def relink (h : Heap ν α) (p : Option ν) (f : Node ν α → Node ν α) : Heap ν α :=
  match p with
  | none => h
  | some q => Function.update h q ((h q).map f)

def store (h : Heap ν α) (p : Option ν) (f : Node ν α → Node ν α) : Except Fault (Heap ν α) := do
  let _ ← load h p
  return relink h p f

/-- `if (p != NULL)` before an assignment to a field of the node. -/
def storeIf (h : Heap ν α) (p : Option ν) (f : Node ν α → Node ν α) : Except Fault (Heap ν α) :=
  if p.isSome then store h p f else .ok h

theorem store_eq {h : Heap ν α} {p : ν} {node : Node ν α} (hp : h p = some node)
    (f : Node ν α → Node ν α) : store h (some p) f = .ok (relink h (some p) f) := by
  rw [store, load_eq hp]
  rfl

@[simp] theorem relink_none (h : Heap ν α) (f : Node ν α → Node ν α) : relink h none f = h := rfl

theorem relink_of_ne {h : Heap ν α} {p : Option ν} {q : ν} (hne : p ≠ some q)
    (f : Node ν α → Node ν α) : relink h p f q = h q := by
  cases p with
  | none => rfl
  | some p => exact Function.update_of_ne (fun heq : q = p => hne (congrArg some heq.symm)) _ _

theorem relink_self {h : Heap ν α} {p : ν} {node : Node ν α} (hp : h p = some node)
    (f : Node ν α → Node ν α) : relink h (some p) f p = some (f node) := by
  rw [relink, Function.update_self, hp]
  rfl

theorem relink_eq {h : Heap ν α} {p : ν} {node : Node ν α} (hp : h p = some node)
    (f : Node ν α → Node ν α) :
    relink h (some p) f = Function.update h p (some (f node)) := by
  rw [relink, hp]
  rfl

theorem store_eq_update {h : Heap ν α} {p : ν} {node : Node ν α} (hp : h p = some node)
    (f : Node ν α → Node ν α) :
    store h (some p) f = .ok (Function.update h p (some (f node))) := by
  rw [store_eq hp, relink_eq hp]

theorem store_update_self (h : Heap ν α) (p : ν) (node : Node ν α) (f : Node ν α → Node ν α) :
    store (Function.update h p (some node)) (some p) f =
      .ok (Function.update h p (some (f node))) := by
  rw [store_eq_update (Function.update_self ..), Function.update_idem]

theorem relink_update_of_ne (h : Heap ν α) {p : Option ν} {q : ν} (hne : p ≠ some q)
    (node : Option (Node ν α)) (f : Node ν α → Node ν α) :
    relink (Function.update h q node) p f = Function.update (relink h p f) q node := by
  cases p with
  | none => rfl
  | some p =>
      have hpq : p ≠ q := fun heq => hne (congrArg some heq)
      simp only [relink, Function.update_of_ne hpq, Function.update_comm hpq.symm]

theorem store_update_of_ne {h : Heap ν α} {p q : ν} {nodeQ : Node ν α} (hne : q ≠ p)
    (hq : h q = some nodeQ) (node : Option (Node ν α)) (f : Node ν α → Node ν α) :
    store (Function.update h p node) (some q) f =
      .ok (Function.update (relink h (some q) f) p node) := by
  rw [store_eq ((Function.update_of_ne hne node h).trans hq),
    relink_update_of_ne h (fun heq => hne (Option.some.inj heq))]

end Store

/-! ## Ends -/

/-- The nodes of a list with their values: the pointer to the first. -/
def front (xs : List (ν × α)) : Option ν := xs.head?.map Prod.fst

def back (xs : List (ν × α)) : Option ν := xs.getLast?.map Prod.fst

@[simp] theorem front_nil : front ([] : List (ν × α)) = none := rfl

@[simp] theorem back_nil : back ([] : List (ν × α)) = none := rfl

@[simp] theorem front_cons (x : ν × α) (xs : List (ν × α)) : front (x :: xs) = some x.1 := rfl

@[simp] theorem back_concat (xs : List (ν × α)) (x : ν × α) : back (xs ++ [x]) = some x.1 := by
  simp [back]

theorem front_congr {xs ys : List (ν × α)} (h : xs.map Prod.fst = ys.map Prod.fst) :
    front xs = front ys := by
  rw [front, front, ← List.head?_map, ← List.head?_map, h]

theorem back_congr {xs ys : List (ν × α)} (h : xs.map Prod.fst = ys.map Prod.fst) :
    back xs = back ys := by
  rw [back, back, ← List.getLast?_map, ← List.getLast?_map, h]

theorem front_append (xs ys : List (ν × α)) : front (xs ++ ys) = (front xs).or (front ys) := by
  cases xs <;> simp

theorem back_append (xs ys : List (ν × α)) : back (xs ++ ys) = (back ys).or (back xs) := by
  cases ys using List.reverseRecOn with
  | nil => simp
  | append_singleton ys y => simp [← List.append_assoc]

theorem front_append_of_ne {xs : List (ν × α)} (h : xs ≠ []) (ys : List (ν × α)) :
    front (xs ++ ys) = front xs := by
  rw [front, List.head?_append_of_ne_nil _ h]
  rfl

theorem back_append_of_ne (xs : List (ν × α)) {ys : List (ν × α)} (h : ys ≠ []) :
    back (xs ++ ys) = back ys := by
  rw [back, List.getLast?_append_of_ne_nil _ h]
  rfl

theorem back_cons (x : ν × α) (xs : List (ν × α)) : back (x :: xs) = (back xs).or (some x.1) := by
  rw [← List.singleton_append, back_append]
  rfl

theorem front_mem {xs : List (ν × α)} {p : ν} (h : front xs = some p) : p ∈ xs.map Prod.fst := by
  cases xs with
  | nil => cases h
  | cons x xs =>
      cases h
      exact List.mem_cons_self

theorem back_mem {xs : List (ν × α)} {p : ν} (h : back xs = some p) : p ∈ xs.map Prod.fst := by
  cases xs using List.reverseRecOn with
  | nil => cases h
  | append_singleton xs x =>
      rw [back_concat] at h
      cases h
      simp

theorem front_eq_none {xs : List (ν × α)} : front xs = none ↔ xs = [] := by
  cases xs <;> simp

theorem back_eq_none {xs : List (ν × α)} : back xs = none ↔ xs = [] := by
  cases xs using List.reverseRecOn <;> simp

/-! ## Segments -/

/-- The nodes are linked to each other, the first one to `before` and the last one to `after`. -/
def Seg (h : Heap ν α) : (before : Option ν) → List (ν × α) → (after : Option ν) → Prop
  | _, [], _ => True
  | before, x :: xs, after =>
      h x.1 = some ⟨before, (front xs).or after, x.2⟩ ∧ Seg h (some x.1) xs after

section Seg

variable {h h' : Heap ν α} {before after : Option ν} {xs ys : List (ν × α)}

@[simp] theorem seg_nil : Seg h before [] after := trivial

theorem seg_cons {x : ν × α} :
    Seg h before (x :: xs) after ↔
      h x.1 = some ⟨before, (front xs).or after, x.2⟩ ∧ Seg h (some x.1) xs after := Iff.rfl

theorem seg_append :
    Seg h before (xs ++ ys) after ↔
      Seg h before xs ((front ys).or after) ∧ Seg h ((back xs).or before) ys after := by
  induction xs generalizing before with
  | nil => simp
  | cons x xs ih =>
      rw [List.cons_append, seg_cons, seg_cons, ih, front_append, Option.or_assoc, back_cons,
        Option.or_assoc, and_assoc]
      rfl

/-- Only the nodes of a segment matter to it. -/
theorem Seg.congr (hseg : Seg h before xs after) (heq : ∀ p ∈ xs.map Prod.fst, h' p = h p) :
    Seg h' before xs after := by
  induction xs generalizing before with
  | nil => trivial
  | cons x xs ih =>
      exact ⟨(heq x.1 List.mem_cons_self).trans hseg.1,
        ih hseg.2 fun p hp => heq p (List.mem_cons_of_mem _ hp)⟩

theorem Seg.exists_of_mem (hseg : Seg h before xs after) {p : ν} (hp : p ∈ xs.map Prod.fst) :
    ∃ node, h p = some node := by
  induction xs generalizing before with
  | nil => cases hp
  | cons x xs ih =>
      rcases List.mem_cons.1 hp with rfl | hp
      · exact ⟨_, hseg.1⟩
      · exact ih hseg.2 hp

variable [DecidableEq ν]

/-- A store to a node that is not of the segment. -/
theorem Seg.relink_frame (hseg : Seg h before xs after) {p : Option ν}
    (hp : ∀ q ∈ xs.map Prod.fst, p ≠ some q) (f : Node ν α → Node ν α) :
    Seg (relink h p f) before xs after :=
  hseg.congr fun q hq => relink_of_ne (hp q hq) f

theorem Seg.update_frame (hseg : Seg h before xs after) {p : ν} (hp : p ∉ xs.map Prod.fst)
    (node : Option (Node ν α)) : Seg (Function.update h p node) before xs after :=
  hseg.congr fun _ hq => Function.update_of_ne (ne_of_mem_of_not_mem hq hp) _ _

theorem Seg.store_front (hseg : Seg h before xs after) (hne : xs ≠ [])
    (f : Node ν α → Node ν α) : store h (front xs) f = .ok (relink h (front xs) f) := by
  obtain ⟨p, hp⟩ := Option.ne_none_iff_exists'.1 (mt front_eq_none.1 hne)
  obtain ⟨node, hnode⟩ := hseg.exists_of_mem (front_mem hp)
  rw [hp, store_eq hnode]

theorem Seg.store_back (hseg : Seg h before xs after) (hne : xs ≠ [])
    (f : Node ν α → Node ν α) : store h (back xs) f = .ok (relink h (back xs) f) := by
  obtain ⟨p, hp⟩ := Option.ne_none_iff_exists'.1 (mt back_eq_none.1 hne)
  obtain ⟨node, hnode⟩ := hseg.exists_of_mem (back_mem hp)
  rw [hp, store_eq hnode]

/-- A store to the `prev` of the first node. -/
theorem Seg.relink_front (hseg : Seg h before xs after) (hnodup : (xs.map Prod.fst).Nodup)
    (before' : Option ν) :
    Seg (relink h (front xs) fun node => { node with prev := before' }) before' xs after := by
  cases xs with
  | nil => trivial
  | cons x xs =>
      rw [List.map_cons, List.nodup_cons] at hnodup
      refine ⟨relink_self hseg.1 _, hseg.2.relink_frame (fun q hq heq => ?_) _⟩
      cases heq
      exact hnodup.1 hq

/-- A store to the `next` of the last node. -/
theorem Seg.relink_back (hseg : Seg h before xs after) (hnodup : (xs.map Prod.fst).Nodup)
    (after' : Option ν) :
    Seg (relink h (back xs) fun node => { node with next := after' }) before xs after' := by
  cases xs using List.reverseRecOn with
  | nil => trivial
  | append_singleton xs x =>
      rw [List.map_append, List.nodup_append] at hnodup
      obtain ⟨hinit, hlast⟩ := seg_append.1 hseg
      rw [back_concat]
      refine seg_append.2 ⟨hinit.relink_frame (fun q hq heq => ?_) _, relink_self hlast.1 _,
        trivial⟩
      cases heq
      exact hnodup.2.2 _ hq _ (by simp) rfl

end Seg

/-! ## Lists -/

structure Linked (h : Heap ν α) (xs : List (ν × α)) : Prop where
  nodup : (xs.map Prod.fst).Nodup
  seg : Seg h none xs none

section Linked

variable {h : Heap ν α} {xs ys : List (ν × α)}

theorem linked_nil (h : Heap ν α) : Linked h [] := ⟨List.nodup_nil, trivial⟩

theorem Linked.congr {h' : Heap ν α} (hl : Linked h xs)
    (heq : ∀ p ∈ xs.map Prod.fst, h' p = h p) : Linked h' xs :=
  ⟨hl.nodup, hl.seg.congr heq⟩

/-- The links and the value of a node of the list. -/
theorem Linked.at {x : ν × α} (hl : Linked h (xs ++ x :: ys)) :
    h x.1 = some ⟨back xs, front ys, x.2⟩ := by
  have hx := (seg_append.1 hl.seg).2.1
  simpa using hx

/-- No other node has the pointer of a node. -/
theorem Linked.not_mem {x : ν × α} (hl : Linked h (xs ++ x :: ys)) :
    x.1 ∉ (xs ++ ys).map Prod.fst := by
  have hnodup := hl.nodup
  rw [List.map_append, List.map_cons, List.nodup_middle, ← List.map_append] at hnodup
  exact (List.nodup_cons.1 hnodup).1

theorem Linked.not_mem_before {x : ν × α} (hl : Linked h (xs ++ x :: ys)) :
    x.1 ∉ xs.map Prod.fst := fun hx =>
  hl.not_mem (List.map_append ▸ List.mem_append_left _ hx)

theorem Linked.not_mem_after {x : ν × α} (hl : Linked h (xs ++ x :: ys)) :
    x.1 ∉ ys.map Prod.fst := fun hx =>
  hl.not_mem (List.map_append ▸ List.mem_append_right _ hx)

theorem Linked.back_ne {x : ν × α} (hl : Linked h (xs ++ x :: ys)) : back xs ≠ some x.1 :=
  fun heq => hl.not_mem_before (back_mem heq)

theorem Linked.front_ne {x : ν × α} (hl : Linked h (xs ++ x :: ys)) : front ys ≠ some x.1 :=
  fun heq => hl.not_mem_after (front_mem heq)

theorem Linked.front_eq_iff {x : ν × α} (hl : Linked h (xs ++ x :: ys)) :
    front (xs ++ x :: ys) = some x.1 ↔ xs = [] := by
  rcases eq_or_ne xs [] with rfl | hxs
  · simp
  · rw [front_append_of_ne hxs]
    exact iff_of_false (fun heq => hl.not_mem_before (front_mem heq)) hxs

theorem Linked.back_eq_iff {x : ν × α} (hl : Linked h (xs ++ x :: ys)) :
    back (xs ++ x :: ys) = some x.1 ↔ ys = [] := by
  rcases eq_or_ne ys [] with rfl | hys
  · simp
  · rw [back_append_of_ne xs (List.cons_ne_nil x ys), ← List.singleton_append,
      back_append_of_ne [x] hys]
    exact iff_of_false (fun heq => hl.not_mem_after (back_mem heq)) hys

section Neighbours

variable [DecidableEq ν] {x : ν × α}

/-- The first node when a node is taken out. -/
theorem Linked.front_without (hl : Linked h (xs ++ x :: ys)) :
    (if front (xs ++ x :: ys) = some x.1 then front ys else front (xs ++ x :: ys)) =
      front (xs ++ ys) := by
  rcases eq_or_ne xs [] with rfl | hxs
  · exact if_pos rfl
  · rw [if_neg (mt hl.front_eq_iff.1 hxs), front_append_of_ne hxs, front_append_of_ne hxs]

/-- A change of a node that is not in the list. -/
theorem Linked.relink_of_not_mem (hl : Linked h xs) {p : ν} (hp : p ∉ xs.map Prod.fst)
    (f : Node ν α → Node ν α) : Linked (relink h (some p) f) xs := by
  refine hl.congr fun q hq => relink_of_ne (fun heq => hp ?_) f
  obtain rfl := Option.some.inj heq
  exact hq

/-- A store to the node before. -/
theorem Linked.store_back (hl : Linked h (xs ++ x :: ys)) (hxs : xs ≠ [])
    (f : Node ν α → Node ν α) : store h (back xs) f = .ok (relink h (back xs) f) :=
  (seg_append.1 hl.seg).1.store_back hxs f

/-- A store to the node after, which may come after one to the node before. -/
theorem Linked.store_front (hl : Linked h (xs ++ x :: ys)) (hys : ys ≠ [])
    (f g : Node ν α → Node ν α) :
    store (relink h (back xs) f) (front ys) g =
      .ok (relink (relink h (back xs) f) (front ys) g) := by
  have hnodup := hl.nodup
  rw [List.map_append, List.map_cons, List.nodup_append] at hnodup
  refine ((seg_append.1 hl.seg).2.2.relink_frame (fun q hq heq => ?_) f).store_front hys g
  exact hnodup.2.2 q (back_mem heq) q (List.mem_cons_of_mem _ hq) rfl

theorem Linked.storeIf_back (hl : Linked h (xs ++ x :: ys)) (f : Node ν α → Node ν α) :
    storeIf h (back xs) f = .ok (relink h (back xs) f) := by
  rcases eq_or_ne xs [] with rfl | hxs
  · rfl
  · rw [storeIf, if_pos (Option.isSome_iff_ne_none.2 (mt back_eq_none.1 hxs)), hl.store_back hxs]

theorem Linked.storeIf_front (hl : Linked h (xs ++ x :: ys)) (f g : Node ν α → Node ν α) :
    storeIf (relink h (back xs) f) (front ys) g =
      .ok (relink (relink h (back xs) f) (front ys) g) := by
  rcases eq_or_ne ys [] with rfl | hys
  · rfl
  · rw [storeIf, if_pos (Option.isSome_iff_ne_none.2 (mt front_eq_none.1 hys)),
      hl.store_front hys]

/-- The node keeps its links when its neighbours are changed. -/
theorem Linked.at_relink_back (hl : Linked h (xs ++ x :: ys)) (f : Node ν α → Node ν α) :
    relink h (back xs) f x.1 = some ⟨back xs, front ys, x.2⟩ :=
  (relink_of_ne hl.back_ne f).trans hl.at

theorem Linked.at_relink (hl : Linked h (xs ++ x :: ys)) (f g : Node ν α → Node ν α) :
    relink (relink h (back xs) f) (front ys) g x.1 = some ⟨back xs, front ys, x.2⟩ :=
  (relink_of_ne hl.front_ne g).trans (hl.at_relink_back f)

end Neighbours

variable [DecidableEq ν]

/-- Linking a new node behind the last one. -/
theorem Linked.append (hl : Linked h xs) {x : ν × α} (hx : x.1 ∉ xs.map Prod.fst) :
    Linked (Function.update (relink h (back xs) fun node => { node with next := some x.1 }) x.1
      (some ⟨back xs, none, x.2⟩)) (xs ++ [x]) where
  nodup := by
    rw [List.map_append]
    exact hl.nodup.append (List.nodup_singleton x.1) (List.disjoint_singleton.2 hx)
  seg := by
    refine seg_append.2 ⟨?_, ?_, trivial⟩
    · exact (hl.seg.relink_back hl.nodup _).update_frame hx _
    · rw [Function.update_self, Option.or_none]
      rfl

/-- Linking a new node before the first one. -/
theorem Linked.prepend (hl : Linked h xs) {x : ν × α} (hx : x.1 ∉ xs.map Prod.fst) :
    Linked (Function.update (relink h (front xs) fun node => { node with prev := some x.1 }) x.1
      (some ⟨none, front xs, x.2⟩)) (x :: xs) where
  nodup := List.nodup_cons.2 ⟨hx, hl.nodup⟩
  seg := by
    refine ⟨?_, ?_⟩
    · rw [Function.update_self, Option.or_none]
    · exact (hl.seg.relink_front hl.nodup _).update_frame hx _

/-- Linking the neighbours of a node to each other takes it out of the list. -/
theorem Linked.erase {x : ν × α} (hl : Linked h (xs ++ x :: ys)) :
    Linked (relink (relink h (back xs) fun node => { node with next := front ys }) (front ys)
      fun node => { node with prev := back xs }) (xs ++ ys) where
  nodup := hl.nodup.sublist (((List.sublist_cons_self x ys).append_left xs).map Prod.fst)
  seg := by
    obtain ⟨hxs, -, hys⟩ := seg_append.1 hl.seg
    have hnodup := hl.nodup
    rw [List.map_append, List.map_cons, List.nodup_append, List.nodup_cons] at hnodup
    obtain ⟨hndxs, ⟨-, hndys⟩, hne⟩ := hnodup
    rw [seg_append, Option.or_none, Option.or_none]
    constructor
    · refine (hxs.relink_back hndxs (front ys)).relink_frame (fun q hq heq => ?_) _
      exact hne q hq q (List.mem_cons_of_mem _ (front_mem heq)) rfl
    · refine (hys.relink_frame (fun q hq heq => ?_) _).relink_front hndys (back xs)
      exact hne q (back_mem heq) q (List.mem_cons_of_mem _ hq) rfl

/-- A store to the value of a node. -/
theorem Linked.revalue {x : ν × α} (hl : Linked h (xs ++ x :: ys)) (val : α) :
    Linked (relink h (some x.1) fun node => { node with val }) (xs ++ (x.1, val) :: ys) where
  nodup := by
    have hptrs : (xs ++ (x.1, val) :: ys).map Prod.fst = (xs ++ x :: ys).map Prod.fst := by simp
    exact hptrs ▸ hl.nodup
  seg := by
    obtain ⟨hxs, hx, hys⟩ := seg_append.1 hl.seg
    refine seg_append.2 ⟨hxs.relink_frame (fun q hq heq => ?_) _, relink_self hx _,
      hys.relink_frame (fun q hq heq => ?_) _⟩
    · exact hl.not_mem_before (Option.some.inj heq ▸ hq)
    · exact hl.not_mem_after (Option.some.inj heq ▸ hq)

end Linked

/-! ## Loops -/

/-- The pointers from a node on, following the links that `dir` takes. -/
def walk (h : Heap ν α) (dir : Node ν α → Option ν) :
    (rounds : Nat) → Option ν → Except Fault (List ν)
  | _, none => .ok []
  | 0, some _ => .error .unending
  | rounds + 1, some p => do
      let node ← load h (some p)
      return p :: (← walk h dir rounds (dir node))

/-- `while (node) { if (test(node)) return node; node = node->next; }` -/
def search (h : Heap ν α) (test : α → Bool) : (rounds : Nat) → Option ν → Except Fault (Option ν)
  | _, none => .ok none
  | 0, some _ => .error .unending
  | rounds + 1, some p => do
      let node ← load h (some p)
      if test node.val then return some p else search h test rounds node.next

/-- `while (node) { body(node); node = node->next; }` -/
def iterate (h : Heap ν α) (body : β → α → Except Fault β) :
    (rounds : Nat) → β → Option ν → Except Fault β
  | _, b, none => .ok b
  | 0, _, some _ => .error .unending
  | rounds + 1, b, some p => do
      let node ← load h (some p)
      iterate h body rounds (← body b node.val) node.next

/-- `while (node) { (b, node->val) = body(b, node); node = node->next; }` -/
def sweep [DecidableEq ν] (h : Heap ν α) (body : β → ν → α → Except Fault (β × α)) :
    (rounds : Nat) → β → Option ν → Except Fault (Heap ν α × β)
  | _, b, none => .ok (h, b)
  | 0, _, some _ => .error .unending
  | rounds + 1, b, some p => do
      let node ← load h (some p)
      let (b, val) ← body b p node.val
      sweep (relink h (some p) fun node => { node with val }) body rounds b node.next

/-- Calls of a search, each of which goes on behind the node that the last one found, until
one finds none. -/
def searchAll (find : Option ν → Except Fault (Option ν)) :
    (calls : Nat) → (iterator : Option ν) → Except Fault (List ν)
  | 0, _ => .error .unending
  | calls + 1, iterator => do
      match ← find iterator with
      | none => return []
      | some p => return p :: (← searchAll find calls (some p))

section Loops

variable {h : Heap ν α} {before after : Option ν} {xs : List (ν × α)} {rounds : Nat}

/-- The links lead through the nodes of a segment that ends the list. -/
theorem walk_next (hseg : Seg h before xs none) (hrounds : xs.length ≤ rounds) :
    walk h Node.next rounds (front xs) = .ok (xs.map Prod.fst) := by
  induction xs generalizing before rounds with
  | nil => cases rounds <;> rfl
  | cons x xs ih =>
      obtain ⟨rounds, rfl⟩ : ∃ n, rounds = n + 1 := ⟨rounds - 1, by simp at hrounds; omega⟩
      have hrest := ih hseg.2 (Nat.le_of_succ_le_succ hrounds)
      simp only [front_cons, walk, load_eq hseg.1, Option.or_none, bind, Except.bind, hrest]
      rfl

theorem walk_prev (hseg : Seg h none xs after) (hrounds : xs.length ≤ rounds) :
    walk h Node.prev rounds (back xs) = .ok (xs.map Prod.fst).reverse := by
  induction xs using List.reverseRecOn generalizing after rounds with
  | nil => cases rounds <;> rfl
  | append_singleton xs x ih =>
      obtain ⟨hinit, hlast, -⟩ := seg_append.1 hseg
      rw [List.length_append, List.length_singleton] at hrounds
      obtain ⟨rounds, rfl⟩ : ∃ n, rounds = n + 1 := ⟨rounds - 1, by omega⟩
      have hrest := ih hinit (Nat.le_of_succ_le_succ hrounds)
      simp only [back_concat, walk, load_eq hlast, Option.or_none, bind, Except.bind, hrest]
      simp
      rfl

theorem search_eq (hseg : Seg h before xs none) (test : α → Bool) (hrounds : xs.length ≤ rounds) :
    search h test rounds (front xs) = .ok ((xs.find? fun x => test x.2).map Prod.fst) := by
  induction xs generalizing before rounds with
  | nil => cases rounds <;> rfl
  | cons x xs ih =>
      obtain ⟨rounds, rfl⟩ : ∃ n, rounds = n + 1 := ⟨rounds - 1, by simp at hrounds; omega⟩
      have hrest := ih hseg.2 (Nat.le_of_succ_le_succ hrounds)
      simp only [front_cons, search, load_eq hseg.1, Option.or_none, bind, Except.bind, hrest]
      cases htest : test x.2 with
      | true =>
          simp only [htest, if_true, List.find?_cons_of_pos, Option.map_some]
          rfl
      | false => simp [htest]

theorem iterate_eq (hseg : Seg h before xs none) (body : β → α → Except Fault β) (b : β)
    (hrounds : xs.length ≤ rounds) :
    iterate h body rounds b (front xs) = (xs.map Prod.snd).foldlM body b := by
  induction xs generalizing before rounds b with
  | nil => cases rounds <;> rfl
  | cons x xs ih =>
      obtain ⟨rounds, rfl⟩ : ∃ n, rounds = n + 1 := ⟨rounds - 1, by simp at hrounds; omega⟩
      have hrest := fun b => ih hseg.2 b (Nat.le_of_succ_le_succ hrounds)
      simp only [front_cons, iterate, load_eq hseg.1, Option.or_none, List.map_cons,
        List.foldlM_cons, ← hrest]
      rfl

/-- A loop that changes the values of the nodes leaves their links. -/
theorem sweep_eq [DecidableEq ν] (hseg : Seg h before xs none) (hnodup : (xs.map Prod.fst).Nodup)
    {body : β → ν → α → Except Fault (β × α)} (f : α → α) (g : β → ν × α → β)
    (hbody : ∀ b, ∀ x ∈ xs, body b x.1 x.2 = .ok (g b x, f x.2)) (b : β)
    (hrounds : xs.length ≤ rounds) :
    ∃ h', sweep h body rounds b (front xs) = .ok (h', xs.foldl g b) ∧
      Seg h' before (xs.map fun x => (x.1, f x.2)) none ∧
      ∀ p ∉ xs.map Prod.fst, h' p = h p := by
  induction xs generalizing h before rounds b with
  | nil => exact ⟨h, by cases rounds <;> rfl, trivial, fun _ _ => rfl⟩
  | cons x xs ih =>
      obtain ⟨rounds, rfl⟩ : ∃ n, rounds = n + 1 := ⟨rounds - 1, by simp at hrounds; omega⟩
      obtain ⟨hx, hxs⟩ := List.nodup_cons.1 hnodup
      have hne : ∀ q ∈ xs.map Prod.fst, some x.1 ≠ some q := fun q hq heq =>
        hx (Option.some.inj heq ▸ hq)
      obtain ⟨h', hrun, hseg', hframe⟩ := ih
        (hseg.2.relink_frame hne fun node => { node with val := f x.2 }) hxs
        (fun b y hy => hbody b y (List.mem_cons_of_mem _ hy)) (g b x)
        (Nat.le_of_succ_le_succ hrounds)
      refine ⟨h', ?_, ⟨?_, hseg'⟩, fun p hp => ?_⟩
      · simp only [front_cons, sweep, load_eq hseg.1, Option.or_none, bind, Except.bind,
          hbody b x List.mem_cons_self]
        exact hrun
      · have hptrs : (xs.map fun x => (x.1, f x.2)).map Prod.fst = xs.map Prod.fst := by simp
        rw [hframe x.1 hx, relink_self hseg.1, front_congr hptrs]
      · rw [List.map_cons, List.mem_cons, not_or] at hp
        exact (hframe p hp.2).trans (relink_of_ne (fun heq => hp.1 (Option.some.inj heq).symm) _)

/-- All nodes that a search finds, if it goes on behind any node of the list. -/
theorem searchAll_eq {find : Option ν → Except Fault (Option ν)} {p : ν × α → Bool}
    {all : List (ν × α)}
    (hfind : ∀ xs ys, all = xs ++ ys → find (back xs) = .ok ((ys.find? p).map Prod.fst))
    (xs ys : List (ν × α)) (hall : all = xs ++ ys) {calls : Nat} (hcalls : ys.length < calls) :
    searchAll find calls (back xs) = .ok ((ys.filter p).map Prod.fst) := by
  induction calls generalizing xs ys with
  | zero => simp at hcalls
  | succ calls ih =>
      rw [searchAll, hfind xs ys hall]
      cases hy : ys.find? p with
      | none =>
          rw [List.filter_eq_nil_iff.2 (List.find?_eq_none.1 hy)]
          rfl
      | some y =>
          obtain ⟨hpy, as, bs, rfl, has⟩ := List.find?_eq_some_iff_append.1 hy
          have hrest := ih (xs ++ as ++ [y]) bs (by simp [hall]) (by
            simp at hcalls
            omega)
          rw [back_concat] at hrest
          have hnone : as.filter p = [] :=
            List.filter_eq_nil_iff.2 fun a ha => by simpa using has a ha
          simp only [Option.map_some, bind, Except.bind, hrest, List.filter_append, hnone,
            List.filter_cons_of_pos hpy]
          rfl

end Loops

end Svc.Lib.Links
