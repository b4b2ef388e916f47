import Svc.Common.Dstr
import Svc.Lib.Links

/-!
# Lists as linked nodes

`dstrutils.c` links the nodes of its lists and dictionaries by macros.  The nodes are in a
heap from which they are freed, and a string is the list of its bytes.  A node that was
taken out of a list keeps its old links.  Sizes are natural numbers; none wraps as long as
a list has fewer than 2^31 nodes.
-/

namespace Svc.Common.Nodes

open Svc.Lib Svc.Lib.Links

/-- The address of a `dstrnode` or a `dsdict_node` -/
abbrev NodePtr := Nat

/-- A `dstrlist` or a `dsdict`, with the nodes in memory -/
structure NodeList (α : Type) where
  heap : Heap NodePtr α
  front : Option NodePtr
  back : Option NodePtr
  size : Nat

/-- A block that `malloc` returns for a node, with the links that it happens to hold. -/
structure NewNode where
  node : NodePtr
  prev : Option NodePtr
  next : Option NodePtr

namespace NodeList

variable {α : Type}

/-- `malloc` of a node, and the assignment to its fields other than the links -/
def malloc (list : NodeList α) (new : NewNode) (val : α) : NodeList α :=
  { list with heap := Function.update list.heap new.node (some ⟨new.prev, new.next, val⟩) }

def free (list : NodeList α) (node : NodePtr) : NodeList α :=
  { list with heap := Function.update list.heap node none }

end NodeList

section Macros

variable {α : Type}

def listInit : NodeList α := ⟨fun _ => none, none, none, 0⟩

def listAppend (list : NodeList α) (node : NodePtr) : Except Fault (NodeList α) :=
  match list.back with
  | some back => do
      let heap ← store list.heap (some node) fun n => { n with prev := some back }
      let heap ← store heap (some node) fun n => { n with next := none }
      let heap ← store heap (some back) fun n => { n with next := some node }
      return { list with heap, back := some node, size := list.size + 1 }
  | none => do
      let heap ← store list.heap (some node) fun n => { n with prev := none }
      let heap ← store heap (some node) fun n => { n with next := none }
      return { heap, front := some node, back := some node, size := 1 }

def listErase (list : NodeList α) (node : NodePtr) : Except Fault (NodeList α) :=
  if list.front = some node ∧ list.back = some node then
    .ok { list with front := none, back := none, size := list.size - 1 }
  else if list.front = some node then do
    let n ← load list.heap (some node)
    let heap ← store list.heap n.next fun n' => { n' with prev := none }
    let n ← load heap (some node)
    return { list with heap, front := n.next, size := list.size - 1 }
  else if list.back = some node then do
    let n ← load list.heap (some node)
    let heap ← store list.heap n.prev fun n' => { n' with next := none }
    let n ← load heap (some node)
    return { list with heap, back := n.prev, size := list.size - 1 }
  else do
    let n ← load list.heap (some node)
    let heap ← store list.heap n.prev fun n' => { n' with next := n.next }
    let n ← load heap (some node)
    let heap ← store heap n.next fun n' => { n' with prev := n.prev }
    return { list with heap, size := list.size - 1 }

end Macros

/-! ## Comparing -/

/-- `dcmpmem`, which compares the lengths first -/
def dcmpmem (a b : Bytes) : Int :=
  if a.length < b.length then -1 else if b.length < a.length then 1 else memcmp a b

def dcmp (a b : Bytes) : Int := dcmpmem a b

def dcmpcs (a : Bytes) (b : CString) : Int := dcmpmem a b.bytes

theorem dcmpmem_eq_zero_iff {a b : Bytes} : dcmpmem a b = 0 ↔ a = b := by
  unfold dcmpmem
  split_ifs with hlt hgt
  · exact iff_of_false (by decide) fun heq => by simp [heq] at hlt
  · exact iff_of_false (by decide) fun heq => by simp [heq] at hgt
  · exact memcmp_eq_zero_iff (by omega)

theorem dcmp_eq_zero_iff {a b : Bytes} : dcmp a b = 0 ↔ a = b := dcmpmem_eq_zero_iff

theorem dcmpcs_eq_zero_iff {a : Bytes} {b : CString} : dcmpcs a b = 0 ↔ a = b.bytes :=
  dcmpmem_eq_zero_iff

/-! ## What the macros do -/

/-- The list has these nodes with these values. -/
structure NodeList.Holds {α : Type} (list : NodeList α) (xs : List (NodePtr × α)) : Prop where
  linked : Linked list.heap xs
  front : list.front = Links.front xs
  back : list.back = Links.back xs
  size : list.size = xs.length

section Macros

variable {α : Type} {list : NodeList α} {xs ys : List (NodePtr × α)}

theorem holds_listInit : (listInit : NodeList α).Holds [] := ⟨linked_nil _, rfl, rfl, rfl⟩

/-- Only the nodes of the list matter to it. -/
theorem NodeList.Holds.of_heap (h : list.Holds xs) {heap : Heap NodePtr α}
    (heq : ∀ p ∈ xs.map Prod.fst, heap p = list.heap p) : { list with heap }.Holds xs :=
  ⟨h.linked.congr heq, h.front, h.back, h.size⟩

theorem NodeList.Holds.malloc (h : list.Holds xs) {new : NewNode}
    (hnew : new.node ∉ xs.map Prod.fst) (val : α) : (list.malloc new val).Holds xs :=
  h.of_heap fun _ hp => Function.update_of_ne (ne_of_mem_of_not_mem hp hnew) _ _

theorem NodeList.Holds.free (h : list.Holds xs) {node : NodePtr} (hnode : node ∉ xs.map Prod.fst) :
    (list.free node).Holds xs :=
  h.of_heap fun _ hp => Function.update_of_ne (ne_of_mem_of_not_mem hp hnode) _ _

/-- `list_append` links an allocated node behind the last one. -/
theorem listAppend_eq (h : list.Holds xs) {x : NodePtr × α} (hx : x.1 ∉ xs.map Prod.fst)
    {n : Node NodePtr α} (hn : list.heap x.1 = some n) (hval : n.val = x.2) :
    ∃ list', listAppend list x.1 = .ok list' ∧ list'.Holds (xs ++ [x]) ∧
      ∀ p ∉ (xs ++ [x]).map Prod.fst, list'.heap p = list.heap p := by
  let heap' := Function.update
    (relink list.heap (Links.back xs) fun n => { n with next := some x.1 }) x.1
    (some ⟨Links.back xs, none, x.2⟩)
  have hlinked : Linked heap' (xs ++ [x]) := h.linked.append hx
  have hframe : ∀ p ∉ (xs ++ [x]).map Prod.fst, heap' p = list.heap p := by
    intro p hp
    simp only [List.map_append, List.map_cons, List.map_nil, List.mem_append, List.mem_singleton,
      not_or] at hp
    exact (Function.update_of_ne hp.2 _ _).trans (relink_of_ne (fun heq => hp.1 (back_mem heq)) _)
  have hrun : listAppend list x.1 =
      .ok { heap := heap', front := (list.front).or (some x.1), back := some x.1,
            size := list.size + 1 } := by
    unfold listAppend
    cases hback : list.back with
    | none =>
        obtain rfl := back_eq_none.1 (h.back.symm.trans hback)
        simp only [store_eq_update hn, store_update_self, bind, Except.bind, h.front, h.size]
        rw [hval]
        rfl
    | some b =>
        have hb : Links.back xs = some b := h.back.symm.trans hback
        obtain ⟨nb, hnb⟩ := h.linked.seg.exists_of_mem (back_mem hb)
        have hne : b ≠ x.1 := ne_of_mem_of_not_mem (back_mem hb) hx
        have hfront : (list.front).or (some x.1) = list.front := by
          cases xs with
          | nil => cases hb
          | cons => simp [h.front]
        simp only [store_eq_update hn, store_update_self, store_update_of_ne hne hnb, bind,
          Except.bind, hfront]
        rw [hval, ← hb]
        rfl
  refine ⟨_, hrun, ⟨hlinked, ?_, ?_, ?_⟩, hframe⟩
  · rw [front_append, h.front]
    rfl
  · rw [back_concat]
  · rw [List.length_append, h.size]
    rfl

theorem listErase_eq {x : NodePtr × α} (h : list.Holds (xs ++ x :: ys)) :
    ∃ list', listErase list x.1 = .ok list' ∧ list'.Holds (xs ++ ys) ∧
      ∀ p ∉ (xs ++ ys).map Prod.fst, list'.heap p = list.heap p := by
  let heap' := relink (relink list.heap (Links.back xs) fun n => { n with next := Links.front ys })
    (Links.front ys) fun n => { n with prev := Links.back xs }
  have hl := h.linked
  have hlinked : Linked heap' (xs ++ ys) := hl.erase
  have hframe : ∀ p ∉ (xs ++ ys).map Prod.fst, heap' p = list.heap p := by
    intro p hp
    rw [List.map_append, List.mem_append, not_or] at hp
    exact (relink_of_ne (fun heq => hp.2 (front_mem heq)) _).trans
      (relink_of_ne (fun heq => hp.1 (back_mem heq)) _)
  have hsize : list.size - 1 = (xs ++ ys).length := by
    rw [h.size, List.length_append, List.length_append, List.length_cons]
    omega
  have hload : load list.heap (some x.1) = .ok ⟨Links.back xs, Links.front ys, x.2⟩ :=
    load_eq hl.at
  have hreload : load heap' (some x.1) = .ok ⟨Links.back xs, Links.front ys, x.2⟩ :=
    load_eq (hl.at_relink _ _)
  have hfirst : list.front = some x.1 ↔ xs = [] := h.front ▸ hl.front_eq_iff
  have hlast : list.back = some x.1 ↔ ys = [] := h.back ▸ hl.back_eq_iff
  have hrun : listErase list x.1 =
      .ok ⟨heap', Links.front (xs ++ ys), Links.back (xs ++ ys), list.size - 1⟩ := by
    unfold listErase
    rcases eq_or_ne xs [] with rfl | hxs
    · rcases eq_or_ne ys [] with rfl | hys
      · rw [if_pos ⟨hfirst.2 rfl, hlast.2 rfl⟩]
        rfl
      · have hstore : store list.heap (Links.front ys) (fun n => { n with prev := none }) =
            .ok heap' := hl.store_front hys _ _
        have hback : list.back = Links.back ys := h.back.trans (back_append_of_ne [x] hys)
        rw [if_neg fun hboth => hys (hlast.1 hboth.2), if_pos (hfirst.2 rfl), hback]
        simp only [hload, hstore, hreload, bind, Except.bind]
        rfl
    · have hfront : list.front = Links.front xs := h.front.trans (front_append_of_ne hxs _)
      rw [if_neg fun hboth => hxs (hfirst.1 hboth.1), if_neg fun heq => hxs (hfirst.1 heq)]
      rcases eq_or_ne ys [] with rfl | hys
      · have hstore : store list.heap (Links.back xs) (fun n => { n with next := none }) =
            .ok heap' := hl.store_back hxs _
        rw [if_pos (hlast.2 rfl), hfront, List.append_nil]
        simp only [hload, hstore, hreload, bind, Except.bind]
        rfl
      · have hback : list.back = Links.back ys :=
          h.back.trans ((back_append_of_ne xs (List.cons_ne_nil _ _)).trans
            (back_append_of_ne [x] hys))
        rw [if_neg fun heq => hys (hlast.1 heq), hfront, hback, front_append_of_ne hxs,
          back_append_of_ne xs hys]
        simp only [hload, hl.store_back hxs, load_eq (hl.at_relink_back _), hl.store_front hys,
          bind, Except.bind]
        rfl
  exact ⟨_, hrun, ⟨hlinked, rfl, rfl, hsize⟩, hframe⟩

end Macros

end Svc.Common.Nodes
