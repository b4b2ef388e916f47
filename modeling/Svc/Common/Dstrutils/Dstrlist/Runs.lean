import Mathlib.Data.List.Perm.Basic
import Svc.Common.Dstrutils.Dstrlist
import Svc.Lib.Dict
import Svc.Lib.Fallible

/-!
# Runs of a list of strings

Over any run of pushes, removals and erasures the links of a list, its ends and its size
are those of the plain list with the same changes, and what is read from it is read from
the plain list.  A removed node belongs to the caller, who may add it again or free it.
-/

namespace Svc.Common.Nodes

open Svc.Lib Svc.Lib.Links

inductive ListOp where
  | push (new : NewNode) (text : Bytes)
  | add (new : NewNode) (text : Bytes)
  | addcs (new : NewNode) (text : CString)
  | addmem (new : NewNode) (text : Bytes)
  /-- `dlist_addnode` of a node that the caller has allocated -/
  | addnew (new : NewNode) (text : Bytes)
  /-- `dlist_addnode` of a node that was removed -/
  | addnode (node : NodePtr)
  | remove (node : NodePtr)
  | erase (node : NodePtr)
  /-- The caller frees a node that was removed. -/
  | free (node : NodePtr)

def listStep (list : NodeList Bytes) : ListOp → Except Fault (NodeList Bytes)
  | .push new text => dlistPush list new text
  | .add new text => dlistAdd list new text
  | .addcs new text => dlistAddcs list new text
  | .addmem new text => dlistAddmem list new text
  | .addnew new text => dlistAddnode (list.malloc new text) new.node
  | .addnode node => dlistAddnode list node
  | .remove node => dlistRemove list node
  | .erase node => dlistErase list node
  | .free node => .ok (list.free node)

/-! ## The plain list -/

/-- The strings of the list, each with its node, and those of the removed nodes. -/
structure PlainList where
  strings : List (NodePtr × Bytes)
  removed : List (NodePtr × Bytes)

namespace PlainList

def empty : PlainList := ⟨[], []⟩

def append (s : PlainList) (node : NodePtr) (text : Bytes) : PlainList :=
  { s with strings := s.strings ++ [(node, text)] }

def next (s : PlainList) : ListOp → PlainList
  | .push new text => s.append new.node text
  | .add new text => s.append new.node text
  | .addcs new text => s.append new.node text.bytes
  | .addmem new text => s.append new.node text
  | .addnew new text => s.append new.node text
  | .addnode node =>
      ⟨s.strings ++ s.removed.filter (·.1 = node), s.removed.filter (·.1 ≠ node)⟩
  | .remove node =>
      ⟨s.strings.filter (·.1 ≠ node), s.strings.filter (·.1 = node) ++ s.removed⟩
  | .erase node => { s with strings := s.strings.filter (·.1 ≠ node) }
  | .free node => { s with removed := s.removed.filter (·.1 ≠ node) }

def nodes (s : PlainList) : List NodePtr := (s.strings ++ s.removed).map Prod.fst

/-- `malloc` returns no block that is in use, and a node is where the call expects it. -/
def Allowed (s : PlainList) : ListOp → Prop
  | .push new _ => new.node ∉ s.nodes
  | .add new _ => new.node ∉ s.nodes
  | .addcs new _ => new.node ∉ s.nodes
  | .addmem new _ => new.node ∉ s.nodes
  | .addnew new _ => new.node ∉ s.nodes
  | .addnode node => node ∈ s.removed.map Prod.fst
  | .remove node => node ∈ s.strings.map Prod.fst
  | .erase node => node ∈ s.strings.map Prod.fst
  | .free node => node ∈ s.removed.map Prod.fst

instance (s : PlainList) : (op : ListOp) → Decidable (s.Allowed op)
  | .push new _ => inferInstanceAs (Decidable (new.node ∉ s.nodes))
  | .add new _ => inferInstanceAs (Decidable (new.node ∉ s.nodes))
  | .addcs new _ => inferInstanceAs (Decidable (new.node ∉ s.nodes))
  | .addmem new _ => inferInstanceAs (Decidable (new.node ∉ s.nodes))
  | .addnew new _ => inferInstanceAs (Decidable (new.node ∉ s.nodes))
  | .addnode node => inferInstanceAs (Decidable (node ∈ s.removed.map Prod.fst))
  | .remove node => inferInstanceAs (Decidable (node ∈ s.strings.map Prod.fst))
  | .erase node => inferInstanceAs (Decidable (node ∈ s.strings.map Prod.fst))
  | .free node => inferInstanceAs (Decidable (node ∈ s.removed.map Prod.fst))

end PlainList

def plainMachine : Machine PlainList ListOp Unit where
  step s op := (s.next op, ())

/-- The list in memory and the removed nodes are those of the plain list. -/
structure Represents (list : NodeList Bytes) (s : PlainList) : Prop where
  holds : list.Holds s.strings
  removed : ∀ x ∈ s.removed, ∃ n, list.heap x.1 = some n ∧ n.val = x.2
  nodup : s.nodes.Nodup

section Steps

variable {list : NodeList Bytes} {strings removed xs ys : List (NodePtr × Bytes)}
  {x : NodePtr × Bytes}

theorem Represents.nodup_removed {s : PlainList} (h : Represents list s) :
    (s.removed.map Prod.fst).Nodup := by
  have hnodup := h.nodup
  rw [PlainList.nodes, List.map_append] at hnodup
  exact hnodup.of_append_right

theorem Represents.malloc {s : PlainList} (h : Represents list s) {new : NewNode}
    (hnew : new.node ∉ s.nodes) (text : Bytes) :
    Represents (list.malloc new text) { s with removed := (new.node, text) :: s.removed } where
  holds := by
    rw [PlainList.nodes, List.map_append, List.mem_append, not_or] at hnew
    exact h.holds.malloc hnew.1 text
  removed := by
    rw [PlainList.nodes, List.map_append, List.mem_append, not_or] at hnew
    refine List.forall_mem_cons.2 ⟨⟨_, Function.update_self .., rfl⟩, fun y hy => ?_⟩
    obtain ⟨n, hn, hval⟩ := h.removed y hy
    have hne : y.1 ≠ new.node := ne_of_mem_of_not_mem (List.mem_map_of_mem hy) hnew.2
    exact ⟨n, (Function.update_of_ne hne _ _).trans hn, hval⟩
  nodup := by
    have hperm : (s.strings ++ (new.node, text) :: s.removed).Perm
        ((new.node, text) :: (s.strings ++ s.removed)) := List.perm_middle
    exact (hperm.map Prod.fst).nodup_iff.2 (List.nodup_cons.2 ⟨hnew, h.nodup⟩)

/-- A removed node is linked into the list again. -/
theorem Represents.append (xs : List (NodePtr × Bytes))
    (h : Represents list ⟨strings, xs ++ x :: ys⟩) :
    ∃ list', listAppend list x.1 = .ok list' ∧
      Represents list' ⟨strings ++ [x], xs ++ ys⟩ := by
  have hperm : (strings ++ (xs ++ x :: ys)).Perm (strings ++ [x] ++ (xs ++ ys)) := by
    rw [List.append_assoc]
    exact List.perm_middle.append_left strings
  have hnodup := (hperm.map Prod.fst).nodup_iff.1 h.nodup
  rw [List.map_append, List.nodup_append] at hnodup
  obtain ⟨hnodes, -, hdisjoint⟩ := hnodup
  rw [List.map_append, List.nodup_append] at hnodes
  have hx : x.1 ∉ strings.map Prod.fst := fun hmem => hnodes.2.2 _ hmem _ (by simp) rfl
  obtain ⟨n, hn, hval⟩ := h.removed x (by simp)
  obtain ⟨list', hlist', hholds, hframe⟩ := listAppend_eq h.holds hx hn hval
  refine ⟨list', hlist', hholds, fun y hy => ?_, (hperm.map Prod.fst).nodup_iff.1 h.nodup⟩
  rw [hframe y.1 fun hmem => hdisjoint _ hmem _ (List.mem_map_of_mem hy) rfl]
  exact h.removed y (by rw [List.mem_append] at hy ⊢; exact hy.imp_right (List.mem_cons_of_mem _))

theorem Represents.remove (h : Represents list ⟨xs ++ x :: ys, removed⟩) :
    ∃ list', listErase list x.1 = .ok list' ∧
      Represents list' ⟨xs ++ ys, x :: removed⟩ := by
  have hperm : (xs ++ x :: ys ++ removed).Perm (xs ++ ys ++ x :: removed) := by
    rw [List.append_assoc, List.append_assoc]
    exact List.perm_middle.trans ((List.perm_middle.append_left xs).trans List.perm_middle).symm
  have hnodup := (hperm.map Prod.fst).nodup_iff.1 h.nodup
  obtain ⟨list', hlist', hholds, hframe⟩ := listErase_eq h.holds
  refine ⟨list', hlist', hholds, fun y hy => ?_, hnodup⟩
  rw [List.map_append, List.nodup_append] at hnodup
  rw [hframe y.1 fun hmem => hnodup.2.2 _ hmem _ (List.mem_map_of_mem hy) rfl]
  rcases List.mem_cons.1 hy with rfl | hy
  · exact ⟨_, h.holds.linked.at, rfl⟩
  · exact h.removed y hy

theorem Represents.free (xs : List (NodePtr × Bytes))
    (h : Represents list ⟨strings, xs ++ x :: ys⟩) :
    Represents (list.free x.1) ⟨strings, xs ++ ys⟩ := by
  have hperm : (strings ++ (xs ++ x :: ys)).Perm (x :: (strings ++ (xs ++ ys))) :=
    (List.perm_middle.append_left strings).trans List.perm_middle
  have hnodup := (hperm.map Prod.fst).nodup_iff.1 h.nodup
  rw [List.map_cons, List.nodup_cons, List.map_append, List.mem_append, not_or] at hnodup
  obtain ⟨⟨hstrings, hremoved⟩, hnodes⟩ := hnodup
  refine ⟨h.holds.free hstrings, fun y hy => ?_, by simpa [PlainList.nodes] using hnodes⟩
  have hne : y.1 ≠ x.1 := ne_of_mem_of_not_mem (List.mem_map_of_mem hy) hremoved
  obtain ⟨n, hn, hval⟩ := h.removed y (by
    rw [List.mem_append] at hy ⊢; exact hy.imp_right (List.mem_cons_of_mem _))
  exact ⟨n, (Function.update_of_ne hne _ _).trans hn, hval⟩

theorem Represents.append_new {s : PlainList} (h : Represents list s) {new : NewNode}
    (hnew : new.node ∉ s.nodes) (text : Bytes) :
    ∃ list', listAppend (list.malloc new text) new.node = .ok list' ∧
      Represents list' (s.append new.node text) :=
  Represents.append [] (x := (new.node, text)) (h.malloc hnew text)

theorem listStep_represents {s : PlainList} (h : Represents list s) {op : ListOp}
    (hop : s.Allowed op) :
    ∃ list', listStep list op = .ok list' ∧ Represents list' (s.next op) := by
  cases op with
  | push new text => exact h.append_new hop text
  | add new text => exact h.append_new hop text
  | addcs new text => exact h.append_new hop text.bytes
  | addmem new text => exact h.append_new hop text
  | addnew new text => exact h.append_new hop text
  | addnode node =>
      obtain ⟨x, xs, ys, rfl, hsplit, hx, hrest⟩ := Dict.exists_split h.nodup_removed hop
      rw [PlainList.next, hx, hrest]
      exact Represents.append xs (hsplit ▸ h)
  | remove node =>
      obtain ⟨x, xs, ys, rfl, hsplit, hx, hrest⟩ := Dict.exists_split h.holds.linked.nodup hop
      rw [PlainList.next, hx, hrest]
      exact Represents.remove (hsplit ▸ h)
  | erase node =>
      obtain ⟨x, xs, ys, rfl, hsplit, -, hrest⟩ := Dict.exists_split h.holds.linked.nodup hop
      have h : Represents list ⟨xs ++ x :: ys, s.removed⟩ := hsplit ▸ h
      obtain ⟨list', hlist', h'⟩ := h.remove
      rw [PlainList.next, hrest]
      refine ⟨list'.free x.1, ?_, Represents.free [] h'⟩
      simp only [listStep, dlistErase, load_eq h.holds.linked.at, hlist', bind, Except.bind]
      rfl
  | free node =>
      obtain ⟨x, xs, ys, rfl, hsplit, -, hrest⟩ := Dict.exists_split h.nodup_removed hop
      rw [PlainList.next, hrest]
      exact ⟨_, rfl, Represents.free xs (hsplit ▸ h)⟩

theorem represents_dlistNew : Represents dlistNew .empty :=
  ⟨holds_listInit, List.forall_mem_nil _, List.nodup_nil⟩

/-- A run of calls that meet the callers' side does not fail. -/
theorem exists_run_represents {ops : List ListOp}
    (hops : plainMachine.Guarded PlainList.Allowed .empty ops) :
    ∃ list, (Machine.fallible listStep).run (.ok dlistNew) ops = .ok list ∧
      Represents list (plainMachine.run .empty ops) :=
  Machine.exists_run_of_simulates (R := Represents)
    (fun _ _ _ h hop => listStep_represents h hop) represents_dlistNew hops

end Steps

/-! ## The list as its reader sees it -/

def dlistStrings (list : NodeList Bytes) : Except Fault (List Bytes) :=
  iterate list.heap (fun read string => .ok (read ++ [string])) list.size [] list.front

theorem foldlM_read (strings read : List Bytes) :
    strings.foldlM (fun read string => Except.ok (ε := Fault) (read ++ [string])) read =
      .ok (read ++ strings) := by
  induction strings generalizing read with
  | nil =>
      rw [List.append_nil]
      rfl
  | cons s strings ih =>
      rw [List.foldlM_cons]
      exact (ih _).trans (by rw [List.append_assoc]; rfl)

/-- Following the links and the functions that read give these strings. -/
structure ReadsAs (list : NodeList Bytes) (strings : List (NodePtr × Bytes)) : Prop where
  forwards : walk list.heap Node.next list.size list.front = .ok (strings.map Prod.fst)
  backwards : walk list.heap Node.prev list.size list.back = .ok (strings.map Prod.fst).reverse
  size : list.size = strings.length
  contents : dlistStrings list = .ok (strings.map Prod.snd)
  find : ∀ string,
    dlistFind list string = .ok ((strings.find? fun x => x.2 = string).map Prod.fst)
  findcs : ∀ string,
    dlistFindcs list string = .ok ((strings.find? fun x => x.2 = string.bytes).map Prod.fst)
  tovector : ∀ memory,
    dlistTovector list memory = .ok ((strings.map fun x => some x.2) ++ [none])
  join : ∀ glue, dlistJoin list glue = .ok (glue.intercalate (strings.map Prod.snd))

theorem NodeList.Holds.readsAs {list : NodeList Bytes} {strings : List (NodePtr × Bytes)}
    (h : list.Holds strings) : ReadsAs list strings where
  forwards := by rw [h.front, walk_next h.linked.seg h.size.ge]
  backwards := by rw [h.back, walk_prev h.linked.seg h.size.ge]
  size := h.size
  contents := by
    rw [dlistStrings, h.front, iterate_eq h.linked.seg _ _ h.size.ge, foldlM_read]
    rfl
  find := dlistFind_eq h
  findcs := dlistFindcs_eq h
  tovector := dlistTovector_eq h
  join := dlistJoin_eq h

theorem dstrlist_readsAs (ops : List ListOp)
    (hops : plainMachine.Guarded PlainList.Allowed .empty ops) :
    ∃ list, (Machine.fallible listStep).run (.ok dlistNew) ops = .ok list ∧
      ReadsAs list (plainMachine.run .empty ops).strings ∧
      ∀ ops', plainMachine.Guarded PlainList.Allowed .empty ops' →
        ∃ list', (Machine.fallible listStep).run (.ok dlistNew) ops' = .ok list' ∧
          dlistEquals list list' = .ok (decide
            ((plainMachine.run .empty ops).strings.map Prod.snd =
              (plainMachine.run .empty ops').strings.map Prod.snd)) := by
  obtain ⟨list, hrun, hlist⟩ := exists_run_represents hops
  refine ⟨list, hrun, hlist.holds.readsAs, fun ops' hops' => ?_⟩
  obtain ⟨list', hrun', hlist'⟩ := exists_run_represents hops'
  exact ⟨list', hrun', dlistEquals_eq hlist.holds hlist'.holds⟩

/-- Three nodes, of which the middle one is removed, added again, and the first erased -/
theorem dstrlist_readsAs_three_nodes :
    ∃ list, (Machine.fallible listStep).run (.ok dlistNew)
        [.addcs ⟨1, none, none⟩ ⟨cstr "node 1", by decide⟩,
          .push ⟨2, some 9, some 7⟩ (cstr "node 2"),
          .add ⟨3, none, some 1⟩ (cstr "node 3"), .remove 2, .addnode 2, .erase 1] = .ok list ∧
      ReadsAs list [(3, cstr "node 3"), (2, cstr "node 2")] := by
  obtain ⟨list, hrun, hreads, -⟩ := dstrlist_readsAs
    [.addcs ⟨1, none, none⟩ ⟨cstr "node 1", by decide⟩, .push ⟨2, some 9, some 7⟩ (cstr "node 2"),
      .add ⟨3, none, some 1⟩ (cstr "node 3"), .remove 2, .addnode 2, .erase 1] (by decide)
  exact ⟨list, hrun, hreads⟩

end Svc.Common.Nodes
