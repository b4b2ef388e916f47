import Svc.Common.Dstrutils.Nodes
import Svc.Lib.OrderedMap

/-!
# Dictionaries of strings

The functions on a `dsdict`, whose nodes have a key and a value, and what each of them does
to a dictionary that holds the entries of a list.
-/

namespace Svc.Common.Nodes

open Svc.Lib Svc.Lib.Links

structure Entry where
  key : Bytes
  value : Bytes
  deriving DecidableEq

def dsdictNew : NodeList Entry := listInit

section Functions

variable (dict : NodeList Entry)

def dsdictIter (key : CString) : Except Fault (Option NodePtr) :=
  search dict.heap (fun entry => dcmpmem entry.key key.bytes = 0) dict.size dict.front

def setValue (node : NodePtr) (value : Bytes) : Except Fault (NodeList Entry) := do
  let heap ← store dict.heap (some node) fun n => { n with val := { n.val with value } }
  return { dict with heap }

/-- `dsdict_set`, with the block that its `malloc` returns -/
def dsdictSet (new : NewNode) (key : CString) (value : Bytes) :
    Except Fault (NodeList Entry) := do
  match ← dsdictIter dict key with
  | some node => setValue dict node value
  | none => listAppend (dict.malloc new ⟨key.bytes, value⟩) new.node

def dsdictSetcs (new : NewNode) (key value : CString) : Except Fault (NodeList Entry) := do
  match ← dsdictIter dict key with
  | some node => setValue dict node value.bytes
  | none => listAppend (dict.malloc new ⟨key.bytes, value.bytes⟩) new.node

def dsdictGet (key : CString) : Except Fault (Option Bytes) := do
  match ← dsdictIter dict key with
  | some node => return some (← load dict.heap (some node)).val.value
  | none => return none

def dsdictRemove (key : CString) : Except Fault (NodeList Entry) := do
  match ← dsdictIter dict key with
  | some node => do
      -- `dfree(node->key)` and `dfree(node->value)`
      let _ ← load dict.heap (some node)
      let dict ← listErase dict node
      return dict.free node
  | none => return dict

/-- Where `dsdict_find` goes on after `iterator` -/
def findFrom (iterator : Option NodePtr) : Except Fault (Option NodePtr) :=
  match iterator with
  | some node => do return (← load dict.heap (some node)).next
  | none => .ok dict.front

def dsdictFind (value : Bytes) (iterator : Option NodePtr) : Except Fault (Option NodePtr) := do
  let node ← findFrom dict iterator
  search dict.heap (fun entry => dcmp entry.value value = 0) dict.size node

def dsdictFindcs (value : CString) (iterator : Option NodePtr) :
    Except Fault (Option NodePtr) := do
  let node ← findFrom dict iterator
  search dict.heap (fun entry => dcmpmem entry.value value.bytes = 0) dict.size node

end Functions

/-! ## What the functions do -/

def keyOf (x : NodePtr × Entry) : Bytes := x.2.key

section Functions

variable {dict : NodeList Entry} {xs : List (NodePtr × Entry)}

theorem dsdictIter_eq (h : dict.Holds xs) (key : CString) :
    dsdictIter dict key = .ok ((Dict.find keyOf key.bytes xs).map Prod.fst) := by
  rw [dsdictIter, h.front, search_eq h.linked.seg _ h.size.ge]
  simp only [dcmpmem_eq_zero_iff]
  rfl

theorem dsdictGet_eq (h : dict.Holds xs) (key : CString) :
    dsdictGet dict key = .ok ((Dict.find keyOf key.bytes xs).map fun x => x.2.value) := by
  rw [dsdictGet, dsdictIter_eq h]
  cases hfind : Dict.find keyOf key.bytes xs with
  | none => rfl
  | some x =>
      obtain ⟨-, before, after, rfl, -⟩ := Dict.find_eq_some.1 hfind
      simp only [Option.map_some, bind, Except.bind, load_eq h.linked.at]
      rfl

/-- The search goes on behind any node of the list. -/
theorem findFrom_eq {ys : List (NodePtr × Entry)} (h : dict.Holds (xs ++ ys)) :
    findFrom dict (Links.back xs) = .ok (Links.front ys) := by
  cases xs using List.reverseRecOn with
  | nil => exact congrArg Except.ok h.front
  | append_singleton xs x =>
      rw [List.append_assoc] at h
      rw [back_concat, findFrom, load_eq h.linked.at]
      rfl

theorem search_findFrom_eq {ys : List (NodePtr × Entry)} (h : dict.Holds (xs ++ ys))
    (test : Entry → Bool) :
    (findFrom dict (Links.back xs) >>= search dict.heap test dict.size) =
      .ok ((ys.find? fun x => test x.2).map Prod.fst) := by
  have hrounds : ys.length ≤ dict.size := by simp [h.size]
  rw [findFrom_eq h]
  exact search_eq (seg_append.1 h.linked.seg).2 test hrounds

theorem dsdictFind_eq {ys : List (NodePtr × Entry)} (h : dict.Holds (xs ++ ys)) (value : Bytes) :
    dsdictFind dict value (Links.back xs) =
      .ok ((ys.find? fun x => x.2.value = value).map Prod.fst) := by
  rw [dsdictFind, search_findFrom_eq h]
  simp only [dcmp_eq_zero_iff]

theorem dsdictFindcs_eq {ys : List (NodePtr × Entry)} (h : dict.Holds (xs ++ ys))
    (value : CString) :
    dsdictFindcs dict value (Links.back xs) =
      .ok ((ys.find? fun x => x.2.value = value.bytes).map Prod.fst) := by
  rw [dsdictFindcs, search_findFrom_eq h]
  simp only [dcmpmem_eq_zero_iff]

/-- The entries after a value was set, in the node that has the key or in a new one -/
def setEntry (new : NodePtr) (key value : Bytes) (xs : List (NodePtr × Entry)) :
    List (NodePtr × Entry) :=
  Dict.set keyOf key (fun x => (x.1, { x.2 with value })) (new, ⟨key, value⟩) xs

theorem setValue_eq {x : NodePtr × Entry} {ys : List (NodePtr × Entry)}
    (h : dict.Holds (xs ++ x :: ys)) (value : Bytes) :
    ∃ dict', setValue dict x.1 value = .ok dict' ∧
      dict'.Holds (xs ++ (x.1, { x.2 with value }) :: ys) := by
  have hptrs : (xs ++ (x.1, { x.2 with value }) :: ys).map Prod.fst =
      (xs ++ x :: ys).map Prod.fst := by simp
  have hat := h.linked.at
  have hstore : relink dict.heap (some x.1) (fun n => { n with val := { n.val with value } }) =
      relink dict.heap (some x.1) fun n => { n with val := { x.2 with value } } := by
    rw [relink_eq hat, relink_eq hat]
  have hlinked := h.linked.revalue { x.2 with value }
  rw [← hstore] at hlinked
  refine ⟨{ dict with heap := _ }, ?_, hlinked, ?_, ?_, ?_⟩
  · rw [setValue, store_eq hat]
    rfl
  · exact h.front.trans (front_congr hptrs.symm)
  · exact h.back.trans (back_congr hptrs.symm)
  · simpa using h.size

theorem dsdictSet_eq (h : dict.Holds xs) {new : NewNode} (hnew : new.node ∉ xs.map Prod.fst)
    (key : CString) (value : Bytes) :
    ∃ dict', dsdictSet dict new key value = .ok dict' ∧
      dict'.Holds (setEntry new.node key.bytes value xs) := by
  rw [dsdictSet, dsdictIter_eq h, setEntry]
  cases hfind : Dict.find keyOf key.bytes xs with
  | none =>
      rw [Dict.set_of_not_mem (Dict.find_eq_none.1 hfind)]
      obtain ⟨dict', hrun, hholds, -⟩ := listAppend_eq (h.malloc hnew ⟨key.bytes, value⟩)
        (x := (new.node, ⟨key.bytes, value⟩)) hnew (Function.update_self ..) rfl
      exact ⟨dict', hrun, hholds⟩
  | some x =>
      obtain ⟨hx, before, after, rfl, hbefore⟩ := Dict.find_eq_some.1 hfind
      rw [Dict.set_append_cons hbefore hx]
      exact setValue_eq h value

theorem dsdictSetcs_eq_dsdictSet (dict : NodeList Entry) (new : NewNode) (key value : CString) :
    dsdictSetcs dict new key value = dsdictSet dict new key value.bytes := rfl

theorem dsdictRemove_eq (h : dict.Holds xs) (hkeys : (xs.map keyOf).Nodup) (key : CString) :
    ∃ dict', dsdictRemove dict key = .ok dict' ∧
      dict'.Holds (xs.filter (keyOf · ≠ key.bytes)) := by
  rw [dsdictRemove, dsdictIter_eq h]
  cases hfind : Dict.find keyOf key.bytes xs with
  | none =>
      rw [List.filter_eq_self.2 fun x hx => by
        simpa using fun heq => Dict.find_eq_none.1 hfind (List.mem_map.2 ⟨x, hx, heq⟩)]
      exact ⟨dict, rfl, h⟩
  | some x =>
      obtain ⟨hx, before, after, rfl, -⟩ := Dict.find_eq_some.1 hfind
      obtain ⟨dict', hrun, hholds, -⟩ := listErase_eq h
      rw [← hx, Dict.filter_append_cons hkeys]
      refine ⟨dict'.free x.1, ?_, hholds.free h.linked.not_mem⟩
      simp only [Option.map_some, bind, Except.bind, load_eq h.linked.at, hrun]
      rfl

end Functions

end Svc.Common.Nodes
