import Svc.Common.Dstrutils.Nodes

/-!
# Lists of strings

The functions on a `dstrlist`, and what is read from a list that holds some strings.
-/

namespace Svc.Common.Nodes

open Svc.Lib Svc.Lib.Links

def dlistNew : NodeList Bytes := listInit

/-- `dlist_push`: the node has the caller's string itself. -/
def dlistPush (list : NodeList Bytes) (new : NewNode) (text : Bytes) :
    Except Fault (NodeList Bytes) :=
  listAppend (list.malloc new text) new.node

/-- `dlist_add`: the node has a copy by `dnewcopy`. -/
def dlistAdd (list : NodeList Bytes) (new : NewNode) (text : Bytes) :
    Except Fault (NodeList Bytes) :=
  listAppend (list.malloc new text) new.node

def dlistAddcs (list : NodeList Bytes) (new : NewNode) (text : CString) :
    Except Fault (NodeList Bytes) :=
  listAppend (list.malloc new text.bytes) new.node

def dlistAddmem (list : NodeList Bytes) (new : NewNode) (text : Bytes) :
    Except Fault (NodeList Bytes) :=
  listAppend (list.malloc new text) new.node

def dlistAddnode (list : NodeList Bytes) (node : NodePtr) : Except Fault (NodeList Bytes) :=
  listAppend list node

def dlistErase (list : NodeList Bytes) (node : NodePtr) : Except Fault (NodeList Bytes) := do
  -- `dfree(node->string)`
  let _ ← load list.heap (some node)
  let list ← listErase list node
  return list.free node

def dlistRemove (list : NodeList Bytes) (node : NodePtr) : Except Fault (NodeList Bytes) :=
  listErase list node

/-! ## Reading -/

section Reading

variable (list : NodeList Bytes)

/-- The loops over the nodes of a list are given one round for each of them. -/
def dlistFind (string : Bytes) : Except Fault (Option NodePtr) :=
  search list.heap (fun s => dcmp s string = 0) list.size list.front

def dlistFindcs (string : CString) : Except Fault (Option NodePtr) :=
  search list.heap (fun s => dcmpcs s string = 0) list.size list.front

def joinFrom (heap : Heap NodePtr Bytes) (glue : Bytes) :
    (rounds : Nat) → (s : Bytes) → Option NodePtr → Except Fault Bytes
  | _, s, none => .ok s
  | 0, _, some _ => .error .unending
  | rounds + 1, s, some p => do
      let node ← load heap (some p)
      let s := s ++ node.val
      joinFrom heap glue rounds (if node.next.isSome then s ++ glue else s) node.next

def dlistJoin (glue : Bytes) : Except Fault Bytes :=
  joinFrom list.heap glue list.size [] list.front

def equalsFrom (heap1 heap2 : Heap NodePtr Bytes) :
    (rounds : Nat) → (n1 n2 : Option NodePtr) → Except Fault Bool
  | _, none, _ => .ok true
  | 0, some _, _ => .error .unending
  | rounds + 1, some p1, n2 => do
      let node1 ← load heap1 (some p1)
      let node2 ← load heap2 n2
      if dcmp node1.val node2.val ≠ 0 then return false
      else equalsFrom heap1 heap2 rounds node1.next node2.next

def dlistEquals (l1 l2 : NodeList Bytes) : Except Fault Bool :=
  if l1.size ≠ l2.size then .ok false
  else equalsFrom l1.heap l2.heap l1.size l1.front l2.front

/-- The body of the loop of `dlist_tovector`: `vec[i++] = dnewcopy(node->string)` -/
def putVector (s : Nat × List (Option Bytes)) (string : Bytes) :
    Except Fault (Nat × List (Option Bytes)) :=
  if s.1 < s.2.length then .ok (s.1 + 1, s.2.set s.1 (some string)) else .error .outOfBounds

/-- `dlist_tovector`: a vector of `size + 1` pointers, which has what is in `memory` at first -/
def dlistTovector (memory : Nat → Option Bytes) : Except Fault (List (Option Bytes)) := do
  let vec := ((List.range (list.size + 1)).map memory).set list.size none
  let (_, vec) ← iterate list.heap putVector list.size (0, vec) list.front
  return vec

end Reading

/-! ## What is read -/

section Reading

variable {list : NodeList Bytes} {xs : List (NodePtr × Bytes)}

theorem dlistFind_eq (h : list.Holds xs) (string : Bytes) :
    dlistFind list string = .ok ((xs.find? fun x => x.2 = string).map Prod.fst) := by
  rw [dlistFind, h.front, search_eq h.linked.seg _ h.size.ge]
  simp only [dcmp_eq_zero_iff]

theorem dlistFindcs_eq (h : list.Holds xs) (string : CString) :
    dlistFindcs list string = .ok ((xs.find? fun x => x.2 = string.bytes).map Prod.fst) := by
  rw [dlistFindcs, h.front, search_eq h.linked.seg _ h.size.ge]
  simp only [dcmpcs_eq_zero_iff]

theorem joinFrom_eq {heap : Heap NodePtr Bytes} {before : Option NodePtr}
    (hseg : Seg heap before xs none) (glue s : Bytes) {rounds : Nat}
    (hrounds : xs.length ≤ rounds) :
    joinFrom heap glue rounds s (Links.front xs) =
      .ok (s ++ glue.intercalate (xs.map Prod.snd)) := by
  induction xs generalizing before rounds s with
  | nil =>
      rw [List.map_nil, List.intercalate_nil, List.append_nil]
      cases rounds <;> rfl
  | cons x xs ih =>
      obtain ⟨rounds, rfl⟩ : ∃ n, rounds = n + 1 := ⟨rounds - 1, by simp at hrounds; omega⟩
      simp only [front_cons, joinFrom, load_eq hseg.1, Option.or_none, bind, Except.bind]
      rw [ih hseg.2 _ (Nat.le_of_succ_le_succ hrounds)]
      cases xs with
      | nil => simp [List.intercalate]
      | cons => simp [List.intercalate]

theorem dlistJoin_eq (h : list.Holds xs) (glue : Bytes) :
    dlistJoin list glue = .ok (glue.intercalate (xs.map Prod.snd)) := by
  rw [dlistJoin, h.front, joinFrom_eq h.linked.seg glue [] h.size.ge, List.nil_append]

theorem equalsFrom_eq {heap1 heap2 : Heap NodePtr Bytes} {before1 before2 : Option NodePtr}
    {ys : List (NodePtr × Bytes)} (hxs : Seg heap1 before1 xs none)
    (hys : Seg heap2 before2 ys none) (hlength : xs.length = ys.length) {rounds : Nat}
    (hrounds : xs.length ≤ rounds) :
    equalsFrom heap1 heap2 rounds (Links.front xs) (Links.front ys) =
      .ok (decide (xs.map Prod.snd = ys.map Prod.snd)) := by
  induction xs generalizing before1 before2 ys rounds with
  | nil =>
      obtain rfl := List.eq_nil_of_length_eq_zero hlength.symm
      cases rounds <;> rfl
  | cons x xs ih =>
      obtain ⟨y, ys, rfl⟩ := List.exists_cons_of_length_eq_add_one hlength.symm
      obtain ⟨rounds, rfl⟩ : ∃ n, rounds = n + 1 := ⟨rounds - 1, by simp at hrounds; omega⟩
      have hrest := ih hxs.2 hys.2 (Nat.succ.inj hlength) (Nat.le_of_succ_le_succ hrounds)
      simp only [front_cons, equalsFrom, load_eq hxs.1, load_eq hys.1, Option.or_none, bind,
        Except.bind, hrest, dcmp_eq_zero_iff, ne_eq, List.map_cons, List.cons.injEq]
      split_ifs with heq
      · simp [heq]
      · rw [decide_eq_false fun hcons => heq hcons.1]
        rfl

theorem dlistEquals_eq {l1 l2 : NodeList Bytes} {ys : List (NodePtr × Bytes)} (h1 : l1.Holds xs)
    (h2 : l2.Holds ys) :
    dlistEquals l1 l2 = .ok (decide (xs.map Prod.snd = ys.map Prod.snd)) := by
  unfold dlistEquals
  rw [h1.size, h2.size]
  split_ifs with hlength
  · have hne : xs.map Prod.snd ≠ ys.map Prod.snd := fun heq => hlength (by
      simpa using congrArg List.length heq)
    rw [decide_eq_false hne]
  · rw [h1.front, h2.front]
    exact equalsFrom_eq h1.linked.seg h2.linked.seg (not_not.1 hlength) le_rfl

theorem foldlM_putVector (strings : List Bytes) (done vec : List (Option Bytes))
    (hlength : strings.length ≤ vec.length) :
    strings.foldlM putVector (done.length, done ++ vec) =
      .ok (done.length + strings.length,
        done ++ strings.map some ++ vec.drop strings.length) := by
  induction strings generalizing done vec with
  | nil =>
      simp only [List.foldlM_nil, List.length_nil, Nat.add_zero, List.map_nil, List.append_nil,
        List.drop_zero]
      rfl
  | cons s strings ih =>
      obtain ⟨v, vec, rfl⟩ :=
        List.exists_cons_of_length_pos (by simp at hlength; omega : 0 < vec.length)
      have hput : putVector (done.length, done ++ v :: vec) s =
          .ok ((done ++ [some s]).length, (done ++ [some s]) ++ vec) := by
        rw [putVector, if_pos (by simp)]
        simp
      rw [List.foldlM_cons, hput]
      refine (ih (done ++ [some s]) vec (Nat.le_of_succ_le_succ hlength)).trans ?_
      simp
      omega

theorem dlistTovector_eq (h : list.Holds xs) (memory : Nat → Option Bytes) :
    dlistTovector list memory = .ok ((xs.map fun x => some x.2) ++ [none]) := by
  have hvec : ((List.range (list.size + 1)).map memory).set list.size none =
      (List.range list.size).map memory ++ [none] := by
    rw [List.range_succ, List.map_append, List.set_append_right _ _ (by simp)]
    simp
  have hloop := foldlM_putVector (xs.map Prod.snd) [] ((List.range list.size).map memory ++ [none])
    (by simp [h.size])
  have hiterate := iterate_eq h.linked.seg putVector
    (0, (List.range list.size).map memory ++ [none]) h.size.ge
  rw [← h.front] at hiterate
  rw [List.length_nil, List.nil_append] at hloop
  rw [dlistTovector, hvec, hiterate, hloop]
  simp [bind, Except.bind, h.size]
  rfl

end Reading

end Svc.Common.Nodes
