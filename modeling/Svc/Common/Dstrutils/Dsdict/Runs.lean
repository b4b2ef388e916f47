import Svc.Common.Dstrutils.Dsdict
import Svc.Lib.Fallible

/-!
# Runs of a dictionary

Over any run of calls a `dsdict` has the entries of the dictionary kept as a list with the
same changes, and these are an ordered map.
-/

namespace Svc.Common.Nodes

open Svc.Lib Svc.Lib.Links

inductive DictOp where
  | set (new : NewNode) (key : CString) (value : Bytes)
  | setcs (new : NewNode) (key value : CString)
  | remove (key : CString)

def dictStep (dict : NodeList Entry) : DictOp → Except Fault (NodeList Entry)
  | .set new key value => dsdictSet dict new key value
  | .setcs new key value => dsdictSetcs dict new key value
  | .remove key => dsdictRemove dict key

/-! ## The entries -/

def entriesNext (xs : List (NodePtr × Entry)) : DictOp → List (NodePtr × Entry)
  | .set new key value => setEntry new.node key.bytes value xs
  | .setcs new key value => setEntry new.node key.bytes value.bytes xs
  | .remove key => xs.filter (keyOf · ≠ key.bytes)

/-- `malloc` returns no block that is a node of the dictionary. -/
def DictAllowed (xs : List (NodePtr × Entry)) : DictOp → Prop
  | .set new _ _ => new.node ∉ xs.map Prod.fst
  | .setcs new _ _ => new.node ∉ xs.map Prod.fst
  | .remove _ => True

instance (xs : List (NodePtr × Entry)) : (op : DictOp) → Decidable (DictAllowed xs op)
  | .set new _ _ => inferInstanceAs (Decidable (new.node ∉ xs.map Prod.fst))
  | .setcs new _ _ => inferInstanceAs (Decidable (new.node ∉ xs.map Prod.fst))
  | .remove _ => inferInstanceAs (Decidable True)

def entriesMachine : Machine (List (NodePtr × Entry)) DictOp Unit where
  step xs op := (entriesNext xs op, ())

/-- The dictionary in memory has these entries, whose keys differ. -/
structure HasEntries (dict : NodeList Entry) (xs : List (NodePtr × Entry)) : Prop where
  holds : dict.Holds xs
  nodup : (xs.map keyOf).Nodup

theorem nodup_setEntry {xs : List (NodePtr × Entry)} (h : (xs.map keyOf).Nodup) (new : NodePtr)
    (key value : Bytes) : ((setEntry new key value xs).map keyOf).Nodup :=
  Dict.nodup_keys_set (fun _ => rfl) rfl h

theorem nodup_entriesNext {xs : List (NodePtr × Entry)} (h : (xs.map keyOf).Nodup) (op : DictOp) :
    ((entriesNext xs op).map keyOf).Nodup := by
  cases op with
  | set new key value => exact nodup_setEntry h ..
  | setcs new key value => exact nodup_setEntry h ..
  | remove key => exact h.sublist (List.filter_sublist.map keyOf)

theorem dictStep_hasEntries {dict : NodeList Entry} {xs : List (NodePtr × Entry)}
    (h : HasEntries dict xs) {op : DictOp} (hop : DictAllowed xs op) :
    ∃ dict', dictStep dict op = .ok dict' ∧ HasEntries dict' (entriesNext xs op) := by
  have hstep : ∃ dict', dictStep dict op = .ok dict' ∧ dict'.Holds (entriesNext xs op) := by
    cases op with
    | set new key value => exact dsdictSet_eq h.holds hop key value
    | setcs new key value => exact dsdictSet_eq h.holds hop key value.bytes
    | remove key => exact dsdictRemove_eq h.holds h.nodup key
  obtain ⟨dict', hrun, hholds⟩ := hstep
  exact ⟨dict', hrun, hholds, nodup_entriesNext h.nodup op⟩

/-! ## The map -/

def mapNext (m : OrderedMap Bytes Bytes) : DictOp → OrderedMap Bytes Bytes
  | .set _ key value => m.set key.bytes value
  | .setcs _ key value => m.set key.bytes value.bytes
  | .remove key => m.remove key.bytes

def mapMachine : Machine (OrderedMap Bytes Bytes) DictOp Unit where
  step m op := (mapNext m op, ())

def mapOf (xs : List (NodePtr × Entry)) (h : (xs.map keyOf).Nodup) : OrderedMap Bytes Bytes :=
  .ofEntries keyOf (fun x => x.2.value) xs h

theorem mapOf_setEntry {xs : List (NodePtr × Entry)} (h : (xs.map keyOf).Nodup) (new : NodePtr)
    (key value : Bytes) :
    mapOf (setEntry new key value xs) (nodup_setEntry h new key value) =
      (mapOf xs h).set key value := by
  refine OrderedMap.ofEntries_set h ?_ ?_ ?_ ?_
  · exact fun _ => rfl
  · rfl
  · exact fun _ => rfl
  · rfl

theorem mapOf_entriesNext {xs : List (NodePtr × Entry)} (h : (xs.map keyOf).Nodup)
    (op : DictOp) :
    mapOf (entriesNext xs op) (nodup_entriesNext h op) = mapNext (mapOf xs h) op := by
  cases op with
  | set new key value => exact mapOf_setEntry h ..
  | setcs new key value => exact mapOf_setEntry h ..
  | remove key => exact OrderedMap.ofEntries_filter h key.bytes

theorem mapOf_run {xs : List (NodePtr × Entry)} (h : (xs.map keyOf).Nodup) (ops : List DictOp) :
    ∃ h', mapOf (entriesMachine.run xs ops) h' = mapMachine.run (mapOf xs h) ops := by
  induction ops generalizing xs with
  | nil => exact ⟨h, rfl⟩
  | cons op ops ih =>
      obtain ⟨h', hrun⟩ := ih (nodup_entriesNext h op)
      refine ⟨h', hrun.trans ?_⟩
      rw [mapOf_entriesNext]
      rfl

/-! ## The dictionary as its reader sees it -/

/-- Following the links of the dictionary and the functions that read give these entries and
this map. -/
structure DictReadsAs (dict : NodeList Entry) (xs : List (NodePtr × Entry))
    (m : OrderedMap Bytes Bytes) : Prop where
  forwards : walk dict.heap Node.next dict.size dict.front = .ok (xs.map Prod.fst)
  backwards : walk dict.heap Node.prev dict.size dict.back = .ok (xs.map Prod.fst).reverse
  entries : ∀ x ∈ xs, (load dict.heap (some x.1)).map Node.val = .ok x.2
  keys : xs.map keyOf = m.order
  size : dict.size = m.order.length
  get : ∀ key, dsdictGet dict key = .ok (m.value key.bytes)
  find : ∀ value, searchAll (dsdictFind dict value) (dict.size + 1) none =
    .ok ((xs.filter fun x => x.2.value = value).map Prod.fst)
  findcs : ∀ value, searchAll (dsdictFindcs dict value) (dict.size + 1) none =
    .ok ((xs.filter fun x => x.2.value = value.bytes).map Prod.fst)

theorem HasEntries.readsAs {dict : NodeList Entry} {xs : List (NodePtr × Entry)}
    (h : HasEntries dict xs) : DictReadsAs dict xs (mapOf xs h.nodup) where
  forwards := by rw [h.holds.front, walk_next h.holds.linked.seg h.holds.size.ge]
  backwards := by rw [h.holds.back, walk_prev h.holds.linked.seg h.holds.size.ge]
  entries := fun x hx => by
    obtain ⟨before, after, rfl⟩ := List.append_of_mem hx
    rw [load_eq h.holds.linked.at]
    rfl
  keys := rfl
  size := h.holds.size.trans (List.length_map keyOf).symm
  get := dsdictGet_eq h.holds
  find value := by
    refine searchAll_eq ?_ [] xs rfl (Nat.lt_succ_of_le h.holds.size.ge)
    rintro before after rfl
    exact dsdictFind_eq h.holds value
  findcs value := by
    refine searchAll_eq ?_ [] xs rfl (Nat.lt_succ_of_le h.holds.size.ge)
    rintro before after rfl
    exact dsdictFindcs_eq h.holds value

theorem dsdict_readsAs (ops : List DictOp) (hops : entriesMachine.Guarded DictAllowed [] ops) :
    ∃ dict, (Machine.fallible dictStep).run (.ok dsdictNew) ops = .ok dict ∧
      DictReadsAs dict (entriesMachine.run [] ops) (mapMachine.run .empty ops) := by
  obtain ⟨dict, hrun, hentries⟩ := Machine.exists_run_of_simulates (R := HasEntries)
    (fun _ _ _ h hop => dictStep_hasEntries h hop) ⟨holds_listInit, List.nodup_nil⟩ hops
  have hnil : (List.map keyOf []).Nodup := List.nodup_nil
  obtain ⟨hnodup, hmap⟩ := mapOf_run hnil ops
  have hempty : mapOf [] hnil = .empty := rfl
  rw [hempty] at hmap
  exact ⟨dict, hrun, hmap ▸ hentries.readsAs⟩

/-- Two keys with one value, of which the first is set again and then removed. -/
theorem dsdict_readsAs_two_keys :
    ∃ dict, (Machine.fallible dictStep).run (.ok dsdictNew)
        [.setcs ⟨1, none, none⟩ ⟨cstr "nick", by decide⟩ ⟨cstr "a", by decide⟩,
          .set ⟨2, some 1, none⟩ ⟨cstr "id", by decide⟩ [0, 1],
          .setcs ⟨3, none, none⟩ ⟨cstr "nick", by decide⟩ ⟨cstr "b", by decide⟩,
          .remove ⟨cstr "nick", by decide⟩] = .ok dict ∧
      dsdictGet dict ⟨cstr "id", by decide⟩ = .ok (some [0, 1]) ∧
      dsdictGet dict ⟨cstr "nick", by decide⟩ = .ok none := by
  obtain ⟨dict, hrun, hreads⟩ := dsdict_readsAs
    [.setcs ⟨1, none, none⟩ ⟨cstr "nick", by decide⟩ ⟨cstr "a", by decide⟩,
      .set ⟨2, some 1, none⟩ ⟨cstr "id", by decide⟩ [0, 1],
      .setcs ⟨3, none, none⟩ ⟨cstr "nick", by decide⟩ ⟨cstr "b", by decide⟩,
      .remove ⟨cstr "nick", by decide⟩] (by decide)
  exact ⟨dict, hrun, hreads.get _, hreads.get _⟩

end Svc.Common.Nodes
