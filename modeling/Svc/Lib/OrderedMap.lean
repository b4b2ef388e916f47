import Svc.Lib.Dict

/-!
# Ordered maps

A finite map together with its keys in the order in which they were inserted.  A dictionary
kept as a list is one, and setting and removing keys of the list is doing so in the map.
-/

namespace Svc.Lib

/-- A finite map and its keys, each once, in the order of their insertion. -/
@[ext]
structure OrderedMap (κ β : Type*) where
  value : κ → Option β
  order : List κ
  nodup : order.Nodup
  mem_order : ∀ k, k ∈ order ↔ value k ≠ none

namespace OrderedMap

variable {α β κ : Type*}

def empty : OrderedMap κ β := ⟨fun _ => none, [], List.nodup_nil, fun _ => by simp⟩

variable [DecidableEq κ]

/-- A key that is in the map keeps its place. -/
def set (m : OrderedMap κ β) (k : κ) (b : β) : OrderedMap κ β where
  value := Function.update m.value k (some b)
  order := if k ∈ m.order then m.order else m.order ++ [k]
  nodup := by
    split
    · exact m.nodup
    · next hk => exact m.nodup.append (List.nodup_singleton k) (List.disjoint_singleton.2 hk)
  mem_order k' := by
    by_cases heq : k' = k
    · subst heq
      split <;> simp [*]
    · rw [Function.update_of_ne heq, ← m.mem_order]
      split <;> simp [heq]

def remove (m : OrderedMap κ β) (k : κ) : OrderedMap κ β where
  value := Function.update m.value k none
  order := m.order.filter (· ≠ k)
  nodup := m.nodup.filter _
  mem_order k' := by
    rw [List.mem_filter]
    by_cases heq : k' = k
    · simp [heq]
    · simp [heq, m.mem_order]

section OfEntries

variable (key : α → κ) (val : α → β)

/-- The map of the entries of a dictionary, if their keys do not repeat. -/
def ofEntries (l : List α) (hl : (l.map key).Nodup) : OrderedMap κ β where
  value k := (Dict.find key k l).map val
  order := l.map key
  nodup := hl
  mem_order k := by rw [ne_eq, Option.map_eq_none_iff, Dict.find_eq_none, not_not]

variable {key val} {l : List α} {k : κ} {b : β} {change : α → α} {new : α}

theorem ofEntries_set (hl : (l.map key).Nodup) (hchange : ∀ a, key (change a) = key a)
    (hnew : key new = k) (hval : ∀ a, val (change a) = b) (hvalnew : val new = b) :
    ofEntries key val (Dict.set key k change new l) (Dict.nodup_keys_set hchange hnew hl) =
      (ofEntries key val l hl).set k b := by
  refine OrderedMap.ext (funext fun k' => ?_) (Dict.keys_set hchange hnew)
  by_cases hk : k' = k
  · subst hk
    have hset : val ((Dict.find key k' l).elim new change) = b := by
      cases Dict.find key k' l with
      | none => exact hvalnew
      | some a => exact hval a
    simp only [ofEntries, set, Dict.find_set_self hchange hnew, Option.map_some, hset,
      Function.update_self]
  · simp only [ofEntries, set, Dict.find_set_of_ne hk hchange hnew, Function.update_of_ne hk]

theorem ofEntries_filter (hl : (l.map key).Nodup) (k : κ) :
    ofEntries key val (l.filter (key · ≠ k)) (hl.sublist (List.filter_sublist.map key)) =
      (ofEntries key val l hl).remove k := by
  refine OrderedMap.ext (funext fun k' => ?_) ?_
  · simp only [ofEntries, remove, Dict.find_filter hl]
    by_cases hk : k' = k
    · subst hk
      rw [Function.update_self, Option.map_eq_none_iff, Option.filter_eq_none_iff]
      intro a ha
      simpa using (Dict.find_eq_some.1 ha).1
    · rw [Function.update_of_ne hk]
      cases hfind : Dict.find key k' l with
      | none => rfl
      | some a =>
          have hne : key a ≠ k := (Dict.find_eq_some.1 hfind).1.trans_ne hk
          rw [Option.filter_some, if_pos (decide_eq_true hne)]
  · simp [ofEntries, remove, List.filter_map]
    rfl

end OfEntries

end OrderedMap

end Svc.Lib
