import Mathlib.Data.List.Nodup
import Mathlib.Logic.Function.Basic
import Mathlib.Tactic.Common

/-!
# Dictionaries kept as lists

A dictionary is the list of its entries in the order in which their keys were
first set.  Setting a key changes the first entry that has it, or appends one.
-/

namespace Svc.Lib.Dict

variable {α β κ : Type*} [DecidableEq κ] (key : α → κ) (k : κ)

/-- Change the first entry of `k`, or append one. -/
def set (change : α → α) (new : α) : List α → List α
  | [] => [new]
  | a :: l => if key a = k then change a :: l else a :: set change new l

def find (l : List α) : Option α := l.find? fun a => decide (key a = k)

/-- The entries of a partial function that was changed in one place. -/
theorem update_eq_some {f : κ → Option β} {i j : κ} {o : Option β} {b : β} :
    Function.update f i o j = some b ↔ (j = i ∧ o = some b) ∨ (j ≠ i ∧ f j = some b) := by
  by_cases hji : j = i
  · subst hji
    simp
  · simp [hji]

variable {key k} {change : α → α} {new : α} {l : List α}

@[simp] theorem find_nil : find key k [] = none := rfl

theorem find_cons (a : α) : find key k (a :: l) = if key a = k then some a else find key k l := by
  by_cases h : key a = k <;> simp [find, h]

theorem find_eq_none : find key k l = none ↔ k ∉ l.map key := by
  simp only [find, List.find?_eq_none, decide_eq_true_eq, List.mem_map, not_exists, not_and]

/-- The entry of a key, where keys do not repeat, is the one in the list. -/
theorem find_of_mem (hl : (l.map key).Nodup) {a : α} (ha : a ∈ l) :
    find key (key a) l = some a := by
  induction l with
  | nil => simp at ha
  | cons b l ih =>
      rw [List.map_cons, List.nodup_cons] at hl
      rw [find_cons]
      rcases List.mem_cons.1 ha with rfl | ha
      · simp
      · have hne : key b ≠ key a := fun h => hl.1 (h ▸ List.mem_map_of_mem ha)
        rw [if_neg hne, ih hl.2 ha]

/-- The first entry of a key, and what is before and after it. -/
theorem find_eq_some {a : α} :
    find key k l = some a ↔ key a = k ∧ ∃ xs ys, l = xs ++ a :: ys ∧ k ∉ xs.map key := by
  simp only [find, List.find?_eq_some_iff_append, decide_eq_true_eq, Bool.not_eq_true',
    decide_eq_false_iff_not, List.mem_map, not_exists, not_and]

theorem set_append_cons {a : α} {xs ys : List α} (hxs : k ∉ xs.map key) (ha : key a = k) :
    set key k change new (xs ++ a :: ys) = xs ++ change a :: ys := by
  induction xs with
  | nil => simp [set, ha]
  | cons b xs ih =>
      rw [List.map_cons, List.mem_cons, not_or] at hxs
      rw [List.cons_append, set, if_neg fun hb => hxs.1 hb.symm, ih hxs.2]
      rfl

theorem set_of_not_mem (hl : k ∉ l.map key) : set key k change new l = l ++ [new] := by
  induction l with
  | nil => rfl
  | cons a l ih =>
      rw [List.map_cons, List.mem_cons, not_or] at hl
      rw [set, if_neg fun ha => hl.1 ha.symm, ih hl.2]
      rfl

theorem keys_set (hchange : ∀ a, key (change a) = key a) (hnew : key new = k) :
    (set key k change new l).map key =
      if k ∈ l.map key then l.map key else l.map key ++ [k] := by
  induction l with
  | nil => simp [set, hnew]
  | cons a l ih =>
      unfold set
      by_cases ha : key a = k
      · simp [ha, hchange]
      · have hne : k ≠ key a := fun h => ha h.symm
        simp only [if_neg ha, List.map_cons, ih, List.mem_cons, hne, false_or]
        split
        · rfl
        · rfl

theorem nodup_keys_set (hchange : ∀ a, key (change a) = key a) (hnew : key new = k)
    (hl : (l.map key).Nodup) : ((set key k change new l).map key).Nodup := by
  rw [keys_set hchange hnew]
  split
  · exact hl
  · rename_i hmem
    exact hl.append (List.nodup_singleton k) (by simpa [List.disjoint_singleton] using hmem)

theorem find_set_self (hchange : ∀ a, key (change a) = key a) (hnew : key new = k) :
    find key k (set key k change new l) = some ((find key k l).elim new change) := by
  induction l with
  | nil => simp [set, find_cons, hnew]
  | cons a l ih =>
      unfold set
      by_cases ha : key a = k
      · simp [find_cons, ha, hchange]
      · simp [find_cons, ha, ih]

theorem find_set_of_ne {k' : κ} (hk : k' ≠ k) (hchange : ∀ a, key (change a) = key a)
    (hnew : key new = k) : find key k' (set key k change new l) = find key k' l := by
  induction l with
  | nil => simp [set, find_cons, hnew, hk.symm]
  | cons a l ih =>
      unfold set
      by_cases ha : key a = k
      · simp [find_cons, ha, hchange, hk.symm]
      · simp [find_cons, ha, ih]

theorem find_filter (hl : (l.map key).Nodup) (p : α → Bool) :
    find key k (l.filter p) = (find key k l).filter p := by
  induction l with
  | nil => rfl
  | cons a l ih =>
      rw [List.map_cons, List.nodup_cons] at hl
      have hnone : key a = k → find key k l = none := fun ha => find_eq_none.2 (ha ▸ hl.1)
      by_cases ha : key a = k
      · cases hp : p a <;> simp [find_cons, Option.filter, hp, ha, ih hl.2, hnone ha]
      · cases hp : p a <;> simp [find_cons, hp, ha, ih hl.2]

/-- Taking the entry of a key out, where keys do not repeat. -/
theorem filter_append_cons {a : α} {xs ys : List α} (hl : ((xs ++ a :: ys).map key).Nodup) :
    (xs ++ a :: ys).filter (key · ≠ key a) = xs ++ ys := by
  rw [List.map_append, List.map_cons, List.nodup_append, List.nodup_cons] at hl
  obtain ⟨-, ⟨hys, -⟩, hxs⟩ := hl
  have hxs : ∀ b ∈ xs, key b ≠ key a := fun b hb =>
    hxs _ (List.mem_map_of_mem hb) _ List.mem_cons_self
  have hys : ∀ b ∈ ys, key b ≠ key a := fun b hb heq => hys (heq ▸ List.mem_map_of_mem hb)
  rw [List.filter_append, List.filter_cons_of_neg (by simp),
    List.filter_eq_self.2 fun b hb => by simpa using hxs b hb,
    List.filter_eq_self.2 fun b hb => by simpa using hys b hb]

/-- One entry and the others, where keys do not repeat. -/
theorem exists_split (hl : (l.map key).Nodup) (hk : k ∈ l.map key) :
    ∃ a xs ys, key a = k ∧ l = xs ++ a :: ys ∧ l.filter (key · = k) = [a] ∧
      l.filter (key · ≠ k) = xs ++ ys := by
  obtain ⟨a, ha, rfl⟩ := List.mem_map.1 hk
  obtain ⟨xs, ys, rfl⟩ := List.append_of_mem ha
  refine ⟨a, xs, ys, rfl, rfl, ?_, filter_append_cons hl⟩
  rw [List.map_append, List.map_cons, List.nodup_append, List.nodup_cons] at hl
  obtain ⟨-, ⟨hys, -⟩, hxs⟩ := hl
  rw [List.filter_append, List.filter_cons_of_pos (by simp), List.filter_eq_nil_iff.2 ?_,
    List.filter_eq_nil_iff.2 ?_]
  · rfl
  · intro b hb
    have hne : key b ≠ key a := fun heq => hys (heq ▸ List.mem_map_of_mem hb)
    simpa using hne
  · intro b hb
    simpa using hxs _ (List.mem_map_of_mem hb) _ List.mem_cons_self

section Map

variable {κ' : Type*} [DecidableEq κ'] {f : α → β} {key' : β → κ'} {k' : κ'} {change' : β → β}

/-- Entries that are replaced by others with the same keys, or with keys that stand for them -/
theorem find_map (hkey : ∀ a, key' (f a) = k' ↔ key a = k) :
    find key' k' (l.map f) = (find key k l).map f := by
  induction l with
  | nil => rfl
  | cons a l ih =>
      rw [List.map_cons, find_cons, find_cons, ih]
      simp only [hkey]
      split
      · rfl
      · rfl

theorem set_map (new : α) (hkey : ∀ a, key' (f a) = k' ↔ key a = k)
    (hchange : ∀ a, f (change a) = change' (f a)) :
    set key' k' change' (f new) (l.map f) = (set key k change new l).map f := by
  induction l with
  | nil => rfl
  | cons a l ih =>
      rw [List.map_cons, set, set, ih]
      simp only [hkey]
      split
      · rw [List.map_cons, hchange]
      · rw [List.map_cons]

end Map

/-- Writing the entries of a dictionary into a map, one after the other. -/
theorem foldl_update (hl : (l.map key).Nodup) (val : α → β) (g : κ → β) :
    l.foldl (fun g a => Function.update g (key a) (val a)) g k =
      ((find key k l).map val).getD (g k) := by
  induction l generalizing g with
  | nil => rfl
  | cons a l ih =>
      rw [List.map_cons, List.nodup_cons] at hl
      rw [List.foldl_cons, ih hl.2, find_cons]
      by_cases ha : key a = k
      · have hnone : find key k l = none := find_eq_none.2 (ha ▸ hl.1)
        simp [hnone, ha]
      · rw [if_neg ha, Function.update_of_ne (fun h => ha h.symm)]

end Svc.Lib.Dict
