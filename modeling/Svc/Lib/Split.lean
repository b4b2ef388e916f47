import Mathlib.Data.List.Infix
import Mathlib.Data.List.Basic
import Mathlib.Order.Bounds.Defs
import Mathlib.Tactic.Common

/-!
# Splitting lists

A list is cut at the leftmost occurrences of a separator, at most so many times.  The
pieces with the separator between them are the list, and as long as cuts are left no piece
has the separator in it.
-/

namespace Svc.Lib.Split

variable {α : Type*} [DecidableEq α] (on : List α)

/-- What is before and after the first occurrence of the separator. -/
def breakAt : List α → Option (List α × List α)
  | [] => if on = [] then some ([], []) else none
  | c :: l =>
      if on <+: c :: l then some ([], (c :: l).drop on.length)
      else (breakAt l).map fun b => (c :: b.1, b.2)

def cut : Nat → List α → List (List α)
  | 0, l => [l]
  | n + 1, l =>
      match breakAt on l with
      | none => [l]
      | some b => b.1 :: cut n b.2

/-- The leftmost occurrences that do not overlap, counted from left to right: the elements of
an occurrence are skipped. -/
def occurrencesFrom : (skip : Nat) → List α → Nat
  | _, [] => 0
  | skip + 1, _ :: l => occurrencesFrom skip l
  | 0, c :: l =>
      if on <+: c :: l then occurrencesFrom (on.length - 1) l + 1 else occurrencesFrom 0 l

def occurrences (l : List α) : Nat := occurrencesFrom on 0 l

def OccursAt (l : List α) (i : Nat) : Prop := i ≤ l.length ∧ on <+: l.drop i

variable {on} {l piece rest : List α}

/-! ## The first occurrence -/

theorem breakAt_of_prefix (h : on <+: l) : breakAt on l = some ([], l.drop on.length) := by
  cases l with
  | nil => rw [breakAt, if_pos (List.prefix_nil.1 h), List.drop_nil]
  | cons c l => rw [breakAt, if_pos h]

theorem breakAt_cons_of_not_prefix {c : α} (h : ¬ on <+: c :: l) :
    breakAt on (c :: l) = (breakAt on l).map fun b => (c :: b.1, b.2) := by
  rw [breakAt, if_neg h]

theorem eq_of_breakAt_eq_some (h : breakAt on l = some (piece, rest)) :
    l = piece ++ on ++ rest := by
  induction l generalizing piece with
  | nil =>
      rw [breakAt] at h
      split_ifs at h with hon
      cases h
      simp [hon]
  | cons c l ih =>
      rw [breakAt] at h
      split_ifs at h with hon
      · cases h
        obtain ⟨t, ht⟩ := hon
        simp [← ht]
      · obtain ⟨⟨piece, rest⟩, hbreak, heq⟩ := Option.map_eq_some_iff.1 h
        cases heq
        rw [ih hbreak]
        rfl

theorem breakAt_eq_none_iff : breakAt on l = none ↔ ¬ on <:+: l := by
  induction l with
  | nil =>
      rw [breakAt, List.infix_nil]
      split_ifs with hon <;> simp [hon]
  | cons c l ih =>
      rw [breakAt, List.infix_cons_iff]
      split_ifs with hon
      · simp [hon]
      · simp [hon, ih]

/-- There is no occurrence in what is before the first one. -/
theorem not_infix_of_breakAt (hon : on ≠ []) (h : breakAt on l = some (piece, rest)) :
    ¬ on <:+: piece := by
  induction l generalizing piece with
  | nil =>
      rw [breakAt, if_neg hon] at h
      cases h
  | cons c l ih =>
      rw [breakAt] at h
      split_ifs at h with hpre
      · cases h
        rwa [List.infix_nil]
      · obtain ⟨⟨piece, rest⟩, hbreak, heq⟩ := Option.map_eq_some_iff.1 h
        cases heq
        rw [List.infix_cons_iff, not_or]
        refine ⟨fun hpiece => hpre ?_, ih hbreak⟩
        rw [eq_of_breakAt_eq_some hbreak, List.append_assoc]
        exact hpiece.trans (List.prefix_append (c :: piece) _)

theorem not_prefix_drop_of_breakAt (h : breakAt on l = some (piece, rest)) {j : Nat}
    (hj : j < piece.length) : ¬ on <+: l.drop j := by
  induction l generalizing piece j with
  | nil =>
      rw [breakAt] at h
      split_ifs at h
      cases h
      exact absurd hj (Nat.not_lt_zero j)
  | cons c l ih =>
      rw [breakAt] at h
      split_ifs at h with hpre
      · cases h
        exact absurd hj (Nat.not_lt_zero j)
      · obtain ⟨⟨piece, rest⟩, hbreak, heq⟩ := Option.map_eq_some_iff.1 h
        cases heq
        cases j with
        | zero => exact hpre
        | succ j => exact ih hbreak (Nat.lt_of_succ_lt_succ hj)

/-- The first occurrence from a position on is the least position where the list has the
separator. -/
theorem isLeast_of_breakAt {start : Nat} (hstart : start ≤ l.length)
    (h : breakAt on (l.drop start) = some (piece, rest)) :
    IsLeast {i | start ≤ i ∧ OccursAt on l i} (start + piece.length) := by
  have heq := eq_of_breakAt_eq_some h
  have hlength := congrArg List.length heq
  simp only [List.length_drop, List.length_append] at hlength
  refine ⟨⟨Nat.le_add_right _ _, by omega, ?_⟩, ?_⟩
  · rw [← List.drop_drop, heq, List.append_assoc, List.drop_left' rfl]
    exact List.prefix_append _ _
  · rintro i ⟨hi, -, hpre⟩
    by_contra hlt
    obtain ⟨j, rfl⟩ := Nat.exists_eq_add_of_le hi
    rw [← List.drop_drop] at hpre
    exact not_prefix_drop_of_breakAt h (by omega) hpre

theorem not_occursAt_of_breakAt {start i : Nat} (h : breakAt on (l.drop start) = none)
    (hi : start ≤ i) : ¬ OccursAt on l i := by
  rintro ⟨-, hpre⟩
  obtain ⟨j, rfl⟩ := Nat.exists_eq_add_of_le hi
  rw [← List.drop_drop] at hpre
  exact breakAt_eq_none_iff.1 h (hpre.isInfix.trans (List.drop_suffix _ _).isInfix)

/-! ## Pieces -/

theorem cut_ne_nil (n : Nat) (l : List α) : cut on n l ≠ [] := by
  cases n with
  | zero => simp [cut]
  | succ n =>
      rw [cut]
      split <;> simp

theorem length_cut_le (n : Nat) (l : List α) : (cut on n l).length ≤ n + 1 := by
  induction n generalizing l with
  | zero => simp [cut]
  | succ n ih =>
      rw [cut]
      split
      · simp
      · simpa using ih _

/-- Joining undoes splitting. -/
theorem intercalate_cut (n : Nat) (l : List α) : on.intercalate (cut on n l) = l := by
  induction n generalizing l with
  | zero => exact List.intercalate_singleton
  | succ n ih =>
      rw [cut]
      split
      · exact List.intercalate_singleton
      · next b hb =>
          rw [List.intercalate_cons_of_ne_nil (cut_ne_nil n b.2), ih]
          exact (eq_of_breakAt_eq_some hb).symm

/-! ## Complete splitting -/

theorem occurrencesFrom_eq (skip : Nat) (l : List α) :
    occurrencesFrom on skip l = occurrences on (l.drop skip) := by
  induction skip generalizing l with
  | zero => rfl
  | succ skip ih =>
      cases l with
      | nil => rfl
      | cons c l => exact ih l

theorem occurrences_eq (hon : on ≠ []) (l : List α) :
    occurrences on l = (breakAt on l).elim 0 fun b => occurrences on b.2 + 1 := by
  induction l with
  | nil =>
      rw [breakAt, if_neg hon]
      rfl
  | cons c l ih =>
      have hlength := List.length_pos_iff.2 hon
      rw [occurrences, occurrencesFrom, breakAt]
      split_ifs with hpre
      · obtain ⟨k, hk⟩ : ∃ k, on.length = k + 1 := ⟨on.length - 1, by omega⟩
        rw [occurrencesFrom_eq, hk]
        rfl
      · rw [← occurrences, ih]
        cases breakAt on l <;> rfl

theorem occurrences_eq_zero_iff (hon : on ≠ []) : occurrences on l = 0 ↔ ¬ on <:+: l := by
  rw [occurrences_eq hon, ← breakAt_eq_none_iff]
  cases breakAt on l <;> simp

theorem length_cut (hon : on ≠ []) (n : Nat) (l : List α) :
    (cut on n l).length = min n (occurrences on l) + 1 := by
  induction n generalizing l with
  | zero => simp [cut]
  | succ n ih =>
      rw [cut, occurrences_eq hon]
      cases breakAt on l with
      | none => simp
      | some b => simp [ih, Nat.add_min_add_right]

/-- Only the last piece can have the separator in it. -/
theorem not_infix_of_mem_dropLast (hon : on ≠ []) {n : Nat}
    (h : piece ∈ (cut on n l).dropLast) : ¬ on <:+: piece := by
  induction n generalizing l with
  | zero => simp [cut] at h
  | succ n ih =>
      rw [cut] at h
      cases hb : breakAt on l with
      | none => simp [hb] at h
      | some b =>
          rw [hb] at h
          dsimp only at h
          rw [List.dropLast_cons_of_ne_nil (cut_ne_nil n b.2), List.mem_cons] at h
          rcases h with rfl | h
          · exact not_infix_of_breakAt hon hb
          · exact ih h

/-- The last piece has the separator in it if the cuts were too few. -/
theorem forall_mem_cut_iff (hon : on ≠ []) (n : Nat) (l : List α) :
    (∀ p ∈ cut on n l, ¬ on <:+: p) ↔ occurrences on l ≤ n := by
  induction n generalizing l with
  | zero => simp [cut, ← occurrences_eq_zero_iff hon]
  | succ n ih =>
      rw [cut, occurrences_eq hon]
      cases hb : breakAt on l with
      | none => simpa using breakAt_eq_none_iff.1 hb
      | some b => simp [ih, not_infix_of_breakAt hon hb]

/-- Occurrences do not overlap. -/
theorem occurrences_mul_length_le (hon : on ≠ []) (l : List α) :
    occurrences on l * on.length ≤ l.length := by
  induction hn : l.length using Nat.strong_induction_on generalizing l with
  | _ n ih =>
      rw [occurrences_eq hon]
      cases hb : breakAt on l with
      | none => simp
      | some b =>
          have hl := congrArg List.length (eq_of_breakAt_eq_some hb)
          have hpos := List.length_pos_iff.2 hon
          simp only [List.length_append] at hl
          have hrest := ih b.2.length (by omega) b.2 rfl
          rw [Option.elim_some, Nat.add_mul, Nat.one_mul]
          omega

theorem occurrences_singleton (b : α) (l : List α) : occurrences [b] l = l.count b := by
  induction l with
  | nil => rfl
  | cons c l ih =>
      rw [occurrences, occurrencesFrom, List.count_cons, ← ih]
      by_cases hc : c = b
      · subst hc
        simp [occurrences]
      · have hne : ¬ b = c := fun h => hc h.symm
        simp [hc, hne, occurrences]

/-- Only a list of one element over and over is full of occurrences. -/
theorem occurrences_eq_length_iff (hon : on ≠ []) (hl : l ≠ []) :
    occurrences on l = l.length ↔ ∃ b, on = [b] ∧ l = List.replicate l.length b := by
  constructor
  · intro heq
    have hle := occurrences_mul_length_le hon l
    rw [heq] at hle
    have hlength : on.length = 1 :=
      le_antisymm (Nat.le_of_mul_le_mul_left (by simpa using hle) (List.length_pos_iff.2 hl))
        (List.length_pos_iff.2 hon)
    obtain ⟨b, rfl⟩ := List.length_eq_one_iff.1 hlength
    rw [occurrences_singleton, List.count_eq_length] at heq
    exact ⟨b, rfl, List.eq_replicate_iff.2 ⟨rfl, fun c hc => (heq c hc).symm⟩⟩
  · rintro ⟨b, rfl, hrep⟩
    rw [occurrences_singleton, hrep, List.count_replicate_self, List.length_replicate]

end Svc.Lib.Split
