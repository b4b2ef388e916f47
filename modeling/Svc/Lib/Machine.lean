import Mathlib.Data.List.Infix
import Mathlib.Tactic.Common

/-!
# Machines that answer events

A machine maps a state and an event to the next state and an output.  A run is
a list of events.  The module gives the rules the developments below are built
from: an invariant kept by every step holds after every run, an invariant kept
by every step that meets a guard holds after every guarded run, and a property
of all moments of a run is equivalent to the guard as soon as every single step
says so.
-/

namespace Svc.Lib

/-- A machine that answers every event with its next state and an output. -/
structure Machine (σ ε ω : Type*) where
  step : σ → ε → σ × ω

namespace Machine

variable {σ ε ω : Type*} (M : Machine σ ε ω)

def next (s : σ) (e : ε) : σ := (M.step s e).1

def out (s : σ) (e : ε) : ω := (M.step s e).2

def run (s : σ) (es : List ε) : σ := es.foldl M.next s

def outputs (s : σ) : List ε → List ω
  | [] => []
  | e :: es => M.out s e :: outputs (M.next s e) es

@[simp] theorem run_nil (s : σ) : M.run s [] = s := rfl

@[simp] theorem run_cons (s : σ) (e : ε) (es : List ε) :
    M.run s (e :: es) = M.run (M.next s e) es := rfl

theorem run_append (s : σ) (es fs : List ε) :
    M.run s (es ++ fs) = M.run (M.run s es) fs := by
  simp [run, List.foldl_append]

@[simp] theorem run_concat (s : σ) (es : List ε) (e : ε) :
    M.run s (es ++ [e]) = M.next (M.run s es) e := by
  simp [run_append]

@[simp] theorem outputs_nil (s : σ) : M.outputs s [] = [] := rfl

@[simp] theorem outputs_cons (s : σ) (e : ε) (es : List ε) :
    M.outputs s (e :: es) = M.out s e :: M.outputs (M.next s e) es := rfl

theorem outputs_append (s : σ) (es fs : List ε) :
    M.outputs s (es ++ fs) = M.outputs s es ++ M.outputs (M.run s es) fs := by
  induction es generalizing s with
  | nil => rfl
  | cons e es ih => simp [ih]

@[simp] theorem outputs_concat (s : σ) (es : List ε) (e : ε) :
    M.outputs s (es ++ [e]) = M.outputs s es ++ [M.out (M.run s es) e] := by
  simp [outputs_append]

/-! ## Invariants -/

/-- Every step of the run starts in a state and takes an event that meet `G`. -/
def Guarded (G : σ → ε → Prop) (s : σ) : List ε → Prop
  | [] => True
  | e :: es => G s e ∧ Guarded G (M.next s e) es

@[simp] theorem guarded_nil (G : σ → ε → Prop) (s : σ) : M.Guarded G s [] := trivial

theorem guarded_append (G : σ → ε → Prop) (s : σ) (es fs : List ε) :
    M.Guarded G s (es ++ fs) ↔ M.Guarded G s es ∧ M.Guarded G (M.run s es) fs := by
  induction es generalizing s with
  | nil => simp
  | cons e es ih => simp [Guarded, ih, and_assoc]

@[simp] theorem guarded_concat (G : σ → ε → Prop) (s : σ) (es : List ε) (e : ε) :
    M.Guarded G s (es ++ [e]) ↔ M.Guarded G s es ∧ G (M.run s es) e := by
  simp [guarded_append, Guarded]

theorem guarded_of_prefix {G : σ → ε → Prop} {s : σ} {pre es : List ε} (hpre : pre <+: es)
    (hes : M.Guarded G s es) : M.Guarded G s pre := by
  obtain ⟨t, rfl⟩ := hpre
  exact ((M.guarded_append G s pre t).1 hes).1

theorem guarded_and {G H : σ → ε → Prop} {s : σ} {es : List ε} :
    M.Guarded (fun s e => G s e ∧ H s e) s es ↔ M.Guarded G s es ∧ M.Guarded H s es := by
  induction es generalizing s with
  | nil => simp
  | cons e es ih =>
      simp only [Guarded, ih]
      exact and_and_and_comm

/-- Where an invariant holds, two guards that say the same of every step say the same of
every run. -/
theorem guarded_congr {I : σ → Prop} {G H : σ → ε → Prop}
    (hstep : ∀ s e, I s → H s e → I (M.next s e)) (hiff : ∀ s e, I s → (G s e ↔ H s e)) {s : σ}
    (hI : I s) (es : List ε) : M.Guarded G s es ↔ M.Guarded H s es := by
  induction es generalizing s with
  | nil => rfl
  | cons e es ih =>
      simp only [Guarded, hiff s e hI]
      exact and_congr_right fun he => ih (hstep s e hI he)

theorem guarded_true (s : σ) (es : List ε) : M.Guarded (fun _ _ => True) s es := by
  induction es generalizing s with
  | nil => trivial
  | cons e es ih => exact ⟨trivial, ih _⟩

theorem guarded_of_forall {Q : ε → Prop} {es : List ε} (hes : ∀ e ∈ es, Q e) (s : σ) :
    M.Guarded (fun _ e => Q e) s es := by
  induction es generalizing s with
  | nil => trivial
  | cons e es ih =>
      obtain ⟨he, hes⟩ := List.forall_mem_cons.1 hes
      exact ⟨he, ih hes _⟩

instance decidableGuarded (G : σ → ε → Prop) [∀ s e, Decidable (G s e)] (s : σ) :
    (es : List ε) → Decidable (M.Guarded G s es)
  | [] => .isTrue trivial
  | e :: es =>
      have := decidableGuarded G (M.next s e) es
      inferInstanceAs (Decidable (G s e ∧ M.Guarded G (M.next s e) es))

theorem invariant_run_of_guarded {I : σ → Prop} {G : σ → ε → Prop}
    (hstep : ∀ s e, I s → G s e → I (M.next s e)) {s : σ} {es : List ε}
    (hI : I s) (hG : M.Guarded G s es) : I (M.run s es) := by
  induction es generalizing s with
  | nil => exact hI
  | cons e es ih => exact ih (hstep s e hI hG.1) hG.2

theorem invariant_run {I : σ → Prop} (hstep : ∀ s e, I s → I (M.next s e))
    {s : σ} (es : List ε) (hI : I s) : I (M.run s es) := by
  induction es generalizing s with
  | nil => exact hI
  | cons e es ih => exact ih (hstep s e hI)

/-- Where some step of the kind `A` comes closer to the end, steps of that kind reach it. -/
theorem exists_run_of_measure {I ends : σ → Prop} {A : ε → Prop} (μ : σ → Nat)
    (hstep : ∀ s, I s → ¬ ends s → ∃ e, A e ∧ I (M.next s e) ∧ μ (M.next s e) < μ s)
    {s : σ} (hI : I s) : ∃ es, (∀ e ∈ es, A e) ∧ I (M.run s es) ∧ ends (M.run s es) := by
  induction hμ : μ s using Nat.strong_induction_on generalizing s with
  | _ n ih =>
      by_cases hends : ends s
      · exact ⟨[], List.forall_mem_nil _, hI, hends⟩
      · obtain ⟨e, he, hI', hlt⟩ := hstep s hI hends
        obtain ⟨es, hes, hrest⟩ := ih _ (hμ ▸ hlt) hI' rfl
        exact ⟨e :: es, List.forall_mem_cons.2 ⟨he, hes⟩, hrest⟩

/-! ## Properties of all moments of a run -/

/-- A property of the run so far that holds at the start, and that a step from a
guarded run keeps exactly when it meets the guard, holds at every moment of a
run if and only if the whole run is guarded. -/
theorem forall_prefix_iff_guarded {P : List ε → Prop} {G : σ → ε → Prop} {s : σ}
    (es : List ε) (hnil : P [])
    (hstep : ∀ pre e, pre ++ [e] <+: es → M.Guarded G s pre →
      (P (pre ++ [e]) ↔ G (M.run s pre) e)) :
    (∀ pre, pre <+: es → P pre) ↔ M.Guarded G s es := by
  induction es using List.reverseRecOn with
  | nil => simp [List.prefix_nil, hnil]
  | append_singleton es e ih =>
      have hle : es <+: es ++ [e] := List.prefix_append es [e]
      have ih := ih fun pre e' hpre => hstep pre e' (hpre.trans hle)
      constructor
      · intro hall
        have hG : M.Guarded G s es := ih.1 fun pre hpre => hall pre (hpre.trans hle)
        exact (M.guarded_concat G s es e).2
          ⟨hG, (hstep es e (List.prefix_refl _) hG).1 (hall _ (List.prefix_refl _))⟩
      · intro hG pre hpre
        obtain ⟨hes, he⟩ := (M.guarded_concat G s es e).1 hG
        rcases List.prefix_concat_iff.1 hpre with rfl | hpre
        · exact (hstep es e (List.prefix_refl _) hes).2 he
        · exact ih.2 hes pre hpre

end Machine

end Svc.Lib
