import Mathlib.Logic.Function.Iterate
import Mathlib.Tactic.Common

/-!
# While loops with a bound on the number of rounds

`whileLoop guard body` runs `body` as long as `guard` holds, for at most the
given number of rounds.  A loop whose rounds count down a measure stops on its
guard and not on the bound.
-/

namespace Svc.Lib

variable {σ : Type*}

/-- `while (guard s) s = body s;` for at most the given number of rounds. -/
def whileLoop (guard : σ → Bool) (body : σ → σ) : Nat → σ → σ
  | 0, s => s
  | rounds + 1, s => if guard s then whileLoop guard body rounds (body s) else s

variable {guard : σ → Bool} {body : σ → σ}

theorem whileLoop_invariant {I : σ → Prop}
    (hbody : ∀ s, I s → guard s = true → I (body s)) (rounds : Nat) {s : σ} (hI : I s) :
    I (whileLoop guard body rounds s) := by
  induction rounds generalizing s with
  | zero => exact hI
  | succ rounds ih =>
      unfold whileLoop
      split
      · exact ih (hbody s hI ‹_›)
      · exact hI

/-- A loop whose guard says that a counter is positive, and whose rounds count it
down by one, runs exactly as often as the counter says. -/
theorem whileLoop_eq_iterate (remaining : σ → Nat)
    (hguard : ∀ s, guard s = true ↔ 0 < remaining s)
    (hbody : ∀ s, guard s = true → remaining (body s) = remaining s - 1)
    {rounds : Nat} {s : σ} (hrounds : remaining s ≤ rounds) :
    whileLoop guard body rounds s = body^[remaining s] s := by
  induction rounds generalizing s with
  | zero =>
      have hzero : remaining s = 0 := by omega
      simp [whileLoop, hzero]
  | succ rounds ih =>
      unfold whileLoop
      split
      · rename_i hs
        have hpos := (hguard s).1 hs
        have hnext := hbody s hs
        rw [ih (by omega), hnext, ← Function.iterate_succ_apply]
        congr 1
        omega
      · rename_i hs
        have hzero : remaining s = 0 := by
          by_contra h
          exact hs ((hguard s).2 (by omega))
        simp [hzero]

/-- The counter of such a loop after some of its rounds. -/
theorem remaining_iterate (remaining : σ → Nat)
    (hguard : ∀ s, guard s = true ↔ 0 < remaining s)
    (hbody : ∀ s, guard s = true → remaining (body s) = remaining s - 1)
    {m : Nat} {s : σ} (hm : m ≤ remaining s) : remaining (body^[m] s) = remaining s - m := by
  induction m generalizing s with
  | zero => rfl
  | succ m ih =>
      have hnext := hbody s ((hguard s).2 (by omega))
      rw [Function.iterate_succ_apply, ih (by omega), hnext]
      omega

theorem iterate_invariant {I : σ → Prop} (hbody : ∀ s, I s → I (body s)) (n : Nat) {s : σ}
    (hI : I s) : I (body^[n] s) := by
  induction n generalizing s with
  | zero => exact hI
  | succ n ih => exact ih (hbody s hI)

end Svc.Lib
