import Mathlib.Data.List.Basic
import Mathlib.Logic.Relation
import Mathlib.Tactic.Common

/-!
# Programs that raise errors

A program of `RaiseM` changes a state and returns a value or raises an error; what it did to
the state before the error stays done.  `exec` runs it.  The rules say how sequences and loops
run, and what they keep.
-/

namespace Svc.Lib

abbrev RaiseM (ε σ : Type) := ExceptT ε (StateM σ)

namespace RaiseM

variable {ε σ α β γ : Type}

def exec (x : RaiseM ε σ α) (s : σ) : Except ε α × σ := (ExceptT.run x).run s

variable {x : RaiseM ε σ α} {f : α → RaiseM ε σ β} {s s' : σ} {a : α} {e : ε}

@[simp] theorem exec_pure (a : α) (s : σ) : exec (pure a : RaiseM ε σ α) s = (.ok a, s) := rfl

@[simp] theorem exec_throw (e : ε) (s : σ) :
    exec (throw e : RaiseM ε σ α) s = (.error e, s) := rfl

@[simp] theorem exec_get (s : σ) : exec (get : RaiseM ε σ σ) s = (.ok s, s) := rfl

@[simp] theorem exec_set (s s' : σ) : exec (set s' : RaiseM ε σ PUnit) s = (.ok ⟨⟩, s') := rfl

theorem exec_bind (x : RaiseM ε σ α) (f : α → RaiseM ε σ β) (s : σ) :
    exec (x >>= f) s =
      match exec x s with
      | (.ok a, s') => exec (f a) s'
      | (.error e, s') => (.error e, s') := by
  change StateT.run (ExceptT.run x >>= ExceptT.bindCont f) s = _
  rw [StateT.run_bind]
  change StateT.run (ExceptT.bindCont f (exec x s).1) (exec x s).2 = _
  rcases exec x s with ⟨e | a, s'⟩
  · rfl
  · rfl

theorem exec_bind_ok (h : exec x s = (.ok a, s')) : exec (x >>= f) s = exec (f a) s' := by
  rw [exec_bind, h]

theorem exec_bind_error (h : exec x s = (.error e, s')) :
    exec (x >>= f) s = (.error e, s') := by
  rw [exec_bind, h]

/-! ## Loops -/

/-- An invariant of what is left of a loop that raises no error -/
theorem exec_forM_ok (inv : List α → σ → Prop) {body : α → RaiseM ε σ Unit}
    (hbody : ∀ a rest s, inv (a :: rest) s → ∃ s', exec (body a) s = (.ok (), s') ∧ inv rest s')
    {l : List α} {s : σ} (hs : inv l s) :
    ∃ s', exec (l.forM body) s = (.ok (), s') ∧ inv [] s' := by
  induction l generalizing s with
  | nil => exact ⟨s, rfl, hs⟩
  | cons a l ih =>
      obtain ⟨s₁, hrun, hinv⟩ := hbody a l s hs
      obtain ⟨s₂, hrest, hend⟩ := ih hinv
      exact ⟨s₂, (exec_bind_ok hrun).trans hrest, hend⟩

/-- A loop that collects some of the elements and leaves the state alone -/
theorem exec_foldlM_filter {keep : α → Bool} {body : List α → α → RaiseM ε σ (List α)}
    {l : List α} {s : σ} (hbody : ∀ kept, ∀ a ∈ l,
      exec (body kept a) s = (.ok (if keep a then kept ++ [a] else kept), s)) (kept : List α) :
    exec (l.foldlM body kept) s = (.ok (kept ++ l.filter keep), s) := by
  induction l generalizing kept with
  | nil => simp [List.foldlM_nil]
  | cons a l ih =>
      have hrest := ih fun kept b hb => hbody kept b (List.mem_cons_of_mem a hb)
      rw [List.foldlM_cons, exec_bind_ok (hbody kept a List.mem_cons_self), hrest,
        List.filter_cons]
      split_ifs
      · rw [List.append_assoc, List.singleton_append]
      · rfl

/-! ## What a program keeps -/

/-- The program keeps a part of the state, also where it raises an error. -/
def Keeps (view : σ → γ) (x : RaiseM ε σ α) : Prop := ∀ s, view (exec x s).2 = view s

namespace Keeps

variable {view : σ → γ}

theorem pure (a : α) : Keeps view (Pure.pure a : RaiseM ε σ α) := fun _ => rfl

theorem throw (e : ε) : Keeps view (MonadExcept.throw e : RaiseM ε σ α) := fun _ => rfl

theorem get : Keeps view (MonadState.get : RaiseM ε σ σ) := fun _ => rfl

theorem bind (hx : Keeps view x) (hf : ∀ a, Keeps view (f a)) : Keeps view (x >>= f) := by
  intro s
  have hs := hx s
  rw [exec_bind]
  rcases hrun : exec x s with ⟨e | a, s'⟩
  · rw [hrun] at hs
    exact hs
  · rw [hrun] at hs
    exact (hf a s').trans hs

theorem forM {body : α → RaiseM ε σ Unit} (hbody : ∀ a, Keeps view (body a)) (l : List α) :
    Keeps view (l.forM body) := by
  induction l with
  | nil => exact pure ()
  | cons a l ih => exact (hbody a).bind fun _ => ih

end Keeps

/-! ## What a program is made of -/

/-- The program is a number of steps, also where it raises an error. -/
def InSteps (r : σ → σ → Prop) (x : RaiseM ε σ α) : Prop :=
  ∀ s, Relation.ReflTransGen r s (exec x s).2

namespace InSteps

variable {r : σ → σ → Prop}

theorem pure (a : α) : InSteps r (Pure.pure a : RaiseM ε σ α) := fun _ => .refl

theorem bind (hx : InSteps r x) (hf : ∀ a, InSteps r (f a)) : InSteps r (x >>= f) := by
  intro s
  have hs := hx s
  rw [exec_bind]
  rcases hrun : exec x s with ⟨e | a, s'⟩
  · rw [hrun] at hs
    exact hs
  · rw [hrun] at hs
    exact hs.trans (hf a s')

theorem forM {body : α → RaiseM ε σ Unit} (hbody : ∀ a, InSteps r (body a)) (l : List α) :
    InSteps r (l.forM body) := by
  induction l with
  | nil => exact pure ()
  | cons a l ih => exact (hbody a).bind fun _ => ih

theorem foldlM {body : β → α → RaiseM ε σ β} (hbody : ∀ b a, InSteps r (body b a)) (l : List α)
    (b : β) : InSteps r (l.foldlM body b) := by
  induction l generalizing b with
  | nil => exact pure b
  | cons a l ih =>
      rw [List.foldlM_cons]
      exact (hbody b a).bind fun b' => ih b'

end InSteps

end RaiseM

end Svc.Lib
