import Svc.Lib.Machine

/-!
# First in, first out

A machine holds a list of values.  If every step adds values at its end and takes
values from its front, then over a run all that left and what is still held are,
in order, what was held at the start and all that entered.
-/

namespace Svc.Lib

/-- Values that leave one place late are the right ones as long as they all are equal. -/
theorem getElem?_cons_eq_iff {a : α} {l : List α} {n : Nat} (hn : n ≤ l.length) :
    (∀ k, k < n → (a :: l)[k]? = l[k]?) ↔ ∀ b ∈ l.take n, b = a := by
  constructor
  · intro h b hb
    obtain ⟨k, hk, rfl⟩ := List.mem_take_iff_getElem.1 hb
    have hall : ∀ j, j ≤ k → l[j]? = some a := by
      intro j hj
      induction j with
      | zero => simpa using (h 0 (by omega)).symm
      | succ j ih =>
          rw [← h (j + 1) (by omega), List.getElem?_cons_succ]
          exact ih (by omega)
    have hk' := hall k le_rfl
    rw [List.getElem?_eq_getElem (by omega)] at hk'
    exact Option.some.inj hk'
  · intro h k hk
    have hmem : ∀ j, j < n → l[j]? = some a := by
      intro j hj
      rw [List.getElem?_eq_getElem (by omega)]
      exact congrArg some (h _ (List.mem_take_iff_getElem.2 ⟨j, by omega, rfl⟩))
    cases k with
    | zero => rw [List.getElem?_cons_zero, hmem 0 hk]
    | succ k => rw [List.getElem?_cons_succ, hmem k (by omega), hmem (k + 1) hk]

namespace Machine

variable {σ ε ω α : Type*} (M : Machine σ ε ω)

def collect (yield : σ → ε → List α) (s : σ) : List ε → List α
  | [] => []
  | e :: es => yield s e ++ collect yield (M.next s e) es

@[simp] theorem collect_nil (yield : σ → ε → List α) (s : σ) : M.collect yield s [] = [] := rfl

@[simp] theorem collect_cons (yield : σ → ε → List α) (s : σ) (e : ε) (es : List ε) :
    M.collect yield s (e :: es) = yield s e ++ M.collect yield (M.next s e) es := rfl

/-- First in, first out over a guarded run. -/
theorem collect_leaves_append {I : σ → Prop} {G : σ → ε → Prop} {held : σ → List α}
    {enters leaves : σ → ε → List α} (hI : ∀ s e, I s → G s e → I (M.next s e))
    (hstep : ∀ s e, I s → G s e → leaves s e ++ held (M.next s e) = held s ++ enters s e)
    {s : σ} {es : List ε} (hs : I s) (hes : M.Guarded G s es) :
    M.collect leaves s es ++ held (M.run s es) = held s ++ M.collect enters s es := by
  induction es generalizing s with
  | nil => simp
  | cons e es ih =>
      have hrest := ih (hI s e hs hes.1) hes.2
      calc M.collect leaves s (e :: es) ++ held (M.run s (e :: es))
          = leaves s e ++ (held (M.next s e) ++ M.collect enters (M.next s e) es) := by
            simp [hrest]
        _ = held s ++ M.collect enters s (e :: es) := by
            rw [← List.append_assoc, hstep s e hs hes.1]
            simp

/-- Over a guarded run, what is held grows by what entered and shrinks by what left. -/
theorem length_collect_leaves_add (count : σ → Nat) {G : σ → ε → Prop}
    {enters leaves : σ → ε → List α}
    (hstep : ∀ s e, G s e →
      (leaves s e).length + count (M.next s e) = count s + (enters s e).length)
    {s : σ} {es : List ε} (hes : M.Guarded G s es) :
    (M.collect leaves s es).length + count (M.run s es) =
      count s + (M.collect enters s es).length := by
  induction es generalizing s with
  | nil => simp
  | cons e es ih =>
      have hfirst := hstep s e hes.1
      have hrest := ih hes.2
      simp only [collect_cons, List.length_append, run_cons]
      omega

theorem collect_append (yield : σ → ε → List α) (s : σ) (es fs : List ε) :
    M.collect yield s (es ++ fs) = M.collect yield s es ++ M.collect yield (M.run s es) fs := by
  induction es generalizing s with
  | nil => rfl
  | cons e es ih => simp [ih]

/-- What a run yields is yielded by one of its steps. -/
theorem exists_of_mem_collect {yield : σ → ε → List α} {s : σ} {es : List ε} {a : α}
    (ha : a ∈ M.collect yield s es) :
    ∃ pre e post, es = pre ++ e :: post ∧ a ∈ yield (M.run s pre) e := by
  induction es generalizing s with
  | nil => cases ha
  | cons e es ih =>
      rcases List.mem_append.1 ha with ha | ha
      · exact ⟨[], e, es, rfl, ha⟩
      · obtain ⟨pre, e', post, rfl, hyield⟩ := ih ha
        exact ⟨e :: pre, e', post, rfl, hyield⟩

/-- Steps that yield at most one value each have a moment for every value. -/
theorem exists_prefix_of_prefix_collect {yield : σ → ε → List α}
    (hone : ∀ s e, (yield s e).length ≤ 1) {s : σ} {es : List ε} {l : List α}
    (hl : l <+: M.collect yield s es) : ∃ pre, pre <+: es ∧ M.collect yield s pre = l := by
  induction es generalizing s l with
  | nil => exact ⟨[], List.nil_prefix, (List.prefix_nil.1 hl).symm⟩
  | cons e es ih =>
      rw [collect_cons] at hl
      rcases l with _ | ⟨a, l⟩
      · exact ⟨[], List.nil_prefix, rfl⟩
      · cases hyield : yield s e with
        | nil =>
            rw [hyield, List.nil_append] at hl
            obtain ⟨pre, hpre, hcollect⟩ := ih hl
            refine ⟨e :: pre, (List.prefix_cons_inj e).2 hpre, ?_⟩
            rw [collect_cons, hyield, List.nil_append, hcollect]
        | cons b rest =>
            have hrest : rest = [] := by simpa [hyield] using hone s e
            rw [hyield, hrest, List.singleton_append, List.cons_prefix_cons] at hl
            obtain ⟨rfl, hl⟩ := hl
            obtain ⟨pre, hpre, hcollect⟩ := ih hl
            refine ⟨e :: pre, (List.prefix_cons_inj e).2 hpre, ?_⟩
            rw [collect_cons, hyield, hrest, List.singleton_append, hcollect]

/-- Steps that yield alike in every state reached yield alike over the run. -/
theorem collect_congr {I : σ → Prop} {G : σ → ε → Prop} {f g : σ → ε → List α}
    (hI : ∀ s e, I s → G s e → I (M.next s e)) (hfg : ∀ s e, I s → G s e → f s e = g s e)
    {s : σ} {es : List ε} (hs : I s) (hes : M.Guarded G s es) :
    M.collect f s es = M.collect g s es := by
  induction es generalizing s with
  | nil => rfl
  | cons e es ih => simp [hfg s e hs hes.1, ih (hI s e hs hes.1) hes.2]

end Machine

end Svc.Lib
