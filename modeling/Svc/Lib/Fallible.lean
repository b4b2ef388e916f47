import Svc.Lib.Machine

/-!
# Machines that can fail

A step that may fail makes a machine whose run ends with its first failure.  Such a run
does not fail exactly if all its steps meet the condition under which a step does not.
-/

namespace Svc.Lib

theorem bind_eq_ok {φ α β : Type} {x : Except φ α} {f : α → Except φ β} {b : β} :
    x >>= f = .ok b ↔ ∃ a, x = .ok a ∧ f a = .ok b := by
  cases x with
  | error => simp [bind, Except.bind]
  | ok => simp [bind, Except.bind]

theorem map_eq_ok {φ α β : Type} {x : Except φ α} {f : α → β} {b : β} :
    x.map f = .ok b ↔ ∃ a, x = .ok a ∧ f a = b := by
  cases x with
  | error => simp [Except.map]
  | ok => simp [Except.map]

/-- What every round of a loop keeps is the same after a loop that succeeds. -/
theorem view_foldlM {φ α β γ : Type} {f : β → α → Except φ β} (view : β → γ)
    (hf : ∀ b a b', f b a = .ok b' → view b' = view b) {l : List α} {b b' : β}
    (h : l.foldlM f b = .ok b') : view b' = view b := by
  induction l generalizing b with
  | nil =>
      cases h
      rfl
  | cons a l ih =>
      rw [List.foldlM_cons] at h
      obtain ⟨b₁, hfirst, hrest⟩ := bind_eq_ok.1 h
      exact (ih hrest).trans (hf b a b₁ hfirst)

namespace Machine

variable {σ ε φ : Type*}

def fallible (step : σ → ε → Except φ σ) : Machine (Except φ σ) ε Unit where
  step r e := (r.bind (step · e), ())

def OnOk (G : σ → ε → Prop) (r : Except φ σ) (e : ε) : Prop := ∀ s, r = .ok s → G s e

variable (step : σ → ε → Except φ σ)

@[simp] theorem fallible_next_ok (s : σ) (e : ε) : (fallible step).next (.ok s) e = step s e := rfl

@[simp] theorem onOk_ok {G : σ → ε → Prop} {s : σ} {e : ε} :
    OnOk G (.ok s : Except φ σ) e ↔ G s e := by
  simp [OnOk]

theorem ne_ok_of_error {r : Except φ σ} {f : φ} (h : r = .error f) (s : σ) : r ≠ .ok s := by
  rw [h]
  simp

variable {step} {I P : σ → Prop} {G H : σ → ε → Prop} {s : σ} {es : List ε}

theorem guarded_onOk_and {r : Except φ σ} :
    (fallible step).Guarded (OnOk fun s e => H s e ∧ G s e) r es ↔
      (fallible step).Guarded (OnOk H) r es ∧ (fallible step).Guarded (OnOk G) r es := by
  rw [← guarded_and]
  have hand : OnOk (φ := φ) (fun s e => H s e ∧ G s e) = fun r e => OnOk H r e ∧ OnOk G r e :=
    funext₂ fun _ _ => propext forall₂_and
  rw [hand]

theorem guarded_onOk_of_forall {Q : ε → Prop} (hQ : ∀ e ∈ es, Q e) (r : Except φ σ) :
    (fallible step).Guarded (OnOk fun _ e => Q e) r es := by
  induction es generalizing r with
  | nil => trivial
  | cons e es ih =>
      obtain ⟨he, hes⟩ := List.forall_mem_cons.1 hQ
      exact ⟨fun _ _ => he, ih hes _⟩

/-- Steps that succeed under a guard and keep an invariant make runs that do. -/
theorem exists_run_of_guarded (hstep : ∀ s e, I s → G s e → ∃ s', step s e = .ok s' ∧ I s')
    (hs : I s) (hG : (fallible step).Guarded (OnOk G) (.ok s) es) :
    ∃ s', (fallible step).run (.ok s) es = .ok s' ∧ I s' := by
  induction es generalizing s with
  | nil => exact ⟨s, rfl, hs⟩
  | cons e es ih =>
      obtain ⟨s', hs', hI⟩ := hstep s e hs (onOk_ok.1 hG.1)
      have hrest := hG.2
      rw [fallible_next_ok, hs'] at hrest
      rw [run_cons, fallible_next_ok, hs']
      exact ih hI hrest

/-- A run that succeeds has succeeded at every moment. -/
theorem exists_of_run_append {s' : σ} {fs : List ε}
    (h : (fallible step).run (.ok s) (es ++ fs) = .ok s') :
    ∃ s₀, (fallible step).run (.ok s) es = .ok s₀ ∧ (fallible step).run (.ok s₀) fs = .ok s' := by
  rw [run_append] at h
  cases hrun : (fallible step).run (.ok s) es with
  | ok s₀ =>
      rw [hrun] at h
      exact ⟨s₀, rfl, h⟩
  | error f =>
      have herror : (fallible step).run (.error f) fs = .error f :=
        invariant_run (fallible step) (I := (· = .error f)) (by rintro _ e rfl; rfl) fs rfl
      rw [hrun, herror] at h
      cases h

/-- Where some step of the kind `A` succeeds and comes closer to the end, such steps reach it. -/
theorem exists_run_ok_of_measure {ends : σ → Prop} {A : ε → Prop} (μ : σ → Nat)
    (hstep : ∀ s, I s → ¬ ends s → ∃ e s', A e ∧ step s e = .ok s' ∧ I s' ∧ μ s' < μ s)
    (hs : I s) :
    ∃ es s', (∀ e ∈ es, A e) ∧ (fallible step).run (.ok s) es = .ok s' ∧ I s' ∧ ends s' := by
  induction hμ : μ s using Nat.strong_induction_on generalizing s with
  | _ n ih =>
      by_cases hends : ends s
      · exact ⟨[], s, List.forall_mem_nil _, rfl, hs, hends⟩
      · obtain ⟨e, s', he, hs', hI, hlt⟩ := hstep s hs hends
        obtain ⟨es, s'', hes, hrun, hrest⟩ := ih _ (hμ ▸ hlt) hI rfl
        refine ⟨e :: es, s'', List.forall_mem_cons.2 ⟨he, hes⟩, ?_, hrest⟩
        rw [run_cons, fallible_next_ok, hs']
        exact hrun

/-- What every step that succeeds keeps holds after a run that does. -/
theorem invariant_run_ok {s' : σ} (hstep : ∀ s e s', I s → step s e = .ok s' → I s') (hs : I s)
    (hrun : (fallible step).run (.ok s) es = .ok s') : I s' := by
  refine invariant_run (fallible step) (I := fun r => ∀ s, r = .ok s → I s) ?_ es ?_ s' hrun
  · rintro r e hr s₁ hs₁
    cases r with
    | error f => cases hs₁
    | ok s₀ => exact hstep s₀ e s₁ (hr s₀ rfl) hs₁
  · rintro s₀ ⟨⟩
    exact hs

/-- Steps that succeed under the guard of a specification, and keep a relation to its state,
make runs that do. -/
theorem exists_run_of_simulates {τ ω : Type*} {spec : Machine τ ε ω} {Allowed : τ → ε → Prop}
    {R : σ → τ → Prop}
    (hstep : ∀ s t e, R s t → Allowed t e → ∃ s', step s e = .ok s' ∧ R s' (spec.next t e))
    {t : τ} (hR : R s t) (hes : spec.Guarded Allowed t es) :
    ∃ s', (fallible step).run (.ok s) es = .ok s' ∧ R s' (spec.run t es) := by
  induction es generalizing s t with
  | nil => exact ⟨s, rfl, hR⟩
  | cons e es ih =>
      obtain ⟨s', hs', hR'⟩ := hstep s t e hR hes.1
      rw [run_cons, fallible_next_ok, hs']
      exact ih hR' hes.2

/-- A property of the states of a run that every step from a guarded run keeps exactly if
it meets a second guard. -/
theorem forall_prefix_ok_iff_guarded (hH : (fallible step).Guarded (OnOk H) (.ok s) es)
    (hI : I s) (hP : P s)
    (hstep : ∀ s e, I s → P s → H s e →
      (G s e → ∃ s', step s e = .ok s' ∧ I s' ∧ P s') ∧
        (¬ G s e → ∀ s', step s e = .ok s' → ¬ P s')) :
    (∀ pre, pre <+: es → ∃ s', (fallible step).run (.ok s) pre = .ok s' ∧ P s') ↔
      (fallible step).Guarded (OnOk G) (.ok s) es := by
  refine forall_prefix_iff_guarded _ es ⟨s, rfl, hP⟩ fun pre e hpre hG => ?_
  have hHboth := guarded_of_prefix _ hpre hH
  obtain ⟨hHpre, hHe⟩ := (guarded_concat _ _ _ _ _).1 hHboth
  obtain ⟨s', hrun, hI', hP'⟩ := exists_run_of_guarded (I := fun s => I s ∧ P s)
    (fun s e hs he => (hstep s e hs.1 hs.2 he.1).1 he.2) ⟨hI, hP⟩ (guarded_onOk_and.2 ⟨hHpre, hG⟩)
  rw [hrun, onOk_ok] at hHe
  obtain ⟨hkeeps, hbreaks⟩ := hstep s' e hI' hP' hHe
  rw [run_concat, hrun, fallible_next_ok, onOk_ok]
  constructor
  · rintro ⟨s'', hs'', hP''⟩
    by_contra hG
    exact hbreaks hG s'' hs'' hP''
  · intro hG
    obtain ⟨s'', hs'', -, hP''⟩ := hkeeps hG
    exact ⟨s'', hs'', hP''⟩

/-- A run that keeps an invariant succeeds exactly as long as every step meets the guard. -/
theorem forall_prefix_succeeds_iff_guarded (hH : (fallible step).Guarded (OnOk H) (.ok s) es)
    (hI : I s)
    (hstep : ∀ s e, I s → H s e →
      (G s e → ∃ s', step s e = .ok s' ∧ I s') ∧ (¬ G s e → ∃ f, step s e = .error f)) :
    (∀ pre, pre <+: es → ∃ s', (fallible step).run (.ok s) pre = .ok s') ↔
      (fallible step).Guarded (OnOk G) (.ok s) es := by
  have hiff := forall_prefix_ok_iff_guarded (G := G) (P := fun _ => True) hH hI trivial
    fun s e hI _ hHe => by
      obtain ⟨hkeeps, hfails⟩ := hstep s e hI hHe
      constructor
      · intro hG
        obtain ⟨s', hs', hI'⟩ := hkeeps hG
        exact ⟨s', hs', hI', trivial⟩
      · intro hG s' hs'
        obtain ⟨f, hf⟩ := hfails hG
        exact absurd hs' (ne_ok_of_error hf s')
  simpa only [and_true] using hiff

end Machine

end Svc.Lib
