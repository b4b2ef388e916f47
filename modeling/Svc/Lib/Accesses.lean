import Svc.Lib.Block

/-!
# Programs that stay inside their blocks

A program in `AccessM` logs every access it makes.  `StaysInside` is its specification:
the program returns the given value, and all the accesses it adds to the log are in bounds.
-/

namespace Svc.Lib

abbrev AccessM := StateM (List Access)

def touch (a : Access) : AccessM Unit := modify (· ++ [a])

/-- `x` returns `a`, and all its accesses are in bounds. -/
def StaysInside {α : Type} (x : AccessM α) (a : α) : Prop :=
  ∀ log, ∃ accesses, x.run log = (a, log ++ accesses) ∧ ∀ r ∈ accesses, r.InBounds

namespace StaysInside

variable {α β : Type}

theorem pure (a : α) : StaysInside (Pure.pure a) a :=
  fun log => ⟨[], by rw [List.append_nil]; rfl, by simp⟩

theorem bind {x : AccessM α} {f : α → AccessM β} {a : α} {b : β} (hx : StaysInside x a)
    (hf : StaysInside (f a) b) : StaysInside (x >>= f) b := by
  intro log
  obtain ⟨accesses, hrun, hin⟩ := hx log
  obtain ⟨accesses', hrun', hin'⟩ := hf (log ++ accesses)
  refine ⟨accesses ++ accesses', ?_, ?_⟩
  · rw [StateT.run_bind, hrun, ← List.append_assoc]
    exact hrun'
  · intro r hr
    exact (List.mem_append.1 hr).elim (hin r) (hin' r)

theorem touch {a : Access} (h : a.index + a.count ≤ a.size) : StaysInside (touch a) () := by
  refine fun log => ⟨[a], rfl, ?_⟩
  intro r hr
  rw [List.mem_singleton.1 hr, Access.inBounds_iff]
  exact .inr h

end StaysInside

end Svc.Lib
