import Mathlib.Data.Set.Function
import Mathlib.Logic.Function.Basic

/-!
# Replicas that lag behind

A source writes keys and remembers the ones it has not passed on yet.  A replica
follows it when it has the source's value of every other key.  Writing keeps every
replica that follows; passing on what is pending makes it equal to the source.
-/

namespace Svc.Lib

variable {κ β : Type*} {source replica : κ → β} {pending : Set κ}

/-- The replica has the value of every key that is not pending. -/
def Follows (source : κ → β) (pending : Set κ) (replica : κ → β) : Prop :=
  Set.EqOn replica source (compl pending)

theorem follows_of_eq (h : replica = source) : Follows source pending replica := by
  rw [h]
  exact Set.eqOn_refl _ _

theorem Follows.eq_of_not_mem (h : Follows source pending replica) {k : κ} (hk : k ∉ pending) :
    replica k = source k :=
  h hk

theorem Follows.write [DecidableEq κ] (h : Follows source pending replica) (k : κ) (v : β) :
    Follows (Function.update source k v) (insert k pending) replica := by
  intro k' hk'
  rw [Set.mem_compl_iff, Set.mem_insert_iff, not_or] at hk'
  rw [Function.update_of_ne hk'.1]
  exact h hk'.2

/-- A replica that is told what is pending and keeps the rest is the source. -/
theorem Follows.flush (h : Follows source pending replica) {replica' : κ → β}
    (hnew : Set.EqOn replica' source pending)
    (hold : Set.EqOn replica' replica (compl pending)) : replica' = source := by
  funext k
  by_cases hk : k ∈ pending
  · exact hnew hk
  · exact (hold hk).trans (h hk)

end Svc.Lib
