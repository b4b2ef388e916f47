import Svc.Svcenet.Client

/-!
# The lines of a packet

The loop of `handle_server_msg` passes on the pieces that end in a newline, without
the empty ones; what stands after the last newline is never looked at.
-/

namespace Svc.Svcenet

open Svc.Common

/-- The pieces of a packet that end in a newline, without the empty ones. -/
def completeLines (data : Bytes) : List Bytes :=
  (data.splitOn (chr '\n')).dropLast.filter (· ≠ [])

/-! ## Finding a newline -/

section Mempos

variable {data : Bytes} {ch : UInt8} {start pos : Nat}

theorem getElem?_drop_of_mempos_eq_none (h : mempos data ch start data.length = none) :
    ch ∉ data.drop start := by
  intro hmem
  obtain ⟨k, hk, hget⟩ := List.getElem_of_mem hmem
  rw [List.length_drop] at hk
  rw [mempos, List.find?_eq_none] at h
  refine h (start + k) (by rw [List.mem_range'_1]; omega) ?_
  rw [List.getElem_drop] at hget
  simp [List.getElem?_eq_getElem (show start + k < data.length by omega), hget]

/-- The position found cuts what is left of the packet at its first newline. -/
theorem drop_of_mempos_eq_some (h : mempos data ch start data.length = some pos) :
    start ≤ pos ∧ pos < data.length ∧ ch ∉ (data.drop start).take (pos - start) ∧
      data.drop start = (data.drop start).take (pos - start) ++ ch :: data.drop (pos + 1) := by
  rw [mempos, List.find?_range'_eq_some] at h
  obtain ⟨hpos, hmem, hbefore⟩ := h
  rw [List.mem_range'_1] at hmem
  have hlt : pos < data.length := by omega
  have hget : data[pos] = ch := by
    simpa [List.getElem?_eq_getElem hlt] using hpos
  refine ⟨hmem.1, hlt, ?_, ?_⟩
  · intro hin
    obtain ⟨k, hk, hget'⟩ := List.getElem_of_mem hin
    simp only [List.length_take, List.length_drop] at hk
    have hnot := hbefore (start + k) (by omega) (by omega)
    rw [List.getElem_take, List.getElem_drop] at hget'
    simp [List.getElem?_eq_getElem (show start + k < data.length by omega), hget'] at hnot
  · have hdrop : data.drop pos = ch :: data.drop (pos + 1) := by
      rw [List.drop_eq_getElem_cons hlt, hget]
    rw [← hdrop]
    conv_lhs => rw [← List.take_append_drop (pos - start) (data.drop start)]
    rw [List.drop_drop, show start + (pos - start) = pos by omega]

end Mempos

/-! ## Lines -/

theorem completeLines_of_not_mem {data : Bytes} (h : chr '\n' ∉ data) :
    completeLines data = [] := by
  rw [completeLines, List.splitOn_eq_splitOnP, List.splitOnP_eq_singleton]
  · rfl
  · intro b hb
    rw [beq_eq_false_iff_ne]
    rintro rfl
    exact h hb

theorem completeLines_append {line : Bytes} (hline : chr '\n' ∉ line) (rest : Bytes) :
    completeLines (line ++ chr '\n' :: rest) =
      if line = [] then completeLines rest else line :: completeLines rest := by
  have hfirst : ∀ b ∈ line, (b == chr '\n') = false := by
    intro b hb
    rw [beq_eq_false_iff_ne]
    rintro rfl
    exact hline hb
  have hcut : (line ++ chr '\n' :: rest).splitOn (chr '\n') =
      line :: rest.splitOn (chr '\n') := by
    rw [List.splitOn_eq_splitOnP, List.splitOn_eq_splitOnP]
    exact List.splitOnP_append_cons_of_forall_mem hfirst _ (by simp) rest
  rw [completeLines, hcut, List.dropLast_cons_of_ne_nil (List.splitOn_ne_nil _ _), List.filter_cons]
  by_cases hnil : line = []
  · simp [hnil, completeLines]
  · simp [hnil, completeLines]

theorem handleServerMsgFrom_eq (data : Bytes) (rounds : Nat) (c : Client) (prev : Nat)
    (hrounds : data.length - prev < rounds) :
    handleServerMsgFrom data rounds c prev =
      (completeLines (data.drop prev)).foldlM handleServerDecodedMsg c := by
  induction rounds generalizing c prev with
  | zero => omega
  | succ rounds ih =>
      rw [handleServerMsgFrom]
      cases hpos : mempos data (chr '\n') prev data.length with
      | none =>
          rw [completeLines_of_not_mem (getElem?_drop_of_mempos_eq_none hpos)]
          rfl
      | some pos =>
          obtain ⟨hle, hlt, hline, hdrop⟩ := drop_of_mempos_eq_some hpos
          have hih := fun c' => ih c' (pos + 1) (by omega)
          have hnil : pos - prev > 0 ↔ (data.drop prev).take (pos - prev) ≠ [] := by
            rw [← List.length_pos_iff, List.length_take, List.length_drop]
            omega
          dsimp only
          generalize (data.drop prev).take (pos - prev) = line at hline hdrop hnil ⊢
          rw [hdrop, completeLines_append hline]
          simp only [hih, hnil]
          by_cases hempty : line = []
          · simp [hempty]
          · simp [hempty]

theorem handleServerMsg_eq (c : Client) (data : Bytes) :
    handleServerMsg c data = (completeLines data).foldlM handleServerDecodedMsg c := by
  rw [handleServerMsg, handleServerMsgFrom_eq data _ c 0 (by omega), List.drop_zero]

/-- A packet without a newline is lost. -/
theorem handleServerMsg_of_not_mem {data : Bytes} (h : chr '\n' ∉ data) (c : Client) :
    handleServerMsg c data = .ok c := by
  rw [handleServerMsg_eq, completeLines_of_not_mem h]
  rfl

end Svc.Svcenet
