import Mathlib.Data.List.Infix
import Mathlib.Tactic.Common

/-!
# Streams of records

A stream is a list of records one after the other, each with a mark at its end that is not in
it.  A reader that goes by the marks finds the records again, in order; what it has after the
last mark is the beginning of the next one.
-/

namespace Svc.Lib.Records

variable {α : Type*} (mark : α)

def stream (records : List (List α)) : List α := (records.map (· ++ [mark])).flatten

variable {mark} {records records' : List (List α)} {record rest rest' : List α}

@[simp] theorem stream_nil : stream mark [] = [] := rfl

@[simp] theorem stream_cons :
    stream mark (record :: records) = record ++ mark :: stream mark records := by
  simp [stream]

@[simp] theorem stream_append :
    stream mark (records ++ records') = stream mark records ++ stream mark records' := by
  simp [stream]

/-- The first record and what is behind it -/
theorem cons_inj (h : mark ∉ record) {record' : List α} (h' : mark ∉ record')
    (heq : record ++ mark :: rest = record' ++ mark :: rest') :
    record = record' ∧ rest = rest' := by
  induction record generalizing record' with
  | nil =>
      cases record' with
      | nil => exact ⟨rfl, List.tail_eq_of_cons_eq heq⟩
      | cons b record' =>
          obtain rfl : mark = b := List.head_eq_of_cons_eq heq
          exact absurd List.mem_cons_self h'
  | cons a record ih =>
      cases record' with
      | nil =>
          obtain rfl : a = mark := List.head_eq_of_cons_eq heq
          exact absurd List.mem_cons_self h
      | cons b record' =>
          obtain rfl : a = b := List.head_eq_of_cons_eq heq
          obtain ⟨hrecord, hrest⟩ := ih (fun hmem => h (List.mem_cons_of_mem _ hmem))
            (fun hmem => h' (List.mem_cons_of_mem _ hmem)) (List.tail_eq_of_cons_eq heq)
          exact ⟨congrArg (a :: ·) hrecord, hrest⟩

/-- The records found in the beginning of a stream are its first ones. -/
theorem prefix_of_stream_eq (h : ∀ record ∈ records, mark ∉ record)
    (h' : ∀ record ∈ records', mark ∉ record)
    (heq : stream mark records ++ rest = stream mark records') : records <+: records' := by
  induction records generalizing records' with
  | nil => exact List.nil_prefix
  | cons record records ih =>
      obtain ⟨hrecord, hrecords⟩ := List.forall_mem_cons.1 h
      cases records' with
      | nil => simp at heq
      | cons record' records' =>
          obtain ⟨hrecord', hrecords'⟩ := List.forall_mem_cons.1 h'
          rw [stream_cons, stream_cons, List.append_assoc, List.cons_append] at heq
          obtain ⟨rfl, hrest⟩ := cons_inj hrecord hrecord' heq
          obtain ⟨t, rfl⟩ := ih hrecords hrecords' hrest
          exact ⟨t, rfl⟩

/-- Without a mark in what is left, they are all of them, and nothing is left. -/
theorem eq_of_stream_eq (h : ∀ record ∈ records, mark ∉ record)
    (h' : ∀ record ∈ records', mark ∉ record)
    (heq : stream mark records ++ rest = stream mark records') (hrest : mark ∉ rest) :
    records = records' ∧ rest = [] := by
  obtain ⟨t, rfl⟩ := prefix_of_stream_eq h h' heq
  rw [stream_append, List.append_cancel_left_eq] at heq
  cases t with
  | nil => exact ⟨(List.append_nil _).symm, heq⟩
  | cons record t =>
      rw [heq, stream_cons] at hrest
      exact absurd (List.mem_append_right _ List.mem_cons_self) hrest

end Svc.Lib.Records
