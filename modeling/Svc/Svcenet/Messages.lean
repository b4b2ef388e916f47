import Svc.Svcenet.Client.Lines

/-!
# Commands as text

The commands that the server sends to its clients, the line each of them is written
as, and what the client makes of that line.
-/

namespace Svc.Svcenet

open Svc.Common

inductive ServerMsg where
  | sset (key value : CString)
  | yare (id : Nat)
  | padd (id : Nat)
  | pset (id : Nat) (key value : CString)
  deriving DecidableEq

def ServerMsg.line : ServerMsg → Bytes
  | .sset key value => cstr "SSET" ++ chr ' ' :: quotedLine [key.bytes, value.bytes]
  | .yare id => cstr "YARE" ++ chr ' ' :: decimal id
  | .padd id => cstr "PADD" ++ chr ' ' :: decimal id
  | .pset id key value =>
      cstr "PSET" ++ chr ' ' :: (decimal id ++ chr ' ' :: quotedLine [key.bytes, value.bytes])

def ServerMsg.encode (m : ServerMsg) : Bytes := m.line ++ [chr '\n']

def ServerMsg.tokens : ServerMsg → List Bytes
  | .sset key value => [cstr "SSET", key.bytes, value.bytes]
  | .yare id => [cstr "YARE", decimal id]
  | .padd id => [cstr "PADD", decimal id]
  | .pset id key value => [cstr "PSET", decimal id, key.bytes, value.bytes]

/-! ## What the server writes -/

/-- The commands that tell a new peer everything. -/
def snapshotMsgs (s : Server) (peerId : Nat) : List ServerMsg :=
  .yare peerId :: (s.serverData.map fun ddn => .sset ddn.key ddn.value) ++
    s.occupants.flatMap fun (i, occupant) =>
      .padd i :: occupant.pubData.map fun ddn => .pset i ddn.key ddn.value

def modifiedMsgs (s : Server) : List ServerMsg :=
  ((s.serverData.filter DataDictNode.dirty).map fun ddn => .sset ddn.key ddn.value) ++
    s.occupants.flatMap fun (i, occupant) =>
      (occupant.pubData.filter DataDictNode.dirty).map fun ddn => .pset i ddn.key ddn.value

theorem encodeSset_eq : encodeSset = fun ddn => (ServerMsg.sset ddn.key ddn.value).encode := by
  funext ddn
  simp [encodeSset, ServerMsg.encode, ServerMsg.line, quotedLine_cons_cons, quoted, cstr]

theorem encodePset_eq (i : Nat) :
    encodePset (decimal i) = fun ddn => (ServerMsg.pset i ddn.key ddn.value).encode := by
  funext ddn
  simp [encodePset, ServerMsg.encode, ServerMsg.line, quotedLine_cons_cons, quoted, cstr]

theorem encodePadd_eq (i : Nat) : encodePadd (decimal i) = (ServerMsg.padd i).encode := by
  simp [encodePadd, ServerMsg.encode, ServerMsg.line, cstr]

theorem flatMap_if {α β γ : Type} (l : List α) (p : α → Bool) (f : α → β) (g : β → List γ) :
    (l.flatMap fun a => if p a then g (f a) else []) = ((l.filter p).map f).flatMap g := by
  induction l with
  | nil => rfl
  | cons a l ih => cases hp : p a <;> simp [hp, ih]

theorem encodeSnapshot_eq (s : Server) (peerId : Nat) :
    encodeSnapshot s peerId = (snapshotMsgs s peerId).flatMap ServerMsg.encode := by
  have hyare : cstr "YARE " ++ (decimal peerId ++ cstr "\n") =
      (ServerMsg.yare peerId).encode := by
    simp [ServerMsg.encode, ServerMsg.line, cstr]
  simp only [encodeSnapshot, hyare, snapshotMsgs, encodeSset_eq, encodePadd_eq, encodePset_eq,
    List.flatMap_append, List.flatMap_cons, List.flatMap_assoc, List.flatMap_map, List.append_assoc,
    List.cons_append]

theorem encodeModified_eq (s : Server) :
    encodeModified s = (modifiedMsgs s).flatMap ServerMsg.encode := by
  simp only [encodeModified, modifiedMsgs, encodeSset_eq, encodePset_eq, flatMap_if,
    List.flatMap_append, List.flatMap_assoc]

/-! ## What the client reads -/

theorem isPlain_of_isDigit {b : UInt8} (hb : isDigit b = true) : isPlain b = true := by
  have hne : ∀ c, isDigit c = false → (b == c) = false := fun c hc =>
    beq_eq_false_iff_ne.2 (ne_of_isDigit hb hc)
  have hspace : isLexSpace b = false := by
    simp only [isLexSpace, Bool.or_eq_false_iff]
    exact ⟨⟨⟨hne _ rfl, hne _ rfl⟩, hne _ rfl⟩, hne _ rfl⟩
  simp [isPlain, hspace, ne_of_isDigit hb (c := chr '"') rfl,
    ne_of_isDigit hb (c := chr '\\') rfl]

theorem isPlain_of_mem_decimal {n : Nat} {b : UInt8} (hb : b ∈ decimal n) : isPlain b = true :=
  isPlain_of_isDigit (isDigit_of_mem_decimal hb)

theorem dstrlexParse_line (m : ServerMsg) : dstrlexParse m.line = .ok m.tokens := by
  have hinit : LexState.init = between [] := rfl
  unfold dstrlexParse
  rw [hinit]
  cases m with
  | sset key value =>
      rw [ServerMsg.line, foldl_lexChar_word_space (List.all_eq_true.1 (by decide)) (by decide),
        foldl_lexChar_quotedLine]
      rfl
  | yare id =>
      rw [ServerMsg.line, foldl_lexChar_word_space (List.all_eq_true.1 (by decide)) (by decide),
        finish_word (fun b hb => isPlain_of_mem_decimal hb) (decimal_ne_nil id)]
      rfl
  | padd id =>
      rw [ServerMsg.line, foldl_lexChar_word_space (List.all_eq_true.1 (by decide)) (by decide),
        finish_word (fun b hb => isPlain_of_mem_decimal hb) (decimal_ne_nil id)]
      rfl
  | pset id key value =>
      rw [ServerMsg.line, foldl_lexChar_word_space (List.all_eq_true.1 (by decide)) (by decide),
        foldl_lexChar_word_space (fun b hb => isPlain_of_mem_decimal hb) (decimal_ne_nil id),
        foldl_lexChar_quotedLine]
      rfl

theorem newline_not_mem_decimal (n : Nat) : chr '\n' ∉ decimal n :=
  fun h => ne_of_isDigit (isDigit_of_mem_decimal h) rfl rfl

theorem newline_not_mem_quotedLine (tokens : List Bytes) : chr '\n' ∉ quotedLine tokens :=
  fun h => by simpa [isLineBreaker] using not_isLineBreaker_of_mem_quotedLine h

theorem newline_not_mem_line (m : ServerMsg) : chr '\n' ∉ m.line := by
  have hspace : chr '\n' ≠ chr ' ' := by decide
  cases m with
  | sset key value =>
      simp only [ServerMsg.line, List.mem_append, List.mem_cons, hspace, false_or, not_or]
      exact ⟨by decide, newline_not_mem_quotedLine _⟩
  | yare id =>
      simp only [ServerMsg.line, List.mem_append, List.mem_cons, hspace, false_or, not_or]
      exact ⟨by decide, newline_not_mem_decimal id⟩
  | padd id =>
      simp only [ServerMsg.line, List.mem_append, List.mem_cons, hspace, false_or, not_or]
      exact ⟨by decide, newline_not_mem_decimal id⟩
  | pset id key value =>
      simp only [ServerMsg.line, List.mem_append, List.mem_cons, hspace, false_or, not_or]
      exact ⟨by decide, newline_not_mem_decimal id, newline_not_mem_quotedLine _⟩

theorem line_ne_nil (m : ServerMsg) : m.line ≠ [] := by
  cases m <;> simp [ServerMsg.line, cstr]

theorem completeLines_encode (msgs : List ServerMsg) :
    completeLines (msgs.flatMap ServerMsg.encode) = msgs.map ServerMsg.line := by
  induction msgs with
  | nil => rfl
  | cons m msgs ih =>
      rw [List.flatMap_cons, ServerMsg.encode, List.append_assoc, List.singleton_append,
        completeLines_append (newline_not_mem_line m), if_neg (line_ne_nil m), ih, List.map_cons]

/-- The client carries out the commands of a packet, one after the other. -/
theorem handleServerMsg_encode (c : Client) (msgs : List ServerMsg) :
    handleServerMsg c (msgs.flatMap ServerMsg.encode) =
      msgs.foldlM (fun c m => handleServerDecodedMsg c m.line) c := by
  rw [handleServerMsg_eq, completeLines_encode, List.foldlM_map]

end Svc.Svcenet
