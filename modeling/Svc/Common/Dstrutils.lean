import Svc.Common.Dstr.Contents
import Svc.Common.Dstrlex

/-!
# Lists of strings and the lexer in memory

`dstrutils.c` builds its results out of strings in memory.  The strings it returns hold
what the functions on lists of bytes say: the lexer in memory keeps its buffer in a
string, and each token is a copy of the buffer.
-/

namespace Svc.Common.Dstrutils

open Svc.Lib

/-! ## Joining -/

/-- The loop of the functions that join a list; `putGlue` appends the glue. -/
def joinNodes (putGlue : Dstring → MemM Dstring) : List Dstring → Dstring → MemM Dstring
  | [], s => return s
  | node :: next, s => do
      let s ← dcat s node
      let s ← if next.isEmpty then pure s else putGlue s
      joinNodes putGlue next s

def dlistJoin (list : List Dstring) (glue : Dstring) : MemM Dstring := do
  joinNodes (dcat · glue) list (← dnew)

def dlistJoinc (list : List Dstring) (c : UInt8) : MemM Dstring := do
  joinNodes (dcatc · c) list (← dnew)

def dlistJoincs (list : List Dstring) (glue : CString) : MemM Dstring := do
  let len := glue.bytes.length
  joinNodes (dcatmem · glue.bytes.memory len) list (← dnew)

section Joining

variable (putGlue : Dstring → MemM Dstring) (node node' : Dstring) (next : List Dstring)
  (s : Dstring)
  (mem : Memory)

theorem joinNodes_singleton_run :
    (joinNodes putGlue [node] s).run mem = (dcat s node).run mem := rfl

theorem joinNodes_cons_cons_run :
    (joinNodes putGlue (node :: node' :: next) s).run mem =
      (joinNodes putGlue (node' :: next)
        ((putGlue ((dcat s node).run mem).1).run ((dcat s node).run mem).2).1).run
          ((putGlue ((dcat s node).run mem).1).run ((dcat s node).run mem).2).2 := rfl

end Joining

theorem bytes_joinNodes {putGlue : Dstring → MemM Dstring} {glue : Bytes}
    (hglue : ∀ s mem, ((putGlue s).run mem).1.bytes = s.bytes ++ glue) (list : List Dstring)
    (s : Dstring) (mem : Memory) :
    ((joinNodes putGlue list s).run mem).1.bytes =
      s.bytes ++ glue.intercalate (list.map Dstring.bytes) := by
  induction list generalizing s mem with
  | nil => rw [joinNodes, MemM.run_pure, List.map_nil, List.intercalate_nil, List.append_nil]
  | cons node next ih =>
      cases next with
      | nil => rw [joinNodes_singleton_run, bytes_dcat]; simp [List.intercalate]
      | cons node' next =>
          rw [joinNodes_cons_cons_run, ih, hglue, bytes_dcat]
          simp [List.intercalate]

theorem bytes_dlistJoin (list : List Dstring) (glue : Dstring) (mem : Memory) :
    ((dlistJoin list glue).run mem).1.bytes =
      glue.bytes.intercalate (list.map Dstring.bytes) :=
  bytes_joinNodes (fun _ _ => bytes_dcat) list _ _

theorem bytes_dlistJoinc (list : List Dstring) (c : UInt8) (mem : Memory) :
    ((dlistJoinc list c).run mem).1.bytes = [c].intercalate (list.map Dstring.bytes) :=
  bytes_joinNodes (fun _ _ => bytes_dcatc c) list _ _

theorem bytes_dlistJoincs (list : List Dstring) (glue : CString) (mem : Memory) :
    ((dlistJoincs list glue).run mem).1.bytes =
      glue.bytes.intercalate (list.map Dstring.bytes) := by
  refine bytes_joinNodes (fun s mem => ?_) list _ _
  rw [bytes_dcatmem, first_memory]

/-! ## Parsing -/

/-- The locals of `dstrlex_parse`, with the buffer and the tokens in memory. -/
structure LexLocals where
  inEscape : Bool
  inString : Bool
  buffer : Dstring
  tokens : List Dstring

namespace LexLocals

def dcatc (s : LexLocals) (ch : UInt8) : MemM LexLocals := do
  return { s with buffer := ← Common.dcatc s.buffer ch }

def dlistAdd (s : LexLocals) : MemM LexLocals := do
  return { s with tokens := s.tokens ++ [← dnewcopy s.buffer] }

def addToken (s : LexLocals) : MemM LexLocals := do
  let s ← s.dlistAdd
  return { s with buffer := ← dclear s.buffer }

def endLiteral (s : LexLocals) : MemM LexLocals := do
  if s.buffer.len ≠ 0 then s.addToken else return s

end LexLocals

def lexChar (s : LexLocals) (ch : UInt8) : MemM LexLocals := do
  if s.inEscape then
    return { ← s.dcatc (unescapeChar ch) with inEscape := false }
  else if s.inString then
    if ch = chr '"' then return { ← s.addToken with inString := false }
    else if ch = chr '\\' then return { s with inEscape := true }
    else s.dcatc ch
  else
    if ch = chr '"' then return { ← s.endLiteral with inString := true }
    else if ch = chr '\\' then return { s with inEscape := true }
    else if isLexSpace ch then s.endLiteral
    else s.dcatc ch

/-- The loop of `dstrlex_parse` over the first `len` bytes of the text. -/
def lexBytes (text : Dstring) (s : LexLocals) : Nat → MemM LexLocals
  | 0 => return s
  | len + 1 => do
      let s ← lexBytes text s len
      lexChar s ((← text.readAt len 1) 0)

def LexLocals.finish (s : LexLocals) : MemM (Except DstrlexError (List Dstring)) := do
  if s.inEscape then return .error .escape
  else if s.inString then return .error .string
  else if s.buffer.len ≠ 0 then return .ok (← s.dlistAdd).tokens
  else return .ok s.tokens

def dstrlexParse (text : Dstring) : MemM (Except DstrlexError (List Dstring)) := do
  let buffer ← dnew
  (← lexBytes text ⟨false, false, buffer, []⟩ text.len).finish

/-! ## Escaping -/

/-- The body of the loop of `dstrlex_escape_mem`. -/
def dstrlexEscapeChar (o : Dstring) (c : UInt8) : MemM Dstring :=
  if c = chr '\n' then dcatcs o ⟨cstr "\\n", by decide⟩
  else if c = chr '\r' then dcatcs o ⟨cstr "\\r", by decide⟩
  else if c = 0 then dcatcs o ⟨cstr "\\0", by decide⟩
  else if c = chr '"' then dcatcs o ⟨cstr "\\\"", by decide⟩
  else if c = chr '\t' then dcatcs o ⟨cstr "\\t", by decide⟩
  else if c = chr '\\' then dcatcs o ⟨cstr "\\\\", by decide⟩
  else dcatc o c

def dstrlexEscapeMem (text : Bytes) : MemM Dstring := do
  text.foldlM dstrlexEscapeChar (← dnew)

theorem bytes_dstrlexEscapeChar (o : Dstring) (c : UInt8) (mem : Memory) :
    ((dstrlexEscapeChar o c).run mem).1.bytes = o.bytes ++ Common.dstrlexEscapeChar c := by
  unfold dstrlexEscapeChar Common.dstrlexEscapeChar
  split_ifs
  case neg => exact bytes_dcatc c
  all_goals exact bytes_dcatcs _

theorem bytes_escapeLoop (text : Bytes) (o : Dstring) (mem : Memory) :
    ((text.foldlM dstrlexEscapeChar o).run mem).1.bytes =
      o.bytes ++ Common.dstrlexEscapeMem text := by
  induction text generalizing o mem with
  | nil => rw [List.foldlM_nil, MemM.run_pure, dstrlexEscapeMem_nil, List.append_nil]
  | cons c text ih =>
      rw [List.foldlM_cons, MemM.run_bind, ih, bytes_dstrlexEscapeChar, dstrlexEscapeMem_cons,
        List.append_assoc]

theorem bytes_dstrlexEscapeMem (text : Bytes) (mem : Memory) :
    ((dstrlexEscapeMem text).run mem).1.bytes = Common.dstrlexEscapeMem text :=
  bytes_escapeLoop text _ _

/-! ## What the tokens hold -/

def LexLocals.bytes (s : LexLocals) : LexState :=
  ⟨s.inEscape, s.inString, s.buffer.bytes, s.tokens.map Dstring.bytes⟩

section Lexer

variable (s : LexLocals) (mem : Memory)

theorem dcatc_run (ch : UInt8) :
    (s.dcatc ch).run mem =
      ({ s with buffer := ((Common.dcatc s.buffer ch).run mem).1 },
        ((Common.dcatc s.buffer ch).run mem).2) := rfl

theorem addToken_run :
    (s.addToken).run mem =
      let copied := (dnewcopy s.buffer).run mem
      let cleared := (dclear s.buffer).run copied.2
      ({ s with tokens := s.tokens ++ [copied.1], buffer := cleared.1 }, cleared.2) := rfl

theorem bytes_lexDcatc (ch : UInt8) : ((s.dcatc ch).run mem).1.bytes = s.bytes.dcatc ch := by
  simp [dcatc_run, LexLocals.bytes, LexState.dcatc]

theorem bytes_addToken : (s.addToken.run mem).1.bytes = s.bytes.addToken := by
  simp [addToken_run, LexLocals.bytes, LexState.addToken]

theorem bytes_buffer_eq_nil_iff : s.bytes.buffer = [] ↔ ¬ s.buffer.len ≠ 0 := by
  rw [not_not]
  exact bytes_eq_nil_iff

theorem bytes_endLiteral : (s.endLiteral.run mem).1.bytes = s.bytes.endLiteral := by
  rw [LexLocals.endLiteral, LexState.endLiteral]
  split_ifs with hlen hnil hnil
  · exact absurd hlen ((bytes_buffer_eq_nil_iff s).1 hnil)
  · exact bytes_addToken s mem
  · rfl
  · exact absurd ((bytes_buffer_eq_nil_iff s).2 hlen) hnil

theorem bytes_lexChar (ch : UInt8) :
    ((lexChar s ch).run mem).1.bytes = Common.lexChar s.bytes ch := by
  have hescape : s.bytes.inEscape = s.inEscape := rfl
  have hstring : s.bytes.inString = s.inString := rfl
  unfold lexChar Common.lexChar
  rw [hescape, hstring]
  split_ifs
  · rw [← bytes_lexDcatc s mem]; rfl
  · rw [← bytes_addToken s mem]; rfl
  · rfl
  · exact bytes_lexDcatc s mem ch
  · rw [← bytes_endLiteral s mem]; rfl
  · rfl
  · exact bytes_endLiteral s mem
  · exact bytes_lexDcatc s mem ch

theorem bytes_lexBytes (text : Dstring) (len : Nat) :
    ((lexBytes text s len).run mem).1.bytes =
      (Block.first text.data len).foldl Common.lexChar s.bytes := by
  induction len with
  | zero => rfl
  | succ len ih =>
      rw [lexBytes, MemM.run_bind, MemM.run_bind, bytes_lexChar, ih, Block.first_add,
        List.foldl_append]
      rfl

theorem bytes_finish :
    (s.finish.run mem).1.map (List.map Dstring.bytes) = s.bytes.finish := by
  have hescape : s.bytes.inEscape = s.inEscape := rfl
  have hstring : s.bytes.inString = s.inString := rfl
  rw [LexLocals.finish, LexState.finish, hescape, hstring, LexState.endLiteral]
  split_ifs with hin hin hlen hnil hnil
  · rfl
  · rfl
  · exact absurd hlen ((bytes_buffer_eq_nil_iff s).1 hnil)
  · change Except.ok ((s.tokens ++ [((dnewcopy s.buffer).run mem).1]).map Dstring.bytes) = _
    simp [LexState.addToken, LexLocals.bytes]
  · rfl
  · exact absurd ((bytes_buffer_eq_nil_iff s).2 hlen) hnil

end Lexer

/-- The lexer in memory returns strings that hold the tokens of the text. -/
theorem bytes_dstrlexParse (text : Dstring) (mem : Memory) :
    ((dstrlexParse text).run mem).1.map (List.map Dstring.bytes) =
      Common.dstrlexParse text.bytes := by
  rw [dstrlexParse, MemM.run_bind, MemM.run_bind, bytes_finish, bytes_lexBytes]
  rfl

end Svc.Common.Dstrutils
