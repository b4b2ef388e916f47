import Svc.Common.Dstrlex
import Svc.Lib.Signed

/-!
# The lexer of the wx client

`SVCParser` lexes lines of `wxChar`s as `dstrlex_parse` lexes bytes, with the tokens in an
argument and the error as its result.  A byte of the stream is one `wxChar`.
-/

namespace Svc.Svcenet

open Svc.Common Svc.Lib

/-- `wxChar`, a `wchar_t` of 32 bits -/
abbrev WxChar := Int32

abbrev WxString := List WxChar

abbrev WxArrayString := List WxString

def wxChr (c : Char) : WxChar := c.val.toInt32

def wxT (s : String) : WxString := s.toList.map wxChr

inductive SVCParserError where
  /-- `SVCPARSER_OK`: parse successful -/
  | ok
  /-- `SVCPARSER_ESCAPE`: unterminated escape sequence -/
  | escape
  /-- `SVCPARSER_STRING`: unterminated string -/
  | string
  deriving DecidableEq, Repr

namespace SVCParser

/-! ## Parsing -/

/-- The locals of `SVCParser::parse`, and its argument `cmd` -/
structure ParseState where
  inEscape : Bool
  inString : Bool
  buffer : WxString
  cmd : WxArrayString
  deriving DecidableEq

namespace ParseState

def append (s : ParseState) (ch : WxChar) : ParseState := { s with buffer := s.buffer ++ [ch] }

def addToken (s : ParseState) : ParseState := { s with cmd := s.cmd ++ [s.buffer], buffer := [] }

/-- `if (!buffer.IsEmpty())` -/
def endLiteral (s : ParseState) : ParseState := if s.buffer ≠ [] then s.addToken else s

end ParseState

def unescapeChar (ch : WxChar) : WxChar :=
  if ch = wxChr 'n' then wxChr '\n'
  else if ch = wxChr 'r' then wxChr '\r'
  else if ch = wxChr '0' then 0
  else if ch = wxChr '"' then wxChr '"'
  else if ch = wxChr 't' then wxChr '\t'
  else if ch = wxChr '\\' then wxChr '\\'
  else ch

def parseChar (s : ParseState) (ch : WxChar) : ParseState :=
  if s.inEscape then { s.append (unescapeChar ch) with inEscape := false }
  else if s.inString then
    if ch = wxChr '"' then { s.addToken with inString := false }
    else if ch = wxChr '\\' then { s with inEscape := true }
    else s.append ch
  else
    if ch = wxChr '"' then { s.endLiteral with inString := true }
    else if ch = wxChr '\\' then { s with inEscape := true }
    else if ch = wxChr ' ' ∨ ch = wxChr '\t' ∨ ch = wxChr '\n' ∨ ch = wxChr '\r' then
      s.endLiteral
    else s.append ch

/-- What is behind the loop: `cmd` keeps the tokens that were read before an error. -/
def ParseState.finish (s : ParseState) : SVCParserError × WxArrayString :=
  if s.inEscape then (.escape, s.cmd)
  else if s.inString then (.string, s.cmd)
  else (.ok, s.endLiteral.cmd)

def clear (_ : WxArrayString) : WxArrayString := []

def parse (line : WxString) (cmd : WxArrayString) : SVCParserError × WxArrayString :=
  (line.foldl parseChar ⟨false, false, [], clear cmd⟩).finish

/-! ## Escaping -/

def escapeChar (c : WxChar) : WxString :=
  if c = wxChr '\n' then wxT "\\n"
  else if c = wxChr '\r' then wxT "\\r"
  else if c = 0 then wxT "\\0"
  else if c = wxChr '"' then wxT "\\\""
  else if c = wxChr '\t' then wxT "\\t"
  else if c = wxChr '\\' then wxT "\\\\"
  else [c]

def escape (text : WxString) : WxString := text.flatMap escapeChar

def quoted (token : WxString) : WxString := wxChr '"' :: (escape token ++ [wxChr '"'])

def quotedLine (tokens : WxArrayString) : WxString := [wxChr ' '].intercalate (tokens.map quoted)

/-! ## Bytes -/

/-- What `GetC` returns for a byte of the stream: a `char`, which is signed, or an unsigned
byte. -/
def byteChar (signed : Bool) (b : UInt8) : WxChar :=
  if signed then b.toInt8.toInt32 else b.toUInt32.toInt32

def charByte (c : WxChar) : UInt8 := c.toUInt32.toUInt8

def ofBytes (signed : Bool) (text : Bytes) : WxString := text.map (byteChar signed)

def toBytes (text : WxString) : Bytes := text.map charByte

section Bytes

variable {signed : Bool} {b : UInt8}

theorem toInt_byteChar (signed : Bool) (b : UInt8) :
    (byteChar signed b).toInt =
      if signed = true ∧ 128 ≤ b.toNat then (b.toNat : Int) - 256 else b.toNat := by
  have hb := b.toNat_lt
  cases signed with
  | true =>
      rw [byteChar, if_pos rfl, Int8.toInt_toInt32, Signed.toInt_toInt8]
      simp only [true_and]
      split_ifs <;> omega
  | false =>
      rw [byteChar, if_neg (by decide), Signed.toInt_toInt32_of_lt]
      · simp
      · rw [UInt8.toNat_toUInt32]
        omega

theorem charByte_byteChar (signed : Bool) (b : UInt8) : charByte (byteChar signed b) = b := by
  have hb := b.toNat_lt
  have hword := Signed.toNat_toUInt32 (byteChar signed b)
  rw [toInt_byteChar] at hword
  rw [← UInt8.toNat_inj, charByte, UInt32.toNat_toUInt8]
  split_ifs at hword <;> omega

theorem toInt_wxChr {c : Char} (hc : c.toNat < 128) : (wxChr c).toInt = c.toNat :=
  Signed.toInt_toInt32_of_lt (show c.toNat < 2 ^ 31 by omega)

/-- The character constants are told apart from the bytes as in the lexer on bytes. -/
theorem byteChar_eq_wxChr_iff {c : Char} (hc : c.toNat < 128) :
    byteChar signed b = wxChr c ↔ b = chr c := by
  have hb := b.toNat_lt
  have hchr : (chr c).toNat = c.toNat := Nat.mod_eq_of_lt (show c.toNat < 256 by omega)
  rw [← Int32.toInt_inj, toInt_byteChar, toInt_wxChr hc, ← UInt8.toNat_inj, hchr]
  split_ifs <;> omega

theorem byteChar_chr {c : Char} (hc : c.toNat < 128) : byteChar signed (chr c) = wxChr c :=
  (byteChar_eq_wxChr_iff hc).2 rfl

theorem byteChar_eq_zero_iff : byteChar signed b = 0 ↔ b = 0 :=
  byteChar_eq_wxChr_iff (c := '\x00') (by decide)

@[simp] theorem ofBytes_eq_nil_iff {text : Bytes} : ofBytes signed text = [] ↔ text = [] :=
  List.map_eq_nil_iff

theorem ofBytes_append (text text' : Bytes) :
    ofBytes signed (text ++ text') = ofBytes signed text ++ ofBytes signed text' :=
  List.map_append

theorem ofBytes_cons (text : Bytes) :
    ofBytes signed (b :: text) = byteChar signed b :: ofBytes signed text := rfl

@[simp] theorem toBytes_ofBytes (signed : Bool) (text : Bytes) :
    toBytes (ofBytes signed text) = text := by
  simp [toBytes, ofBytes, Function.comp_def, charByte_byteChar]

end Bytes

/-! ## Agreement with the lexer on bytes -/

def ParseState.ofLex (signed : Bool) (s : LexState) : ParseState :=
  ⟨s.inEscape, s.inString, ofBytes signed s.buffer, s.tokens.map (ofBytes signed)⟩

section Agreement

variable {signed : Bool}

theorem append_ofLex (s : LexState) (ch : UInt8) :
    (ParseState.ofLex signed s).append (byteChar signed ch) = .ofLex signed (s.dcatc ch) := by
  simp [ParseState.append, ParseState.ofLex, LexState.dcatc, ofBytes]

theorem addToken_ofLex (s : LexState) :
    (ParseState.ofLex signed s).addToken = .ofLex signed s.addToken := by
  simp [ParseState.addToken, ParseState.ofLex, LexState.addToken, ofBytes]

theorem endLiteral_ofLex (s : LexState) :
    (ParseState.ofLex signed s).endLiteral = .ofLex signed s.endLiteral := by
  have hbuffer : (ParseState.ofLex signed s).buffer = [] ↔ s.buffer = [] := ofBytes_eq_nil_iff
  rw [ParseState.endLiteral, LexState.endLiteral, ite_not, addToken_ofLex]
  simp only [hbuffer]
  split_ifs <;> rfl

theorem unescapeChar_byteChar (ch : UInt8) :
    unescapeChar (byteChar signed ch) = byteChar signed (Common.unescapeChar ch) := by
  unfold unescapeChar Common.unescapeChar
  simp (disch := decide) only [byteChar_eq_wxChr_iff]
  split_ifs with hn hr h0
  · exact (byteChar_chr (by decide)).symm
  · exact (byteChar_chr (by decide)).symm
  · exact (byteChar_eq_zero_iff.2 rfl).symm
  · exact (byteChar_chr (by decide)).symm
  · exact (byteChar_chr (by decide)).symm
  · exact (byteChar_chr (by decide)).symm
  · rfl

/-- One character takes both lexers to states in step. -/
theorem parseChar_ofLex (s : LexState) (ch : UInt8) :
    parseChar (.ofLex signed s) (byteChar signed ch) = .ofLex signed (lexChar s ch) := by
  have hspace : isLexSpace ch = true ↔
      ch = chr ' ' ∨ ch = chr '\t' ∨ ch = chr '\n' ∨ ch = chr '\r' := by
    simp [isLexSpace, or_assoc]
  have hescape : (ParseState.ofLex signed s).inEscape = s.inEscape := rfl
  have hstring : (ParseState.ofLex signed s).inString = s.inString := rfl
  unfold parseChar lexChar
  rw [hescape, hstring, unescapeChar_byteChar, append_ofLex, append_ofLex, addToken_ofLex,
    endLiteral_ofLex]
  simp (disch := decide) only [byteChar_eq_wxChr_iff, hspace]
  split_ifs <;> rfl

theorem foldl_parseChar (text : Bytes) (s : LexState) :
    (ofBytes signed text).foldl parseChar (.ofLex signed s) =
      .ofLex signed (text.foldl lexChar s) := by
  induction text generalizing s with
  | nil => rfl
  | cons ch text ih =>
      rw [ofBytes, List.map_cons, List.foldl_cons, parseChar_ofLex, List.foldl_cons]
      exact ih _

def errorOf : Except DstrlexError (List Bytes) → SVCParserError
  | .ok _ => .ok
  | .error .escape => .escape
  | .error .string => .string

theorem finish_ofLex (s : LexState) :
    (ParseState.ofLex signed s).finish.1 = errorOf s.finish ∧
      ∀ tokens, s.finish = .ok tokens →
        (ParseState.ofLex signed s).finish.2 = tokens.map (ofBytes signed) := by
  cases hescape : s.inEscape with
  | true => simp [ParseState.finish, LexState.finish, ParseState.ofLex, hescape, errorOf]
  | false =>
      cases hstring : s.inString with
      | true =>
          simp [ParseState.finish, LexState.finish, ParseState.ofLex, hescape, hstring, errorOf]
      | false =>
          have hlex : s.finish = .ok s.endLiteral.tokens := by
            simp [LexState.finish, hescape, hstring]
          have hwx : (ParseState.ofLex signed s).finish =
              (.ok, (ParseState.ofLex signed s.endLiteral).cmd) := by
            rw [← endLiteral_ofLex]
            simp [ParseState.finish, ParseState.ofLex, hescape, hstring]
          rw [hlex, hwx]
          exact ⟨rfl, fun tokens h => by cases h; rfl⟩

theorem parse_ofBytes (signed : Bool) (text : Bytes) (cmd : WxArrayString) :
    (parse (ofBytes signed text) cmd).1 = errorOf (dstrlexParse text) ∧
      ∀ tokens, dstrlexParse text = .ok tokens →
        (parse (ofBytes signed text) cmd).2 = tokens.map (ofBytes signed) := by
  have hrun : parse (ofBytes signed text) cmd =
      (ParseState.ofLex signed (text.foldl lexChar .init)).finish := by
    rw [← foldl_parseChar]
    rfl
  rw [hrun]
  exact finish_ofLex _

theorem escapeChar_byteChar (c : UInt8) :
    escapeChar (byteChar signed c) = ofBytes signed (dstrlexEscapeChar c) := by
  have hpair (k : Char) (hk : k.toNat < 128) :
      ofBytes signed [chr '\\', chr k] = [wxChr '\\', wxChr k] := by
    rw [ofBytes, List.map_cons, List.map_singleton, byteChar_chr (by decide), byteChar_chr hk]
  unfold escapeChar dstrlexEscapeChar
  simp (disch := decide) only [byteChar_eq_wxChr_iff, byteChar_eq_zero_iff]
  split_ifs
  case neg => rfl
  all_goals exact (hpair _ (by decide)).symm

theorem escape_ofBytes (text : Bytes) :
    escape (ofBytes signed text) = ofBytes signed (dstrlexEscapeMem text) := by
  induction text with
  | nil => rfl
  | cons c text ih =>
      rw [dstrlexEscapeMem_cons, ofBytes_append, ← escapeChar_byteChar, ← ih]
      rfl

theorem quoted_ofBytes (token : Bytes) :
    quoted (ofBytes signed token) = ofBytes signed (Common.quoted token) := by
  have hquote : ofBytes signed [chr '"'] = [wxChr '"'] :=
    congrArg (fun c => [c]) (byteChar_chr (by decide))
  rw [quoted, escape_ofBytes, ← hquote, ← ofBytes_append, ← byteChar_chr (by decide)]
  rfl

theorem quotedLine_cons_cons (token token' : WxString) (tokens : WxArrayString) :
    quotedLine (token :: token' :: tokens) =
      quoted token ++ wxChr ' ' :: quotedLine (token' :: tokens) := by
  simp [quotedLine, List.intercalate]

theorem quotedLine_ofBytes (tokens : List Bytes) :
    quotedLine (tokens.map (ofBytes signed)) = ofBytes signed (Common.quotedLine tokens) := by
  induction tokens with
  | nil => rfl
  | cons token tokens ih =>
      cases tokens with
      | nil =>
          rw [Common.quotedLine_singleton, ← quoted_ofBytes]
          exact List.intercalate_singleton
      | cons token' tokens =>
          rw [List.map_cons, List.map_cons, quotedLine_cons_cons, ← List.map_cons, ih,
            Common.quotedLine_cons_cons, ofBytes_append, ← quoted_ofBytes, ofBytes_cons,
            byteChar_chr (by decide)]

end Agreement

/-- The lexers end in the same class with the same tokens and escape alike, so that each reads
back what the other has escaped and quoted. -/
theorem lexers_agree (signed : Bool) (text : Bytes) (cmd : WxArrayString) :
    (parse (ofBytes signed text) cmd).1 = errorOf (dstrlexParse text) ∧
      (∀ tokens, dstrlexParse text = .ok tokens →
        (parse (ofBytes signed text) cmd).2 = tokens.map (ofBytes signed)) ∧
      escape (ofBytes signed text) = ofBytes signed (dstrlexEscapeMem text) ∧
      ∀ strings : List Bytes,
        parse (ofBytes signed (Common.quotedLine strings)) cmd =
            (.ok, strings.map (ofBytes signed)) ∧
          dstrlexParse (toBytes (quotedLine (strings.map (ofBytes signed)))) = .ok strings := by
  obtain ⟨hclass, htokens⟩ := parse_ofBytes signed text cmd
  refine ⟨hclass, htokens, escape_ofBytes text, fun strings => ⟨?_, ?_⟩⟩
  · have hread := dstrlexParse_quotedLine strings
    obtain ⟨hclass, htokens⟩ := parse_ofBytes signed (Common.quotedLine strings) cmd
    rw [hread] at hclass
    exact Prod.ext hclass (htokens strings hread)
  · rw [quotedLine_ofBytes, toBytes_ofBytes]
    exact dstrlexParse_quotedLine strings

/-- A byte above 127 and a zero, in a literal token and in a quoted one -/
example : parse (ofBytes true (0 :: chr ' ' :: cstr "\"a\\0" ++ [200, chr '"'])) [] =
    (.ok, [ofBytes true [0], ofBytes true [chr 'a', 0, 200]]) := by decide

end SVCParser

end Svc.Svcenet
