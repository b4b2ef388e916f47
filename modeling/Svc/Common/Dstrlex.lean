import Svc.Common.Dstr

/-!
# The lexer of the text protocol

`dstrlex_parse` cuts a line into tokens and `dstrlex_escape_mem` writes a token so
that it can stand between double quotes.
-/

namespace Svc.Common

/-! ## Escaping -/

def dstrlexEscapeChar (c : UInt8) : Bytes :=
  if c = chr '\n' then cstr "\\n"
  else if c = chr '\r' then cstr "\\r"
  else if c = 0 then cstr "\\0"
  else if c = chr '"' then cstr "\\\""
  else if c = chr '\t' then cstr "\\t"
  else if c = chr '\\' then cstr "\\\\"
  else [c]

def dstrlexEscapeMem (mem : Bytes) : Bytes := mem.flatMap dstrlexEscapeChar

/-! ## Parsing -/

inductive DstrlexError where
  /-- `DSTRLEX_ESCAPE`: unterminated escape -/
  | escape
  /-- `DSTRLEX_STRING`: unterminated string -/
  | string
  deriving DecidableEq, Repr

/-- The locals of `dstrlex_parse`. -/
structure LexState where
  inEscape : Bool
  inString : Bool
  buffer : Bytes
  tokens : List Bytes
  deriving DecidableEq

def LexState.init : LexState := ⟨false, false, [], []⟩

def LexState.dcatc (s : LexState) (ch : UInt8) : LexState := { s with buffer := s.buffer ++ [ch] }

/-- `dlist_add(tokens, buffer)` and `dclear(buffer)` -/
def LexState.addToken (s : LexState) : LexState :=
  { s with tokens := s.tokens ++ [s.buffer], buffer := [] }

/-- A literal token ends here, if there is one. -/
def LexState.endLiteral (s : LexState) : LexState := if s.buffer = [] then s else s.addToken

def unescapeChar (ch : UInt8) : UInt8 :=
  if ch = chr 'n' then chr '\n'
  else if ch = chr 'r' then chr '\r'
  else if ch = chr '0' then 0
  else if ch = chr '"' then chr '"'
  else if ch = chr 't' then chr '\t'
  else if ch = chr '\\' then chr '\\'
  else ch

def isLexSpace (ch : UInt8) : Bool :=
  ch == chr ' ' || ch == chr '\t' || ch == chr '\n' || ch == chr '\r'

/-- The body of the loop of `dstrlex_parse`. -/
def lexChar (s : LexState) (ch : UInt8) : LexState :=
  if s.inEscape then { s.dcatc (unescapeChar ch) with inEscape := false }
  else if s.inString then
    if ch = chr '"' then { s.addToken with inString := false }
    else if ch = chr '\\' then { s with inEscape := true }
    else s.dcatc ch
  else
    if ch = chr '"' then { s.endLiteral with inString := true }
    else if ch = chr '\\' then { s with inEscape := true }
    else if isLexSpace ch then s.endLiteral
    else s.dcatc ch

/-- What `dstrlex_parse` makes of its locals after the last byte. -/
def LexState.finish (s : LexState) : Except DstrlexError (List Bytes) :=
  if s.inEscape then .error .escape
  else if s.inString then .error .string
  else .ok s.endLiteral.tokens

/-- `dstrlex_parse`: the tokens, or the error code when it returns `NULL`. -/
def dstrlexParse (text : Bytes) : Except DstrlexError (List Bytes) :=
  (text.foldl lexChar .init).finish

/-! ## One line of quoted tokens -/

def quoted (token : Bytes) : Bytes := chr '"' :: (dstrlexEscapeMem token ++ [chr '"'])

def quotedLine (tokens : List Bytes) : Bytes := [chr ' '].intercalate (tokens.map quoted)

@[simp] theorem quotedLine_nil : quotedLine [] = [] := rfl

@[simp] theorem quotedLine_singleton (token : Bytes) : quotedLine [token] = quoted token := by
  simp [quotedLine]

theorem quotedLine_cons_cons (token token' : Bytes) (tokens : List Bytes) :
    quotedLine (token :: token' :: tokens) =
      quoted token ++ chr ' ' :: quotedLine (token' :: tokens) := by
  simp [quotedLine, List.intercalate]

@[simp] theorem dstrlexEscapeMem_nil : dstrlexEscapeMem [] = [] := rfl

@[simp] theorem dstrlexEscapeMem_cons (c : UInt8) (mem : Bytes) :
    dstrlexEscapeMem (c :: mem) = dstrlexEscapeChar c ++ dstrlexEscapeMem mem := rfl

/-- The lexer between two tokens, with the tokens read so far. -/
def between (tokens : List Bytes) : LexState := ⟨false, false, [], tokens⟩

def within (buffer : Bytes) (tokens : List Bytes) : LexState := ⟨false, true, buffer, tokens⟩

theorem foldl_lexChar_escapeChar (c : UInt8) (buffer : Bytes) (tokens : List Bytes) :
    (dstrlexEscapeChar c).foldl lexChar (within buffer tokens) = within (buffer ++ [c]) tokens := by
  unfold dstrlexEscapeChar
  split_ifs with hn hr h0 hquote ht hslash
  · subst hn; rfl
  · subst hr; rfl
  · subst h0; rfl
  · subst hquote; rfl
  · subst ht; rfl
  · subst hslash; rfl
  · simp [lexChar, within, LexState.dcatc, hquote, hslash]

theorem foldl_lexChar_escapeMem (token buffer : Bytes) (tokens : List Bytes) :
    (dstrlexEscapeMem token).foldl lexChar (within buffer tokens) =
      within (buffer ++ token) tokens := by
  induction token generalizing buffer with
  | nil => simp
  | cons c token ih =>
      rw [dstrlexEscapeMem_cons, List.foldl_append, foldl_lexChar_escapeChar, ih]
      simp

theorem foldl_lexChar_quoted (token : Bytes) (tokens : List Bytes) :
    (quoted token).foldl lexChar (between tokens) = between (tokens ++ [token]) := by
  have hopen : lexChar (between tokens) (chr '"') = within [] tokens := rfl
  have hclose : lexChar (within token tokens) (chr '"') = between (tokens ++ [token]) := rfl
  rw [quoted, List.foldl_cons, hopen, List.foldl_append, foldl_lexChar_escapeMem]
  exact hclose

theorem lexChar_space (tokens : List Bytes) : lexChar (between tokens) (chr ' ') = between tokens :=
  rfl

theorem foldl_lexChar_quotedLine (new old : List Bytes) :
    (quotedLine new).foldl lexChar (between old) = between (old ++ new) := by
  induction new generalizing old with
  | nil => simp
  | cons token new ih =>
      cases new with
      | nil => simpa using foldl_lexChar_quoted token old
      | cons token' new =>
          rw [quotedLine_cons_cons, List.foldl_append, List.foldl_cons, foldl_lexChar_quoted,
            lexChar_space, ih]
          simp

theorem dstrlexParse_quotedLine (tokens : List Bytes) :
    dstrlexParse (quotedLine tokens) = .ok tokens := by
  have hline := foldl_lexChar_quotedLine tokens []
  rw [dstrlexParse, show LexState.init = between [] from rfl, hline, List.nil_append]
  rfl

/-! ## Words without quotes -/

/-- A byte that the lexer takes for itself outside of quotes. -/
def isPlain (ch : UInt8) : Bool := ch ≠ chr '"' && ch ≠ chr '\\' && !isLexSpace ch

theorem lexChar_plain {ch : UInt8} (hch : isPlain ch = true) (buffer : Bytes)
    (tokens : List Bytes) :
    lexChar ⟨false, false, buffer, tokens⟩ ch = ⟨false, false, buffer ++ [ch], tokens⟩ := by
  simp only [isPlain, ne_eq, decide_not, Bool.and_eq_true, Bool.not_eq_true',
    decide_eq_false_iff_not] at hch
  obtain ⟨⟨hquote, hslash⟩, hspace⟩ := hch
  simp [lexChar, LexState.dcatc, hquote, hslash, hspace]

theorem foldl_lexChar_word {word : Bytes} (hword : ∀ ch ∈ word, isPlain ch = true)
    (buffer : Bytes) (tokens : List Bytes) :
    word.foldl lexChar ⟨false, false, buffer, tokens⟩ =
      ⟨false, false, buffer ++ word, tokens⟩ := by
  induction word generalizing buffer with
  | nil => simp
  | cons ch word ih =>
      rw [List.foldl_cons, lexChar_plain (hword ch (by simp)),
        ih fun b hb => hword b (by simp [hb])]
      simp

theorem foldl_lexChar_word_space {word : Bytes} (hword : ∀ ch ∈ word, isPlain ch = true)
    (hne : word ≠ []) (rest : Bytes) (tokens : List Bytes) :
    (word ++ chr ' ' :: rest).foldl lexChar (between tokens) =
      rest.foldl lexChar (between (tokens ++ [word])) := by
  have hspace : lexChar ⟨false, false, word, tokens⟩ (chr ' ') =
      LexState.endLiteral ⟨false, false, word, tokens⟩ := rfl
  rw [List.foldl_append, between, foldl_lexChar_word hword, List.nil_append, List.foldl_cons,
    hspace, LexState.endLiteral, if_neg hne]
  rfl

theorem finish_word {word : Bytes} (hword : ∀ ch ∈ word, isPlain ch = true) (hne : word ≠ [])
    (tokens : List Bytes) :
    (word.foldl lexChar (between tokens)).finish = .ok (tokens ++ [word]) := by
  rw [between, foldl_lexChar_word hword, List.nil_append, LexState.finish]
  simp [LexState.endLiteral, hne, LexState.addToken]

/-! ## Lines without tokens -/

/-- Only a blank leaves the lexer as it starts. -/
theorem lexChar_eq_init_iff (s : LexState) (ch : UInt8) :
    lexChar s ch = .init ↔ s = .init ∧ isLexSpace ch = true := by
  obtain ⟨inEscape, inString, buffer, tokens⟩ := s
  have hquoteSpace : isLexSpace (chr '"') = false := by decide
  have hslashSpace : isLexSpace (chr '\\') = false := by decide
  cases inEscape with
  | true => simp [lexChar, LexState.dcatc, LexState.init]
  | false =>
      by_cases hquote : ch = chr '"'
      · cases inString <;> simp [lexChar, LexState.addToken, LexState.init, hquote, hquoteSpace]
      by_cases hslash : ch = chr '\\'
      · subst hslash
        cases inString <;> simp [lexChar, LexState.init, hquote, hslashSpace]
      cases inString with
      | true => simp [lexChar, LexState.dcatc, LexState.init, hquote, hslash]
      | false =>
          cases hspace : isLexSpace ch with
          | true =>
              by_cases hnil : buffer = [] <;>
                simp [lexChar, LexState.endLiteral, LexState.addToken, LexState.init, hquote,
                  hslash, hspace, hnil]
          | false => simp [lexChar, LexState.dcatc, LexState.init, hquote, hslash, hspace]

theorem foldl_lexChar_eq_init_iff (text : Bytes) (s : LexState) :
    text.foldl lexChar s = .init ↔ s = .init ∧ ∀ ch ∈ text, isLexSpace ch = true := by
  induction text generalizing s with
  | nil => simp
  | cons ch text ih => simp [ih, lexChar_eq_init_iff, and_assoc]

theorem finish_eq_ok_nil_iff (s : LexState) : s.finish = .ok [] ↔ s = .init := by
  obtain ⟨inEscape, inString, buffer, tokens⟩ := s
  cases inEscape <;> cases inString <;> by_cases hnil : buffer = [] <;>
    simp [LexState.finish, LexState.endLiteral, LexState.addToken, LexState.init, hnil]

/-- The lexer finds no token exactly in a line of blanks. -/
theorem dstrlexParse_eq_ok_nil_iff (text : Bytes) :
    dstrlexParse text = .ok [] ↔ ∀ ch ∈ text, isLexSpace ch = true := by
  rw [dstrlexParse, finish_eq_ok_nil_iff, foldl_lexChar_eq_init_iff, and_iff_right rfl]

/-! ## The bytes that do not occur -/

/-- The bytes that must not stand in a line: they end it, or end a C string. -/
def isLineBreaker (b : UInt8) : Bool :=
  b == chr '\n' || b == chr '\r' || b == chr '\t' || b == 0

theorem not_isLineBreaker_of_mem_escapeChar {c b : UInt8} (hb : b ∈ dstrlexEscapeChar c) :
    isLineBreaker b = false := by
  unfold dstrlexEscapeChar at hb
  split_ifs at hb with hn hr h0 hquote ht hslash
  case neg =>
    rw [List.mem_singleton] at hb
    subst hb
    simp [isLineBreaker, hn, hr, h0, ht]
  all_goals exact Bool.eq_false_iff.2 (List.any_eq_false.1 (by decide) b hb)

theorem not_isLineBreaker_of_mem_quoted {token : Bytes} {b : UInt8} (hb : b ∈ quoted token) :
    isLineBreaker b = false := by
  simp only [quoted, dstrlexEscapeMem, List.mem_cons, List.mem_append, List.mem_flatMap,
    List.not_mem_nil, or_false] at hb
  rcases hb with rfl | ⟨c, -, hb⟩ | rfl
  · rfl
  · exact not_isLineBreaker_of_mem_escapeChar hb
  · rfl

theorem not_isLineBreaker_of_mem_quotedLine {tokens : List Bytes} {b : UInt8}
    (hb : b ∈ quotedLine tokens) : isLineBreaker b = false := by
  induction tokens with
  | nil => simp at hb
  | cons token tokens ih =>
      cases tokens with
      | nil => exact not_isLineBreaker_of_mem_quoted (by simpa using hb)
      | cons token' tokens =>
          rw [quotedLine_cons_cons, List.mem_append, List.mem_cons] at hb
          rcases hb with hb | rfl | hb
          · exact not_isLineBreaker_of_mem_quoted hb
          · rfl
          · exact ih hb

/-- Any list of byte strings goes through one line of text and comes back. -/
theorem escape_then_lex (strings : List Bytes) :
    (∀ b ∈ quotedLine strings, b ≠ chr '\n' ∧ b ≠ chr '\r' ∧ b ≠ chr '\t' ∧ b ≠ 0) ∧
      dstrlexParse (quotedLine strings) = .ok strings := by
  refine ⟨fun b hb => ?_, dstrlexParse_quotedLine strings⟩
  have hbreaker := not_isLineBreaker_of_mem_quotedLine hb
  simpa [isLineBreaker, and_assoc] using hbreaker

/-- Quotes, backslashes, blanks, a zero byte and an empty token. -/
example : dstrlexParse (quotedLine [cstr "a\"b", cstr "\\ \n", [0], []]) =
    .ok [cstr "a\"b", cstr "\\ \n", [0], []] := by decide

end Svc.Common
