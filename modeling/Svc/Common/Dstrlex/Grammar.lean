import Mathlib.Data.List.Chain
import Svc.Common.Dstrlex

/-!
# The grammar of the lexer

A line is a concatenation of blanks, quoted tokens and literal tokens, in which no
literal token follows another one directly.  The lexer accepts the lines and no
other text; a text that is not a line ends in an escape or in a quoted token, and
the lexer reports which.
-/

namespace Svc.Common

/-! ## Lines -/

def escapedByte (ch : UInt8) : UInt8 :=
  if ch = chr 'n' then chr '\n'
  else if ch = chr 'r' then chr '\r'
  else if ch = chr 't' then chr '\t'
  else if ch = chr '0' then 0
  else ch

/-- One byte of a token as it stands in a text in which some bytes are special. -/
inductive Piece (special : UInt8 → Bool) where
  | plain (ch : UInt8) (hch : special ch = false)
  | escaped (ch : UInt8)

namespace Piece

variable {special : UInt8 → Bool}

def text : Piece special → Bytes
  | plain ch _ => [ch]
  | escaped ch => [chr '\\', ch]

def byte : Piece special → UInt8
  | plain ch _ => ch
  | escaped ch => escapedByte ch

end Piece

def isBackslash (ch : UInt8) : Bool := ch == chr '\\'

def isQuotedSpecial (ch : UInt8) : Bool := ch == chr '"' || ch == chr '\\'

def isLiteralSpecial (ch : UInt8) : Bool := isQuotedSpecial ch || isLexSpace ch

inductive LexItem where
  | space (ch : UInt8) (hch : isLexSpace ch = true)
  | quoted (body : List (Piece isQuotedSpecial))
  | literal (run : List (Piece isLiteralSpecial)) (hrun : run ≠ [])

namespace LexItem

def text : LexItem → Bytes
  | space ch _ => [ch]
  | quoted body => chr '"' :: (body.flatMap Piece.text ++ [chr '"'])
  | literal run _ => run.flatMap Piece.text

def token : LexItem → Option Bytes
  | space _ _ => none
  | quoted body => some (body.map Piece.byte)
  | literal run _ => some (run.map Piece.byte)

def IsLiteral : LexItem → Prop
  | literal _ _ => True
  | _ => False

/-- Two literal tokens without a blank between them would be one. -/
def MayFollow (item next : LexItem) : Prop := ¬ (item.IsLiteral ∧ next.IsLiteral)

end LexItem

structure LexLine where
  items : List LexItem
  separated : items.IsChain LexItem.MayFollow

namespace LexLine

def text (line : LexLine) : Bytes := line.items.flatMap LexItem.text

def tokens (line : LexLine) : List Bytes := line.items.filterMap LexItem.token

end LexLine

/-- The text ends right after a backslash that no other backslash escapes. -/
def EndsInEscape (text : Bytes) : Prop :=
  ∃ pieces : List (Piece isBackslash), text = pieces.flatMap Piece.text ++ [chr '\\']

def EndsInString (text : Bytes) : Prop :=
  ∃ (line : LexLine) (body : List (Piece isQuotedSpecial)),
    text = line.text ++ chr '"' :: body.flatMap Piece.text

/-! ## What the lexer makes of a line -/

theorem unescapeChar_eq (ch : UInt8) : unescapeChar ch = escapedByte ch := by
  unfold unescapeChar escapedByte
  by_cases hzero : ch = chr '0'
  · subst hzero
    decide
  by_cases hquote : ch = chr '"'
  · subst hquote
    decide
  by_cases hslash : ch = chr '\\'
  · subst hslash
    decide
  simp only [hzero, hquote, hslash, if_false]

theorem foldl_lexChar_escaped (s : LexState) (hs : s.inEscape = false) (ch : UInt8) :
    [chr '\\', ch].foldl lexChar s = s.dcatc (escapedByte ch) := by
  have hopen : lexChar s (chr '\\') = { s with inEscape := true } := by
    unfold lexChar
    rw [hs]
    cases s.inString <;> rfl
  rw [List.foldl_cons, hopen, List.foldl_cons, List.foldl_nil]
  simp [lexChar, LexState.dcatc, unescapeChar_eq, hs]

theorem foldl_lexChar_quotedBody (body : List (Piece isQuotedSpecial)) (buffer : Bytes)
    (tokens : List Bytes) :
    (body.flatMap Piece.text).foldl lexChar (within buffer tokens) =
      within (buffer ++ body.map Piece.byte) tokens := by
  induction body generalizing buffer with
  | nil => simp
  | cons piece body ih =>
      have hpiece : piece.text.foldl lexChar (within buffer tokens) =
          within (buffer ++ [piece.byte]) tokens := by
        cases piece with
        | plain ch hch =>
            simp only [isQuotedSpecial, Bool.or_eq_false_iff, beq_eq_false_iff_ne] at hch
            simp [Piece.text, Piece.byte, lexChar, within, LexState.dcatc, hch]
        | escaped ch => exact foldl_lexChar_escaped _ rfl ch
      rw [List.flatMap_cons, List.foldl_append, hpiece, ih]
      simp

theorem foldl_lexChar_literalRun (run : List (Piece isLiteralSpecial)) (buffer : Bytes)
    (tokens : List Bytes) :
    (run.flatMap Piece.text).foldl lexChar ⟨false, false, buffer, tokens⟩ =
      ⟨false, false, buffer ++ run.map Piece.byte, tokens⟩ := by
  induction run generalizing buffer with
  | nil => simp
  | cons piece run ih =>
      have hpiece : piece.text.foldl lexChar ⟨false, false, buffer, tokens⟩ =
          ⟨false, false, buffer ++ [piece.byte], tokens⟩ := by
        cases piece with
        | plain ch hch =>
            refine lexChar_plain ?_ buffer tokens
            simp only [isLiteralSpecial, isQuotedSpecial, Bool.or_eq_false_iff,
              beq_eq_false_iff_ne] at hch
            simp [isPlain, hch]
        | escaped ch => exact foldl_lexChar_escaped _ rfl ch
      rw [List.flatMap_cons, List.foldl_append, hpiece, ih]
      simp

/-- The lexer outside of a quoted token, with what it has read of a literal token. -/
def outside (buffer : Bytes) (tokens : List Bytes) : LexState := ⟨false, false, buffer, tokens⟩

theorem endLiteral_outside (buffer : Bytes) (tokens : List Bytes) :
    (outside buffer tokens).endLiteral = between (outside buffer tokens).endLiteral.tokens := by
  unfold LexState.endLiteral
  split
  · rename_i hempty
    change buffer = [] at hempty
    rw [hempty]
    rfl
  · rfl

/-- An item adds its token to what is settled; only a literal token stays in the buffer. -/
theorem foldl_lexChar_item (item : LexItem) (buffer : Bytes) (tokens : List Bytes)
    (hitem : buffer = [] ∨ ¬ item.IsLiteral) :
    ∃ buffer' tokens', item.text.foldl lexChar (outside buffer tokens) =
        outside buffer' tokens' ∧
      (outside buffer' tokens').endLiteral.tokens =
        (outside buffer tokens).endLiteral.tokens ++ item.token.toList ∧
      (buffer' = [] ∨ item.IsLiteral) := by
  have hsettled := endLiteral_outside buffer tokens
  set settled := (outside buffer tokens).endLiteral.tokens
  cases item with
  | space ch hch =>
      refine ⟨[], settled, ?_, by simp [LexItem.token]; rfl, .inl rfl⟩
      have hne : ch ≠ chr '"' ∧ ch ≠ chr '\\' := by
        constructor <;> (rintro rfl; exact absurd hch (by decide))
      rw [LexItem.text, List.foldl_cons, List.foldl_nil]
      have hend : lexChar (outside buffer tokens) ch = (outside buffer tokens).endLiteral := by
        simp [lexChar, outside, hne, hch]
      exact hend.trans hsettled
  | quoted body =>
      refine ⟨[], settled ++ [body.map Piece.byte], ?_, rfl, .inl rfl⟩
      have hopen : lexChar (outside buffer tokens) (chr '"') = within [] settled := by
        change { (outside buffer tokens).endLiteral with inString := true } = _
        rw [hsettled]
        rfl
      rw [LexItem.text, List.foldl_cons, hopen, List.foldl_append, foldl_lexChar_quotedBody]
      rfl
  | literal run hrun =>
      have hempty : buffer = [] := hitem.resolve_right fun h => h trivial
      subst hempty
      refine ⟨run.map Piece.byte, tokens, ?_, ?_, .inr trivial⟩
      · exact foldl_lexChar_literalRun run [] tokens
      · have hne : run.map Piece.byte ≠ [] := by simpa using hrun
        change (if run.map Piece.byte = [] then _ else LexState.addToken _).tokens = _
        rw [if_neg hne]
        rfl

theorem foldl_lexChar_items (items : List LexItem) (hitems : items.IsChain LexItem.MayFollow)
    (buffer : Bytes) (tokens : List Bytes)
    (hhead : buffer = [] ∨ ∀ item ∈ items.head?, ¬ item.IsLiteral) :
    ∃ buffer' tokens', (items.flatMap LexItem.text).foldl lexChar (outside buffer tokens) =
        outside buffer' tokens' ∧
      (outside buffer' tokens').endLiteral.tokens =
        (outside buffer tokens).endLiteral.tokens ++ items.filterMap LexItem.token := by
  induction items generalizing buffer tokens with
  | nil => exact ⟨buffer, tokens, rfl, by simp⟩
  | cons item items ih =>
      rw [List.isChain_cons] at hitems
      obtain ⟨buffer₁, tokens₁, hfold₁, htokens₁, hempty⟩ :=
        foldl_lexChar_item item buffer tokens (hhead.imp_right fun h => h item rfl)
      have hnext : buffer₁ = [] ∨ ∀ next ∈ items.head?, ¬ next.IsLiteral :=
        hempty.imp_right fun hliteral next hmem hnext => hitems.1 next hmem ⟨hliteral, hnext⟩
      obtain ⟨buffer', tokens', hfold, htokens⟩ := ih hitems.2 buffer₁ tokens₁ hnext
      refine ⟨buffer', tokens', ?_, ?_⟩
      · rw [List.flatMap_cons, List.foldl_append, hfold₁, hfold]
      · rw [htokens, htokens₁, List.filterMap_cons, List.append_assoc]
        cases item.token <;> rfl

theorem foldl_lexChar_line (line : LexLine) :
    ∃ buffer tokens, line.text.foldl lexChar .init = outside buffer tokens ∧
      (outside buffer tokens).endLiteral.tokens = line.tokens :=
  foldl_lexChar_items line.items line.separated [] [] (.inl rfl)

theorem dstrlexParse_text (line : LexLine) : dstrlexParse line.text = .ok line.tokens := by
  obtain ⟨buffer, tokens, hfold, htokens⟩ := foldl_lexChar_line line
  rw [dstrlexParse, hfold, ← htokens]
  rfl

theorem foldl_lexChar_openString (line : LexLine) (body : List (Piece isQuotedSpecial)) :
    (line.text ++ chr '"' :: body.flatMap Piece.text).foldl lexChar .init =
      within (body.map Piece.byte) line.tokens := by
  obtain ⟨buffer, tokens, hfold, htokens⟩ := foldl_lexChar_line line
  have hopen : lexChar (outside buffer tokens) (chr '"') = within [] line.tokens := by
    change { (outside buffer tokens).endLiteral with inString := true } = _
    rw [endLiteral_outside, htokens]
    rfl
  rw [List.foldl_append, hfold, List.foldl_cons, hopen, foldl_lexChar_quotedBody, List.nil_append]

/-! ## Every text is read -/

theorem inEscape_lexChar_backslash {s : LexState} (hs : s.inEscape = false) :
    (lexChar s (chr '\\')).inEscape = true := by
  unfold lexChar
  rw [hs]
  cases s.inString <;> rfl

theorem inEscape_foldl_piece {s : LexState} (hs : s.inEscape = false) (piece : Piece isBackslash) :
    (piece.text.foldl lexChar s).inEscape = false := by
  cases piece with
  | plain ch hch =>
      have hne : ch ≠ chr '\\' := by simpa [isBackslash] using hch
      have hend : s.endLiteral.inEscape = false := by
        unfold LexState.endLiteral
        split <;> exact hs
      simp only [Piece.text, List.foldl_cons, List.foldl_nil, lexChar, hs, hne, Bool.false_eq_true,
        if_false]
      split_ifs <;> assumption
  | escaped ch =>
      rw [Piece.text, foldl_lexChar_escaped s hs]
      exact hs

theorem inEscape_foldl_pieces {s : LexState} (hs : s.inEscape = false)
    (pieces : List (Piece isBackslash)) :
    ((pieces.flatMap Piece.text).foldl lexChar s).inEscape = false := by
  induction pieces generalizing s with
  | nil => exact hs
  | cons piece pieces ih =>
      rw [List.flatMap_cons, List.foldl_append]
      exact ih (inEscape_foldl_piece hs piece)

theorem inEscape_iff (text : Bytes) :
    (text.foldl lexChar .init).inEscape = true ↔ EndsInEscape text := by
  constructor
  · have hread : ∃ pieces : List (Piece isBackslash), text = pieces.flatMap Piece.text ∨
        text = pieces.flatMap Piece.text ++ [chr '\\'] := by
      induction text using List.reverseRecOn with
      | nil => exact ⟨[], .inl rfl⟩
      | append_singleton text ch ih =>
          obtain ⟨pieces, rfl | rfl⟩ := ih
          · by_cases hslash : ch = chr '\\'
            · exact ⟨pieces, .inr (by rw [hslash])⟩
            · exact ⟨pieces ++ [.plain ch (by simpa [isBackslash] using hslash)],
                .inl (by simp [Piece.text])⟩
          · exact ⟨pieces ++ [.escaped ch], .inl (by simp [Piece.text])⟩
    intro hescape
    obtain ⟨pieces, rfl | rfl⟩ := hread
    · rw [inEscape_foldl_pieces rfl] at hescape
      cases hescape
    · exact ⟨pieces, rfl⟩
  · rintro ⟨pieces, rfl⟩
    rw [List.foldl_append]
    exact inEscape_lexChar_backslash (inEscape_foldl_pieces rfl pieces)

namespace LexLine

def snoc (line : LexLine) (item : LexItem)
    (hitem : ∀ last ∈ line.items.getLast?, last.MayFollow item) : LexLine where
  items := line.items ++ [item]
  separated := line.separated.append (.singleton item) fun last hlast next hnext => by
    rw [List.head?_cons, Option.mem_some_iff] at hnext
    exact hnext ▸ hitem last hlast

@[simp] theorem text_snoc (line : LexLine) (item : LexItem)
    (hitem : ∀ last ∈ line.items.getLast?, last.MayFollow item) :
    (line.snoc item hitem).text = line.text ++ item.text := by
  simp [snoc, text]

theorem exists_addItem (line : LexLine) (item : LexItem) (hitem : ¬ item.IsLiteral) :
    ∃ line' : LexLine, line'.text = line.text ++ item.text :=
  ⟨line.snoc item fun _ _ h => hitem h.2, text_snoc _ _ _⟩

/-- A piece of a literal token prolongs the literal token that the line ends in, or begins one. -/
theorem exists_addPiece (line : LexLine) (piece : Piece isLiteralSpecial) :
    ∃ line' : LexLine, line'.text = line.text ++ piece.text := by
  by_cases hlast : ∀ last ∈ line.items.getLast?, ¬ last.IsLiteral
  · have hfollow : ∀ last ∈ line.items.getLast?,
        last.MayFollow (.literal [piece] (List.cons_ne_nil _ _)) :=
      fun last hmem h => hlast last hmem h.1
    exact ⟨line.snoc _ hfollow, by simp [LexItem.text]⟩
  · simp only [not_forall, not_not] at hlast
    obtain ⟨last, hmem, hliteral⟩ := hlast
    obtain ⟨items, hchain⟩ := line
    obtain ⟨init, rfl⟩ := List.getLast?_eq_some_iff.1 hmem
    cases last with
    | space ch hch => cases hliteral
    | quoted body => cases hliteral
    | literal run hrun =>
        obtain ⟨hinit, -, hfollows⟩ := List.isChain_append.1 hchain
        refine ⟨⟨init ++ [.literal (run ++ [piece]) (by simp)], ?_⟩, by simp [text, LexItem.text]⟩
        refine hinit.append (.singleton _) fun item hitem next hnext h => ?_
        exact hfollows item hitem (.literal run hrun) rfl ⟨h.1, trivial⟩

end LexLine

/-- What a text is up to its last byte, if that is not an unfinished escape. -/
def EndsInItem (text : Bytes) : Prop := (∃ line : LexLine, line.text = text) ∨ EndsInString text

theorem endsInItem_escaped {text : Bytes} (htext : EndsInItem text) (ch : UInt8) :
    EndsInItem (text ++ [chr '\\', ch]) := by
  rcases htext with ⟨line, rfl⟩ | ⟨line, body, rfl⟩
  · exact .inl (line.exists_addPiece (.escaped ch))
  · exact .inr ⟨line, body ++ [.escaped ch], by simp [Piece.text]⟩

theorem endsInItem_plain {text : Bytes} (htext : EndsInItem text) {ch : UInt8}
    (hslash : ch ≠ chr '\\') : EndsInItem (text ++ [ch]) := by
  by_cases hquote : ch = chr '"'
  · subst hquote
    rcases htext with ⟨line, rfl⟩ | ⟨line, body, rfl⟩
    · exact .inr ⟨line, [], rfl⟩
    · obtain ⟨line', hline'⟩ := line.exists_addItem (.quoted body) id
      exact .inl ⟨line', by simp [hline', LexItem.text]⟩
  · rcases htext with ⟨line, rfl⟩ | ⟨line, body, rfl⟩
    · by_cases hspace : isLexSpace ch = true
      · exact .inl (line.exists_addItem (.space ch hspace) id)
      · exact .inl (line.exists_addPiece (.plain ch
          (by simp [isLiteralSpecial, isQuotedSpecial, hquote, hslash, hspace])))
    · exact .inr ⟨line, body ++ [.plain ch (by simp [isQuotedSpecial, hquote, hslash])],
        by simp [Piece.text]⟩

theorem exists_reading (text : Bytes) :
    EndsInItem text ∨ ∃ init, EndsInItem init ∧ text = init ++ [chr '\\'] := by
  induction text using List.reverseRecOn with
  | nil => exact .inl (.inl ⟨⟨[], .nil⟩, rfl⟩)
  | append_singleton text ch ih =>
      rcases ih with htext | ⟨init, hinit, rfl⟩
      · by_cases hslash : ch = chr '\\'
        · exact .inr ⟨text, htext, by rw [hslash]⟩
        · exact .inl (endsInItem_plain htext hslash)
      · have hescaped := endsInItem_escaped hinit ch
        rw [show init ++ [chr '\\', ch] = init ++ [chr '\\'] ++ [ch] by simp] at hescaped
        exact .inl hescaped

/-! ## The lexer and its grammar -/

theorem dstrlexParse_of_endsInString {text : Bytes} (h : EndsInString text) :
    dstrlexParse text = .error .string := by
  obtain ⟨line, body, rfl⟩ := h
  rw [dstrlexParse, foldl_lexChar_openString]
  rfl

theorem dstrlexParse_eq_escape_iff (text : Bytes) :
    dstrlexParse text = .error .escape ↔ EndsInEscape text := by
  rw [← inEscape_iff, dstrlexParse, LexState.finish]
  split
  · simp [*]
  · split <;> simp [*]

theorem inEscape_of_endsInItem {text : Bytes} (h : EndsInItem text) :
    (text.foldl lexChar .init).inEscape = false := by
  rcases h with ⟨line, rfl⟩ | ⟨line, body, rfl⟩
  · obtain ⟨buffer, tokens, hfold, -⟩ := foldl_lexChar_line line
    rw [hfold]
    rfl
  · rw [foldl_lexChar_openString]
    rfl

theorem dstrlexParse_append_backslash {text : Bytes} (h : EndsInItem text) :
    dstrlexParse (text ++ [chr '\\']) = .error .escape := by
  have hescape := inEscape_lexChar_backslash (inEscape_of_endsInItem h)
  rw [dstrlexParse, List.foldl_append, List.foldl_cons, List.foldl_nil, LexState.finish,
    if_pos hescape]

theorem dstrlexParse_eq_ok_iff {text : Bytes} {tokens : List Bytes} :
    dstrlexParse text = .ok tokens ↔ ∃ line : LexLine, line.text = text ∧ line.tokens = tokens := by
  constructor
  · intro h
    rcases exists_reading text with (⟨line, rfl⟩ | hstring) | ⟨init, hinit, rfl⟩
    · rw [dstrlexParse_text] at h
      exact ⟨line, rfl, Except.ok.inj h⟩
    · rw [dstrlexParse_of_endsInString hstring] at h
      cases h
    · rw [dstrlexParse_append_backslash hinit] at h
      cases h
  · rintro ⟨line, rfl, rfl⟩
    exact dstrlexParse_text line

theorem dstrlexParse_eq_string_iff (text : Bytes) :
    dstrlexParse text = .error .string ↔ EndsInString text := by
  refine ⟨fun h => ?_, dstrlexParse_of_endsInString⟩
  rcases exists_reading text with (⟨line, rfl⟩ | hstring) | ⟨init, hinit, rfl⟩
  · rw [dstrlexParse_text] at h
    cases h
  · exact hstring
  · rw [dstrlexParse_append_backslash hinit] at h
    cases h

/-- The lexer accepts the texts that are lines, with the tokens of the line, and reports
every other text by what it ends in. -/
theorem dstrlexParse_grammar (text : Bytes) :
    (∀ tokens, dstrlexParse text = .ok tokens ↔
      ∃ line : LexLine, line.text = text ∧ line.tokens = tokens) ∧
    (dstrlexParse text = .error .escape ↔ EndsInEscape text) ∧
    (dstrlexParse text = .error .string ↔ EndsInString text) :=
  ⟨fun _ => dstrlexParse_eq_ok_iff, dstrlexParse_eq_escape_iff text,
    dstrlexParse_eq_string_iff text⟩

end Svc.Common
