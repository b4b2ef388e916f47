import Mathlib.Data.List.Infix
import Svc.Common.Dstrlex

/-!
# Lines that end at a zero

A line with a zero in it is printed up to the zero only.  The lexer does not take a zero for
the end of anything, so that of what is left it reads the same first token, or fails.
-/

namespace Svc.Common

def LexState.first (s : LexState) : Bytes := (s.tokens ++ [s.buffer]).headD []

def LexState.HasZero (s : LexState) : Prop := 0 ∈ s.buffer ∨ ∃ token ∈ s.tokens, 0 ∈ token

section Steps

variable {s : LexState} {ch : UInt8} {text : Bytes} {name : Bytes} {args tokens : List Bytes}

theorem first_of_tokens_nil (h : s.tokens = []) : s.first = s.buffer := by
  rw [LexState.first, h]
  rfl

theorem first_of_tokens_cons (h : s.tokens = name :: args) : s.first = name := by
  rw [LexState.first, h]
  rfl

/-- What a byte does to the tokens and to the buffer -/
theorem lexChar_cases (s : LexState) (ch : UInt8) :
    ((lexChar s ch).tokens = s.tokens ∧ s.buffer <+: (lexChar s ch).buffer) ∨
      ((lexChar s ch).tokens = s.tokens ++ [s.buffer] ∧ (lexChar s ch).buffer = []) := by
  have hend : (s.endLiteral.tokens = s.tokens ∧ s.buffer <+: s.endLiteral.buffer) ∨
      (s.endLiteral.tokens = s.tokens ++ [s.buffer] ∧ s.endLiteral.buffer = []) := by
    unfold LexState.endLiteral
    split_ifs
    · exact .inl ⟨rfl, List.prefix_refl _⟩
    · exact .inr ⟨rfl, rfl⟩
  unfold lexChar
  split_ifs
  · exact .inl ⟨rfl, List.prefix_append _ _⟩
  · exact .inr ⟨rfl, rfl⟩
  · exact .inl ⟨rfl, List.prefix_refl _⟩
  · exact .inl ⟨rfl, List.prefix_append _ _⟩
  · exact hend
  · exact .inl ⟨rfl, List.prefix_refl _⟩
  · exact hend
  · exact .inl ⟨rfl, List.prefix_append _ _⟩

theorem first_lexChar (s : LexState) (ch : UInt8) : s.first <+: (lexChar s ch).first := by
  rcases hs : s.tokens with _ | ⟨name, args⟩
  · rw [first_of_tokens_nil hs]
    rcases lexChar_cases s ch with ⟨htokens, hbuffer⟩ | ⟨htokens, -⟩
    · rwa [first_of_tokens_nil (htokens.trans hs)]
    · rw [hs, List.nil_append] at htokens
      rw [first_of_tokens_cons htokens]
  · rw [first_of_tokens_cons hs]
    rcases lexChar_cases s ch with ⟨htokens, -⟩ | ⟨htokens, -⟩
    · rw [first_of_tokens_cons (htokens.trans hs)]
    · rw [hs, List.cons_append] at htokens
      rw [first_of_tokens_cons htokens]

theorem first_foldl (text : Bytes) (s : LexState) : s.first <+: (text.foldl lexChar s).first := by
  induction text generalizing s with
  | nil => exact List.prefix_refl _
  | cons ch text ih => exact (first_lexChar s ch).trans (ih _)

theorem tokens_foldl (text : Bytes) (s : LexState) :
    s.tokens <+: (text.foldl lexChar s).tokens := by
  induction text generalizing s with
  | nil => exact List.prefix_refl _
  | cons ch text ih =>
      refine List.IsPrefix.trans ?_ (ih (lexChar s ch))
      rcases lexChar_cases s ch with ⟨htokens, -⟩ | ⟨htokens, -⟩
      · rw [htokens]
      · rw [htokens]
        exact List.prefix_append _ _

/-- A first token that is complete stays the first. -/
theorem first_foldl_of_tokens (h : s.tokens = name :: args) (text : Bytes) :
    (text.foldl lexChar s).first = name := by
  obtain ⟨rest, hrest⟩ := tokens_foldl text s
  rw [h, List.cons_append] at hrest
  exact first_of_tokens_cons hrest.symm

theorem first_of_finish (h : s.finish = .ok (name :: args)) : s.first = name := by
  unfold LexState.finish LexState.endLiteral LexState.addToken at h
  split_ifs at h
  · exact first_of_tokens_cons (Except.ok.inj h)
  · have htokens : s.tokens ++ [s.buffer] = name :: args := Except.ok.inj h
    rw [LexState.first, htokens]
    rfl

/-- A zero is taken for itself. -/
theorem lexChar_zero (s : LexState) :
    (lexChar s 0).tokens = s.tokens ∧ (lexChar s 0).buffer = s.buffer ++ [0] := by
  have hquote : (0 : UInt8) ≠ chr '"' := by decide
  have hslash : (0 : UInt8) ≠ chr '\\' := by decide
  have hspace : ¬ isLexSpace 0 = true := by decide
  have hunescape : unescapeChar 0 = 0 := by decide
  unfold lexChar
  rw [hunescape, if_neg hquote, if_neg hslash, if_neg hquote, if_neg hslash, if_neg hspace]
  split_ifs
  · exact ⟨rfl, rfl⟩
  · exact ⟨rfl, rfl⟩
  · exact ⟨rfl, rfl⟩

theorem LexState.HasZero.lexChar (h : s.HasZero) (ch : UInt8) : (lexChar s ch).HasZero := by
  rcases lexChar_cases s ch with ⟨htokens, hbuffer⟩ | ⟨htokens, -⟩
  · rcases h with hzero | ⟨token, hmem, hzero⟩
    · exact .inl (hbuffer.subset hzero)
    · exact .inr ⟨token, htokens ▸ hmem, hzero⟩
  · refine .inr ?_
    rw [htokens]
    rcases h with hzero | ⟨token, hmem, hzero⟩
    · exact ⟨s.buffer, List.mem_append_right _ List.mem_cons_self, hzero⟩
    · exact ⟨token, List.mem_append_left _ hmem, hzero⟩

theorem hasZero_foldl (h : 0 ∈ text ∨ s.HasZero) : (text.foldl lexChar s).HasZero := by
  induction text generalizing s with
  | nil => exact h.resolve_left List.not_mem_nil
  | cons ch text ih =>
      refine ih ?_
      rcases h with hmem | hzero
      · rcases List.mem_cons.1 hmem with rfl | hmem
        · refine .inr (.inl ?_)
          rw [(lexChar_zero s).2]
          exact List.mem_append_right _ List.mem_cons_self
        · exact .inl hmem
      · exact .inr (hzero.lexChar ch)

theorem hasZero_of_finish (hzero : s.HasZero) (h : s.finish = .ok tokens) :
    ∃ token ∈ tokens, 0 ∈ token := by
  unfold LexState.finish LexState.endLiteral LexState.addToken at h
  split_ifs at h with hescape hstring hnil
  · obtain rfl := Except.ok.inj h
    refine hzero.resolve_left ?_
    rw [hnil]
    exact List.not_mem_nil
  · obtain rfl := Except.ok.inj h
    rcases hzero with hzero | ⟨token, hmem, hzero⟩
    · exact ⟨s.buffer, List.mem_append_right _ List.mem_cons_self, hzero⟩
    · exact ⟨token, List.mem_append_left _ hmem, hzero⟩

end Steps

/-- A line whose tokens have no zero has none. -/
theorem nulFree_of_tokens {line : Bytes} {tokens : List Bytes} (h : dstrlexParse line = .ok tokens)
    (htokens : ∀ token ∈ tokens, 0 ∉ token) : 0 ∉ line := by
  intro hmem
  obtain ⟨token, htoken, hzero⟩ := hasZero_of_finish (hasZero_foldl (.inl hmem)) h
  exact htokens token htoken hzero

/-- What is printed of a line has the same first token, if it can be read at all. -/
theorem dstrlexParse_cut {line name : Bytes} {args : List Bytes}
    (h : dstrlexParse line = .ok (name :: args)) (hname : 0 ∉ name) :
    (∃ error, dstrlexParse (asCString line).bytes = .error error) ∨
      ∃ args', dstrlexParse (asCString line).bytes = .ok (name :: args') := by
  by_cases hline : 0 ∈ line
  · obtain ⟨rest, hsplit⟩ : ∃ rest, line = (asCString line).bytes ++ 0 :: rest := by
      have hdrop : line.dropWhile (· ≠ 0) ≠ [] := by
        rw [ne_eq, List.dropWhile_eq_nil_iff]
        exact fun hall => absurd (hall 0 hline) (by decide)
      obtain ⟨b, rest, hcons⟩ := List.exists_cons_of_ne_nil hdrop
      have hb : b = 0 := by
        have hhead := List.head_dropWhile_not (fun c : UInt8 => decide (c ≠ 0)) hdrop
        simp only [hcons, List.head_cons] at hhead
        simpa using hhead
      refine ⟨rest, ?_⟩
      rw [← hb, ← hcons]
      exact List.takeWhile_append_dropWhile.symm
    have hfinal : ((0 :: rest).foldl lexChar
        ((asCString line).bytes.foldl lexChar .init)).first = name := by
      rw [← List.foldl_append, ← hsplit]
      exact first_of_finish h
    rw [dstrlexParse]
    generalize (asCString line).bytes.foldl lexChar .init = s at hfinal ⊢
    -- the first token is complete before the zero, which would be part of it
    have htokens : s.tokens ≠ [] := by
      intro hnil
      refine hname (hfinal ▸ (first_foldl rest (lexChar s 0)).subset ?_)
      obtain ⟨hzeroTokens, hzeroBuffer⟩ := lexChar_zero s
      rw [first_of_tokens_nil (hzeroTokens.trans hnil), hzeroBuffer]
      exact List.mem_append_right _ List.mem_cons_self
    obtain ⟨name', args', hs⟩ := List.exists_cons_of_ne_nil htokens
    obtain rfl : name' = name := (first_foldl_of_tokens hs _).symm.trans hfinal
    cases hfinish : s.finish with
    | error error => exact .inl ⟨error, rfl⟩
    | ok tokens =>
        refine .inr ?_
        cases tokens with
        | nil =>
            rw [finish_eq_ok_nil_iff] at hfinish
            rw [hfinish] at hs
            cases hs
        | cons first rest' =>
            refine ⟨rest', ?_⟩
            rw [← (first_of_finish hfinish).symm.trans (first_of_tokens_cons hs)]
  · rw [asCString_of_nulFree hline]
    exact .inr ⟨args, h⟩

end Svc.Common
