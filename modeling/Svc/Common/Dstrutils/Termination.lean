import Svc.Common.Dstr.Termination
import Svc.Common.Dstrlex.Grammar
import Svc.Common.Dstrutils

/-!
# The terminating zero of what the string library returns

The functions that build a string start from `dnew`.  When there is nothing to put into
it they return its block as `malloc` left it, and the lexer copies such a block when the
first token of a text is empty.
-/

namespace Svc.Common.Dstrutils

open Svc.Lib

/-! ## Joining and escaping -/

theorem terminated_joinNodes {putGlue : Dstring → MemM Dstring} {list : List Dstring}
    (hlist : ∀ node ∈ list, node.Terminated) (hne : list ≠ []) (s : Dstring) (mem : Memory) :
    ((joinNodes putGlue list s).run mem).1.Terminated := by
  induction list generalizing s mem with
  | nil => exact absurd rfl hne
  | cons node next ih =>
      obtain ⟨hnode, hnext⟩ := List.forall_mem_cons.1 hlist
      cases next with
      | nil =>
          rw [joinNodes_singleton_run]
          exact terminated_dcat hnode
      | cons node' next =>
          rw [joinNodes_cons_cons_run]
          exact ih hnext (List.cons_ne_nil _ _) _ _

theorem terminated_dstrlexEscapeChar (o : Dstring) (c : UInt8) (mem : Memory) :
    ((dstrlexEscapeChar o c).run mem).1.Terminated := by
  unfold dstrlexEscapeChar
  split_ifs
  case neg => exact terminated_dcatc c
  all_goals exact terminated_dcatcs _

theorem terminated_escapeLoop {text : Bytes} (hne : text ≠ []) (o : Dstring) (mem : Memory) :
    ((text.foldlM dstrlexEscapeChar o).run mem).1.Terminated := by
  induction text generalizing o mem with
  | nil => exact absurd rfl hne
  | cons c text ih =>
      rw [List.foldlM_cons, MemM.run_bind]
      cases text with
      | nil => exact terminated_dstrlexEscapeChar o c mem
      | cons c' text => exact ih (List.cons_ne_nil _ _) _ _

/-! ## Tokens -/

/-- The first string is a copy of a block if it is empty, and all others are terminated. -/
def FreshFirst (block : Nat → UInt8) : List Dstring → Prop
  | [] => True
  | t :: ts => (if t.len = 0 then t.data 0 = block 0 else t.Terminated) ∧ ∀ t ∈ ts, t.Terminated

section FreshFirst

variable {block : Nat → UInt8} {ts : List Dstring} {t t' : Dstring}

theorem freshFirst_fresh (block : Nat → UInt8) (size : Nat) :
    FreshFirst block [⟨0, size, block⟩] := by
  simp [FreshFirst]

theorem freshFirst_of_prefix (h : FreshFirst block (ts ++ [t])) : FreshFirst block ts := by
  cases ts with
  | nil => trivial
  | cons t' ts => exact ⟨h.1, fun s hs => h.2 s (List.mem_append_left _ hs)⟩

/-- A terminated string takes the place of the last one if it is not empty. -/
theorem freshFirst_replace (h : FreshFirst block (ts ++ [t])) (ht' : t'.Terminated)
    (hlen : t'.len ≠ 0) : FreshFirst block (ts ++ [t']) := by
  cases ts with
  | nil => exact ⟨by rwa [if_neg hlen], List.forall_mem_nil _⟩
  | cons s ts =>
      refine ⟨h.1, List.forall_mem_append.2 ⟨fun s hs => h.2 s (List.mem_append_left _ hs), ?_⟩⟩
      exact List.forall_mem_singleton.2 ht'

/-- A copy takes the place of the last string. -/
theorem freshFirst_copy (h : FreshFirst block (ts ++ [t])) (hlen : t'.len = t.len)
    (hdata : t'.data t.len = t.data t.len) : FreshFirst block (ts ++ [t']) := by
  have hterminated : t'.Terminated ↔ t.Terminated := by
    rw [Dstring.Terminated, Dstring.Terminated, hlen, hdata]
  cases ts with
  | nil =>
      refine ⟨?_, List.forall_mem_nil _⟩
      have hfirst := h.1
      split_ifs at hfirst with hzero
      · rw [hzero] at hdata hlen
        rw [if_pos hlen, hdata, hfirst]
      · rwa [if_neg (hlen ▸ hzero), hterminated]
  | cons s ts =>
      obtain ⟨hts, ht⟩ := List.forall_mem_append.1 h.2
      refine ⟨h.1, List.forall_mem_append.2 ⟨hts, List.forall_mem_singleton.2 ?_⟩⟩
      exact hterminated.2 (List.forall_mem_singleton.1 ht)

theorem freshFirst_append (h : FreshFirst block ts) (hne : ts ≠ []) (ht : t.Terminated) :
    FreshFirst block (ts ++ [t]) := by
  cases ts with
  | nil => exact absurd rfl hne
  | cons s ts =>
      exact ⟨h.1, List.forall_mem_append.2 ⟨h.2, List.forall_mem_singleton.2 ht⟩⟩

/-- All strings are terminated, unless the first is empty and its block began otherwise. -/
theorem forall_terminated_iff (h : FreshFirst block ts) :
    (∀ t ∈ ts, t.Terminated) ↔ ((ts.map Dstring.bytes).head? = some [] → block 0 = 0) := by
  cases ts with
  | nil => exact iff_of_true (List.forall_mem_nil _) nofun
  | cons t ts =>
      obtain ⟨hfirst, hrest⟩ := h
      rw [List.forall_mem_cons, and_iff_left hrest, List.map_cons, List.head?_cons,
        Option.some_inj, bytes_eq_nil_iff]
      split_ifs at hfirst with hzero
      · rw [Dstring.Terminated, hzero, hfirst]
        exact ⟨fun hblock _ => hblock, fun hblock => hblock rfl⟩
      · exact iff_of_true hfirst fun h => absurd h hzero

end FreshFirst

/-- The tokens and the buffer, which becomes the next token. -/
def LexLocals.strings (s : LexLocals) : List Dstring := s.tokens ++ [s.buffer]

section Lexer

variable {block : Nat → UInt8} {s : LexLocals} (h : FreshFirst block s.strings) (mem : Memory)

theorem len_dcatc (dst : Dstring) (ch : UInt8) : ((dcatc dst ch).run mem).1.len = dst.len + 1 := by
  rw [← length_bytes, bytes_dcatc, List.length_append, length_bytes, List.length_singleton]

include h

theorem freshFirst_dcatc (ch : UInt8) : FreshFirst block ((s.dcatc ch).run mem).1.strings := by
  rw [dcatc_run]
  refine freshFirst_replace h (terminated_dcatc ch) ?_
  rw [len_dcatc]
  exact Nat.succ_ne_zero _

theorem freshFirst_dlistAdd :
    FreshFirst block (s.tokens ++ [((dnewcopy s.buffer).run mem).1]) := by
  refine freshFirst_copy h rfl ?_
  simp only [dnewcopy, MemM.run_bind, malloc_run, readAt_run, writeAt_run, Nat.zero_add]
  exact Block.copy_inside_start (Nat.lt_succ_self _)

theorem freshFirst_addToken : FreshFirst block (s.addToken.run mem).1.strings := by
  have hadded := freshFirst_dlistAdd h mem
  have hcleared : ((dclear s.buffer).run ((dnewcopy s.buffer).run mem).2).1.Terminated :=
    terminated_dclear
  exact freshFirst_append hadded (List.concat_ne_nil _ _) hcleared

theorem freshFirst_endLiteral : FreshFirst block (s.endLiteral.run mem).1.strings := by
  unfold LexLocals.endLiteral
  split_ifs
  · exact freshFirst_addToken h mem
  · exact h

theorem freshFirst_lexChar (ch : UInt8) :
    FreshFirst block ((lexChar s ch).run mem).1.strings := by
  unfold lexChar
  split_ifs
  · exact freshFirst_dcatc h mem _
  · exact freshFirst_addToken h mem
  · exact h
  · exact freshFirst_dcatc h mem ch
  · exact freshFirst_endLiteral h mem
  · exact h
  · exact freshFirst_endLiteral h mem
  · exact freshFirst_dcatc h mem ch

theorem freshFirst_lexBytes (text : Dstring) (len : Nat) :
    FreshFirst block ((lexBytes text s len).run mem).1.strings := by
  induction len with
  | zero => exact h
  | succ len ih =>
      rw [lexBytes, MemM.run_bind, MemM.run_bind]
      exact freshFirst_lexChar ih _ _

theorem freshFirst_finish {tokens : List Dstring} (htokens : (s.finish.run mem).1 = .ok tokens) :
    FreshFirst block tokens := by
  unfold LexLocals.finish at htokens
  split_ifs at htokens
  · cases htokens
  · cases htokens
  · cases htokens
    exact freshFirst_dlistAdd h mem
  · cases htokens
    exact freshFirst_of_prefix h

end Lexer

/-! ## The first token -/

/-- The first token of the text is written as two quotes. -/
def StartsWithEmptyToken (text : Bytes) : Prop :=
  ∃ line : LexLine, line.text = text ∧ ∃ blanks items,
    line.items = blanks ++ LexItem.quoted [] :: items ∧ ∀ item ∈ blanks, item.token = none

theorem token_eq_nil_iff (item : LexItem) : item.token = some [] ↔ item = .quoted [] := by
  cases item with
  | space ch hch => exact iff_of_false nofun nofun
  | quoted body => simp [LexItem.token]
  | literal run hrun => simp [LexItem.token, hrun]

theorem head_tokens_iff (line : LexLine) :
    line.tokens.head? = some [] ↔ ∃ blanks items,
      line.items = blanks ++ LexItem.quoted [] :: items ∧ ∀ item ∈ blanks, item.token = none := by
  rw [LexLine.tokens, List.head?_filterMap, List.findSome?_eq_some_iff]
  constructor
  · rintro ⟨blanks, item, items, heq, hitem, hblanks⟩
    rw [token_eq_nil_iff] at hitem
    exact ⟨blanks, items, hitem ▸ heq, hblanks⟩
  · rintro ⟨blanks, items, heq, hblanks⟩
    exact ⟨blanks, .quoted [], items, heq, rfl, hblanks⟩

theorem exists_empty_token_iff (text : Bytes) :
    (∃ tokens, Common.dstrlexParse text = .ok tokens ∧ tokens.head? = some []) ↔
      StartsWithEmptyToken text := by
  constructor
  · rintro ⟨tokens, hok, hhead⟩
    obtain ⟨line, htext, rfl⟩ := dstrlexParse_eq_ok_iff.1 hok
    exact ⟨line, htext, (head_tokens_iff line).1 hhead⟩
  · rintro ⟨line, htext, hitems⟩
    exact ⟨line.tokens, dstrlexParse_eq_ok_iff.2 ⟨line, htext, rfl⟩,
      (head_tokens_iff line).2 hitems⟩

/-! ## Calls of the library -/

/-- A call that returns new strings: of `dsub`, or of a function of `dstrutils.c`. -/
inductive DstrutilsCall where
  | dsub (a : Handle) (start length : UInt32)
  | dlistJoin (list : List Handle) (glue : Handle)
  | dlistJoinc (list : List Handle) (c : UInt8)
  | dlistJoincs (list : List Handle) (glue : CString)
  | dstrlexParse (text : Handle)
  | dstrlexEscapeMem (text : Bytes)

inductive LibraryCall where
  | dstr (call : DstrCall)
  | dstrutils (call : DstrutilsCall)

def nodes (pool : Pool) (list : List Handle) : List Dstring := list.filterMap (pool.strings[·]?)

def tokensOf : Except DstrlexError (List Dstring) → List Dstring
  | .ok tokens => tokens
  | .error _ => []

def DstrutilsCall.returns (pool : Pool) : DstrutilsCall → Option (MemM (List Dstring))
  | .dsub a start length =>
      pool.strings[a]?.map fun a => List.singleton <$> Common.dsub a start length
  | .dlistJoin list glue =>
      pool.strings[glue]?.map fun glue =>
        List.singleton <$> Dstrutils.dlistJoin (nodes pool list) glue
  | .dlistJoinc list c => some (List.singleton <$> Dstrutils.dlistJoinc (nodes pool list) c)
  | .dlistJoincs list glue => some (List.singleton <$> Dstrutils.dlistJoincs (nodes pool list) glue)
  | .dstrlexParse text =>
      pool.strings[text]?.map fun text => tokensOf <$> Dstrutils.dstrlexParse text
  | .dstrlexEscapeMem text => some (List.singleton <$> Dstrutils.dstrlexEscapeMem text)

def adding (pool : Pool) (op : MemM (List Dstring)) : Pool :=
  let (new, mem) := op.run pool.mem
  ⟨pool.strings ++ new, mem⟩

def libraryMachine : Machine Pool LibraryCall Unit where
  step pool call :=
    match call with
    | .dstr call => dstrMachine.step pool call
    | .dstrutils call =>
        match call.returns pool with
        | some op => (adding pool op, ())
        | none => (pool, ())

def libraryAfter (contents : Nat → Nat → UInt8) (calls : List LibraryCall) : Pool :=
  libraryMachine.run (.init contents) calls

/-- The call returns a block that it has written nothing to, or a copy of one. -/
def DstrutilsCall.ReturnsFresh (pool : Pool) : DstrutilsCall → Prop
  | .dsub a start _ => ∃ s : Dstring, pool.strings[a]? = some s ∧ start.toNat > s.len
  | .dlistJoin list glue => (∃ s, pool.strings[glue]? = some s) ∧ nodes pool list = []
  | .dlistJoinc list _ | .dlistJoincs list _ => nodes pool list = []
  | .dstrlexParse text =>
      ∃ s : Dstring, pool.strings[text]? = some s ∧ StartsWithEmptyToken s.bytes
  | .dstrlexEscapeMem text => text = []

def LibraryCall.ReturnsFresh (pool : Pool) : LibraryCall → Prop
  | .dstr call => call = .dnew
  | .dstrutils call => call.ReturnsFresh pool

/-! ## What the calls return -/

theorem terminated_join_iff {putGlue : Dstring → MemM Dstring} {list : List Dstring}
    (hlist : ∀ node ∈ list, node.Terminated) (mem : Memory) :
    ((joinNodes putGlue list (dnew.run mem).1).run (dnew.run mem).2).1.Terminated ↔
      (list = [] → mem.contents mem.mallocs 0 = 0) := by
  by_cases hnil : list = []
  · rw [forall_prop_of_true hnil, hnil]
    exact terminated_dnew_iff
  · exact iff_of_true (terminated_joinNodes hlist hnil _ _) fun h => absurd h hnil

theorem terminated_escape_iff (text : Bytes) (mem : Memory) :
    ((dstrlexEscapeMem text).run mem).1.Terminated ↔
      (text = [] → mem.contents mem.mallocs 0 = 0) := by
  rw [dstrlexEscapeMem, MemM.run_bind]
  by_cases hnil : text = []
  · rw [forall_prop_of_true hnil, hnil]
    exact terminated_dnew_iff
  · exact iff_of_true (terminated_escapeLoop hnil _ _) fun h => absurd h hnil

theorem terminated_dsub_iff (a : Dstring) (start length : UInt32) (mem : Memory) :
    ((Common.dsub a start length).run mem).1.Terminated ↔
      (start.toNat > a.len → mem.contents mem.mallocs 0 = 0) := by
  by_cases hstart : start.toNat > a.len
  · rw [dsub_run, if_pos hstart, terminated_dnew_iff, forall_prop_of_true hstart]
  · exact iff_of_true (terminated_dsub (not_lt.1 hstart) length) fun h => absurd h hstart

theorem terminated_tokens_iff (text : Dstring) (mem : Memory) :
    (∀ t ∈ tokensOf ((dstrlexParse text).run mem).1, t.Terminated) ↔
      (StartsWithEmptyToken text.bytes → mem.contents mem.mallocs 0 = 0) := by
  have hbytes := bytes_dstrlexParse text mem
  rw [← exists_empty_token_iff, ← hbytes]
  have hfresh {tokens : List Dstring} (h : ((dstrlexParse text).run mem).1 = .ok tokens) :
      FreshFirst (mem.contents mem.mallocs) tokens := by
    exact freshFirst_finish (freshFirst_lexBytes (freshFirst_fresh _ 32) _ text _) _ h
  cases hresult : ((dstrlexParse text).run mem).1 with
  | error e => exact iff_of_true (List.forall_mem_nil _) nofun
  | ok tokens =>
      rw [tokensOf, forall_terminated_iff (hfresh hresult)]
      simp [Except.map]

theorem terminated_nodes {pool : Pool} (hpool : pool.Terminated) (list : List Handle) :
    ∀ node ∈ nodes pool list, node.Terminated := by
  intro node hnode
  obtain ⟨handle, -, hget⟩ := List.mem_filterMap.1 hnode
  exact hpool node (List.mem_of_getElem? hget)

/-- All that a call returns is terminated, unless it returns a fresh block that begins
with another byte. -/
theorem terminated_returns_iff {pool : Pool} {call : DstrutilsCall} {op : MemM (List Dstring)}
    (hpool : pool.Terminated) (h : call.returns pool = some op) :
    (∀ s ∈ (op.run pool.mem).1, s.Terminated) ↔ (call.ReturnsFresh pool → pool.NextBlockZero) := by
  cases call with
  | dsub a start length =>
      obtain ⟨s, hs, rfl⟩ := Option.map_eq_some_iff.1 h
      refine List.forall_mem_singleton.trans ((terminated_dsub_iff s start length _).trans ?_)
      simp [DstrutilsCall.ReturnsFresh, hs, Pool.NextBlockZero]
  | dlistJoin list glue =>
      obtain ⟨s, hs, rfl⟩ := Option.map_eq_some_iff.1 h
      refine List.forall_mem_singleton.trans
        ((terminated_join_iff (terminated_nodes hpool list) _).trans ?_)
      simp [DstrutilsCall.ReturnsFresh, hs, Pool.NextBlockZero]
  | dlistJoinc list c =>
      cases h
      exact List.forall_mem_singleton.trans (terminated_join_iff (terminated_nodes hpool list) _)
  | dlistJoincs list glue =>
      cases h
      exact List.forall_mem_singleton.trans (terminated_join_iff (terminated_nodes hpool list) _)
  | dstrlexParse text =>
      obtain ⟨s, hs, rfl⟩ := Option.map_eq_some_iff.1 h
      refine (terminated_tokens_iff s _).trans ?_
      simp [DstrutilsCall.ReturnsFresh, hs, Pool.NextBlockZero]
  | dstrlexEscapeMem text =>
      cases h
      exact List.forall_mem_singleton.trans (terminated_escape_iff text _)

theorem not_returnsFresh_of_none {pool : Pool} {call : DstrutilsCall}
    (h : call.returns pool = none) : ¬ call.ReturnsFresh pool := by
  cases call with
  | dsub a | dstrlexParse a =>
      have hnone : pool.strings[a]? = none := Option.map_eq_none_iff.1 h
      simp [DstrutilsCall.ReturnsFresh, hnone]
  | dlistJoin list glue =>
      have hnone : pool.strings[glue]? = none := Option.map_eq_none_iff.1 h
      simp [DstrutilsCall.ReturnsFresh, hnone]
  | dlistJoinc | dlistJoincs | dstrlexEscapeMem => cases h

/-! ## Runs -/

theorem terminated_libraryNext_iff {pool : Pool} (hpool : pool.Terminated) (call : LibraryCall) :
    (libraryMachine.next pool call).Terminated ↔
      (call.ReturnsFresh pool → pool.NextBlockZero) := by
  cases call with
  | dstr call => exact terminated_next_iff hpool call
  | dstrutils call =>
      cases h : call.returns pool with
      | none =>
          rw [show libraryMachine.next pool (.dstrutils call) = pool by
            simp [Machine.next, libraryMachine, h]]
          exact iff_of_true hpool fun hfresh => absurd hfresh (not_returnsFresh_of_none h)
      | some op =>
          rw [show libraryMachine.next pool (.dstrutils call) = adding pool op by
            simp [Machine.next, libraryMachine, h]]
          exact List.forall_mem_append.trans
            ((and_iff_right hpool).trans (terminated_returns_iff hpool h))

/-- Every string ends in a zero at every moment of a run exactly if each fresh block that
is returned happens to begin with one. -/
theorem terminated_iff (contents : Nat → Nat → UInt8) (calls : List LibraryCall) :
    (∀ pre, pre <+: calls → (libraryAfter contents pre).Terminated) ↔
      libraryMachine.Guarded (fun pool call => call.ReturnsFresh pool → pool.NextBlockZero)
        (.init contents) calls := by
  have hinit : (Pool.init contents).Terminated := List.forall_mem_nil _
  refine libraryMachine.forall_prefix_iff_guarded calls hinit fun pre call _ hpre => ?_
  have hpool : (libraryMachine.run (.init contents) pre).Terminated :=
    libraryMachine.invariant_run_of_guarded (I := Pool.Terminated)
      (fun _ call h => (terminated_libraryNext_iff h call).2) hinit hpre
  rw [libraryAfter, Machine.run_concat]
  exact terminated_libraryNext_iff hpool call

/-- In memory full of ones: `dnew`, a join of nothing, `dsub` behind the end, and the token
of a text of two quotes. -/
theorem unterminated :
    ¬ (libraryAfter (fun _ _ => 1) [.dstr .dnew]).Terminated ∧
      ¬ (libraryAfter (fun _ _ => 1) [.dstrutils (.dlistJoinc [] 0)]).Terminated ∧
      ¬ (libraryAfter (fun _ _ => 1)
        [.dstr (.dfromc 97), .dstrutils (.dsub 0 2 1)]).Terminated ∧
      ¬ (libraryAfter (fun _ _ => 1)
        [.dstr (.dfrommem [chr '"', chr '"']), .dstrutils (.dstrlexParse 0)]).Terminated :=
  ⟨fun h => absurd h (by decide), fun h => absurd h (by decide), fun h => absurd h (by decide),
    fun h => absurd h (by decide)⟩

end Svc.Common.Dstrutils
