import Svc.Common.Dstr.Search
import Svc.Common.Dstrutils

/-!
# Splitting strings

`dsplit` and its variants cut a text at the occurrences of a separator.  Their loop is
given a number of rounds, and there is no list if it goes around more often.
-/

namespace Svc.Common.Dstrutils

open Svc.Lib

/-- `while(i != -1)`, for the search `find` and a separator of `slen` bytes -/
def splitFrom (find : UInt32 → MemM Int32) (text : Dstring) (slen : UInt32) (max : Nat) :
    (rounds : Nat) → (result : List Dstring) → (k i j : UInt32) → MemM (Option (List Dstring))
  | rounds, result, k, i, j => do
      if i ≠ (-1 : Int32).toUInt32 then
        match rounds with
        | 0 => return none
        | rounds + 1 => do
            let result := result ++ [← dsub text j (i - j)]
            let k := k + 1
            let j := i + slen
            if (k + 1).toNat = max then
              return some (result ++ [← dsub text j (.ofNat text.len - j)])
            let i := (← find j).toUInt32
            splitFrom find text slen max rounds result k i j
      else return some (result ++ [← dsub text j (.ofNat text.len - j)])

/-- `dsplit` and `dsplit_on_cs` for a separator of `slen` bytes -/
def splitText (find : UInt32 → MemM Int32) (text : Dstring) (slen : UInt32) (max rounds : Nat) :
    MemM (Option (List Dstring)) := do
  if max = 1 then
    return some [← dnewcopy text]
  let max := if max ≤ 0 then text.len else max
  let i := (← find 0).toUInt32
  splitFrom find text slen max rounds [] 0 i 0

def dsplit (text on : Dstring) (max rounds : Nat) : MemM (Option (List Dstring)) :=
  splitText (dpos text on) text (.ofNat on.len) max rounds

def dsplitOnCs (text : Dstring) (on : CString) (max rounds : Nat) : MemM (Option (List Dstring)) :=
  splitText (dposcs text on) text (.ofNat on.bytes.length) max rounds

def dsplitcs (text : CString) (on : Dstring) (max rounds : Nat) :
    MemM (Option (List Dstring)) := do
  dsplit (← dfromcs text) on max rounds

def dsplitcsOnCs (text on : CString) (max rounds : Nat) : MemM (Option (List Dstring)) := do
  dsplitOnCs (← dfromcs text) on max rounds

/-! ## What the pieces hold -/

/-- How often the code cuts a text at most: a limit of zero is replaced by the length of the
text, and `k + 1 == max` is never met when that is below two. -/
def cutsOf (max len : Nat) : Nat :=
  if max = 0 then if len < 2 then len + 1 else len - 1 else max - 1

def piecesOf (split : MemM (Option (List Dstring))) (mem : Memory) : Option (List Bytes) :=
  (split.run mem).1.map (List.map Dstring.bytes)

section Loop

variable {find : UInt32 → MemM Int32} {text : Dstring} {max rounds : Nat} {result : List Dstring}
  {k i j : UInt32}

/-- The exit of the loop when the separator was not found -/
theorem splitFrom_none_run (slen : UInt32) (mem : Memory) :
    (splitFrom find text slen max rounds result k (-1 : Int32).toUInt32 j).run mem =
      let last := (dsub text j (.ofNat text.len - j)).run mem
      (some (result ++ [last.1]), last.2) := by
  cases rounds <;> rfl

theorem splitFrom_some_run (slen : UInt32) (hi : i ≠ (-1 : Int32).toUInt32) (mem : Memory) :
    (splitFrom find text slen max (rounds + 1) result k i j).run mem =
      let piece := (dsub text j (i - j)).run mem
      if (k + 1 + 1).toNat = max then
        let last := (dsub text (i + slen) (.ofNat text.len - (i + slen))).run piece.2
        (some (result ++ [piece.1] ++ [last.1]), last.2)
      else
        let next := (find (i + slen)).run piece.2
        (splitFrom find text slen max rounds (result ++ [piece.1]) (k + 1) next.1.toUInt32
          (i + slen)).run next.2 := by
  rw [splitFrom, if_pos hi, MemM.run_bind]
  dsimp only
  split <;> rfl

theorem toNat_ofNat_sub (htext : text.len < 2 ^ 31) (hj : j.toNat ≤ text.len) :
    (UInt32.ofNat text.len - j).toNat = text.len - j.toNat := by
  rw [UInt32.toNat_sub, UInt32.toNat_ofNat']
  omega

/-- The piece behind the last cut -/
theorem bytes_dsub_rest (htext : text.len < 2 ^ 31) (hj : j.toNat ≤ text.len) (mem : Memory) :
    ((dsub text j (.ofNat text.len - j)).run mem).1.bytes = text.bytes.drop j.toNat := by
  have hcount := toNat_ofNat_sub htext hj
  rw [bytes_dsub (by omega) (by omega), hcount, List.take_of_length_le]
  rw [List.length_drop, length_bytes]

/-! ### An occurrence

The separator is at `i`, between the piece from `j` on and the rest of the text. -/

section Found

variable {on piece rest : Bytes} (htext : text.len < 2 ^ 31)
  (hi : i = (posResult (firstFrom on text.bytes j.toNat)).toUInt32)
  (hbreak : Split.breakAt on (text.bytes.drop j.toNat) = some (piece, rest))

include hbreak in
theorem length_of_breakAt : text.len - j.toNat = piece.length + on.length + rest.length := by
  have hsum := congrArg List.length (Split.eq_of_breakAt_eq_some hbreak)
  simpa only [List.length_drop, length_bytes, List.length_append] using hsum

include htext hi hbreak

theorem toNat_found (hj : j.toNat ≤ text.len) : i.toNat = j.toNat + piece.length := by
  have hlength := length_of_breakAt hbreak
  have hsome : firstFrom on text.bytes j.toNat = some (j.toNat + piece.length) := by
    rw [firstFrom, hbreak]
    rfl
  rw [hi, hsome, posResult, UInt32.toUInt32_toInt32, UInt32.toNat_ofNat']
  omega

theorem found_ne (hj : j.toNat ≤ text.len) : i ≠ (-1 : Int32).toUInt32 := by
  have hlength := length_of_breakAt hbreak
  have hfound := toNat_found htext hi hbreak hj
  have hminus : (-1 : Int32).toUInt32.toNat = 2 ^ 32 - 1 := rfl
  rintro rfl
  omega

theorem toNat_next (hj : j.toNat ≤ text.len) :
    (i + .ofNat on.length).toNat = j.toNat + (piece.length + on.length) := by
  have hlength := length_of_breakAt hbreak
  have hfound := toNat_found htext hi hbreak hj
  rw [UInt32.toNat_add, UInt32.toNat_ofNat']
  omega

theorem drop_next (hj : j.toNat ≤ text.len) :
    text.bytes.drop (i + .ofNat on.length).toNat = rest := by
  rw [toNat_next htext hi hbreak hj, ← List.drop_drop, Split.eq_of_breakAt_eq_some hbreak]
  exact List.drop_left' (List.length_append ..)

theorem bytes_dsub_piece (hj : j.toNat ≤ text.len) (mem : Memory) :
    ((dsub text j (i - j)).run mem).1.bytes = piece := by
  have hlength := length_of_breakAt hbreak
  have hfound := toNat_found htext hi hbreak hj
  have hcount : (i - j).toNat = piece.length := by
    rw [UInt32.toNat_sub]
    omega
  rw [bytes_dsub (by omega) (by omega), hcount, Split.eq_of_breakAt_eq_some hbreak,
    List.append_assoc, List.take_left' rfl]

end Found

theorem toNat_add_one {n : UInt32} (h : n.toNat < 2 ^ 31) : (n + 1).toNat = n.toNat + 1 := by
  rw [UInt32.toNat_add, UInt32.toNat_one]
  omega

/-- The loop makes the pieces between the cuts, which it counts in `k`: the test `k + 1 == max`
is met at the last of them. -/
theorem splitFrom_eq {on : Bytes} (result : List Dstring) (htext : text.len < 2 ^ 31)
    (hon : on ≠ []) (hfind : ∀ start mem, start.toNat ≤ text.len →
      ((find start).run mem).1 = posResult (firstFrom on text.bytes start.toNat))
    (cuts : Nat) (mem : Memory) (hi : i = (posResult (firstFrom on text.bytes j.toNat)).toUInt32)
    (hj : j.toNat ≤ text.len) (hrounds : text.len < j.toNat + rounds)
    (hk : k.toNat + (text.len - j.toNat) < 2 ^ 31)
    (hmax : ∀ n, 0 < n → n ≤ text.len - j.toNat → (k.toNat + n + 1 = max ↔ n = cuts + 1)) :
    ∃ pieces, ((splitFrom find text (.ofNat on.length) max rounds result k i j).run mem).1 =
        some pieces ∧
      pieces.map Dstring.bytes =
        result.map Dstring.bytes ++ Split.cut on (cuts + 1) (text.bytes.drop j.toNat) := by
  induction rounds generalizing result k i j cuts mem with
  | zero => omega
  | succ rounds ih =>
      cases hbreak : Split.breakAt on (text.bytes.drop j.toNat) with
      | none =>
          have hnone : firstFrom on text.bytes j.toNat = none := by
            rw [firstFrom, hbreak]
            rfl
          rw [hi, hnone, posResult, splitFrom_none_run]
          refine ⟨_, rfl, ?_⟩
          rw [Split.cut, hbreak, List.map_append, List.map_singleton, bytes_dsub_rest htext hj]
      | some b =>
          obtain ⟨piece, rest⟩ := b
          have hlength := length_of_breakAt hbreak
          have hnext := toNat_next htext hi hbreak hj
          have hrest := drop_next htext hi hbreak hj
          have hpiece := bytes_dsub_piece htext hi hbreak hj mem
          have honpos := List.length_pos_iff.2 hon
          have hkNat : (k + 1).toNat = k.toNat + 1 := toNat_add_one (by omega)
          have hkNat' : (k + 1 + 1).toNat = k.toNat + 1 + 1 := by
            rw [toNat_add_one (by omega), hkNat]
          have hone := hmax 1 Nat.one_pos (by omega)
          rw [splitFrom_some_run _ (found_ne htext hi hbreak hj), Split.cut, hbreak]
          dsimp only
          rw [hkNat']
          split_ifs with hlast
          · obtain rfl : cuts = 0 := by omega
            refine ⟨_, rfl, ?_⟩
            rw [List.map_append, List.map_append, List.map_singleton, List.map_singleton, hpiece,
              bytes_dsub_rest htext (by omega), hrest, List.append_assoc]
            rfl
          · obtain ⟨cuts, rfl⟩ : ∃ c, cuts = c + 1 := ⟨cuts - 1, by omega⟩
            have hmaxNext : ∀ n, 0 < n → n ≤ text.len - (i + .ofNat on.length).toNat →
                ((k + 1).toNat + n + 1 = max ↔ n = cuts + 1) := fun n hn hle => by
              have hn := hmax (n + 1) (by omega) (by omega)
              omega
            obtain ⟨pieces, hrun, hpieces⟩ := ih _ cuts _
              (congrArg Int32.toUInt32 (hfind _ _ (by omega))) (by omega) (by omega) (by omega)
              hmaxNext
            refine ⟨pieces, hrun, hpieces.trans ?_⟩
            rw [List.map_append, List.map_singleton, hpiece, hrest, List.append_assoc]
            rfl

/-- The code cuts as often as it may. -/
theorem splitText_eq {on : Bytes} (htext : text.len < 2 ^ 31) (hon : on ≠ [])
    (hfind : ∀ start mem, start.toNat ≤ text.len →
      ((find start).run mem).1 = posResult (firstFrom on text.bytes start.toNat))
    (hrounds : text.len < rounds) (mem : Memory) :
    piecesOf (splitText find text (.ofNat on.length) max rounds) mem =
      some (Split.cut on (cutsOf max text.len) text.bytes) := by
  by_cases hone : max = 1
  · subst hone
    rw [splitText, if_pos rfl, piecesOf, MemM.run_bind, MemM.run_pure, Option.map_some,
      List.map_singleton, bytes_dnewcopy]
    rfl
  · obtain ⟨cuts, hcuts⟩ : ∃ cuts, cutsOf max text.len = cuts + 1 :=
      ⟨cutsOf max text.len - 1, by unfold cutsOf; split_ifs <;> omega⟩
    have hlimit : ∀ n, 0 < n → n ≤ text.len →
        (n + 1 = (if max ≤ 0 then text.len else max) ↔ n = cuts + 1) := by
      intro n hn hle
      rw [← hcuts, cutsOf]
      split_ifs <;> omega
    have hzero : (0 : UInt32).toNat = 0 := rfl
    obtain ⟨pieces, hrun, hpieces⟩ := splitFrom_eq (j := 0) (k := 0) [] htext hon hfind cuts
      ((find 0).run mem).2 (congrArg Int32.toUInt32 (hfind 0 mem (Nat.zero_le _)))
      (Nat.zero_le _) (show text.len < 0 + rounds by omega) (by omega)
      (by simpa only [hzero, Nat.zero_add, Nat.sub_zero] using hlimit)
    rw [splitText, if_neg hone, piecesOf, MemM.run_bind, hrun, hcuts, Option.map_some, hpieces]
    rfl

end Loop

section Pieces

variable {on : Dstring} {textCs onCs : CString} {rounds : Nat}

theorem dsplit_pieces (text : Dstring) (htext : text.len < 2 ^ 31) (hon : on.len ≠ 0)
    (max : Nat) (hrounds : text.len < rounds) (mem : Memory) :
    piecesOf (dsplit text on max rounds) mem =
      some (Split.cut on.bytes (cutsOf max text.len) text.bytes) := by
  rw [dsplit, ← length_bytes on]
  exact splitText_eq htext (mt bytes_eq_nil_iff.1 hon) (fun _ _ => dpos_eq htext) hrounds mem

theorem dsplitOnCs_pieces (text : Dstring) (htext : text.len < 2 ^ 31) (hon : onCs.bytes ≠ [])
    (max : Nat) (hrounds : text.len < rounds) (mem : Memory) :
    piecesOf (dsplitOnCs text onCs max rounds) mem =
      some (Split.cut onCs.bytes (cutsOf max text.len) text.bytes) :=
  splitText_eq htext hon (fun _ _ => dposcs_eq htext) hrounds mem

theorem piecesOf_dfromcs_bind (str : CString) (split : Dstring → MemM (Option (List Dstring)))
    (mem : Memory) :
    piecesOf (dfromcs str >>= split) mem =
      piecesOf (split ((dfromcs str).run mem).1) ((dfromcs str).run mem).2 := rfl

theorem len_dfromcs (str : CString) (mem : Memory) :
    ((dfromcs str).run mem).1.len = str.bytes.length := by
  rw [← length_bytes, bytes_dfromcs]

theorem dsplitcs_pieces (htext : textCs.bytes.length < 2 ^ 31) (hon : on.len ≠ 0) (max : Nat)
    (hrounds : textCs.bytes.length < rounds) (mem : Memory) :
    piecesOf (dsplitcs textCs on max rounds) mem =
      some (Split.cut on.bytes (cutsOf max textCs.bytes.length) textCs.bytes) := by
  have hlen := len_dfromcs textCs mem
  rw [dsplitcs, piecesOf_dfromcs_bind, dsplit_pieces _ (hlen ▸ htext) hon max (hlen ▸ hrounds),
    hlen, bytes_dfromcs]

theorem dsplitcsOnCs_pieces (htext : textCs.bytes.length < 2 ^ 31) (hon : onCs.bytes ≠ [])
    (max : Nat) (hrounds : textCs.bytes.length < rounds) (mem : Memory) :
    piecesOf (dsplitcsOnCs textCs onCs max rounds) mem =
      some (Split.cut onCs.bytes (cutsOf max textCs.bytes.length) textCs.bytes) := by
  have hlen := len_dfromcs textCs mem
  rw [dsplitcsOnCs, piecesOf_dfromcs_bind,
    dsplitOnCs_pieces _ (hlen ▸ htext) hon max (hlen ▸ hrounds), hlen, bytes_dfromcs]

theorem piecesOf_eq_some {split : MemM (Option (List Dstring))} {bytes : List Bytes}
    {mem : Memory} (h : piecesOf split mem = some bytes) :
    ∃ pieces mem', split.run mem = (some pieces, mem') ∧ pieces.map Dstring.bytes = bytes := by
  obtain ⟨pieces, hrun, hpieces⟩ := Option.map_eq_some_iff.1 h
  exact ⟨pieces, (split.run mem).2, Prod.ext hrun rfl, hpieces⟩

theorem cutsOf_add_one_le {max : Nat} (hmax : 1 ≤ max) (len : Nat) : cutsOf max len + 1 ≤ max := by
  rw [cutsOf, if_neg (by omega)]
  omega

end Pieces

/-- A split ends after at most one round for each byte.  Joining the pieces gives the text
back, and it does not matter which of the arguments are C strings. -/
theorem dlistJoin_dsplit (text on : Dstring) (htext : text.len < 2 ^ 31) (hon : on.len ≠ 0)
    (max rounds : Nat) (hrounds : text.len < rounds) (mem : Memory) :
    ∃ pieces mem', (dsplit text on max rounds).run mem = (some pieces, mem') ∧
      ((dlistJoin pieces on).run mem').1.bytes = text.bytes ∧
      1 ≤ pieces.length ∧ (1 ≤ max → pieces.length ≤ max) ∧
      ∀ textCs onCs : CString, textCs.bytes = text.bytes → onCs.bytes = on.bytes → ∀ mem,
        piecesOf (dsplitOnCs text onCs max rounds) mem = some (pieces.map Dstring.bytes) ∧
        piecesOf (dsplitcs textCs on max rounds) mem = some (pieces.map Dstring.bytes) ∧
        piecesOf (dsplitcsOnCs textCs onCs max rounds) mem =
          some (pieces.map Dstring.bytes) := by
  obtain ⟨pieces, mem', hrun, hpieces⟩ :=
    piecesOf_eq_some (dsplit_pieces text htext hon max hrounds mem)
  have hlength : pieces.length = (Split.cut on.bytes (cutsOf max text.len) text.bytes).length := by
    rw [← hpieces, List.length_map]
  refine ⟨pieces, mem', hrun, ?_, ?_, fun hmax => ?_, fun textCs onCs htextCs honCs mem => ?_⟩
  · rw [bytes_dlistJoin, hpieces, Split.intercalate_cut]
  · rw [hlength]
    exact List.length_pos_iff.2 (Split.cut_ne_nil _ _)
  · rw [hlength]
    exact (Split.length_cut_le _ _).trans (cutsOf_add_one_le hmax _)
  · have hlen : textCs.bytes.length = text.len := by rw [htextCs, length_bytes]
    have hne : onCs.bytes ≠ [] := by rwa [honCs, ne_eq, bytes_eq_nil_iff]
    rw [hpieces, dsplitOnCs_pieces text htext hne max hrounds,
      dsplitcs_pieces (by omega) hon max (by omega),
      dsplitcsOnCs_pieces (by omega) hne max (by omega), hlen, htextCs, honCs]
    exact ⟨rfl, rfl, rfl⟩

/-- The text "a,b,,c" on ",", in three pieces -/
theorem dlistJoin_dsplit_three_pieces :
    ∃ pieces mem', (dsplit ⟨6, 64, (cstr "a,b,,c").memory⟩ ⟨1, 64, (cstr ",").memory⟩ 3 7).run
        ⟨fun _ _ => 0, 0, []⟩ = (some pieces, mem') ∧
      ((dlistJoin pieces ⟨1, 64, (cstr ",").memory⟩).run mem').1.bytes = cstr "a,b,,c" ∧
      pieces.length ≤ 3 := by
  obtain ⟨pieces, mem', hrun, hjoin, -, hlength, -⟩ :=
    dlistJoin_dsplit ⟨6, 64, (cstr "a,b,,c").memory⟩ ⟨1, 64, (cstr ",").memory⟩ (by decide)
      (by decide) 3 7 (by decide) ⟨fun _ _ => 0, 0, []⟩
  exact ⟨pieces, mem', hrun, hjoin.trans (by decide), hlength (by decide)⟩

/-! ## Completeness -/

/-- Without a limit every occurrence is cut out; with one there are as many pieces as it lets
through, and only the last may need more cuts. -/
def SplitsCompletely (on text : Bytes) (max : Nat) (pieces : List Bytes) : Prop :=
  if max = 0 then
    pieces.length = Split.occurrences on text + 1 ∧ ∀ p ∈ pieces, ¬ on <:+: p
  else
    pieces.length = min max (Split.occurrences on text + 1) ∧ ∀ p ∈ pieces.dropLast, ¬ on <:+: p

section Complete

variable {on text : Bytes} {max cuts : Nat}

theorem splitsCompletely_of_limit (hon : on ≠ []) (hmax : max ≠ 0) :
    SplitsCompletely on text max (Split.cut on (max - 1) text) := by
  rw [SplitsCompletely, if_neg hmax]
  refine ⟨?_, fun p hp => Split.not_infix_of_mem_dropLast hon hp⟩
  rw [Split.length_cut hon]
  omega

theorem splitsCompletely_zero_iff (hon : on ≠ []) :
    SplitsCompletely on text 0 (Split.cut on cuts text) ↔ Split.occurrences on text ≤ cuts := by
  rw [SplitsCompletely, if_pos rfl, Split.length_cut hon, Split.forall_mem_cut_iff hon]
  omega

/-- The limit that stands for none is too small only if every byte is an occurrence. -/
theorem occurrences_le_cutsOf_iff (hon : on ≠ []) :
    Split.occurrences on text ≤ cutsOf 0 text.length ↔
      ¬ ∃ b n, 2 ≤ n ∧ on = [b] ∧ text = List.replicate n b := by
  have hle : Split.occurrences on text ≤ text.length :=
    (Nat.le_mul_of_pos_right _ (List.length_pos_iff.2 hon)).trans
      (Split.occurrences_mul_length_le hon text)
  rw [cutsOf, if_pos rfl]
  split_ifs with hshort
  · refine iff_of_true (by omega) ?_
    rintro ⟨b, n, hn, -, rfl⟩
    rw [List.length_replicate] at hshort
    omega
  · have hne : text ≠ [] := List.ne_nil_of_length_pos (by omega)
    have hfull : Split.occurrences on text ≤ text.length - 1 ↔
        ¬ Split.occurrences on text = text.length := by omega
    rw [hfull, Split.occurrences_eq_length_iff hon hne]
    refine not_congr ⟨?_, ?_⟩
    · rintro ⟨b, hb, hrep⟩
      exact ⟨b, text.length, by omega, hb, hrep⟩
    · rintro ⟨b, n, -, hb, rfl⟩
      exact ⟨b, hb, by rw [List.length_replicate]⟩

end Complete

/-- The limit that `dsplit` puts in the place of zero stops it before the last occurrence only
in a text that is nothing but a separator of one byte, twice or more often. -/
theorem dsplit_splitsCompletely_iff (text on : Dstring) (htext : text.len < 2 ^ 31)
    (hon : on.len ≠ 0) (max rounds : Nat) (hrounds : text.len < rounds) (mem : Memory) :
    (∃ pieces, piecesOf (dsplit text on max rounds) mem = some pieces ∧
        SplitsCompletely on.bytes text.bytes max pieces) ↔
      max ≠ 0 ∨ ¬ ∃ b n, 2 ≤ n ∧ on.bytes = [b] ∧ text.bytes = List.replicate n b := by
  have hne : on.bytes ≠ [] := mt bytes_eq_nil_iff.1 hon
  rw [dsplit_pieces text htext hon max hrounds]
  simp only [Option.some.injEq, exists_eq_left']
  by_cases hmax : max = 0
  · subst hmax
    rw [splitsCompletely_zero_iff hne, ← length_bytes text, occurrences_le_cutsOf_iff hne]
    exact (or_iff_right (not_not_intro rfl)).symm
  · rw [cutsOf, if_neg hmax]
    exact iff_of_true (splitsCompletely_of_limit hne hmax) (.inl hmax)

/-- The text "a,,b" on "," -/
theorem dsplit_splitsCompletely_adjacent :
    ∃ pieces, piecesOf
        (dsplit ⟨4, 64, (cstr "a,,b").memory⟩ ⟨1, 64, (cstr ",").memory⟩ 0 5)
        ⟨fun _ _ => 0, 0, []⟩ = some pieces ∧
      SplitsCompletely (cstr ",") (cstr "a,,b") 0 pieces :=
  (dsplit_splitsCompletely_iff ⟨4, 64, (cstr "a,,b").memory⟩ ⟨1, 64, (cstr ",").memory⟩ (by decide)
    (by decide) 0 5 (by decide) ⟨fun _ _ => 0, 0, []⟩).2 <| .inr <| by
      rintro ⟨b, n, -, -, htext⟩
      change cstr "a,,b" = _ at htext
      have hsame : ∀ c ∈ cstr "a,,b", c = b := fun c hc => List.eq_of_mem_replicate (htext ▸ hc)
      exact absurd ((hsame (chr 'a') (by decide)).trans (hsame (chr 'b') (by decide)).symm)
        (by decide)

/-- The text ",," on ",": its second separator is not cut out. -/
theorem not_splitsCompletely_commas :
    piecesOf (dsplit ⟨2, 64, (cstr ",,").memory⟩ ⟨1, 64, (cstr ",").memory⟩ 0 3)
        ⟨fun _ _ => 0, 0, []⟩ = some [[], cstr ","] ∧
      ¬ SplitsCompletely (cstr ",") (cstr ",,") 0 [[], cstr ","] := by
  refine ⟨by decide, ?_⟩
  rw [SplitsCompletely, if_pos rfl]
  exact fun h => absurd h.1 (by decide)

/-! ## Termination -/

/-- The loop of a split goes around at most so many times. -/
def EndsWithin (split : Nat → MemM (Option (List Dstring))) (rounds : Nat) (mem : Memory) : Prop :=
  ((split rounds).run mem).1.isSome = true

section EmptySeparator

variable {find : UInt32 → MemM Int32} {text on : Dstring} {max rounds : Nat} {mem : Memory}

/-- A separator of no bytes is found where the search starts, and the loop stays there: only
the count of the pieces changes, which is an `unsigned int`. -/
theorem splitFrom_stays (hfind : ∀ mem, ((find 0).run mem).1 = 0) (result : List Dstring)
    (k : UInt32) (mem : Memory) :
    ((splitFrom find text 0 max rounds result k 0 0).run mem).1.isSome = true ↔
      ∃ n < rounds, (k.toNat + n + 2) % 2 ^ 32 = max := by
  induction rounds generalizing result k mem with
  | zero =>
      rw [splitFrom, if_pos (by decide)]
      exact iff_of_false Bool.false_ne_true (fun ⟨n, hn, _⟩ => absurd hn (Nat.not_lt_zero n))
  | succ rounds ih =>
      have hk : (k + 1).toNat = (k.toNat + 1) % 2 ^ 32 := UInt32.toNat_add k 1
      have hk' : (k + 1 + 1).toNat = (k.toNat + 2) % 2 ^ 32 := by
        rw [UInt32.toNat_add, hk, UInt32.toNat_one]
        omega
      rw [splitFrom_some_run 0 (by decide)]
      dsimp only
      rw [hk']
      split_ifs with hlast
      · exact iff_of_true rfl ⟨0, by omega, hlast⟩
      · rw [show (0 : UInt32) + 0 = 0 by rfl, hfind, show Int32.toUInt32 0 = 0 by rfl, ih, hk]
        constructor
        · rintro ⟨n, hn, hmax⟩
          exact ⟨n + 1, by omega, by omega⟩
        · rintro ⟨n, hn, hmax⟩
          obtain ⟨m, rfl⟩ : ∃ m, n = m + 1 := Nat.exists_eq_succ_of_ne_zero <| by
            rintro rfl
            exact hlast hmax
          exact ⟨m, by omega, by omega⟩

theorem dpos_empty (htext : text.len < 2 ^ 31) (hon : on.len = 0) (mem : Memory) :
    ((dpos text on 0).run mem).1 = 0 := by
  rw [dpos_eq htext (Nat.zero_le _), bytes_eq_nil_iff.2 hon,
    firstFrom_of_occurs List.nil_prefix]
  rfl

/-- With the empty separator only the limit on the pieces ends the loop. -/
theorem endsWithin_empty_iff (htext : text.len < 2 ^ 31) (hon : on.len = 0) (hmax : max ≠ 1) :
    EndsWithin (dsplit text on max) rounds mem ↔
      ∃ n < rounds, (n + 2) % 2 ^ 32 = if max = 0 then text.len else max := by
  have hfind := dpos_empty htext hon
  have hstays : ((splitFrom (dpos text on) text 0 (if max ≤ 0 then text.len else max) rounds []
      0 0 0).run ((dpos text on 0).run mem).2).1.isSome = true ↔ _ := splitFrom_stays hfind [] 0 _
  rw [UInt32.toNat_zero] at hstays
  simp only [Nat.zero_add, Nat.le_zero] at hstays
  rw [← hstays, EndsWithin, dsplit, splitText, if_neg hmax, MemM.run_bind, hfind, hon]
  simp only [Nat.le_zero]
  rfl

end EmptySeparator

/-- The loop has at most one round more than the text has bytes, unless the separator is empty
and the limit on the pieces comes too late or, in a text of less than two bytes, never. -/
theorem dsplit_endsWithin_iff (text on : Dstring) (htext : text.len < 2 ^ 31) (max : Nat)
    (mem : Memory) :
    EndsWithin (dsplit text on max) (text.len + 1) mem ↔
      on.len ≠ 0 ∨ max = 1 ∨ (2 ≤ max ∧ max ≤ text.len + 2) ∨ (max = 0 ∧ 2 ≤ text.len) := by
  by_cases hon : on.len = 0
  · by_cases hone : max = 1
    · subst hone
      exact iff_of_true rfl (.inr (.inl rfl))
    · rw [endsWithin_empty_iff htext hon hone]
      split_ifs with hzero
      · constructor
        · rintro ⟨n, hn, hlen⟩
          omega
        · intro h
          exact ⟨text.len - 2, by omega, by omega⟩
      · constructor
        · rintro ⟨n, hn, hlen⟩
          omega
        · intro h
          exact ⟨max - 2, by omega, by omega⟩
  · have hpieces := dsplit_pieces text htext hon max (Nat.lt_succ_self _) mem
    obtain ⟨pieces, mem', hrun, -⟩ := piecesOf_eq_some hpieces
    refine iff_of_true ?_ (.inl hon)
    rw [EndsWithin, hrun]
    rfl

/-- The text "ab" on the empty separator -/
theorem dsplit_endsWithin_empty :
    EndsWithin (dsplit ⟨2, 64, (cstr "ab").memory⟩ ⟨0, 64, (cstr "").memory⟩ 0) 3
      ⟨fun _ _ => 0, 0, []⟩ :=
  (dsplit_endsWithin_iff ⟨2, 64, (cstr "ab").memory⟩ ⟨0, 64, (cstr "").memory⟩ (by decide) 0
    ⟨fun _ _ => 0, 0, []⟩).2 (by decide)

/-- The text "a" on the empty separator, in five pieces -/
theorem not_endsWithin_empty :
    ¬ EndsWithin (dsplit ⟨1, 64, (cstr "a").memory⟩ ⟨0, 64, (cstr "").memory⟩ 5) 2
      ⟨fun _ _ => 0, 0, []⟩ := by
  unfold EndsWithin
  decide

end Svc.Common.Dstrutils
