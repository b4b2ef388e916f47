import Svc.Lib.Accesses
import Svc.Svcenet.Audio
import Svc.Svcenet.Client.Lines

/-!
# The framing of channel 0

`handle_server_msg` walks over the bytes of a packet with two `int` indices.  The module
has the walk with every access to the packet.  The protocol leaves the newline after the
last command to the sender, while the walk passes on only what a newline ends.
-/

namespace Svc.Svcenet

open Svc.Common Svc.Lib

namespace ENetPacket

def readByte (packet : ENetPacket) (index : Nat) : ReadM UInt8 := do
  touch ⟨index, 1, packet.dataLength⟩
  return packet.data index

def dfrommem (packet : ENetPacket) (offset count : Nat) : ReadM Bytes := do
  touch ⟨offset, count, packet.dataLength⟩
  return Block.slice packet.data offset count

def memposFrom (packet : ENetPacket) (ch : UInt8) (length : Int) :
    (rounds : Nat) → (start : Int) → ReadM Int
  | 0, _ => return -1
  | rounds + 1, start => do
      if start < length then
        if (← packet.readByte start.toNat) = ch then return start
        else packet.memposFrom ch length rounds (start + 1)
      else return -1

def mempos (packet : ENetPacket) (ch : UInt8) (start length : Int) : ReadM Int :=
  packet.memposFrom ch length (length - start).toNat start

/-- `if (pos - prev > 0)` in `handle_server_msg`: the string that is passed on, if any -/
def passPiece (packet : ENetPacket) (prev pos : Int) : ReadM (List Bytes) := do
  if pos - prev > 0 then return [← packet.dfrommem prev.toNat (pos - prev).toNat]
  else return []

/-- The loop of `handle_server_msg`: the strings it passes to `handle_server_decoded_msg`,
or `none` if it tests its condition more than `rounds` times. -/
def handleServerMsgFrom (packet : ENetPacket) :
    (rounds : Nat) → (prev pos : Int) → ReadM (Option (List Bytes))
  | 0, _, _ => return none
  | rounds + 1, prev, pos => do
      if pos ≥ 0 then
        let passed ← packet.passPiece prev pos
        let prev := pos + 1
        let pos ← packet.mempos (chr '\n') prev (asInt packet.dataLength)
        return (← packet.handleServerMsgFrom rounds prev pos).map (passed ++ ·)
      else return some []

def handleServerMsg (packet : ENetPacket) : ReadM (Option (List Bytes)) := do
  let pos ← packet.mempos (chr '\n') 0 (asInt packet.dataLength)
  packet.handleServerMsgFrom (packet.dataLength + 1) 0 pos

end ENetPacket

def pieces (data : Bytes) : List Bytes := (data.splitOn (chr '\n')).filter (· ≠ [])

/-! ## Reading inside a packet -/

section Reading

variable {packet : ENetPacket}

theorem staysInside_readByte {index : Nat} (h : index < packet.dataLength) :
    StaysInside (packet.readByte index) (packet.data index) :=
  .bind (.touch h) (.pure _)

theorem staysInside_dfrommem {offset count : Nat} (h : offset + count ≤ packet.dataLength) :
    StaysInside (packet.dfrommem offset count) (Block.slice packet.data offset count) :=
  .bind (.touch h) (.pure _)

end Reading

/-! ## The walk -/

section Walk

variable (packet : ENetPacket)

/-- The number of bytes of the packet that an `int` counts. -/
def ENetPacket.counted (packet : ENetPacket) : Nat := (asInt packet.dataLength).toNat

def ENetPacket.seen (packet : ENetPacket) : Bytes := Block.first packet.data packet.counted

def posInt (pos : Option Nat) : Int := pos.elim (-1) Nat.cast

theorem counted_le : packet.counted ≤ packet.dataLength := by
  have := Nat.mod_le packet.dataLength (2 ^ 32)
  unfold ENetPacket.counted asInt
  split <;> omega

theorem counted_of_lt (h : packet.dataLength < 2 ^ 31) : packet.counted = packet.dataLength := by
  unfold ENetPacket.counted asInt
  rw [Nat.mod_eq_of_lt (by omega), if_pos h]
  omega

theorem length_seen : packet.seen.length = packet.counted := Block.length_first _ _

theorem getElem?_seen {i : Nat} (h : i < packet.counted) :
    packet.seen[i]? = some (packet.data i) := by
  simp [ENetPacket.seen, Block.first, h]

/-- `mempos` in memory finds what it finds in the list of the bytes seen. -/
theorem staysInside_memposFrom (ch : UInt8) (start : Nat) {rounds : Nat}
    (hrounds : rounds = packet.counted - start) :
    StaysInside (packet.memposFrom ch (asInt packet.dataLength) rounds start)
      (posInt (mempos packet.seen ch start packet.counted)) := by
  induction rounds generalizing start with
  | zero =>
      rw [mempos, ← hrounds]
      exact StaysInside.pure _
  | succ rounds ih =>
      have hlt : start < packet.counted := by omega
      have hbelow : (start : Int) < asInt packet.dataLength := by
        unfold ENetPacket.counted at hlt
        omega
      rw [ENetPacket.memposFrom, if_pos hbelow, Int.toNat_natCast]
      refine .bind (staysInside_readByte (hlt.trans_le (counted_le packet))) ?_
      rw [mempos, ← hrounds, List.range'_succ, List.find?_cons, getElem?_seen packet hlt]
      by_cases hch : packet.data start = ch
      · rw [if_pos hch, hch, beq_self_eq_true]
        exact StaysInside.pure _
      · have hrest := ih (start + 1) (by omega)
        rw [mempos, show packet.counted - (start + 1) = rounds by omega] at hrest
        rw [if_neg hch, show (some (packet.data start) == some ch) = false by simpa using hch]
        exact hrest

theorem staysInside_mempos (ch : UInt8) (start : Nat) :
    StaysInside (packet.mempos ch start (asInt packet.dataLength))
      (posInt (mempos packet.seen ch start packet.counted)) :=
  staysInside_memposFrom packet ch start (by unfold ENetPacket.counted; omega)

theorem staysInside_passPiece {prev pos : Nat} (hle : prev ≤ pos) (hpos : pos ≤ packet.dataLength) :
    StaysInside (packet.passPiece prev pos)
      (if Block.slice packet.data prev (pos - prev) = [] then []
      else [Block.slice packet.data prev (pos - prev)]) := by
  have hnil : Block.slice packet.data prev (pos - prev) = [] ↔ pos = prev := by
    rw [← List.length_eq_zero_iff, Block.slice, Block.length_first]
    omega
  unfold ENetPacket.passPiece
  by_cases heq : pos = prev
  · rw [if_neg (by omega), if_pos (hnil.2 heq)]
    exact StaysInside.pure _
  · rw [if_pos (by omega), if_neg (mt hnil.1 heq), Int.toNat_natCast,
      show ((pos : Int) - prev).toNat = pos - prev by omega]
    exact .bind (staysInside_dfrommem (by omega)) (.pure _)

/-- The loop passes on the lines that a newline ends. -/
theorem staysInside_handleServerMsgFrom (prev : Nat) {rounds : Nat}
    (hrounds : packet.counted - prev < rounds) :
    StaysInside (packet.handleServerMsgFrom rounds prev
        (posInt (mempos packet.seen (chr '\n') prev packet.counted)))
      (some (completeLines (packet.seen.drop prev))) := by
  induction rounds generalizing prev with
  | zero => omega
  | succ rounds ih =>
      rw [ENetPacket.handleServerMsgFrom, ← length_seen]
      cases hpos : mempos packet.seen (chr '\n') prev packet.seen.length with
      | none =>
          rw [completeLines_of_not_mem (getElem?_drop_of_mempos_eq_none hpos)]
          exact StaysInside.pure _
      | some pos =>
          obtain ⟨hle, hlt, hline, hdrop⟩ := drop_of_mempos_eq_some hpos
          rw [length_seen] at hlt
          have hcounted := counted_le packet
          have hslice : (packet.seen.drop prev).take (pos - prev) =
              Block.slice packet.data prev (pos - prev) := Block.take_drop_first (by omega)
          rw [hslice] at hline hdrop
          have hpassed := staysInside_passPiece packet hle (hlt.le.trans (counted_le packet))
          have hnext := staysInside_mempos packet (chr '\n') (pos + 1)
          have hrest := ih (pos + 1) (by omega)
          rw [posInt, Option.elim_some, if_pos (by omega)]
          refine StaysInside.bind hpassed ?_
          refine StaysInside.bind hnext ?_
          refine StaysInside.bind hrest ?_
          rw [hdrop, completeLines_append hline]
          by_cases hempty : Block.slice packet.data prev (pos - prev) = []
          · rw [if_pos hempty, if_pos hempty]
            exact StaysInside.pure _
          · rw [if_neg hempty, if_neg hempty]
            exact StaysInside.pure _

theorem staysInside_handleServerMsg :
    StaysInside packet.handleServerMsg (some (completeLines packet.seen)) := by
  have hfirst := staysInside_mempos packet (chr '\n') 0
  have hloop := staysInside_handleServerMsgFrom packet 0
    (show packet.counted - 0 < packet.dataLength + 1 by have := counted_le packet; omega)
  exact StaysInside.bind hfirst hloop

end Walk

/-! ## Pieces -/

theorem pieces_append (x y : Bytes) : pieces (x ++ chr '\n' :: y) = pieces x ++ pieces y := by
  have hsplit := List.splitOnP_append_cons (p := (· == chr '\n')) x y (beq_self_eq_true (chr '\n'))
  rw [pieces, List.splitOn_eq_splitOnP, hsplit, List.filter_append]
  rfl

theorem pieces_eq_nil_iff {data : Bytes} : pieces data = [] ↔ ∀ b ∈ data, b = chr '\n' := by
  induction data with
  | nil => simp [pieces]
  | cons b data ih =>
      by_cases hb : b = chr '\n'
      · have hcons := pieces_append [] data
        rw [List.nil_append, show pieces [] = [] by simp [pieces], List.nil_append] at hcons
        simp [hb, hcons, ih]
      · obtain ⟨head, tail, hsplit⟩ := List.exists_cons_of_ne_nil
          (List.splitOn_ne_nil (chr '\n') data)
        rw [List.splitOn_eq_splitOnP] at hsplit
        simp [pieces, List.splitOn_eq_splitOnP, List.splitOnP_cons_eq_if_modifyHead, hb, hsplit]

/-- Only what stands behind the last newline makes a difference. -/
theorem completeLines_append_cons {tail : Bytes} (htail : chr '\n' ∉ tail) (x : Bytes) :
    completeLines (x ++ chr '\n' :: tail) = pieces x := by
  have hlast : tail.splitOnP (· == chr '\n') = [tail] := by
    refine List.splitOnP_eq_singleton fun b hb => ?_
    rw [beq_eq_false_iff_ne]
    rintro rfl
    exact htail hb
  have hsplit := List.splitOnP_append_cons (p := (· == chr '\n')) x tail
    (beq_self_eq_true (chr '\n'))
  rw [completeLines, List.splitOn_eq_splitOnP, hsplit, hlast, List.dropLast_concat, pieces,
    List.splitOn_eq_splitOnP]

/-- The last newline of a list of bytes. -/
theorem exists_last_newline {data : Bytes} (h : chr '\n' ∈ data) :
    ∃ x tail, data = x ++ chr '\n' :: tail ∧ chr '\n' ∉ tail := by
  obtain ⟨tail, x, hrev, htail⟩ := List.eq_append_cons_of_mem (List.mem_reverse.2 h)
  refine ⟨x.reverse, tail.reverse, ?_, by simpa using htail⟩
  rw [← List.reverse_reverse data, hrev]
  simp

/-- A list without a newline consists of newlines only if it is empty. -/
theorem forall_eq_newline_iff {tail : Bytes} (htail : chr '\n' ∉ tail) (rest : Bytes) :
    (∀ b ∈ tail ++ rest, b = chr '\n') ↔
      (∀ b, tail.getLast? = some b → b = chr '\n') ∧ ∀ b ∈ rest, b = chr '\n' := by
  cases tail using List.reverseRecOn with
  | nil => simp
  | append_singleton init b =>
      have hb : b ≠ chr '\n' := fun heq => htail (by simp [heq])
      refine iff_of_false (fun hall => hb (hall b (by simp))) fun hlast => ?_
      exact hb (hlast.1 b (by simp))

theorem completeLines_eq_pieces_iff (seen rest : Bytes) :
    completeLines seen = pieces (seen ++ rest) ↔
      (∀ b, seen.getLast? = some b → b = chr '\n') ∧ ∀ b ∈ rest, b = chr '\n' := by
  by_cases hmem : chr '\n' ∈ seen
  · obtain ⟨x, tail, rfl, htail⟩ := exists_last_newline hmem
    have hlast : (∀ b, (x ++ chr '\n' :: tail).getLast? = some b → b = chr '\n') ↔
        ∀ b, tail.getLast? = some b → b = chr '\n' := by
      cases htail : tail.getLast? with
      | none => simp [List.getLast?_cons, htail]
      | some b => simp [List.getLast?_cons, htail]
    rw [completeLines_append_cons htail, List.append_assoc, List.cons_append, pieces_append,
      List.self_eq_append_right, pieces_eq_nil_iff, forall_eq_newline_iff htail, hlast]
  · rw [completeLines_of_not_mem hmem, eq_comm, pieces_eq_nil_iff, forall_eq_newline_iff hmem]

/-! ## Packets -/

/-- The last byte that an `int` counts is a newline, and so is every byte behind it. -/
def ENetPacket.Terminated (packet : ENetPacket) : Prop :=
  ∀ i < packet.dataLength, packet.counted ≤ i + 1 → packet.data i = chr '\n'

instance (packet : ENetPacket) : Decidable packet.Terminated :=
  inferInstanceAs (Decidable (∀ i < packet.dataLength, _))

/-- `handle_server_msg` reads inside the packet, and what it passes on is every non-empty
piece between newlines, in order. -/
def ENetPacket.FramedWell (packet : ENetPacket) : Prop :=
  ∃ reads, packet.handleServerMsg.run [] = (some (pieces packet.bytes), reads) ∧
    ∀ r ∈ reads, r.InBounds

def ENetPacket.unseen (packet : ENetPacket) : Bytes :=
  Block.slice packet.data packet.counted (packet.dataLength - packet.counted)

theorem seen_append_unseen (packet : ENetPacket) : packet.seen ++ packet.unseen = packet.bytes := by
  have hadd := Block.first_add packet.data packet.counted (packet.dataLength - packet.counted)
  rw [Nat.add_sub_cancel' (counted_le packet)] at hadd
  exact hadd.symm

theorem terminated_iff_getLast (packet : ENetPacket) :
    packet.Terminated ↔ (∀ b, packet.seen.getLast? = some b → b = chr '\n') ∧
      ∀ b ∈ packet.unseen, b = chr '\n' := by
  have hle := counted_le packet
  have hlast : ∀ b, packet.seen.getLast? = some b ↔
      0 < packet.counted ∧ packet.data (packet.counted - 1) = b := by
    intro b
    rw [List.getLast?_eq_getElem?, length_seen]
    by_cases hpos : 0 < packet.counted
    · rw [getElem?_seen packet (by omega), Option.some.injEq, and_iff_right hpos]
    · simp [ENetPacket.seen, show packet.counted = 0 by omega]
  have hunseen : (∀ b ∈ packet.unseen, b = chr '\n') ↔
      ∀ k < packet.dataLength - packet.counted, packet.data (packet.counted + k) = chr '\n' := by
    simp [ENetPacket.unseen, Block.slice, Block.first]
  rw [hunseen]
  constructor
  · intro hall
    refine ⟨fun b hb => ?_, fun k hk => hall _ (by omega) (by omega)⟩
    obtain ⟨hpos, rfl⟩ := (hlast b).1 hb
    exact hall _ (by omega) (by omega)
  · rintro ⟨hseen, hrest⟩ i hi hcounted
    by_cases heq : packet.counted = i + 1
    · exact hseen _ ((hlast _).2 ⟨by omega, by rw [heq, Nat.add_sub_cancel]⟩)
    · have hat := hrest (i - packet.counted) (by omega)
      rwa [show packet.counted + (i - packet.counted) = i by omega] at hat

/-- The packets that `handle_server_msg` frames as the protocol says are those that end in
a newline. -/
theorem framedWell_iff (packet : ENetPacket) : packet.FramedWell ↔ packet.Terminated := by
  obtain ⟨reads, hrun, hreads⟩ := staysInside_handleServerMsg packet []
  rw [terminated_iff_getLast, ← completeLines_eq_pieces_iff, seen_append_unseen,
    ENetPacket.FramedWell, hrun, List.nil_append]
  constructor
  · rintro ⟨_, heq, -⟩
    exact Option.some.inj (congrArg Prod.fst heq)
  · intro heq
    exact ⟨reads, by rw [heq], hreads⟩

/-- A command without the optional newline is not passed on. -/
theorem not_framedWell_of_unterminated :
    ¬ ENetPacket.FramedWell ⟨(cstr "YARE 1").memory, 6⟩ := by
  rintro ⟨_, hrun, -⟩
  have hpassed : (ENetPacket.handleServerMsg ⟨(cstr "YARE 1").memory, 6⟩ |>.run []).1 =
      some (pieces (cstr "YARE 1")) := congrArg Prod.fst hrun
  exact absurd hpassed (by decide)

/-- The client carries out the commands that the walk passes on. -/
theorem handleServerMsg_eq_foldlM (c : Client) {packet : ENetPacket}
    (h : packet.dataLength < 2 ^ 31) {passed : List Bytes} {reads : List Access}
    (hrun : packet.handleServerMsg.run [] = (some passed, reads)) :
    handleServerMsg c packet.bytes = passed.foldlM handleServerDecodedMsg c := by
  obtain ⟨reads', hrun', -⟩ := staysInside_handleServerMsg packet []
  have hpassed : completeLines packet.seen = passed :=
    Option.some.inj (congrArg Prod.fst (hrun'.symm.trans hrun))
  rw [handleServerMsg_eq, ← hpassed, ENetPacket.seen, counted_of_lt packet h]
  rfl

end Svc.Svcenet
