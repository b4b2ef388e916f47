import Svc.Lib.Fallible
import Svc.Svcenet.Server.Slots

/-!
# Giving out and taking back slots

As long as the ten slots of the first table suffice, `get_new_peer` and `free_peer` keep
the table, its size, the count and the empty flags in step.  The table never grows: the
larger one that `get_new_peer` fills is not assigned to `peers`.
-/

namespace Svc.Svcenet

open Svc.Common Svc.Lib

inductive SlotEvent where
  | getNewPeer
  | freePeer (peerId : Nat)
  /-- the owner of a slot writes its entry -/
  | write (peerId : Nat) (occupant : Occupant)

def handleSlotEvent (s : Server) : SlotEvent → Except Fault Server
  | .getNewPeer => do
      let (_, s) ← getNewPeer s
      return s
  | .freePeer peerId => do
      let (_, s) ← freePeer s peerId
      return s
  | .write peerId occupant => .ok (s.setOccupant peerId (some occupant))

def slotMachine : Machine (Except Fault Server) SlotEvent Unit := .fallible handleSlotEvent

def slotsAfter (events : List SlotEvent) : Except Fault Server :=
  slotMachine.run (.ok .init) events

/-- `peers_size` is the number of entries that there are, each of which has its id, and
`peers_count` the number of those that are not empty. -/
structure Server.InStep (s : Server) : Prop where
  peersSize_eq : s.peersSize = s.peers.length
  id_eq : ∀ (i : Nat) (p : Peer), s.peers[i]? = some p → p.id = i
  peersCount_eq : s.peersCount = s.occupiedCount

/-- The call gives out or takes back one slot and leaves the others alone. -/
def DoneRight (s s' : Server) : SlotEvent → Prop
  | .getNewPeer =>
      ∃ peerId, getNewPeer s = .ok (peerId, s') ∧ peerId < s'.peers.length ∧
        s.occupantAt peerId = none ∧ (s'.peers[peerId]?.map Peer.id) = some peerId ∧
        s'.occupantAt = Function.update s.occupantAt peerId (some ⟨none, [], []⟩)
  | .freePeer peerId => s'.occupantAt = Function.update s.occupantAt peerId none
  | .write peerId occupant => s'.occupantAt = Function.update s.occupantAt peerId (some occupant)

/-- Only slots that were given out and not taken back are taken back or written. -/
def UsesLive (s : Server) : SlotEvent → Prop
  | .getNewPeer => True
  | .freePeer peerId | .write peerId _ => s.occupantAt peerId ≠ none

def FewLive (s : Server) : SlotEvent → Prop
  | .getNewPeer => s.occupiedCount < 10
  | .freePeer _ | .write _ _ => True

section Steps

variable {s : Server}

theorem inStep (h : s.TableOk) : s.InStep := ⟨h.peersSize_eq, h.id_eq, h.peersCount_eq⟩

theorem tableOk_init : Server.init.TableOk := ⟨.inl rfl, rfl, nofun, rfl⟩

theorem occupiedCount_le (s : Server) : s.occupiedCount ≤ s.peers.length := List.countP_le_length

/-- Without an empty slot the new entry is written behind the table. -/
theorem getNewPeer_fault (h : s.TableOk) (hfull : ¬ s.occupiedCount < 10) :
    getNewPeer s = .error .outOfBounds := by
  have hle := occupiedCount_le s
  have hlen : s.peers.length = 10 := by
    rcases h.length_eq with hzero | hten
    · omega
    · exact hten
  have hsize := h.peersSize_eq
  have hcount := h.peersCount_eq
  have hten : s.peersCount = 10 := by omega
  rw [getNewPeer, if_neg (by omega), if_pos (by omega), occupySlot, if_neg]
  rw [hten]
  exact hlen.le.not_gt

/-- Every step of a table that has room goes as it should. -/
theorem handleSlotEvent_ok (h : s.TableOk) {e : SlotEvent} (huses : UsesLive s e)
    (hfew : FewLive s e) :
    ∃ s', handleSlotEvent s e = .ok s' ∧ s'.TableOk ∧ DoneRight s s' e := by
  cases e with
  | getNewPeer =>
      obtain ⟨i, s', hget, hi, hnone, hset⟩ := getNewPeer_spec h hfew
      have hlt : i < s'.peers.length := hset.length_eq ▸ hi
      have hid := hset.tableOk.id_eq i _ (List.getElem?_eq_getElem hlt)
      refine ⟨s', ?_, hset.tableOk, i, hget, hlt, hnone, ?_, hset.occupantAt_eq⟩
      · simp only [handleSlotEvent, hget]
        rfl
      · rw [List.getElem?_eq_getElem hlt, Option.map_some, hid]
  | freePeer peerId =>
      obtain ⟨o, ho⟩ := Option.ne_none_iff_exists'.1 huses
      obtain ⟨s', hfree, hset⟩ := freePeer_spec h ho
      refine ⟨s', ?_, hset.tableOk, hset.occupantAt_eq⟩
      simp only [handleSlotEvent, hfree]
      rfl
  | write peerId occupant =>
      obtain ⟨o, ho⟩ := Option.ne_none_iff_exists'.1 huses
      have hlt := lt_length_of_occupantAt ho
      refine ⟨_, rfl, ?_, occupantAt_setOccupant_eq_update hlt _⟩
      exact tableOk_setOccupant h hlt (some occupant) s.peersCount (by simp [ho])

theorem inStep_step (h : s.TableOk) {e : SlotEvent} (huses : UsesLive s e) :
    (FewLive s e → ∃ s', handleSlotEvent s e = .ok s' ∧ s'.TableOk ∧ s'.InStep) ∧
      (¬ FewLive s e → ∀ s', handleSlotEvent s e = .ok s' → ¬ s'.InStep) := by
  constructor
  · intro hfew
    obtain ⟨s', hs', htable, -⟩ := handleSlotEvent_ok h huses hfew
    exact ⟨s', hs', htable, inStep htable⟩
  · intro hfull s' hs'
    cases e with
    | getNewPeer =>
        simp only [handleSlotEvent, getNewPeer_fault h hfull] at hs'
        cases hs'
    | freePeer | write => exact absurd trivial hfull

end Steps

/-- The table stays in step and every call is done right exactly if no slot is asked for
while ten are given out. -/
theorem slotAllocation_iff {events : List SlotEvent}
    (huses : slotMachine.Guarded (Machine.OnOk UsesLive) (.ok .init) events) :
    ((∀ pre, pre <+: events → ∃ s, slotsAfter pre = .ok s ∧ s.InStep) ∧
        ∀ pre e, pre ++ [e] <+: events →
          ∃ s s', slotsAfter pre = .ok s ∧ handleSlotEvent s e = .ok s' ∧ DoneRight s s' e) ↔
      slotMachine.Guarded (Machine.OnOk FewLive) (.ok .init) events := by
  have hinStep := Machine.forall_prefix_ok_iff_guarded (I := Server.TableOk) (P := Server.InStep)
    huses tableOk_init (inStep tableOk_init) fun _ _ h _ he => inStep_step h he
  refine ⟨fun h => hinStep.1 h.1, fun hfew => ⟨hinStep.2 hfew, fun pre e hpre => ?_⟩⟩
  have hboth := Machine.guarded_of_prefix _ hpre (Machine.guarded_onOk_and.2 ⟨huses, hfew⟩)
  obtain ⟨hguard, he⟩ := (Machine.guarded_concat _ _ _ _ _).1 hboth
  obtain ⟨s, hrun, htable⟩ := Machine.exists_run_of_guarded (I := Server.TableOk)
    (fun s e h he => by
      obtain ⟨s', hs', htable, -⟩ := handleSlotEvent_ok h he.1 he.2
      exact ⟨s', hs', htable⟩) tableOk_init hguard
  rw [hrun, Machine.onOk_ok] at he
  obtain ⟨s', hs', -, hdone⟩ := handleSlotEvent_ok htable he.1 he.2
  exact ⟨s, s', hrun, hs', hdone⟩

/-- A slot is given out, taken back and given out again. -/
theorem slotAllocation_again :
    ((∀ pre, pre <+: [.getNewPeer, .freePeer 0, .getNewPeer] →
        ∃ s, slotsAfter pre = .ok s ∧ s.InStep) ∧
      ∀ pre e, pre ++ [e] <+: [.getNewPeer, .freePeer 0, .getNewPeer] →
        ∃ s s', slotsAfter pre = .ok s ∧ handleSlotEvent s e = .ok s' ∧ DoneRight s s' e) ↔
    slotMachine.Guarded (Machine.OnOk FewLive) (.ok .init)
      [.getNewPeer, .freePeer 0, .getNewPeer] := by
  refine slotAllocation_iff ⟨fun _ _ => trivial, ?_, fun _ _ => trivial, trivial⟩
  rintro s hs
  cases hs
  nofun

/-- The eleventh slot is outside the table. -/
theorem eleventh_slot_outOfBounds :
    slotsAfter (List.replicate 11 .getNewPeer) = .error .outOfBounds := rfl

end Svc.Svcenet
