import Svc.Lib.Accesses
import Svc.Lib.Machine
import Svc.Svcenet.Audio
import Svc.Svcenet.Client.TableSteps

/-!
# The growth of the table of peers

`scmd_padd` allocates the table by an `int` or by an `unsigned int`, copies it entry by
entry and writes the entry of the new peer.  The module has these loops with every access
to the two arrays, so that it shows for which ids there is an array large enough.
-/

namespace Svc.Svcenet

open Svc.Common Svc.Lib

/-! ## Arrays of peers -/

/-- `sizeof(ClientPeer)`, with pointers of eight bytes -/
def sizeofClientPeer : Nat := 24

/-- A `ClientPeer*` with the entries allocated there; `NULL` is an array of none. -/
structure PeerArray where
  size : Nat
  entry : Nat → ClientPeer

/-- `malloc(sizeof(ClientPeer) * count)`, which returns `NULL` for more than half of the
address space and succeeds otherwise.  The entries are what the memory holds. -/
def mallocPeers (memory : Nat → ClientPeer) (count : Int) : PeerArray :=
  let bytes := ((sizeofClientPeer * count) % 2 ^ 64).toNat
  { size := if bytes < 2 ^ 63 then bytes / sizeofClientPeer else 0, entry := memory }

namespace PeerArray

def read (peers : PeerArray) (i : Nat) : AccessM ClientPeer := do
  touch ⟨i, 1, peers.size⟩
  return peers.entry i

def write (peers : PeerArray) (i : Nat) (assign : ClientPeer → ClientPeer) : AccessM PeerArray := do
  touch ⟨i, 1, peers.size⟩
  return { peers with entry := Function.update peers.entry i (assign (peers.entry i)) }

/-- `for (; i < count; i++)` over the entries that are not in use -/
def initialise (peers : PeerArray) : (rounds : Nat) → (i : Nat) → AccessM PeerArray
  | 0, _ => return peers
  | rounds + 1, i => do
      let peers ← peers.write i fun _ => .new i
      peers.initialise rounds (i + 1)

/-- `for (i = 0; i < client.peers_size; i++) peers[i] = client.peers[i];` -/
def copyFrom (peers old : PeerArray) : (rounds : Nat) → (i : Nat) → AccessM PeerArray
  | 0, _ => return peers
  | rounds + 1, i => do
      let e ← old.read i
      let peers ← peers.write i fun _ => e
      peers.copyFrom old rounds (i + 1)

end PeerArray

/-! ## The table -/

structure PeerTable where
  peers : PeerArray
  peersSize : Int
  nextPeer : SvcPeer

def asUnsigned (n : Int) : Nat := (n % 2 ^ 32).toNat

namespace PeerTable

def empty : PeerTable := ⟨⟨0, fun _ => .new 0⟩, 0, 0⟩

/-- The first half of `scmd_padd` -/
def grow (t : PeerTable) (memory : Nat → ClientPeer) (peerId : Nat) : AccessM PeerTable := do
  let newSize := (peerId + 1) % 2 ^ 32
  if t.peersSize = 0 then
    let peersSize := asInt newSize
    let peers := mallocPeers memory peersSize
    let peers ← peers.initialise (asUnsigned peersSize) 0
    return { t with peers, peersSize }
  else if asUnsigned t.peersSize ≤ peerId then
    let peers := mallocPeers memory newSize
    let oldSize := asUnsigned t.peersSize
    let peers ← peers.copyFrom t.peers oldSize 0
    let peers ← peers.initialise (newSize - oldSize) oldSize
    return { t with peers, peersSize := asInt newSize }
  else return t

/-- The second half of `scmd_padd` -/
def connect (t : PeerTable) (myId peerId : Nat) : AccessM PeerTable := do
  let peers ← t.peers.write peerId fun e => { e with connected := true, data := .live [] }
  if peerId = myId then
    return { t with peers := ← peers.write peerId fun e => { e with peer := none } }
  else
    let peer := t.nextPeer
    return { t with
      peers := ← peers.write peerId fun e => { e with peer := some peer }
      nextPeer := t.nextPeer + 1 }

end PeerTable

structure PaddLine where
  argv : List Bytes
  memory : Nat → ClientPeer

def PeerTable.scmdPadd (myId : Nat) (t : PeerTable) (line : PaddLine) : AccessM PeerTable := do
  match line.argv with
  | [_, id] =>
      let t ← t.grow line.memory (decodePeerId id)
      t.connect myId (decodePeerId id)
  | _ => return t

def paddMachine (myId : Nat) : Machine PeerTable PaddLine (List Access) where
  step t line := (t.scmdPadd myId line).run []

/-! ## What the loops do -/

def PeerArray.filled (peers : PeerArray) (f : Nat → ClientPeer) (i rounds : Nat) : PeerArray :=
  { peers with entry := fun j => if i ≤ j ∧ j < i + rounds then f j else peers.entry j }

section Loops

variable {peers old : PeerArray}

theorem filled_zero (f : Nat → ClientPeer) (i : Nat) : peers.filled f i 0 = peers := by
  have hnone : ∀ j, ¬ (i ≤ j ∧ j < i + 0) := by omega
  simp only [PeerArray.filled, hnone, if_false]

theorem filled_succ (f : Nat → ClientPeer) (i rounds : Nat) :
    peers.filled f i (rounds + 1) =
      PeerArray.filled { peers with entry := Function.update peers.entry i (f i) } f (i + 1)
        rounds := by
  simp only [PeerArray.filled, PeerArray.mk.injEq, true_and]
  funext j
  by_cases hj : j = i
  · subst hj
    rw [if_pos (by omega), if_neg (by omega), Function.update_self]
  · rw [Function.update_of_ne hj]
    split_ifs <;> first | rfl | omega

theorem staysInside_write {i : Nat} (h : i < peers.size) (assign : ClientPeer → ClientPeer) :
    StaysInside (peers.write i assign)
      { peers with entry := Function.update peers.entry i (assign (peers.entry i)) } :=
  .bind (.touch h) (.pure _)

theorem staysInside_read {i : Nat} (h : i < peers.size) :
    StaysInside (peers.read i) (peers.entry i) := .bind (.touch h) (.pure _)

theorem staysInside_initialise {rounds i : Nat} (h : i + rounds ≤ peers.size) :
    StaysInside (peers.initialise rounds i) (peers.filled .new i rounds) := by
  induction rounds generalizing peers i with
  | zero =>
      rw [filled_zero]
      exact .pure _
  | succ rounds ih =>
      rw [filled_succ]
      refine .bind (staysInside_write (by omega) _) (ih ?_)
      simp only
      omega

theorem staysInside_copyFrom {rounds i : Nat} (h : i + rounds ≤ peers.size)
    (hold : i + rounds ≤ old.size) :
    StaysInside (peers.copyFrom old rounds i) (peers.filled old.entry i rounds) := by
  induction rounds generalizing peers i with
  | zero =>
      rw [filled_zero]
      exact .pure _
  | succ rounds ih =>
      rw [filled_succ]
      refine .bind (staysInside_read (by omega)) (.bind (staysInside_write (by omega) _) (ih ?_ ?_))
      · simp only
        omega
      · omega

end Loops

/-! ## What a line does -/

theorem asUnsigned_asInt (n : Nat) : asUnsigned (asInt n) = n % 2 ^ 32 := by
  unfold asUnsigned asInt
  split <;> omega

theorem asInt_eq_zero_iff {n : Nat} (h : n < 2 ^ 32) : asInt n = 0 ↔ n = 0 := by
  unfold asInt
  split <;> omega

/-- `malloc` has room for every count that is not negative. -/
theorem size_mallocPeers (memory : Nat → ClientPeer) {count : Nat} (h : count < 2 ^ 32) :
    (mallocPeers memory count).size = count := by
  have hbytes : ((sizeofClientPeer : Int) * count) % 2 ^ 64 = (24 * count : Nat) := by
    rw [show (sizeofClientPeer : Int) = 24 from rfl, Int.emod_eq_of_lt (by omega) (by omega)]
    push_cast
    rfl
  simp only [mallocPeers, hbytes, Int.toNat_natCast]
  rw [if_pos (by omega), show sizeofClientPeer = 24 from rfl, Nat.mul_div_cancel_left _ (by omega)]

theorem size_mallocPeers_of_neg (memory : Nat → ClientPeer) {count : Int} (hlo : -2 ^ 31 ≤ count)
    (hneg : count < 0) : (mallocPeers memory count).size = 0 := by
  have hbytes : ((sizeofClientPeer : Int) * count) % 2 ^ 64 = 2 ^ 64 + 24 * count := by
    rw [show (sizeofClientPeer : Int) = 24 from rfl, ← Int.add_emod_left,
      Int.emod_eq_of_lt (by omega) (by omega)]
  simp only [mallocPeers, hbytes]
  rw [if_neg (by omega)]

/-- The array has `peers_size` entries, and their ids are their indices. -/
structure PeerTable.Ok (t : PeerTable) : Prop where
  size_lt : t.peers.size < 2 ^ 32
  peersSize : t.peersSize = asInt t.peers.size
  ids : ∀ i < t.peers.size, (t.peers.entry i).id = i

/-- There is an array with an entry of that id: the id is less than `INT_MAX`, or the table
has entries and the id is not the largest one. -/
def PeerTable.HasRoom (t : PeerTable) (peerId : Nat) : Prop :=
  peerId < 2 ^ 31 - 1 ∨ (t.peersSize ≠ 0 ∧ peerId ≠ 2 ^ 32 - 1)

/-- The larger table: the old entries, the new ones, and what the memory held. -/
def PeerTable.enlarged (t : PeerTable) (memory : Nat → ClientPeer) (peerId : Nat) : PeerTable :=
  { t with
    peers :=
      { size := peerId + 1
        entry := fun i =>
          if i < t.peers.size then t.peers.entry i else if i < peerId + 1 then .new i
          else memory i }
    peersSize := asInt (peerId + 1) }

def PeerTable.grown (t : PeerTable) (memory : Nat → ClientPeer) (peerId : Nat) : PeerTable :=
  if t.peers.size ≤ peerId then t.enlarged memory peerId else t

def PeerTable.connected (t : PeerTable) (myId peerId : Nat) : PeerTable :=
  let peer := if peerId = myId then none else some t.nextPeer
  let e := { t.peers.entry peerId with connected := true, data := .live [], peer }
  { t with
    peers := { t.peers with entry := Function.update t.peers.entry peerId e }
    nextPeer := t.nextPeer + peer.toList.length }

section Lines

variable {t : PeerTable}

theorem asUnsigned_peersSize (h : t.Ok) : asUnsigned t.peersSize = t.peers.size := by
  rw [h.peersSize, asUnsigned_asInt, Nat.mod_eq_of_lt h.size_lt]

/-- The loops of both branches fill the larger table. -/
theorem enlarged_eq (memory : Nat → ClientPeer) {peerId : Nat} (hid : peerId + 1 < 2 ^ 32)
    (hle : t.peers.size ≤ peerId) :
    { t with
      peers := ((mallocPeers memory (peerId + 1 : Nat)).filled t.peers.entry 0 t.peers.size).filled
        .new t.peers.size (peerId + 1 - t.peers.size)
      peersSize := asInt (peerId + 1) } = t.enlarged memory peerId := by
  simp only [PeerTable.enlarged, PeerArray.filled, size_mallocPeers memory hid, PeerTable.mk.injEq,
    PeerArray.mk.injEq, true_and, and_true]
  funext i
  by_cases hold : i < t.peers.size
  · rw [if_neg (by omega), if_pos (by omega), if_pos hold]
  · by_cases hnew : i < peerId + 1
    · rw [if_pos (by omega), if_neg hold, if_pos hnew]
    · rw [if_neg (by omega), if_neg (by omega), if_neg hold, if_neg hnew]
      rfl

theorem staysInside_grow (h : t.Ok) (memory : Nat → ClientPeer) {peerId : Nat}
    (hid : peerId < 2 ^ 32) (hroom : t.HasRoom peerId) :
    StaysInside (t.grow memory peerId) (t.grown memory peerId) := by
  have hsize := h.size_lt
  have hzero := asInt_eq_zero_iff hsize
  rw [← h.peersSize] at hzero
  have hold := asUnsigned_peersSize h
  unfold PeerTable.HasRoom at hroom
  have hmod : (peerId + 1) % 2 ^ 32 = peerId + 1 := Nat.mod_eq_of_lt (by omega)
  have hmalloc := size_mallocPeers memory (show peerId + 1 < 2 ^ 32 by omega)
  unfold PeerTable.grow PeerTable.grown
  rw [hold, hmod]
  split_ifs with hnone hlarger hle
  · have hcount : asInt (peerId + 1) = (peerId + 1 : Nat) := by
      unfold asInt
      split <;> omega
    have hinit : StaysInside ((mallocPeers memory (peerId + 1 : Nat)).initialise (peerId + 1) 0)
        ((mallocPeers memory (peerId + 1 : Nat)).filled .new 0 (peerId + 1)) :=
      staysInside_initialise (by omega)
    have heq := enlarged_eq (t := t) memory (show peerId + 1 < 2 ^ 32 by omega) hlarger
    rw [hzero.1 hnone, filled_zero, Nat.sub_zero, hcount] at heq
    have huns : asUnsigned (asInt (peerId + 1)) = peerId + 1 := by rw [asUnsigned_asInt, hmod]
    dsimp only
    rw [huns, hcount, ← heq]
    exact .bind hinit (.pure _)
  · omega
  · rw [← enlarged_eq memory (show peerId + 1 < 2 ^ 32 by omega) hle]
    refine .bind (staysInside_copyFrom (by omega) (by omega)) ?_
    refine .bind (staysInside_initialise ?_) (.pure _)
    simp only [PeerArray.filled]
    omega
  · exact .pure _

theorem staysInside_connect (myId : Nat) {peerId : Nat} (h : peerId < t.peers.size) :
    StaysInside (t.connect myId peerId) (t.connected myId peerId) := by
  have hfirst := staysInside_write h
    fun e => { e with connected := true, data := .live [] }
  unfold PeerTable.connect PeerTable.connected
  split_ifs with hmine
  · refine .bind hfirst (.bind (staysInside_write ?_ _) ?_)
    · exact h
    · simp only [Function.update_self, Function.update_idem]
      exact .pure _
  · refine .bind hfirst (.bind (staysInside_write ?_ _) ?_)
    · exact h
    · simp only [Function.update_self, Function.update_idem]
      exact .pure _

theorem ok_enlarged (h : t.Ok) (memory : Nat → ClientPeer) {peerId : Nat}
    (hid : peerId + 1 < 2 ^ 32) : (t.enlarged memory peerId).Ok where
  size_lt := hid
  peersSize := rfl
  ids i hi := by
    simp only [PeerTable.enlarged] at hi ⊢
    split_ifs with hold
    · exact h.ids i hold
    · rfl

theorem ok_grown (h : t.Ok) (memory : Nat → ClientPeer) {peerId : Nat} (hid : peerId < 2 ^ 32)
    (hroom : t.HasRoom peerId) :
    (t.grown memory peerId).Ok ∧ peerId < (t.grown memory peerId).peers.size := by
  unfold PeerTable.HasRoom at hroom
  unfold PeerTable.grown
  split_ifs with hle
  · exact ⟨ok_enlarged h memory (by omega), Nat.lt_succ_self peerId⟩
  · exact ⟨h, by omega⟩

theorem ok_connected (h : t.Ok) (myId : Nat) {peerId : Nat} (hid : peerId < t.peers.size) :
    (t.connected myId peerId).Ok where
  size_lt := h.size_lt
  peersSize := h.peersSize
  ids i hi := by
    have hold := h.ids i hi
    simp only [PeerTable.connected]
    by_cases hi : i = peerId
    · subst hi
      rwa [Function.update_self]
    · rwa [Function.update_of_ne hi]

theorem entry_connected_of_ne {myId peerId i : Nat} (h : i ≠ peerId) :
    (t.connected myId peerId).peers.entry i = t.peers.entry i := Function.update_of_ne h _ _

theorem entry_grown_of_lt {memory : Nat → ClientPeer} {peerId i : Nat} (h : i < t.peers.size) :
    (t.grown memory peerId).peers.entry i = t.peers.entry i := by
  unfold PeerTable.grown
  split_ifs
  · exact if_pos h
  · rfl

theorem entry_grown_of_le {memory : Nat → ClientPeer} {peerId i : Nat} (h : t.peers.size ≤ i)
    (hlt : i < (t.grown memory peerId).peers.size) :
    (t.grown memory peerId).peers.entry i = .new i := by
  unfold PeerTable.grown at hlt ⊢
  split_ifs at hlt ⊢
  · exact (if_neg (not_lt.2 h)).trans (if_pos hlt)
  · exact absurd hlt (not_lt.2 h)

end Lines

/-! ## Lines for which there is no array -/

section Faults

variable {t : PeerTable} {peers : PeerArray}

theorem size_initialise (rounds i : Nat) (log : List Access) :
    ((peers.initialise rounds i).run log).1.size = peers.size := by
  induction rounds generalizing peers i log with
  | zero => rfl
  | succ rounds ih => exact ih (i + 1) _

theorem size_copyFrom (old : PeerArray) (rounds i : Nat) (log : List Access) :
    ((peers.copyFrom old rounds i).run log).1.size = peers.size := by
  induction rounds generalizing peers i log with
  | zero => rfl
  | succ rounds ih => exact ih (i + 1) _

theorem size_grow_of_not_hasRoom (h : t.Ok) (memory : Nat → ClientPeer) {peerId : Nat}
    (hid : peerId < 2 ^ 32) (hroom : ¬ t.HasRoom peerId) (log : List Access) :
    ((t.grow memory peerId).run log).1.peers.size = 0 := by
  have hsize := h.size_lt
  have hold := asUnsigned_peersSize h
  unfold PeerTable.HasRoom at hroom
  unfold PeerTable.grow
  split_ifs with hnone hlarger
  · refine (size_initialise _ _ _).trans ?_
    by_cases hlast : peerId = 2 ^ 32 - 1
    · rw [hlast]
      exact size_mallocPeers memory (show 0 < 2 ^ 32 by omega)
    · have hneg : asInt ((peerId + 1) % 2 ^ 32) = (peerId : Int) + 1 - 2 ^ 32 := by
        unfold asInt
        split <;> omega
      rw [hneg]
      exact size_mallocPeers_of_neg memory (by omega) (by omega)
  · refine (size_initialise _ _ _).trans ((size_copyFrom _ _ _ _).trans ?_)
    rw [show (peerId + 1) % 2 ^ 32 = 0 by omega]
    exact size_mallocPeers memory (show 0 < 2 ^ 32 by omega)
  · omega

/-- The entry of the new peer is written in any case. -/
theorem mem_connect (myId peerId : Nat) (log : List Access) :
    ⟨peerId, 1, t.peers.size⟩ ∈ ((t.connect myId peerId).run log).2 := by
  have hfirst : ∀ rest, (⟨peerId, 1, t.peers.size⟩ : Access) ∈
      (log ++ [⟨peerId, 1, t.peers.size⟩]) ++ rest := by simp
  unfold PeerTable.connect
  split_ifs
  · exact hfirst [⟨peerId, 1, t.peers.size⟩]
  · exact hfirst [⟨peerId, 1, t.peers.size⟩]

end Faults

/-! ## Runs -/

/-- The line leaves the table as it is if it has not one argument.  Otherwise the table has
an entry of the id, no access was out of bounds, the other old entries are what they were,
the other new ones are not in use, and every entry has its index as its id. -/
def GrowsWell (myId : Nat) (t : PeerTable) (line : PaddLine) : Prop :=
  let after := (paddMachine myId).next t line
  match line.argv with
  | [_, id] =>
      let peerId := decodePeerId id
      peerId < asUnsigned after.peersSize ∧
      (∀ a ∈ (paddMachine myId).out t line, a.InBounds) ∧
      (∀ i < asUnsigned t.peersSize, i ≠ peerId → after.peers.entry i = t.peers.entry i) ∧
      (∀ i, asUnsigned t.peersSize ≤ i → i < asUnsigned after.peersSize → i ≠ peerId →
        (after.peers.entry i).connected = false ∧ (after.peers.entry i).data = .null ∧
          (after.peers.entry i).peer = none) ∧
      ∀ i < asUnsigned after.peersSize, (after.peers.entry i).id = i
  | _ => after = t

def CanGrow (t : PeerTable) (line : PaddLine) : Prop :=
  match line.argv with
  | [_, id] => t.HasRoom (decodePeerId id)
  | _ => True

section Runs

variable {myId : Nat} {t : PeerTable} {line : PaddLine}

/-- A line for which there is room, in closed form. -/
theorem next_of_hasRoom (myId : Nat) (line : PaddLine) (h : t.Ok) {name id : Bytes}
    (hargv : line.argv = [name, id]) (hroom : t.HasRoom (decodePeerId id)) :
    (paddMachine myId).next t line =
        (t.grown line.memory (decodePeerId id)).connected myId (decodePeerId id) ∧
      ∀ a ∈ (paddMachine myId).out t line, a.InBounds := by
  have hlt := decodePeerId_lt id
  have hgrow := staysInside_grow h line.memory hlt hroom
  have hconnect := staysInside_connect myId (ok_grown h line.memory hlt hroom).2
  have hall : StaysInside (t.scmdPadd myId line)
      ((t.grown line.memory (decodePeerId id)).connected myId (decodePeerId id)) := by
    unfold PeerTable.scmdPadd
    rw [hargv]
    exact .bind hgrow hconnect
  obtain ⟨accesses, hrun, hin⟩ := hall []
  have hstep : (paddMachine myId).step t line = (_, [] ++ accesses) := hrun
  rw [Machine.next, Machine.out, hstep]
  exact ⟨rfl, hin⟩

theorem paddMachine_of_argv_ne (hargv : ∀ name id, line.argv ≠ [name, id]) :
    (paddMachine myId).step t line = (t, []) := by
  change (t.scmdPadd myId line).run [] = (t, [])
  unfold PeerTable.scmdPadd
  split
  · exact absurd ‹_› (hargv _ _)
  · rfl

theorem ok_next (myId : Nat) (h : t.Ok) (hcan : CanGrow t line) :
    ((paddMachine myId).next t line).Ok := by
  unfold CanGrow at hcan
  split at hcan
  · rename_i name id hargv
    obtain ⟨hok, hid⟩ := ok_grown h line.memory (decodePeerId_lt id) hcan
    rw [(next_of_hasRoom myId line h hargv hcan).1]
    exact ok_connected hok myId hid
  · rename_i hargv
    rw [Machine.next, paddMachine_of_argv_ne hargv]
    exact h

theorem growsWell_of_canGrow (h : t.Ok) (hcan : CanGrow t line) : GrowsWell myId t line := by
  have hok := ok_next myId h hcan
  unfold CanGrow at hcan
  unfold GrowsWell
  split
  · rename_i name id hargv
    rw [hargv] at hcan
    obtain ⟨hnext, hin⟩ := next_of_hasRoom myId line h hargv hcan
    have hid := (ok_grown h line.memory (decodePeerId_lt id) hcan).2
    dsimp only
    rw [asUnsigned_peersSize hok, asUnsigned_peersSize h]
    refine ⟨?_, hin, fun i hi hne => ?_, fun i hi hlt hne => ?_, hok.ids⟩
    · rwa [hnext]
    · rw [hnext, entry_connected_of_ne hne, entry_grown_of_lt hi]
    · rw [hnext] at hlt ⊢
      rw [entry_connected_of_ne hne, entry_grown_of_le hi hlt]
      exact ⟨rfl, rfl, rfl⟩
  · rename_i hargv
    rw [Machine.next, paddMachine_of_argv_ne hargv]

theorem canGrow_of_growsWell (h : t.Ok) (hwell : GrowsWell myId t line) : CanGrow t line := by
  unfold GrowsWell at hwell
  unfold CanGrow
  split
  · rename_i name id hargv
    rw [hargv] at hwell
    obtain ⟨-, hin, -⟩ := hwell
    by_contra hroom
    have hsize := size_grow_of_not_hasRoom h line.memory (decodePeerId_lt id) hroom []
    have hlast : (⟨decodePeerId id, 1, 0⟩ : Access) ∈ (paddMachine myId).out t line := by
      have hmem := mem_connect (t := ((t.grow line.memory (decodePeerId id)).run []).1) myId
        (decodePeerId id) ((t.grow line.memory (decodePeerId id)).run []).2
      rw [hsize] at hmem
      simp only [Machine.out, paddMachine, PeerTable.scmdPadd, hargv]
      exact hmem
    have hbound := (Access.inBounds_iff _).1 (hin _ hlast)
    simp at hbound
  · trivial

theorem ok_empty : PeerTable.empty.Ok where
  size_lt := by decide
  peersSize := rfl
  ids i hi := absurd hi (Nat.not_lt_zero i)

/-- The runs of `PADD` lines in which every line grows the table as it should are those in
which every id is from 0 to `INT_MAX - 1`, or any but the largest `unsigned int` once the
table has entries. -/
theorem growsWell_iff (myId : Nat) (lines : List PaddLine) :
    (paddMachine myId).Guarded (GrowsWell myId) .empty lines ↔
      (paddMachine myId).Guarded CanGrow .empty lines :=
  (paddMachine myId).guarded_congr (I := PeerTable.Ok) (fun _ _ h hcan => ok_next myId h hcan)
    (fun _ _ h => ⟨canGrow_of_growsWell h, growsWell_of_canGrow h⟩) ok_empty lines

/-- The id -1 takes the place behind the last one that an `unsigned int` counts. -/
theorem not_growsWell_of_minus_one :
    ¬ GrowsWell 0 .empty ⟨[cstr "PADD", cstr "-1"], fun _ => .new 0⟩ := by
  rintro ⟨hlt, -⟩
  exact absurd hlt (by decide)

end Runs

/-! ## The client's table -/

structure PeerTable.Represents (t : PeerTable) (c : Client) : Prop where
  peersSize : c.peersSize = t.peers.size
  peers : c.peers = Block.first t.peers.entry t.peers.size
  nextPeer : c.nextPeer = t.nextPeer

section Client

variable {t : PeerTable} {c : Client} {leaked : List SvcPeer}

theorem first_update (f : Nat → ClientPeer) (i n : Nat) (e : ClientPeer) :
    Block.first (Function.update f i e) n = (Block.first f n).set i e := by
  refine List.ext_getElem (by simp) fun j hj _ => ?_
  simp only [Block.first, List.getElem_map, List.getElem_range, List.getElem_set]
  by_cases hji : i = j
  · subst hji
    rw [Function.update_self, if_pos rfl]
  · rw [Function.update_of_ne (Ne.symm hji), if_neg hji]

theorem hasRoom_iff_fits (h : t.Ok) (hrep : t.Represents c) {peerId : Nat}
    (hid : peerId < 2 ^ 32) : t.HasRoom peerId ↔ c.Fits peerId := by
  have hsize := h.size_lt
  have hzero : t.peersSize = 0 ↔ t.peers.size = 0 := by
    rw [h.peersSize]
    exact asInt_eq_zero_iff hsize
  rw [PeerTable.HasRoom, Client.Fits, hrep.peersSize, ne_eq, hzero]
  omega

theorem represents_grown (hrep : t.Represents c) (memory : Nat → ClientPeer) (peerId : Nat) :
    (t.grown memory peerId).Represents (c.grown peerId) := by
  unfold PeerTable.grown
  split_ifs with hle
  · refine ⟨?_, ?_, hrep.nextPeer⟩
    · simp only [Client.grown, PeerTable.enlarged, hrep.peersSize]
      omega
    · have hold : Block.first (t.enlarged memory peerId).peers.entry t.peers.size =
          Block.first t.peers.entry t.peers.size :=
        Block.first_congr fun i hi => if_pos hi
      have hnew : ∀ k < peerId + 1 - t.peers.size,
          (t.enlarged memory peerId).peers.entry (t.peers.size + k) = .new (t.peers.size + k) :=
        fun k hk => (if_neg (by omega)).trans (if_pos (by omega))
      have hadd := Block.first_add (t.enlarged memory peerId).peers.entry t.peers.size
        (peerId + 1 - t.peers.size)
      rw [show t.peers.size + (peerId + 1 - t.peers.size) = peerId + 1 by omega, hold,
        Block.first_congr hnew] at hadd
      simp only [Client.grown, hrep.peersSize, hrep.peers]
      rw [show (t.enlarged memory peerId).peers.size = peerId + 1 from rfl, hadd, Block.first,
        List.range'_eq_map_range, List.map_map]
      rfl
  · have hnone : peerId + 1 - t.peers.size = 0 := by omega
    refine ⟨?_, ?_, hrep.nextPeer⟩
    · simp only [Client.grown, hrep.peersSize]
      omega
    · simp only [Client.grown, hrep.peersSize, hnone, List.range'_zero, List.map_nil,
        List.append_nil, hrep.peers]

theorem represents_connected (hrep : t.Represents c) {peerId : Nat} {e : ClientPeer}
    (he : c.peers[peerId]? = some e) :
    (t.connected c.myId peerId).Represents (c.added peerId e) := by
  have hentry : t.peers.entry peerId = e := by
    rw [hrep.peers, Block.first, List.getElem?_map, Option.map_eq_some_iff] at he
    obtain ⟨i, hi, he⟩ := he
    rwa [← (List.getElem?_eq_some_iff.1 hi).2, List.getElem_range] at he
  refine ⟨hrep.peersSize, ?_, ?_⟩
  · simp only [PeerTable.connected, Client.added, first_update, hrep.peers, hentry, hrep.nextPeer]
  · simp only [PeerTable.connected, Client.added, hrep.nextPeer]

/-- Where there is room, the loops do to the client's table what `scmd_padd` does in the
model on lists, and elsewhere that model has a fault. -/
theorem scmdPadd_represents (h : t.Ok) (htable : c.TableOk leaked) (hrep : t.Represents c)
    (cmd name id : Bytes) (memory : Nat → ClientPeer) :
    (t.HasRoom (decodePeerId id) →
      ∃ c', scmdPadd c cmd [name, id] = .ok c' ∧
        ((paddMachine c.myId).next t ⟨[name, id], memory⟩).Represents c') ∧
    (¬ t.HasRoom (decodePeerId id) → ∃ fault, scmdPadd c cmd [name, id] = .error fault) := by
  have hfits := hasRoom_iff_fits h hrep (decodePeerId_lt id)
  constructor
  · intro hroom
    obtain ⟨e, he⟩ := exists_grown htable (decodePeerId id)
    have hgrown := represents_grown hrep memory (decodePeerId id)
    have hadded := represents_connected hgrown he
    have hnext := (next_of_hasRoom c.myId ⟨[name, id], memory⟩ h rfl hroom).1
    refine ⟨_, scmdPadd_eq htable cmd name (hfits.1 hroom) he, ?_⟩
    rw [hnext]
    exact ⟨hadded.peersSize, hadded.peers, hadded.nextPeer⟩
  · intro hroom
    exact scmdPadd_fault cmd name (mt hfits.2 hroom)

end Client

end Svc.Svcenet
