import Svc.Lib.Raising
import Svc.Svcenet.Audio
import Svc.Svcenet.Replicated

/-!
# The scripts of `main.tcl`

The server calls a script when a peer connects or disconnects, for each audio packet that it
accepts and from time to time.  The scripts read and write the dictionaries of the peers through
commands, and a script that raises an error leaves what it did before.  What Jim's `expr` makes
of strings is a parameter.
-/

namespace Svc.Svcenet

open Svc.Common Svc.Lib RaiseM

/-! ## Expressions -/

/-- What expressions make of the strings in them -/
structure JimExpr where
  Number : Type
  /-- the number that a string is, if it is one -/
  number : Bytes → Option Number
  numbersEqual : Number → Number → Bool
  greater : Bytes → Bytes → Bool
  /-- a string as a condition, or the error -/
  truth : Bytes → Except String Bool

namespace JimExpr

/-- `a == b` compares numbers if both strings are numbers. -/
def equal (E : JimExpr) (a b : Bytes) : Bool :=
  match E.number a, E.number b with
  | some x, some y => E.numbersEqual x y
  | _, _ => a = b

/-- `0` and `1` are conditions. -/
structure Lawful (E : JimExpr) : Prop where
  truth_zero : E.truth (cstr "0") = .ok false
  truth_one : E.truth (cstr "1") = .ok true

/-- Slots, as far as they are among `W`, are equal if their numbers are. -/
structure ComparesSlots (E : JimExpr) (W : Nat → Prop) : Prop extends E.Lawful where
  equal_decimal : ∀ m n, W m → W n → E.equal (decimal m) (decimal n) = decide (m = n)

/-- Times are compared by their values, as far as they are among `W`; a `jim_wide` has 64 bits. -/
structure ComparesTimes (E : JimExpr) (W : Int → Prop) : Prop extends E.Lawful where
  greater_decimal : ∀ m n, W m → W n →
    E.greater (decimalInt m) (decimalInt n) = decide (m > n)

end JimExpr

theorem nulFree_decimalInt (n : Int) : 0 ∉ decimalInt n := by
  rw [decimalInt]
  split_ifs
  · rw [List.mem_cons, not_or]
    exact ⟨by decide, nulFree_decimal _⟩
  · exact nulFree_decimal _

theorem bytes_decimalInt (n : Int) : (asCString (decimalInt n)).bytes = decimalInt n :=
  asCString_of_nulFree (nulFree_decimalInt n)

def integerOf (value : Bytes) : Option Int :=
  match value with
  | [] => none
  | b :: digits =>
      if b = chr '-' then
        if digits ≠ [] ∧ digits.all isDigit then some (-leadingDigits digits) else none
      else if (b :: digits).all isDigit then some (leadingDigits (b :: digits))
      else none

/-- Expressions without other numbers than integers -/
def integerExpr : JimExpr where
  Number := Int
  number := integerOf
  numbersEqual m n := m = n
  greater a b :=
    match integerOf a, integerOf b with
    | some m, some n => m > n
    | _, _ => b < a
  truth value :=
    match integerOf value with
    | some n => .ok (n ≠ 0)
    | none => .error "expected a condition"

theorem all_isDigit_decimal (n : Nat) : (decimal n).all isDigit = true :=
  List.all_eq_true.2 fun _ hb => isDigit_of_mem_decimal hb

theorem integerOf_decimal (n : Nat) : integerOf (decimal n) = some (n : Int) := by
  have hall := all_isDigit_decimal n
  have hvalue := leadingDigits_decimal n
  cases hd : decimal n with
  | nil => exact absurd hd (decimal_ne_nil n)
  | cons b digits =>
      rw [hd] at hall hvalue
      have hb : isDigit b = true := List.all_eq_true.1 hall b List.mem_cons_self
      rw [integerOf, if_neg (not_special_of_isDigit hb).2.1, if_pos hall, hvalue]

theorem integerOf_decimalInt (n : Int) : integerOf (decimalInt n) = some n := by
  rw [decimalInt]
  split_ifs with hn
  · rw [integerOf, if_pos rfl, if_pos ⟨decimal_ne_nil _, all_isDigit_decimal _⟩,
      leadingDigits_decimal, Option.some.injEq]
    omega
  · rw [integerOf_decimal, Option.some.injEq]
    omega

theorem lawful_integerExpr : integerExpr.Lawful where
  truth_zero := by rfl
  truth_one := by rfl

theorem comparesSlots_integerExpr (W : Nat → Prop) : integerExpr.ComparesSlots W where
  toLawful := lawful_integerExpr
  equal_decimal m n _ _ := by
    simp only [JimExpr.equal, integerExpr, integerOf_decimal, Int.natCast_inj]

theorem comparesTimes_integerExpr (W : Int → Prop) : integerExpr.ComparesTimes W where
  toLawful := lawful_integerExpr
  greater_decimal m n _ _ := by simp only [integerExpr, integerOf_decimalInt]

/-! ## Commands -/

abbrev AudioSend := Nat × Option ENetPeer × ENetPacket

structure Interp where
  server : Server
  /-- `audio_packet_data` and `audio_packet_length`; `none` is `NULL` -/
  audioPacket : Option ENetPacket
  /-- what `sendaudio` sent -/
  sent : List AudioSend

abbrev ScriptM := RaiseM String Interp

def cmdPeerget (s : Server) (type : CString) (peerId : Option Int) (key : CString) :
    Except String Bytes :=
  if type.bytes ≠ cstr "priv" ∧ type.bytes ≠ cstr "pub" then
    .error "peerget argument 1 should be 'pub' or 'priv'"
  else
    match peerId with
    | none => .error "peerget argument 2 should be an integer peer ID"
    | some peerId =>
        match (if 0 ≤ peerId ∧ peerId < s.peersSize then s.occupantAt peerId.toNat else none) with
        | none => .error "peerget argument 2: peer doesn't exist "
        | some occupant =>
            if type.bytes = cstr "priv" then .ok (ddGet occupant.privData key)
            else .ok (ddGet occupant.pubData key)

def cmdPeersList (s : Server) : List Nat := s.occupants.map Prod.fst

def literal (s : String) : CString := asCString (cstr s)

def pub : CString := literal "pub"

def priv : CString := literal "priv"

section Script

variable (E : JimExpr)

def peerget (type : CString) (peer : Nat) (key : CString) : ScriptM Bytes := do
  match cmdPeerget (← get).server type (some peer) key with
  | .ok value => return value
  | .error msg => throw msg

def peerset (type : CString) (peer : Nat) (key value : CString) : ScriptM Unit := do
  let interp ← get
  match cmdPeerset interp.server type (some peer) key value with
  | .ok server => set { interp with server }
  | .error msg => throw msg

def peersList : ScriptM (List Nat) := return cmdPeersList (← get).server

def sendaudio (peer : Nat) : ScriptM Unit := do
  let interp ← get
  match cmdSendaudio interp.server interp.audioPacket (some peer) with
  | .ok (target, packet) => set { interp with sent := interp.sent ++ [(peer, target, packet)] }
  | .error msg => throw msg

/-- A string as the condition of an `if` -/
def condition (value : Bytes) : ScriptM Bool :=
  match E.truth value with
  | .ok b => return b
  | .error msg => throw msg

/-! ## `main.tcl` -/

def nickKey : CString := literal "NICK"
def channelKey : CString := literal "CHANNEL"
def mutedKey : CString := literal "MUTED"
def deafenKey : CString := literal "DEAFEN"
def speakingKey : CString := literal "SPEAKING"
def adminKey : CString := literal "ADMIN"
def speakingTimeoutKey : CString := literal "SPEAKING_TIMEOUT"

/-- `on_peer_connect`, without what it prints -/
def onPeerConnect (defaultChannel : CString) (peer : Nat) : ScriptM Int := do
  let nick := asCString (cstr "Unknown" ++ decimal peer)
  peerset pub peer nickKey nick
  peerset pub peer channelKey defaultChannel
  peerset pub peer mutedKey (literal "0")
  peerset pub peer deafenKey (literal "0")
  peerset pub peer speakingKey (literal "0")
  peerset pub peer adminKey (literal "0")
  return 1

def onPeerDisconnect (peer : Nat) : ScriptM Unit := do
  let _ ← peerget pub peer nickKey

def channelPeers (channel : Bytes) : ScriptM (List Nat) := do
  let peers ← peersList
  peers.foldlM (fun cpeers peer => do
    if E.equal (← peerget pub peer channelKey) channel then return cpeers ++ [peer]
    else return cpeers) []

/-- The body of the `foreach` of `on_audio_packet` -/
def passOn (peer p : Nat) : ScriptM Unit := do
  if E.equal (decimal peer) (decimal p) then return
  if ← condition E (← peerget pub p deafenKey) then return
  sendaudio p

/-- `on_audio_packet`, where `[millitime]` is `time` -/
def onAudioPacket (speakTime time : Int) (peer : Nat) : ScriptM Unit := do
  if ← condition E (← peerget pub peer mutedKey) then return
  let peers ← channelPeers E (← peerget pub peer channelKey)
  peerset priv peer speakingTimeoutKey (asCString (decimalInt (time + speakTime)))
  if !(← condition E (← peerget pub peer speakingKey)) then
    peerset pub peer speakingKey (literal "1")
  peers.forM (passOn E peer)

/-- The body of the `foreach` of `on_logic` -/
def stopSpeaking (time : Int) (p : Nat) : ScriptM Unit := do
  if ← condition E (← peerget pub p speakingKey) then
    if E.greater (decimalInt time) (← peerget priv p speakingTimeoutKey) then
      peerset pub p speakingKey (literal "0")

/-- `on_logic`, where `[millitime]` is `times p` for the peer `p` -/
def onLogic (times : Nat → Int) : ScriptM Unit := do
  let peers ← peersList
  peers.forM fun p => stopSpeaking E (times p) p

def Server.afterScript {α : Type} (s : Server) (x : ScriptM α) : Server :=
  (exec x ⟨s, none, []⟩).2.server

/-- `handle_packet_input_audio`: the server after it, and what was sent -/
def handlePacketInputAudio (speakTime time : Int) (s : Server) (peerId : Nat)
    (packet : ENetPacket) : Server × List AudioSend :=
  match decodeAudioPacket peerId packet with
  | .error _ => (s, [])
  | .ok audioPacket =>
      let interp := (exec (onAudioPacket E speakTime time peerId) ⟨s, some audioPacket, []⟩).2
      (interp.server, interp.sent)

end Script

/-! ## What the commands do -/

def Server.Sized (s : Server) : Prop := s.peersSize = s.peers.length

def Occupant.setPub (o : Occupant) (key value : CString) : Occupant :=
  { o with pubData := ddSet o.pubData key value }

def Occupant.setPriv (o : Occupant) (key value : CString) : Occupant :=
  { o with privData := ddSet o.privData key value }

def Interp.setOccupant (i : Interp) (p : Nat) (o : Occupant) : Interp :=
  { i with server := i.server.setOccupant p (some o) }

section Fields

variable (o : Occupant) (k key value : CString)

theorem ddGet_eq (dd : DataDict) (key : CString) : ddGet dd key = (ddValue dd key).getD [] := by
  rw [ddGet, ddValue]
  cases Dict.find DataDictNode.key key dd <;> rfl

theorem ddGet_ddSet (dd : DataDict) (k key value : CString) :
    ddGet (ddSet dd key value) k = if k = key then value.bytes else ddGet dd k := by
  rw [ddGet_eq, ddValue_ddSet, Function.update_apply]
  split_ifs
  · rfl
  · rw [ddGet_eq]

@[simp] theorem Occupant.ddGet_setPub :
    ddGet (o.setPub key value).pubData k = if k = key then value.bytes else ddGet o.pubData k :=
  ddGet_ddSet o.pubData k key value

@[simp] theorem Occupant.ddValue_setPriv :
    ddValue (o.setPriv key value).privData =
      Function.update (ddValue o.privData) key (some value.bytes) :=
  ddValue_ddSet o.privData key value

variable (i : Interp) (p : Nat)

@[simp] theorem Interp.server_setOccupant :
    (i.setOccupant p o).server = i.server.setOccupant p (some o) := rfl

end Fields

section Commands

variable {i : Interp} {p : Nat} {o : Occupant} {key value : CString}

theorem sized_setOccupant {s : Server} (hs : s.Sized) (p : Nat) (o : Option Occupant) :
    (s.setOccupant p o).Sized :=
  hs.trans (length_peers_setOccupant p o).symm

theorem occupantAt_setOccupant_self {s : Server} (ho : s.occupantAt p = some o)
    (o' : Option Occupant) : (s.setOccupant p o').occupantAt p = o' := by
  rw [occupantAt_setOccupant_eq_update (lt_length_of_occupantAt ho), Function.update_self]

theorem setOccupant_self {s : Server} (ho : s.occupantAt p = some o) :
    s.setOccupant p (some o) = s := by
  have hpeers : (s.peers.modify p fun entry => { entry with occupant := some o }) = s.peers := by
    refine List.ext_getElem? fun j => ?_
    rw [List.getElem?_modify]
    obtain ⟨entry, hentry, hoccupant⟩ := getElem?_of_occupantAt ho
    by_cases hj : p = j
    · subst hj
      rw [hentry, ← hoccupant]
      simp
    · simp [hj]
  rw [Server.setOccupant, hpeers]

theorem setOccupant_setOccupant (s : Server) (p : Nat) (o o' : Option Occupant) :
    (s.setOccupant p o).setOccupant p o' = s.setOccupant p o' := by
  simp [Server.setOccupant, List.modify_modify_eq, Function.comp_def]

/-- The check that the commands make of a peer id finds the slot. -/
theorem occupantAt_checked {s : Server} (hs : s.Sized) (p : Nat) :
    (if 0 ≤ (p : Int) ∧ (p : Int) < s.peersSize then s.occupantAt (p : Int).toNat else none) =
      s.occupantAt p := by
  split_ifs with hp
  · rfl
  · have hlength : s.peers.length ≤ p := by
      have hs : s.peersSize = s.peers.length := hs
      omega
    rw [Server.occupantAt, List.getElem?_eq_none hlength]
    rfl

theorem exec_peerget_pub (hs : i.server.Sized) (ho : i.server.occupantAt p = some o) :
    exec (peerget pub p key) i = (.ok (ddGet o.pubData key), i) := by
  have hget : cmdPeerget i.server pub (some (p : Int)) key = .ok (ddGet o.pubData key) := by
    rw [cmdPeerget, if_neg (by decide)]
    simp only [occupantAt_checked hs, ho]
    rfl
  rw [peerget, exec_bind_ok (exec_get i), hget]
  exact exec_pure _ i

theorem exec_peerget_priv (hs : i.server.Sized) (ho : i.server.occupantAt p = some o) :
    exec (peerget priv p key) i = (.ok (ddGet o.privData key), i) := by
  have hget : cmdPeerget i.server priv (some (p : Int)) key = .ok (ddGet o.privData key) := by
    rw [cmdPeerget, if_neg (by decide)]
    simp only [occupantAt_checked hs, ho]
    rfl
  rw [peerget, exec_bind_ok (exec_get i), hget]
  exact exec_pure _ i

theorem exec_peerset_pub (hs : i.server.Sized) (ho : i.server.occupantAt p = some o) :
    exec (peerset pub p key value) i = (.ok (), i.setOccupant p (o.setPub key value)) := by
  have hset : cmdPeerset i.server pub (some (p : Int)) key value =
      .ok (i.server.setOccupant p (some (o.setPub key value))) := by
    rw [cmdPeerset, if_neg (by decide)]
    simp only [occupantAt_checked hs, ho]
    rfl
  rw [peerset, exec_bind_ok (exec_get i), hset]
  exact exec_set i _

theorem exec_peerset_priv (hs : i.server.Sized) (ho : i.server.occupantAt p = some o) :
    exec (peerset priv p key value) i = (.ok (), i.setOccupant p (o.setPriv key value)) := by
  have hset : cmdPeerset i.server priv (some (p : Int)) key value =
      .ok (i.server.setOccupant p (some (o.setPriv key value))) := by
    rw [cmdPeerset, if_neg (by decide)]
    simp only [occupantAt_checked hs, ho]
    rfl
  rw [peerset, exec_bind_ok (exec_get i), hset]
  exact exec_set i _

theorem exec_sendaudio {packet : ENetPacket} (hs : i.server.Sized)
    (ho : i.server.occupantAt p = some o) (hpacket : i.audioPacket = some packet) :
    exec (sendaudio p) i = (.ok (), { i with sent := i.sent ++ [(p, o.peer, packet)] }) := by
  have hsend : cmdSendaudio i.server i.audioPacket (some (p : Int)) = .ok (o.peer, packet) := by
    rw [cmdSendaudio]
    simp only [occupantAt_checked hs, ho, hpacket]
  rw [sendaudio, exec_bind_ok (exec_get i), hsend]
  exact exec_set i _

theorem exec_condition {E : JimExpr} {value : Bytes} {b : Bool} (h : E.truth value = .ok b) :
    exec (condition E value) i = (.ok b, i) := by
  rw [condition, h]
  exact exec_pure b i

theorem exec_condition_error {E : JimExpr} {value : Bytes} {msg : String}
    (h : E.truth value = .error msg) : exec (condition E value) i = (.error msg, i) := by
  rw [condition, h]
  exact exec_throw msg i

end Commands

end Svc.Svcenet
