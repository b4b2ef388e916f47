import Svc.Svcenet.Server.Handlers
import Svc.Svcenet.Server.Script.Runs

/-!
# Who is speaking

The scripts mark a peer as speaking when it is heard, and end that after a timeout.  The public
mark and the private timeout are set by different scripts, and a slot is used again by later
peers; what ties the two together holds in every order of the calls.
-/

namespace Svc.Svcenet

open Svc.Common Svc.Lib RaiseM

/-! ## Sessions -/

/-- The server, with what its scripts were given: for each peer the timeout that its last
packet set since it connected, and the last time that was read -/
structure Session where
  server : Server
  lastTimeout : Nat → Option Int
  clock : Int

inductive SessionEvent where
  /-- `get_new_peer` chose the slot -/
  | connect (slot : Nat) (peer : ENetPeer)
  | disconnect (slot : Nat)
  | audio (slot : Nat) (packet : ENetPacket) (time : Int)
  /-- the tick, which reads a time for each peer -/
  | logic (times : Nat → Int)
  /-- some script sets a public value -/
  | peerset (slot : Nat) (key value : CString)

section Sessions

variable (E : JimExpr) (speakTime : Int) (defaultChannel : CString)

def Session.serverAfter (session : Session) : SessionEvent → Server
  | .connect slot peer =>
      match occupySlot session.server slot with
      | .ok (peerId, s) =>
          (s.attachPeer peerId peer).afterScript (onPeerConnect defaultChannel peerId)
      | .error _ => session.server
  | .disconnect slot =>
      match freePeer (session.server.afterScript (onPeerDisconnect slot)) slot with
      | .ok (_, s) => s
      | .error _ => session.server
  | .audio slot packet time =>
      (handlePacketInputAudio E speakTime time session.server slot packet).1
  | .logic times => session.server.afterScript (onLogic E times)
  | .peerset slot key value => session.server.afterScript (Svcenet.peerset pub slot key value)

/-- The peer in the slot is heard: its packet is accepted, and it is not muted. -/
def Server.hears (s : Server) (slot : Nat) (packet : ENetPacket) : Prop :=
  (decodeAudioPacket slot packet).isOk ∧ (s.occupantAt slot).any (Occupant.isHeard E)

instance (s : Server) (slot : Nat) (packet : ENetPacket) : Decidable (s.hears E slot packet) :=
  inferInstanceAs (Decidable (_ ∧ _))

def Session.timeoutAfter (session : Session) : SessionEvent → Nat → Option Int
  | .connect slot _ => Function.update session.lastTimeout slot none
  | .audio slot packet time =>
      if session.server.hears E slot packet then
        Function.update session.lastTimeout slot (some (time + speakTime))
      else session.lastTimeout
  | .disconnect _ | .logic _ | .peerset .. => session.lastTimeout

def Session.clockAfter (session : Session) : SessionEvent → Int
  | .audio _ _ time => time
  | .logic times => times session.server.peersSize
  | .connect .. | .disconnect _ | .peerset .. => session.clock

def sessionMachine : Machine Session SessionEvent Unit where
  step session event :=
    (⟨session.serverAfter E speakTime defaultChannel event,
      session.timeoutAfter E speakTime event, session.clockAfter event⟩, ())

end Sessions

/-- The calls are about connected peers, `SPEAKING` is left to the scripts, and the clock does
not go back. -/
def Session.Allowed (session : Session) : SessionEvent → Prop
  | .connect slot _ =>
      slot < session.server.peers.length ∧ session.server.occupantAt slot = none
  | .disconnect slot => ∃ o, session.server.occupantAt slot = some o
  | .audio slot _ time => (∃ o, session.server.occupantAt slot = some o) ∧ session.clock ≤ time
  | .logic times => (∀ p q, p ≤ q → times p ≤ times q) ∧ session.clock ≤ times 0
  | .peerset slot key _ => (∃ o, session.server.occupantAt slot = some o) ∧ key ≠ speakingKey

/-! ## One slot -/

/-- What ties the mark of a peer to its timeout, which is among `W` -/
structure Occupant.Indicates (W : Int → Prop) (o : Occupant) (lastTimeout : Option Int)
    (clock : Int) : Prop where
  held : ∀ timeout, lastTimeout = some timeout → W timeout
  flag : IsFlag (ddGet o.pubData speakingKey)
  timeout : ddValue o.privData speakingTimeoutKey = lastTimeout.map decimalInt
  started : o.isSpeaking → lastTimeout ≠ none
  expired : ¬ o.isSpeaking → ∀ timeout, lastTimeout = some timeout → timeout < clock

section Slot

variable {E : JimExpr} {W : Int → Prop} {o : Occupant} {lastTimeout : Option Int}
  {clock time : Int}

theorem not_isSpeaking_of_zero (h : ddGet o.pubData speakingKey = cstr "0") : ¬ o.isSpeaking := by
  rw [Occupant.isSpeaking, h]
  decide

theorem indicates_greeted (hpriv : o.privData = []) (defaultChannel : CString) (peer : Nat)
    (clock : Int) : (o.greeted defaultChannel peer).Indicates W none clock := by
  have hzero : ddGet (o.greeted defaultChannel peer).pubData speakingKey = cstr "0" := by
    rw [Occupant.greeted, Occupant.ddGet_setPub, if_neg (by decide), Occupant.ddGet_setPub,
      if_pos rfl]
    rfl
  refine ⟨nofun, .inl hzero, ?_, fun h => absurd h (not_isSpeaking_of_zero hzero),
    fun _ _ h => nomatch h⟩
  change ddValue o.privData speakingTimeoutKey = none
  rw [hpriv]
  rfl

theorem isSpeaking_setPub_one (o : Occupant) : (o.setPub speakingKey (literal "1")).isSpeaking := by
  rw [Occupant.isSpeaking, Occupant.ddGet_setPub, if_pos rfl]
  rfl

theorem isSpeaking_heard (o : Occupant) (timeout : Int) : (o.heard timeout).isSpeaking := by
  dsimp only [Occupant.heard]
  split_ifs with h
  · exact h
  · exact isSpeaking_setPub_one _

theorem ddValue_heard (o : Occupant) (timeout : Int) :
    ddValue (o.heard timeout).privData speakingTimeoutKey = some (decimalInt timeout) := by
  have hset : ddValue (o.setPriv speakingTimeoutKey (asCString (decimalInt timeout))).privData
      speakingTimeoutKey = some (decimalInt timeout) := by
    rw [Occupant.ddValue_setPriv, Function.update_self, bytes_decimalInt]
  dsimp only [Occupant.heard]
  split_ifs
  · exact hset
  · exact hset

theorem indicates_heard (o : Occupant) {timeout : Int} (htimeout : W timeout) (clock : Int) :
    (o.heard timeout).Indicates W (some timeout) clock where
  held _ h := Option.some.inj h ▸ htimeout
  flag := .inr (isSpeaking_heard o timeout)
  timeout := ddValue_heard o timeout
  started _ := Option.some_ne_none timeout
  expired h := absurd (isSpeaking_heard o timeout) h

namespace Occupant.Indicates

theorem mono (h : o.Indicates W lastTimeout clock) (hle : clock ≤ time) :
    o.Indicates W lastTimeout time :=
  { h with expired := fun hquiet timeout ht => (h.expired hquiet timeout ht).trans_le hle }

theorem setPub (h : o.Indicates W lastTimeout clock) {key : CString} (hkey : key ≠ speakingKey)
    (value : CString) : (o.setPub key value).Indicates W lastTimeout clock := by
  have hsame : ddGet (o.setPub key value).pubData speakingKey = ddGet o.pubData speakingKey := by
    rw [Occupant.ddGet_setPub, if_neg hkey.symm]
  have hspeaking : (o.setPub key value).isSpeaking ↔ o.isSpeaking := by
    rw [Occupant.isSpeaking, Occupant.isSpeaking, hsame]
  exact ⟨h.held, hsame ▸ h.flag, h.timeout, fun hs => h.started (hspeaking.1 hs),
    fun hs => h.expired fun hs' => hs (hspeaking.2 hs')⟩

/-- The comparison that `on_logic` makes -/
theorem greater_iff (hE : E.ComparesTimes W) (h : o.Indicates W lastTimeout clock)
    {timeout : Int} (ht : lastTimeout = some timeout) (htime : W time) :
    E.greater (decimalInt time) (ddGet o.privData speakingTimeoutKey) = true ↔ timeout < time := by
  rw [ddGet_eq, h.timeout, ht, Option.map_some, Option.getD_some,
    hE.greater_decimal _ _ htime (h.held timeout ht), decide_eq_true_iff]

theorem isSpeaking_quietened (hE : E.ComparesTimes W) (h : o.Indicates W lastTimeout clock)
    (htime : W time) (hle : clock ≤ time) :
    (o.quietened E time).isSpeaking ↔ ∃ timeout, lastTimeout = some timeout ∧ time ≤ timeout := by
  by_cases hspeaking : o.isSpeaking
  · obtain ⟨timeout, ht⟩ := Option.ne_none_iff_exists'.1 (h.started hspeaking)
    have hgreater := h.greater_iff hE ht htime
    rw [Occupant.quietened]
    split_ifs with hover
    · have hlt := hgreater.1 hover.2
      have hzero : ¬ (o.setPub speakingKey (literal "0")).isSpeaking :=
        not_isSpeaking_of_zero (by rw [Occupant.ddGet_setPub, if_pos rfl]; rfl)
      refine iff_of_false hzero ?_
      rintro ⟨timeout', ht', hle'⟩
      obtain rfl : timeout = timeout' := Option.some.inj (ht.symm.trans ht')
      omega
    · have hnot : ¬ timeout < time := fun hlt => hover ⟨hspeaking, hgreater.2 hlt⟩
      exact iff_of_true hspeaking ⟨timeout, ht, by omega⟩
  · rw [Occupant.quietened, if_neg fun hover => hspeaking hover.1]
    refine iff_of_false hspeaking ?_
    rintro ⟨timeout, ht, hle'⟩
    have hlt := h.expired hspeaking timeout ht
    omega

theorem quietened (hE : E.ComparesTimes W) (h : o.Indicates W lastTimeout clock) (htime : W time)
    (hle : clock ≤ time) {clock' : Int} (hle' : time ≤ clock') :
    (o.quietened E time).Indicates W lastTimeout clock' := by
  have hspeaking := h.isSpeaking_quietened hE htime hle
  refine ⟨h.held, ?_, ?_, ?_, ?_⟩
  · rw [Occupant.quietened]
    split_ifs
    · exact .inl (by rw [Occupant.ddGet_setPub, if_pos rfl]; rfl)
    · exact h.flag
  · rw [← h.timeout, Occupant.quietened]
    split_ifs <;> rfl
  · intro hs hnone
    obtain ⟨timeout, ht, -⟩ := hspeaking.1 hs
    exact absurd (ht.symm.trans hnone) (Option.some_ne_none timeout)
  · intro hs timeout ht
    have hnot : ¬ time ≤ timeout := fun hle'' => hs (hspeaking.2 ⟨timeout, ht, hle''⟩)
    omega

end Occupant.Indicates

end Slot

/-! ## All slots -/

structure Session.Ok (W : Int → Prop) (session : Session) : Prop where
  sized : session.server.Sized
  indicates : ∀ p o, session.server.occupantAt p = some o →
    o.Indicates W (session.lastTimeout p) session.clock

/-- The times that the event compares, or leaves to be compared, are among `W`. -/
def SessionEvent.Within (W : Int → Prop) (speakTime : Int) : SessionEvent → Prop
  | .audio _ _ time => W (time + speakTime)
  | .logic times => ∀ p, W (times p)
  | .connect .. | .disconnect _ | .peerset .. => True

section Steps

variable {E : JimExpr} {W : Int → Prop} (speakTime : Int) (defaultChannel : CString)
  {session : Session} {slot : Nat} {o : Occupant}

/-- A step that writes one slot has to care for that slot only. -/
theorem Session.Ok.write (h : session.Ok W) {s : Server} (hs : s.Sized) {o' : Option Occupant}
    (hslots : s.occupantAt = Function.update session.server.occupantAt slot o')
    {lastTimeout : Nat → Option Int}
    (hothers : ∀ p, p ≠ slot → lastTimeout p = session.lastTimeout p) {clock : Int}
    (hclock : session.clock ≤ clock)
    (hslot : ∀ o, o' = some o → o.Indicates W (lastTimeout slot) clock) :
    Session.Ok W ⟨s, lastTimeout, clock⟩ := by
  refine ⟨hs, fun p o ho => ?_⟩
  rw [hslots] at ho
  by_cases hp : p = slot
  · subst hp
    rw [Function.update_self] at ho
    exact hslot o ho
  · rw [Function.update_of_ne hp] at ho
    dsimp only
    rw [hothers p hp]
    exact (h.indicates p o ho).mono hclock

/-- The slot is occupied, and gets its ENet peer. -/
theorem exists_attached {s : Server} (hs : s.Sized) (hslot : slot < s.peers.length)
    (peer : ENetPeer) :
    ∃ s₁, occupySlot s slot = .ok (slot, s₁) ∧ (s₁.attachPeer slot peer).Sized ∧
      (s₁.attachPeer slot peer).occupantAt =
        Function.update s.occupantAt slot (some ⟨some peer, [], []⟩) := by
  let s₁ : Server :=
    { s.setOccupant slot (some ⟨none, [], []⟩) with peersCount := s.peersCount + 1 }
  have hslots : s₁.occupantAt = Function.update s.occupantAt slot (some ⟨none, [], []⟩) :=
    occupantAt_setOccupant_eq_update hslot _
  have hnew : s₁.occupantAt slot = some ⟨none, [], []⟩ := by
    rw [hslots, Function.update_self]
  have hsized : s₁.Sized := sized_setOccupant hs slot _
  refine ⟨s₁, if_pos hslot, sized_setOccupant hsized slot _, ?_⟩
  calc
    (s₁.attachPeer slot peer).occupantAt =
        Function.update s₁.occupantAt slot
          ((s₁.occupantAt slot).map fun o => { o with peer := some peer }) :=
      occupantAt_setOccupant_eq_update (lt_length_of_occupantAt hnew) _
    _ = _ := by rw [hnew, hslots, Function.update_idem]; rfl

theorem serverAfter_connect (E : JimExpr) (hs : session.server.Sized)
    (hslot : slot < session.server.peers.length) (peer : ENetPeer) :
    (session.serverAfter E speakTime defaultChannel (.connect slot peer)).Sized ∧
      (session.serverAfter E speakTime defaultChannel (.connect slot peer)).occupantAt =
        Function.update session.server.occupantAt slot
          (some (Occupant.greeted ⟨some peer, [], []⟩ defaultChannel slot)) := by
  obtain ⟨s₁, hoccupied, hsized, hslots⟩ := exists_attached hs hslot peer
  have ho : (s₁.attachPeer slot peer).occupantAt slot = some ⟨some peer, [], []⟩ := by
    rw [hslots, Function.update_self]
  have hrun := exec_onPeerConnect
      (i := ⟨s₁.attachPeer slot peer, none, []⟩) hsized ho defaultChannel
  simp only [Session.serverAfter, hoccupied, Server.afterScript, hrun]
  refine ⟨sized_setOccupant hsized slot _, ?_⟩
  rw [Interp.server_setOccupant,
    occupantAt_setOccupant_eq_update (lt_length_of_occupantAt ho), hslots, Function.update_idem]

theorem serverAfter_disconnect (E : JimExpr) (hs : session.server.Sized)
    (ho : session.server.occupantAt slot = some o) :
    (session.serverAfter E speakTime defaultChannel (.disconnect slot)).Sized ∧
      (session.serverAfter E speakTime defaultChannel (.disconnect slot)).occupantAt =
        Function.update session.server.occupantAt slot none := by
  have hscript : session.server.afterScript (onPeerDisconnect slot) = session.server := by
    rw [Server.afterScript,
      exec_onPeerDisconnect (i := ⟨session.server, none, []⟩) hs ho]
  obtain ⟨⟨id, occupant⟩, hp, rfl⟩ := getElem?_of_occupantAt ho
  simp only [Session.serverAfter, hscript, freePeer, hp]
  exact ⟨sized_setOccupant hs slot none,
    occupantAt_setOccupant_eq_update (lt_length_of_occupantAt ho) none⟩

/-- The connect handler, with the calls and the result of `on_peer_connect` -/
theorem handlePeerConnect_greeting (E : JimExpr) (hs : session.server.TableOk)
    (hl : session.server.Linked) (hlen : session.server.peers.length = 10)
    (hcount : session.server.occupiedCount < 10) {p : ENetPeer}
    (hp : ∀ j, session.server.peerAt j ≠ some (some p)) :
    ∃ slot effects, session.Allowed (.connect slot p) ∧
      handlePeerConnect session.server p (greeting defaultChannel slot) (.integer 1) =
        .ok (session.serverAfter E speakTime defaultChannel (.connect slot p), effects) := by
  obtain ⟨slot, hchoice, hlt, hnone⟩ := getNewPeer_eq_occupySlot hs hlen hcount
  obtain ⟨i, s₁, hok, hattach⟩ := attachPeer_spec hs hcount p
  have hoccupied : occupySlot session.server slot = .ok (i, s₁) := hchoice.symm.trans hok
  obtain rfl : slot = i := by
    rw [occupySlot, if_pos (hlen ▸ hlt), Except.ok.injEq, Prod.mk.injEq] at hoccupied
    exact hoccupied.1
  have hsized : (s₁.attachPeer slot p).Sized := hattach.tableOk.peersSize_eq
  have hscript := runScript_greeting hsized
    (by rw [hattach.occupantAt_eq, Function.update_self]) defaultChannel
  have hhandled := handlePeerConnect_of_attached (greeting defaultChannel slot) hs hl hp hok hattach
    (show (ConnectResult.integer 1).accepts = true from rfl)
  have hserver : session.serverAfter E speakTime defaultChannel (.connect slot p) =
      runScript (s₁.attachPeer slot p) (greeting defaultChannel slot) := by
    rw [hscript]
    simp only [Session.serverAfter, hoccupied]
  exact ⟨slot, _, ⟨hlen ▸ hlt, hnone⟩, hserver ▸ hhandled⟩

/-- The disconnect handler: `on_peer_disconnect` makes no call that changes anything. -/
theorem handlePeerDisconnect_nil (E : JimExpr) (hs : session.server.TableOk)
    (hl : session.server.Linked) {p : ENetPeer}
    (hslot : session.server.peerAt slot = some (some p)) :
    ∃ effects, session.Allowed (.disconnect slot) ∧
      handlePeerDisconnect session.server p [] =
        .ok (session.serverAfter E speakTime defaultChannel (.disconnect slot), effects) := by
  obtain ⟨_, heq, hdata⟩ := hl.peerData_of_peerAt slot _ hslot
  cases heq
  obtain ⟨o, ho, -⟩ := occupantAt_of_peerAt hslot
  obtain ⟨s', hfree, -⟩ := freePeer_spec hs ho
  have hscript : session.server.afterScript (onPeerDisconnect slot) = session.server := by
    rw [Server.afterScript,
      exec_onPeerDisconnect (i := ⟨session.server, none, []⟩) hs.peersSize_eq ho]
  have hhandled := handlePeerDisconnect_eq [] hs hl hdata
  rw [show runScript session.server [] = session.server from rfl, hfree] at hhandled
  have hserver : session.serverAfter E speakTime defaultChannel (.disconnect slot) = s' := by
    simp only [Session.serverAfter, hscript, hfree]
  exact ⟨_, ⟨o, ho⟩, hserver ▸ hhandled⟩

theorem serverAfter_peerset (E : JimExpr) (hs : session.server.Sized)
    (ho : session.server.occupantAt slot = some o) (key value : CString) :
    (session.serverAfter E speakTime defaultChannel (.peerset slot key value)).Sized ∧
      (session.serverAfter E speakTime defaultChannel (.peerset slot key value)).occupantAt =
        Function.update session.server.occupantAt slot (some (o.setPub key value)) := by
  have hrun : exec (Svcenet.peerset pub slot key value) ⟨session.server, none, []⟩ =
      (.ok (), Interp.setOccupant ⟨session.server, none, []⟩ slot (o.setPub key value)) :=
    exec_peerset_pub hs ho
  simp only [Session.serverAfter, Server.afterScript, hrun]
  exact ⟨sized_setOccupant hs slot _,
    occupantAt_setOccupant_eq_update (lt_length_of_occupantAt ho) _⟩

theorem hears_iff (ho : session.server.occupantAt slot = some o)
    (packet : ENetPacket) :
    session.server.hears E slot packet ↔
      (decodeAudioPacket slot packet).isOk ∧ o.isHeard E := by
  rw [Server.hears, ho, Option.any_some]

theorem Session.Ok.next_connect (h : session.Ok W) (hslot : slot < session.server.peers.length)
    (peer : ENetPeer) :
    ((sessionMachine E speakTime defaultChannel).next session (.connect slot peer)).Ok W := by
  obtain ⟨hsized, hslots⟩ := serverAfter_connect speakTime defaultChannel E h.sized hslot peer
  refine h.write hsized hslots (fun p hp => Function.update_of_ne hp _ _) le_rfl ?_
  rintro o ⟨⟩
  change Occupant.Indicates W _ (Function.update session.lastTimeout slot none slot) _
  rw [Function.update_self]
  exact indicates_greeted rfl defaultChannel slot session.clock

theorem Session.Ok.next_disconnect (h : session.Ok W)
    (ho : session.server.occupantAt slot = some o) :
    ((sessionMachine E speakTime defaultChannel).next session (.disconnect slot)).Ok W := by
  obtain ⟨hsized, hslots⟩ := serverAfter_disconnect speakTime defaultChannel E h.sized ho
  exact h.write hsized hslots (fun _ _ => rfl) le_rfl fun _ hnone => nomatch hnone

theorem Session.Ok.next_audio (hE : E.Lawful) (h : session.Ok W)
    (ho : session.server.occupantAt slot = some o) (packet : ENetPacket) {time : Int}
    (htime : session.clock ≤ time) (htimeout : W (time + speakTime)) :
    ((sessionMachine E speakTime defaultChannel).next session (.audio slot packet time)).Ok W := by
  have hserver := server_handlePacketInputAudio hE h.sized ho (h.indicates slot o ho).flag
    speakTime time packet
  have hhears := hears_iff (E := E) ho packet
  change Session.Ok W ⟨(handlePacketInputAudio E speakTime time session.server slot packet).1,
    if session.server.hears E slot packet then
      Function.update session.lastTimeout slot (some (time + speakTime))
    else session.lastTimeout, time⟩
  rw [hserver]
  by_cases hheard : (decodeAudioPacket slot packet).isOk ∧ o.isHeard E
  · rw [if_pos hheard, if_pos (hhears.2 hheard)]
    refine h.write (sized_setOccupant h.sized slot _)
      (occupantAt_setOccupant_eq_update (lt_length_of_occupantAt ho) _)
      (fun p hp => Function.update_of_ne hp _ _) htime ?_
    rintro o' ⟨⟩
    rw [Function.update_self]
    exact indicates_heard o htimeout time
  · rw [if_neg hheard, if_neg fun hh => hheard (hhears.1 hh)]
    exact ⟨h.sized, fun p o ho => (h.indicates p o ho).mono htime⟩

theorem Session.Ok.next_peerset (h : session.Ok W) (ho : session.server.occupantAt slot = some o)
    {key : CString} (hkey : key ≠ speakingKey) (value : CString) :
    ((sessionMachine E speakTime defaultChannel).next session (.peerset slot key value)).Ok W := by
  obtain ⟨hsized, hslots⟩ :=
    serverAfter_peerset speakTime defaultChannel E h.sized ho key value
  refine h.write hsized hslots (fun _ _ => rfl) le_rfl ?_
  rintro o' ⟨⟩
  exact (h.indicates slot o ho).setPub hkey value

/-- What the tick makes of the table -/
theorem serverAfter_logic (hE : E.Lawful) (h : session.Ok W) (times : Nat → Int) :
    (session.serverAfter E speakTime defaultChannel (.logic times)).Sized ∧
      (session.serverAfter E speakTime defaultChannel (.logic times)).occupantAt = fun p =>
        (session.server.occupantAt p).map (Occupant.quietened E · (times p)) := by
  obtain ⟨j, hrun, hsized, hslots⟩ := exec_onLogic (i := ⟨session.server, none, []⟩) hE h.sized
    (fun p o ho => (h.indicates p o ho).flag) times
  have hserver : session.serverAfter E speakTime defaultChannel (.logic times) = j.server := by
    simp only [Session.serverAfter, Server.afterScript, hrun]
  rw [hserver]
  exact ⟨hsized, hslots⟩

theorem Session.Ok.next_logic (hE : E.ComparesTimes W) (h : session.Ok W) {times : Nat → Int}
    (hmono : ∀ p q, p ≤ q → times p ≤ times q) (hclock : session.clock ≤ times 0)
    (htimes : ∀ p, W (times p)) :
    ((sessionMachine E speakTime defaultChannel).next session (.logic times)).Ok W := by
  obtain ⟨hsized, hslots⟩ := serverAfter_logic speakTime defaultChannel hE.toLawful h times
  refine ⟨hsized, fun p o ho => ?_⟩
  obtain ⟨o', ho', rfl⟩ := Option.map_eq_some_iff.1 ((congrFun hslots p).symm.trans ho)
  have hp : p ≤ session.server.peersSize := by
    rw [show session.server.peersSize = _ from h.sized]
    exact (lt_length_of_occupantAt ho').le
  exact (h.indicates p o' ho').quietened hE (htimes p)
    (Int.le_trans hclock (hmono 0 p p.zero_le)) (hmono p _ hp)

theorem Session.Ok.next (hE : E.ComparesTimes W) (h : session.Ok W) {event : SessionEvent}
    (hallowed : session.Allowed event) (hwithin : event.Within W speakTime) :
    ((sessionMachine E speakTime defaultChannel).next session event).Ok W := by
  cases event with
  | connect slot peer => exact h.next_connect speakTime defaultChannel hallowed.1 peer
  | disconnect slot =>
      obtain ⟨o, ho⟩ := hallowed
      exact h.next_disconnect speakTime defaultChannel ho
  | audio slot packet time =>
      obtain ⟨⟨o, ho⟩, htime⟩ := hallowed
      exact h.next_audio speakTime defaultChannel hE.toLawful ho packet htime hwithin
  | logic times => exact h.next_logic speakTime defaultChannel hE hallowed.1 hallowed.2 hwithin
  | peerset slot key value =>
      obtain ⟨⟨o, ho⟩, hkey⟩ := hallowed
      exact h.next_peerset speakTime defaultChannel ho hkey value

end Steps

/-! ## All runs -/

def Session.start (s : Server) (clock : Int) : Session := ⟨s, fun _ => none, clock⟩

/-- What the marks say in a run: a marked peer has a timeout, and after a tick those are marked
that were heard since they connected and whose timeout was not over when the tick read the time
for them. -/
structure MarksSpeakers (M : Machine Session SessionEvent Unit) (start : Session)
    (events : List SessionEvent) : Prop where
  timed : ∀ pre, pre <+: events → ∀ p o, (M.run start pre).server.occupantAt p = some o →
    o.isSpeaking → ddValue o.privData speakingTimeoutKey ≠ none
  ticked : ∀ pre times, pre ++ [.logic times] <+: events → ∀ p o,
    (M.run start (pre ++ [.logic times])).server.occupantAt p = some o →
      (o.isSpeaking ↔ ∃ timeout,
        (M.run start (pre ++ [.logic times])).lastTimeout p = some timeout ∧ times p ≤ timeout)

section Runs

variable {E : JimExpr} {W : Int → Prop} {s : Server} {events : List SessionEvent}

theorem ok_start (hs : s.Sized) (hempty : ∀ p, s.occupantAt p = none) (clock : Int) :
    (Session.start s clock).Ok W :=
  ⟨hs, fun p _ ho => nomatch (hempty p).symm.trans ho⟩

/-- `SPEAKING` of a connected peer is a condition at every moment, and in step with what the
peer did. -/
theorem ok_run (hE : E.ComparesTimes W) (speakTime : Int) (defaultChannel : CString)
    {session : Session} (hok : session.Ok W)
    (hallowed : (sessionMachine E speakTime defaultChannel).Guarded Session.Allowed session
      events)
    (hwithin : ∀ event ∈ events, event.Within W speakTime) :
    ((sessionMachine E speakTime defaultChannel).run session events).Ok W :=
  Machine.invariant_run_of_guarded _
    (fun _ _ h he => h.next speakTime defaultChannel hE he.1 he.2) hok
    ((Machine.guarded_and _).2 ⟨hallowed, Machine.guarded_of_forall _ hwithin _⟩)

theorem speaking_indicator (hE : E.ComparesTimes W) (speakTime : Int) (defaultChannel : CString)
    (hs : s.Sized) (hempty : ∀ p, s.occupantAt p = none) (clock : Int)
    (hallowed : (sessionMachine E speakTime defaultChannel).Guarded Session.Allowed
      (.start s clock) events)
    (hwithin : ∀ event ∈ events, event.Within W speakTime) :
    MarksSpeakers (sessionMachine E speakTime defaultChannel) (.start s clock) events := by
  have hok : ∀ pre, pre <+: events →
      ((sessionMachine E speakTime defaultChannel).run (.start s clock) pre).Ok W :=
    fun pre hpre => ok_run hE speakTime defaultChannel (ok_start hs hempty clock)
      (Machine.guarded_of_prefix _ hpre hallowed) fun event hevent =>
        hwithin event (hpre.subset hevent)
  constructor
  · intro pre hpre p o ho hspeaking
    have h := (hok pre hpre).indicates p o ho
    rw [h.timeout]
    simpa using h.started hspeaking
  · intro pre times hpre p o ho
    have h := hok pre ((List.prefix_append pre _).trans hpre)
    have hmay := ((Machine.guarded_concat _ _ _ pre _).1
      (Machine.guarded_of_prefix _ hpre hallowed)).2
    rw [Machine.run_concat] at ho ⊢
    obtain ⟨-, hslots⟩ := serverAfter_logic speakTime defaultChannel hE.toLawful h times
    have htimes : ∀ q, W (times q) := hwithin (.logic times) (hpre.subset (by simp))
    obtain ⟨o', ho', rfl⟩ := Option.map_eq_some_iff.1 ((congrFun hslots p).symm.trans ho)
    exact (h.indicates p o' ho').isSpeaking_quietened hE (htimes p)
      (Int.le_trans hmay.2 (hmay.1 0 p p.zero_le))

end Runs

def firstTable : Server := { Server.init with peersSize := 10, peers := emptyPeers 0 10 }

example : getNewPeer .init = occupySlot firstTable 0 := rfl

def IsWide (n : Int) : Prop := -2 ^ 63 ≤ n ∧ n < 2 ^ 63

/-- A peer connects, is heard at 100 and is looked at 200. -/
theorem speaking_indicator_once :
    MarksSpeakers (sessionMachine integerExpr 50 (literal "lobby")) (.start firstTable 0)
      [.connect 0 5, .audio 0 oneBytePacket 100, .logic fun _ => 200] :=
  speaking_indicator (comparesTimes_integerExpr IsWide) 50 (literal "lobby")
    (show firstTable.Sized from rfl) occupantAt_emptyPeers 0
    ⟨⟨by decide, rfl⟩, ⟨⟨_, rfl⟩, by decide⟩, ⟨fun _ _ _ => Int.le_refl 200, by decide⟩, trivial⟩
    (by
      simp only [List.forall_mem_cons, SessionEvent.Within, IsWide]
      exact ⟨trivial, by decide, fun _ => by decide, List.forall_mem_nil _⟩)

end Svc.Svcenet
