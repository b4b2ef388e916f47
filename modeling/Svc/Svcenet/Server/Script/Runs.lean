import Svc.Svcenet.Server.Script

/-!
# What the scripts of `main.tcl` do

Each script's result, and the table that it leaves.
-/

namespace Svc.Svcenet

open Svc.Common Svc.Lib RaiseM

def IsFlag (value : Bytes) : Prop := value = cstr "0" ∨ value = cstr "1"

section Results

variable (E : JimExpr) (o : Occupant)

def Occupant.isSpeaking : Prop := ddGet o.pubData speakingKey = cstr "1"

instance : Decidable o.isSpeaking := inferInstanceAs (Decidable (_ = _))

def Occupant.greeted (defaultChannel : CString) (peer : Nat) : Occupant :=
  ((((((o.setPub nickKey (asCString (cstr "Unknown" ++ decimal peer))).setPub
    channelKey defaultChannel).setPub mutedKey (literal "0")).setPub
    deafenKey (literal "0")).setPub speakingKey (literal "0")).setPub adminKey (literal "0"))

def Occupant.heard (timeout : Int) : Occupant :=
  let o := o.setPriv speakingTimeoutKey (asCString (decimalInt timeout))
  if o.isSpeaking then o else o.setPub speakingKey (literal "1")

def Occupant.isHeard : Bool :=
  match E.truth (ddGet o.pubData mutedKey) with
  | .ok muted => !muted
  | .error _ => false

def Occupant.quietened (time : Int) : Occupant :=
  if o.isSpeaking ∧ E.greater (decimalInt time) (ddGet o.privData speakingTimeoutKey) then
    o.setPub speakingKey (literal "0")
  else o

def Server.channelPeers (s : Server) (channel : Bytes) : List Nat :=
  (cmdPeersList s).filter fun p =>
    (s.occupantAt p).any fun o => E.equal (ddGet o.pubData channelKey) channel

end Results

variable {E : JimExpr} {i : Interp} {p : Nat} {o : Occupant}

theorem truth_of_isFlag (hE : E.Lawful) {value : Bytes} (h : IsFlag value) :
    E.truth value = .ok (decide (value = cstr "1")) := by
  rcases h with rfl | rfl
  · exact hE.truth_zero
  · exact hE.truth_one

/-! ## Connecting -/

theorem exec_peerset_pub_again (hs : i.server.Sized) (ho : i.server.occupantAt p = some o)
    (o' : Occupant) (key value : CString) :
    exec (peerset pub p key value) (i.setOccupant p o') =
      (.ok (), i.setOccupant p (o'.setPub key value)) := by
  rw [exec_peerset_pub (sized_setOccupant hs p o') (occupantAt_setOccupant_self ho o')]
  simp only [Interp.setOccupant, setOccupant_setOccupant]

theorem exec_onPeerConnect (hs : i.server.Sized) (ho : i.server.occupantAt p = some o)
    (defaultChannel : CString) :
    exec (onPeerConnect defaultChannel p) i =
      (.ok 1, i.setOccupant p (o.greeted defaultChannel p)) := by
  have hagain := exec_peerset_pub_again hs ho
  dsimp only [onPeerConnect]
  rw [exec_bind_ok (exec_peerset_pub hs ho), exec_bind_ok (hagain _ _ _),
    exec_bind_ok (hagain _ _ _), exec_bind_ok (hagain _ _ _), exec_bind_ok (hagain _ _ _),
    exec_bind_ok (hagain _ _ _)]
  rfl

def greeting (defaultChannel : CString) (peer : Nat) : List ScriptCall :=
  [(nickKey, asCString (cstr "Unknown" ++ decimal peer)), (channelKey, defaultChannel),
    (mutedKey, literal "0"), (deafenKey, literal "0"), (speakingKey, literal "0"),
    (adminKey, literal "0")].map fun (key, value) => .peerset pub (some (peer : Int)) key value

theorem server_exec_peerset (type : CString) (p : Nat) (key value : CString) (i : Interp) :
    (exec (peerset type p key value) i).2.server =
      runCall i.server (.peerset type (some (p : Int)) key value) := by
  rw [peerset, exec_bind_ok (exec_get i), runCall]
  cases cmdPeerset i.server type (some (p : Int)) key value with
  | ok s => rfl
  | error msg => rfl

/-- The script as the list of its calls -/
theorem runScript_greeting {s : Server} (hs : s.Sized) (ho : s.occupantAt p = some o)
    (defaultChannel : CString) :
    runScript s (greeting defaultChannel p) = s.afterScript (onPeerConnect defaultChannel p) := by
  have hfirst : ∀ key value, runCall s (.peerset pub (some (p : Int)) key value) =
      s.setOccupant p (some (o.setPub key value)) := by
    intro key value
    rw [← server_exec_peerset pub p key value ⟨s, none, []⟩, exec_peerset_pub hs ho]
    rfl
  have hagain : ∀ o' key value,
      runCall (s.setOccupant p (some o')) (.peerset pub (some (p : Int)) key value) =
        s.setOccupant p (some (o'.setPub key value)) := by
    intro o' key value
    rw [← Interp.server_setOccupant o' ⟨s, none, []⟩ p, ← server_exec_peerset,
      exec_peerset_pub_again hs ho]
    rfl
  rw [Server.afterScript, exec_onPeerConnect (i := ⟨s, none, []⟩) hs ho]
  simp only [runScript, greeting, List.map_cons, List.map_nil, List.foldl_cons, List.foldl_nil,
    hfirst, hagain]
  rfl

theorem exec_onPeerDisconnect (hs : i.server.Sized) (ho : i.server.occupantAt p = some o) :
    exec (onPeerDisconnect p) i = (.ok (), i) := by
  rw [onPeerDisconnect, exec_bind_ok (exec_peerget_pub hs ho), exec_pure]

/-! ## Stopping to speak -/

theorem truth_speaking (hE : E.Lawful) (hflag : IsFlag (ddGet o.pubData speakingKey)) :
    E.truth (ddGet o.pubData speakingKey) = .ok (decide o.isSpeaking) :=
  truth_of_isFlag hE hflag

theorem exec_stopSpeaking (hE : E.Lawful) (hs : i.server.Sized)
    (ho : i.server.occupantAt p = some o) (hflag : IsFlag (ddGet o.pubData speakingKey))
    (time : Int) :
    exec (stopSpeaking E time p) i = (.ok (), i.setOccupant p (o.quietened E time)) := by
  have hsame : i.setOccupant p o = i := by
    rw [Interp.setOccupant, setOccupant_self ho]
  rw [stopSpeaking, exec_bind_ok (exec_peerget_pub hs ho),
    exec_bind_ok (exec_condition (truth_speaking hE hflag)), Occupant.quietened]
  by_cases hspeaking : o.isSpeaking
  · rw [if_pos (decide_eq_true hspeaking), exec_bind_ok (exec_peerget_priv hs ho)]
    by_cases hgreater : E.greater (decimalInt time) (ddGet o.privData speakingTimeoutKey) = true
    · rw [if_pos hgreater, if_pos ⟨hspeaking, hgreater⟩, exec_peerset_pub hs ho]
    · rw [if_neg hgreater, if_neg fun h => hgreater h.2, hsame, exec_pure]
  · rw [if_neg (by simpa using hspeaking), if_neg fun h => hspeaking h.1, hsame, exec_pure]

theorem mem_cmdPeersList {s : Server} : p ∈ cmdPeersList s ↔ ∃ o, s.occupantAt p = some o := by
  simp [cmdPeersList, mem_occupants]

theorem nodup_cmdPeersList (s : Server) : (cmdPeersList s).Nodup := nodup_occupants

/-- Before the loop of `on_logic` over `rest`: the peers in it are as they were. -/
structure Quietening (E : JimExpr) (times : Nat → Int) (s : Server) (rest : List Nat)
    (s' : Server) : Prop where
  nodup : rest.Nodup
  sized : s'.Sized
  connected : ∀ p ∈ rest, ∃ o, s.occupantAt p = some o
  occupantAt_eq : s'.occupantAt = fun p => if p ∈ rest then s.occupantAt p
    else (s.occupantAt p).map (Occupant.quietened E · (times p))

theorem quietening_cmdPeersList {s : Server} (hs : s.Sized) (times : Nat → Int) :
    Quietening E times s (cmdPeersList s) s := by
  refine ⟨nodup_cmdPeersList s, hs, fun p hp => mem_cmdPeersList.1 hp, ?_⟩
  funext p
  split_ifs with hp
  · rfl
  · cases ho : s.occupantAt p with
    | none => rfl
    | some o => exact absurd (mem_cmdPeersList.2 ⟨o, ho⟩) hp

theorem Quietening.step {times : Nat → Int} {s s' : Server} {rest : List Nat}
    (h : Quietening E times s (p :: rest) s') (ho : s.occupantAt p = some o) :
    s'.occupantAt p = some o ∧
      Quietening E times s rest (s'.setOccupant p (some (o.quietened E (times p)))) := by
  obtain ⟨hnotin, hnodup⟩ := List.nodup_cons.1 h.nodup
  have ho' : s'.occupantAt p = some o := by
    simpa only [h.occupantAt_eq, List.mem_cons_self, if_true] using ho
  refine ⟨ho', hnodup, sized_setOccupant h.sized p _,
    fun q hq => h.connected q (List.mem_cons_of_mem p hq), ?_⟩
  funext q
  rw [occupantAt_setOccupant_eq_update (lt_length_of_occupantAt ho'), h.occupantAt_eq]
  by_cases hq : q = p
  · subst hq
    rw [Function.update_self, if_neg hnotin, ho]
    rfl
  · rw [Function.update_of_ne hq]
    simp [hq]

theorem exec_onLogic (hE : E.Lawful) (hs : i.server.Sized)
    (hflags : ∀ p o, i.server.occupantAt p = some o → IsFlag (ddGet o.pubData speakingKey))
    (times : Nat → Int) :
    ∃ j, exec (onLogic E times) i = (.ok (), j) ∧ j.server.Sized ∧
      j.server.occupantAt = fun p =>
        (i.server.occupantAt p).map (Occupant.quietened E · (times p)) := by
  have hbody : ∀ p rest (j : Interp), Quietening E times i.server (p :: rest) j.server →
      ∃ j', exec (stopSpeaking E (times p) p) j = (.ok (), j') ∧
        Quietening E times i.server rest j'.server := by
    intro p rest j hj
    obtain ⟨o, ho⟩ := hj.connected p List.mem_cons_self
    obtain ⟨hoj, hnext⟩ := hj.step ho
    exact ⟨_, exec_stopSpeaking hE hj.sized hoj (hflags p o ho) (times p), hnext⟩
  have hpeers : exec peersList i = (.ok (cmdPeersList i.server), i) := rfl
  obtain ⟨j, hrun, hend⟩ := exec_forM_ok
    (fun rest (j : Interp) => Quietening E times i.server rest j.server) hbody
      (quietening_cmdPeersList hs times)
  refine ⟨j, ?_, hend.sized, ?_⟩
  · rw [onLogic, exec_bind_ok hpeers, hrun]
  · simpa using hend.occupantAt_eq

/-! ## Audio packets -/

theorem exec_channelPeers (hs : i.server.Sized) (channel : Bytes) :
    exec (channelPeers E channel) i = (.ok (i.server.channelPeers E channel), i) := by
  have hpeers : exec peersList i = (.ok (cmdPeersList i.server), i) := rfl
  rw [channelPeers, exec_bind_ok hpeers]
  refine exec_foldlM_filter (fun kept p hp => ?_) []
  obtain ⟨o, ho⟩ := mem_cmdPeersList.1 hp
  rw [exec_bind_ok (exec_peerget_pub hs ho), ho, Option.any_some]
  split_ifs <;> rfl

theorem Occupant.ddGet_heard (o : Occupant) (timeout : Int) {key : CString}
    (hkey : key ≠ speakingKey) :
    ddGet (o.heard timeout).pubData key = ddGet o.pubData key := by
  dsimp only [Occupant.heard]
  split_ifs
  · rfl
  · rw [Occupant.ddGet_setPub, if_neg hkey]
    rfl

theorem exec_onAudioPacket_muted (hs : i.server.Sized) (ho : i.server.occupantAt p = some o)
    (hmuted : E.truth (ddGet o.pubData mutedKey) = .ok true) (speakTime time : Int) :
    exec (onAudioPacket E speakTime time p) i = (.ok (), i) := by
  rw [onAudioPacket, exec_bind_ok (exec_peerget_pub hs ho), exec_bind_ok (exec_condition hmuted),
    if_pos rfl, exec_pure]

theorem exec_onAudioPacket_error (hs : i.server.Sized) (ho : i.server.occupantAt p = some o)
    {msg : String} (hmuted : E.truth (ddGet o.pubData mutedKey) = .error msg)
    (speakTime time : Int) :
    exec (onAudioPacket E speakTime time p) i = (.error msg, i) := by
  rw [onAudioPacket, exec_bind_ok (exec_peerget_pub hs ho),
    exec_bind_error (exec_condition_error hmuted)]

/-- A packet of a peer that is not muted: what the source becomes, and the loop that is left -/
theorem exec_onAudioPacket (hE : E.Lawful) (hs : i.server.Sized)
    (ho : i.server.occupantAt p = some o) (hflag : IsFlag (ddGet o.pubData speakingKey))
    (hmuted : E.truth (ddGet o.pubData mutedKey) = .ok false) (speakTime time : Int) :
    exec (onAudioPacket E speakTime time p) i =
      exec ((i.server.channelPeers E (ddGet o.pubData channelKey)).forM (passOn E p))
        (i.setOccupant p (o.heard (time + speakTime))) := by
  let o' := o.setPriv speakingTimeoutKey (asCString (decimalInt (time + speakTime)))
  have hs' : (i.setOccupant p o').server.Sized := sized_setOccupant hs p o'
  have ho' : (i.setOccupant p o').server.occupantAt p = some o' := occupantAt_setOccupant_self ho o'
  have htruth : E.truth (ddGet o'.pubData speakingKey) = .ok (decide o'.isSpeaking) :=
    truth_speaking hE hflag
  dsimp only [onAudioPacket]
  rw [exec_bind_ok (exec_peerget_pub hs ho), exec_bind_ok (exec_condition hmuted),
    if_neg Bool.false_ne_true, exec_bind_ok (exec_peerget_pub hs ho),
    exec_bind_ok (exec_channelPeers hs _), exec_bind_ok (exec_peerset_priv hs ho),
    exec_bind_ok (exec_peerget_pub hs' ho'), exec_bind_ok (exec_condition htruth),
    Occupant.heard]
  by_cases hspeaking : o'.isSpeaking
  · rw [if_neg (by simpa using hspeaking), if_pos hspeaking]
  · rw [if_pos (by simpa using hspeaking), if_neg hspeaking,
      exec_bind_ok (exec_peerset_pub hs' ho')]
    simp only [Interp.setOccupant, setOccupant_setOccupant]
    rfl

theorem keeps_peerget {γ : Type} (view : Interp → γ) (type : CString) (p : Nat) (key : CString) :
    Keeps view (peerget type p key) := by
  refine Keeps.get.bind fun interp => ?_
  cases cmdPeerget interp.server type (some (p : Int)) key with
  | ok value => exact .pure value
  | error msg => exact .throw msg

theorem keeps_condition {γ : Type} (view : Interp → γ) (value : Bytes) :
    Keeps view (condition E value) := by
  rw [condition]
  cases E.truth value with
  | ok b => exact .pure b
  | error msg => exact .throw msg

theorem keeps_sendaudio (p : Nat) : Keeps Interp.server (sendaudio p) := by
  intro i
  rw [sendaudio, exec_bind_ok (exec_get i)]
  cases cmdSendaudio i.server i.audioPacket (some (p : Int)) with
  | ok target => rfl
  | error msg => rfl

theorem keeps_passOn (peer p : Nat) : Keeps Interp.server (passOn E peer p) := by
  rw [passOn]
  split_ifs
  · exact .pure ()
  · refine (keeps_peerget _ _ _ _).bind fun value => (keeps_condition _ value).bind fun deaf => ?_
    split_ifs
    · exact .pure ()
    · exact keeps_sendaudio p

/-- Whatever becomes of the packet, only its source is changed. -/
theorem server_onAudioPacket (hE : E.Lawful) (hs : i.server.Sized)
    (ho : i.server.occupantAt p = some o) (hflag : IsFlag (ddGet o.pubData speakingKey))
    (speakTime time : Int) :
    (exec (onAudioPacket E speakTime time p) i).2.server =
      if o.isHeard E then i.server.setOccupant p (some (o.heard (time + speakTime)))
      else i.server := by
  rw [Occupant.isHeard]
  cases hmuted : E.truth (ddGet o.pubData mutedKey) with
  | error msg =>
      rw [exec_onAudioPacket_error hs ho hmuted]
      rfl
  | ok muted =>
      cases muted with
      | true =>
          rw [exec_onAudioPacket_muted hs ho hmuted]
          rfl
      | false =>
          rw [exec_onAudioPacket hE hs ho hflag hmuted]
          exact Keeps.forM (keeps_passOn p) _ _

theorem server_handlePacketInputAudio {s : Server} (hE : E.Lawful) (hs : s.Sized)
    (ho : s.occupantAt p = some o) (hflag : IsFlag (ddGet o.pubData speakingKey))
    (speakTime time : Int) (packet : ENetPacket) :
    (handlePacketInputAudio E speakTime time s p packet).1 =
      if (decodeAudioPacket p packet).isOk ∧ o.isHeard E then
        s.setOccupant p (some (o.heard (time + speakTime)))
      else s := by
  rw [handlePacketInputAudio]
  cases decodeAudioPacket p packet with
  | error text => rfl
  | ok audioPacket =>
      have hserver := server_onAudioPacket (i := ⟨s, some audioPacket, []⟩) hE hs ho hflag
        speakTime time
      simpa [Except.isOk, Except.toBool] using hserver

def oneBytePacket : ENetPacket := ⟨fun i => if i = 7 then 1 else 0, 9⟩

end Svc.Svcenet
