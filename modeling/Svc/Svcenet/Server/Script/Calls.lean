import Svc.Svcenet.Server.Script.Runs

/-!
# Scripts as lists of calls

Whatever a script does to the server it does by one call after the other, also where it
raises an error half way.
-/

namespace Svc.Svcenet

open Svc.Common Svc.Lib RaiseM

def CallStep (i j : Interp) : Prop :=
  j.server = i.server ∨ ∃ call, j.server = runCall i.server call

section Scripts

variable {E : JimExpr} {α : Type} {x : ScriptM α}

theorem inSteps_of_keeps (hx : Keeps Interp.server x) : InSteps CallStep x :=
  fun i => .single (.inl (hx i))

theorem inSteps_peerset (type : CString) (p : Nat) (key value : CString) :
    InSteps CallStep (peerset type p key value) :=
  fun i => .single (.inr ⟨_, server_exec_peerset type p key value i⟩)

theorem inSteps_peerget (type : CString) (p : Nat) (key : CString) :
    InSteps CallStep (peerget type p key) :=
  inSteps_of_keeps (keeps_peerget Interp.server type p key)

theorem inSteps_condition (value : Bytes) : InSteps CallStep (condition E value) :=
  inSteps_of_keeps (keeps_condition Interp.server value)

theorem inSteps_peersList : InSteps CallStep peersList :=
  inSteps_of_keeps (Keeps.get.bind fun i => .pure (cmdPeersList i.server))

theorem inSteps_channelPeers (channel : Bytes) : InSteps CallStep (channelPeers E channel) := by
  refine inSteps_peersList.bind fun peers => .foldlM (fun cpeers p => ?_) peers []
  refine (inSteps_peerget pub p channelKey).bind fun value => ?_
  split_ifs
  · exact .pure _
  · exact .pure _

theorem inSteps_stopSpeaking (time : Int) (p : Nat) : InSteps CallStep (stopSpeaking E time p) := by
  refine (inSteps_peerget _ _ _).bind fun value => (inSteps_condition value).bind fun speaking => ?_
  split_ifs
  · refine (inSteps_peerget _ _ _).bind fun timeout => ?_
    split_ifs
    · exact inSteps_peerset _ _ _ _
    · exact .pure ()
  · exact .pure ()

theorem inSteps_onLogic (times : Nat → Int) : InSteps CallStep (onLogic E times) :=
  inSteps_peersList.bind fun peers => .forM (fun p => inSteps_stopSpeaking (times p) p) peers

theorem inSteps_onAudioPacket (speakTime time : Int) (peer : Nat) :
    InSteps CallStep (onAudioPacket E speakTime time peer) := by
  refine (inSteps_peerget _ _ _).bind fun value => (inSteps_condition value).bind fun muted => ?_
  split_ifs
  · exact .pure ()
  · refine (inSteps_peerget _ _ _).bind fun channel => ?_
    refine (inSteps_channelPeers channel).bind fun peers => ?_
    refine (inSteps_peerset _ _ _ _).bind fun _ => (inSteps_peerget _ _ _).bind fun value => ?_
    refine (inSteps_condition value).bind fun speaking => ?_
    have hloop := InSteps.forM (fun p => inSteps_of_keeps (keeps_passOn (E := E) peer p)) peers
    split_ifs
    · exact (inSteps_peerset _ _ _ _).bind fun _ => hloop
    · exact hloop

/-- The calls that a script made -/
theorem exists_calls_of_steps {i j : Interp} (h : Relation.ReflTransGen CallStep i j) :
    ∃ calls, j.server = runScript i.server calls := by
  induction h with
  | refl => exact ⟨[], rfl⟩
  | tail _ hstep ih =>
      obtain ⟨calls, hcalls⟩ := ih
      rcases hstep with hsame | ⟨call, hcall⟩
      · exact ⟨calls, hsame.trans hcalls⟩
      · refine ⟨calls ++ [call], ?_⟩
        rw [hcall, hcalls, runScript, runScript, List.foldl_append]
        rfl

theorem exists_calls_afterScript (hx : InSteps CallStep x) (s : Server) :
    ∃ calls, s.afterScript x = runScript s calls :=
  exists_calls_of_steps (hx ⟨s, none, []⟩)

theorem exists_calls_handlePacketInputAudio (speakTime time : Int) (s : Server) (peerId : Nat)
    (packet : ENetPacket) :
    ∃ calls, (handlePacketInputAudio E speakTime time s peerId packet).1 = runScript s calls := by
  rw [handlePacketInputAudio]
  cases decodeAudioPacket peerId packet with
  | error text => exact ⟨[], rfl⟩
  | ok audioPacket =>
      exact exists_calls_of_steps
        (inSteps_onAudioPacket speakTime time peerId ⟨s, some audioPacket, []⟩)

end Scripts

end Svc.Svcenet
