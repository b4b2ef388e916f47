import Svc.Svcenet.SvcState

/-!
# What a line can change

A line makes at most one change, with one event or one line of the log behind those that are
still queued; what is queued does not matter for it.
-/

namespace Svc.Svcenet

open Svc.Common Svc.Lib

inductive SVCUpdate where
  | nothing
  | log (line : String)
  | muted (flag : Bool)
  | deafen (flag : Bool)
  | enter (state : SVCCon)
  | server (host address : WxString) (port : Option Nat)
  | set (key value : WxString)

namespace SVCState

def update (s : SVCState) : SVCUpdate → SVCState
  | .nothing => s
  | .log line => s.log line
  | .muted flag => { s with locallyMuted := flag }.append (.muted flag)
  | .deafen flag => { s with locallyDeafen := flag }.append (.deafen flag)
  | .enter .disconnected => { s.enter .disconnected with serverInfo := [] }
  | .enter state => s.enter state
  | .server host address port =>
      { s with serverHost := host, serverAddress := address, serverPort := port }.append
        (.server host address port)
  | .set key value =>
      { s with serverInfo := wxMapSet s.serverInfo key value }.append (.serverSet key value)

def drained (s : SVCState) : SVCState := { s with stateLog := [], eventList := [] }

/-- The update is one of this state: a connection enters a state that is new. -/
def Admits (s : SVCState) (u : SVCUpdate) : Prop :=
  ∀ state, u = .enter state → state ≠ s.connectionState

def Updates (s : SVCState) (f : SVCState → SVCState) : Prop :=
  ∃ u, s.Admits u ∧ ∀ s', s'.drained = s.drained → f s' = s'.update u

end SVCState

def SVCUpdate.event : SVCUpdate → List SVCEvent
  | .nothing | .log _ => []
  | .muted flag => [.muted flag]
  | .deafen flag => [.deafen flag]
  | .enter state => [.connectionState state]
  | .server host address port => [.server host address port]
  | .set key value => [.serverSet key value]

def SVCUpdate.logged : SVCUpdate → WxArrayString
  | .log line => [wxT line]
  | .nothing | .muted _ | .deafen _ | .enter _ | .server .. | .set .. => []

section Updates

variable {s s' : SVCState}

theorem eventList_update (s : SVCState) (u : SVCUpdate) :
    (s.update u).eventList = s.eventList ++ u.event := by
  cases u with
  | nothing | log => exact (List.append_nil _).symm
  | enter state => cases state <;> rfl
  | muted | deafen | server | set => rfl

theorem stateLog_update (s : SVCState) (u : SVCUpdate) :
    (s.update u).stateLog = s.stateLog ++ u.logged := by
  cases u with
  | enter state => cases state <;> exact (List.append_nil _).symm
  | log => rfl
  | nothing | muted | deafen | server | set => exact (List.append_nil _).symm

theorem drained_update (h : s'.drained = s.drained) (u : SVCUpdate) :
    (s'.update u).drained = (s.update u).drained := by
  obtain ⟨m, d, host, address, port, con, info, log, events⟩ := s
  obtain ⟨m', d', host', address', port', con', info', log', events'⟩ := s'
  simp only [SVCState.drained, SVCState.mk.injEq, and_true] at h
  obtain ⟨rfl, rfl, rfl, rfl, rfl, rfl, rfl⟩ := h
  cases u with
  | enter state => cases state <;> rfl
  | nothing | log | muted | deafen | server | set => rfl

theorem eq_of_drained (h : s'.drained = s.drained) :
    s'.locallyMuted = s.locallyMuted ∧ s'.locallyDeafen = s.locallyDeafen ∧
      s'.connectionState = s.connectionState :=
  ⟨congrArg (·.locallyMuted) h, congrArg (·.locallyDeafen) h, congrArg (·.connectionState) h⟩

theorem updates_of_eq {f : SVCState → SVCState} (u : SVCUpdate) (hu : s.Admits u)
    (h : ∀ s', s'.drained = s.drained → f s' = s'.update u) : s.Updates f := ⟨u, hu, h⟩

theorem updates_log (text : String) : s.Updates (·.log text) :=
  updates_of_eq (.log text) nofun fun _ _ => rfl

theorem updates_self : s.Updates id := updates_of_eq .nothing nofun fun _ _ => rfl

theorem updates_handleFlag (name : String) {old : SVCState → Bool}
    (hold : ∀ s', s'.drained = s.drained → old s' = old s) {change : SVCState → Bool → SVCState}
    {event : Bool → SVCEvent} {u : Bool → SVCUpdate} (hu : ∀ flag, s.Admits (u flag))
    (hchange : ∀ s' flag, (change s' flag).append (event flag) = s'.update (u flag))
    (cmd : WxArrayString) :
    s.Updates fun s' => s'.handleFlag name (old s') (change s') event cmd := by
  unfold SVCState.handleFlag
  split
  · rename_i flag
    by_cases hoff : flag = wxT "0" ∧ old s = true
    · exact updates_of_eq (u false) (hu false) fun s' hs' => by
        rw [if_pos ((hold s' hs').symm ▸ hoff), hchange]
    · by_cases hon : flag = wxT "1" ∧ old s = false
      · exact updates_of_eq (u true) (hu true) fun s' hs' => by
          rw [if_neg ((hold s' hs').symm ▸ hoff), if_pos ((hold s' hs').symm ▸ hon), hchange]
      · exact updates_of_eq .nothing nofun fun s' hs' => by
          rw [if_neg ((hold s' hs').symm ▸ hoff), if_neg ((hold s' hs').symm ▸ hon)]
          rfl
  · exact updates_log _

theorem updates_handleStateConnection (cmd : WxArrayString) :
    s.Updates (·.handleStateConnection cmd) := by
  have henter : ∀ state, state ≠ s.connectionState → s.Admits (.enter state) := by
    rintro state hne _ ⟨⟩
    exact hne
  unfold SVCState.handleStateConnection
  split
  · rename_i state
    by_cases hconnecting : state = wxT "connecting" ∧ s.connectionState ≠ .connecting
    · refine updates_of_eq (.enter .connecting) (henter _ hconnecting.2.symm) fun s' hs' => ?_
      rw [(eq_of_drained hs').2.2, if_pos hconnecting]
      rfl
    by_cases hconnected : state = wxT "connected" ∧ s.connectionState ≠ .connected
    · refine updates_of_eq (.enter .connected) (henter _ hconnected.2.symm) fun s' hs' => ?_
      rw [(eq_of_drained hs').2.2, if_neg hconnecting, if_pos hconnected]
      rfl
    by_cases hdown : state = wxT "disconnected" ∧ s.connectionState ≠ .disconnected
    · refine updates_of_eq (.enter .disconnected) (henter _ hdown.2.symm) fun s' hs' => ?_
      rw [(eq_of_drained hs').2.2, if_neg hconnecting, if_neg hconnected, if_pos hdown]
      rfl
    · refine updates_of_eq (.log "error: Invalid connection state") nofun fun s' hs' => ?_
      rw [(eq_of_drained hs').2.2, if_neg hconnecting, if_neg hconnected, if_neg hdown]
      rfl
  · exact updates_log _

theorem updates_handleStateServer (wx : WxWidgets) (cmd : WxArrayString) :
    s.Updates (·.handleStateServer wx cmd) := by
  unfold SVCState.handleStateServer
  split
  · exact updates_of_eq (.server _ _ _) nofun fun _ _ => rfl
  · exact updates_log _

theorem updates_handleCommandSset (cmd : WxArrayString) : s.Updates (·.handleCommandSset cmd) := by
  unfold SVCState.handleCommandSset
  split
  · exact updates_of_eq (.set _ _) nofun fun _ _ => rfl
  · exact updates_log _

theorem updates_runCommand (wx : WxWidgets) (cmd : WxArrayString) :
    s.Updates (·.runCommand wx cmd) := by
  cases cmd with
  | nil => exact updates_self
  | cons name args =>
      unfold SVCState.runCommand
      dsimp only
      split_ifs
      · exact updates_handleStateConnection _
      · exact updates_handleFlag ":MUTED" (u := .muted) (fun s' hs' => (eq_of_drained hs').1)
          (fun _ => nofun) (fun _ _ => rfl) _
      · exact updates_handleFlag ":DEAFEN" (u := .deafen) (fun s' hs' => (eq_of_drained hs').2.1)
          (fun _ => nofun) (fun _ _ => rfl) _
      · exact updates_handleStateServer wx _
      · exact updates_self
      · exact updates_handleCommandSset _
      · exact updates_self

theorem updates_readLine (wx : WxWidgets) (signed : Bool) (line : Bytes) :
    s.Updates (·.readLine wx signed line) := by
  unfold SVCState.readLine SVCState.parseCommand
  split
  · exact updates_log _
  · exact updates_log _
  · exact updates_runCommand wx _

/-! ### What is queued does not matter -/

variable {wx : WxWidgets} {signed : Bool}

/-- A line does the same to what is known, and queues the same behind what is queued. -/
theorem readLine_of_drained (h : s'.drained = s.drained) (line : Bytes) :
    (s'.readLine wx signed line).drained = (s.readLine wx signed line).drained ∧
      (s.readLine wx signed line).stateLog =
        s.stateLog ++ (s.drained.readLine wx signed line).stateLog := by
  obtain ⟨u, -, hu⟩ := updates_readLine (s := s) wx signed line
  have hread : ∀ s' : SVCState, s'.drained = s.drained →
      s'.readLine wx signed line = s'.update u := hu
  rw [hread s' h, hread s rfl, hread s.drained rfl, stateLog_update, stateLog_update]
  exact ⟨drained_update h u, rfl⟩

theorem drained_readLines (h : s'.drained = s.drained) (lines : List Bytes) :
    (s'.readLines wx signed lines).drained = (s.readLines wx signed lines).drained := by
  induction lines generalizing s s' with
  | nil => exact h
  | cons line lines ih => exact ih (readLine_of_drained h line).1

theorem stateLog_readLines (lines : List Bytes) :
    (s.readLines wx signed lines).stateLog =
      s.stateLog ++ (s.drained.readLines wx signed lines).stateLog := by
  induction lines generalizing s with
  | nil => exact (List.append_nil _).symm
  | cons line lines ih =>
      have hsame : s.drained.drained = s.drained := rfl
      obtain ⟨hdrained, hlog⟩ := readLine_of_drained hsame line
      rw [readLines_cons, readLines_cons, ih, ih (s := s.drained.readLine wx signed line), hdrained,
        hlog, List.append_assoc]

end Updates

end Svc.Svcenet
