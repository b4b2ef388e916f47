import Svc.Svcenet.Client.Session
import Svc.Svcenet.Network.History
import Svc.Svcenet.Network.Replication
import Svc.Svcenet.WxClient.Shown

/-!
# From a script of the server to a window

A value that a script of the server set and that was sent is shown by the window of every user
who is connected, as soon as what was sent is delivered and read, and no other key is.
-/

namespace Svc.Svcenet

open Svc.Common Svc.Lib

open SVCParser (ofBytes)

section Values

variable {signed : Bool} {dict : Dsdict} {dd : DataDict}

theorem wxMapFind_shown (dict : Dsdict) (key : CString) :
    wxMapFind (dict.map (DsdictNode.shown signed)) (ofBytes signed key.bytes) =
      (dsdictGet dict key).map (ofBytes signed) := by
  induction dict with
  | nil => rfl
  | cons node dict ih =>
      have hkey : ofBytes signed node.key.bytes = ofBytes signed key.bytes ↔ node.key = key := by
        rw [(ofBytes_injective signed).eq_iff, CString.bytes_inj]
      have hshown : (node.shown signed).key = ofBytes signed node.key.bytes := rfl
      rw [wxMapFind, dsdictGet] at ih ⊢
      rw [List.map_cons, Dict.find_cons, Dict.find_cons, hshown]
      by_cases heq : node.key = key
      · rw [if_pos heq, if_pos (hkey.2 heq)]
        rfl
      · rw [if_neg heq, if_neg fun h => heq (hkey.1 h)]
        exact ih

structure SVCObjectInfo.Copies (signed : Bool) (o : SVCObjectInfo) (dd : DataDict) : Prop where
  clean : ∀ ddn ∈ dd, ddn.dirty = false →
    wxMapFind o.values (ofBytes signed ddn.key.bytes) = some (ofBytes signed ddn.value.bytes)
  keys : ∀ key ∈ o.keysBox, ∃ ddn ∈ dd, key = ofBytes signed ddn.key.bytes

theorem copies_shown (h : Copies dd dict) {o : SVCObjectInfo} (ho : o.Consistent)
    (hvalues : o.values = dict.map (DsdictNode.shown signed)) : o.Copies signed dd where
  clean ddn hddn hclean := by
    rw [hvalues, wxMapFind_shown, h.clean ddn hddn hclean, Option.map_some]
  keys key hkey := by
    have hmem := (ho.mem_keysBox key).1 hkey
    rw [hvalues, List.map_map] at hmem
    obtain ⟨node, hnode, rfl⟩ := List.mem_map.1 hmem
    obtain ⟨ddn, hddn, heq⟩ := List.mem_map.1 (h.keys node hnode)
    refine ⟨ddn, hddn, ?_⟩
    rw [heq]
    rfl

end Values

/-! ## Lines of the server -/

theorem nulFree_of_mem_tokens (m : ServerMsg) : ∀ token ∈ m.tokens, 0 ∉ token := by
  cases m with
  | sset key value =>
      simp only [ServerMsg.tokens, List.forall_mem_cons]
      exact ⟨by decide, key.nulFree, value.nulFree, fun _ hmem => absurd hmem List.not_mem_nil⟩
  | yare id | padd id =>
      simp only [ServerMsg.tokens, List.forall_mem_cons]
      exact ⟨by decide, nulFree_decimal id, fun _ hmem => absurd hmem List.not_mem_nil⟩
  | pset id key value =>
      simp only [ServerMsg.tokens, List.forall_mem_cons]
      exact ⟨by decide, nulFree_decimal id, key.nulFree, value.nulFree,
        fun _ hmem => absurd hmem List.not_mem_nil⟩

theorem legible_line {clean : Prop} (m : ServerMsg) :
    (ClientEvent.enet (.line m.line)).Legible clean := by
  refine ⟨newline_not_mem_line m, fun _ tokens htokens => ?_⟩
  obtain rfl : m.tokens = tokens := Except.ok.inj ((dstrlexParse_line m).symm.trans htokens)
  exact nulFree_of_mem_tokens m

theorem legible_session {clean : Prop} {session : List ClientEvent} {msgs : List ServerMsg}
    (hstays : ∀ e ∈ session, e.Stays) (hheard : heardLines session = msgs.map ServerMsg.line) :
    ∀ e ∈ session, e.Legible clean := by
  intro event hevent
  have hstay := hstays event hevent
  cases event with
  | connect | disconnect => cases hstay
  | mute | deafen => trivial
  | enet event =>
      cases event with
      | connect | disconnect | other => cases hstay
      | audio => trivial
      | line string =>
          have hmem : string ∈ heardLines session :=
            List.mem_flatMap.2 ⟨_, hevent, List.mem_cons_self⟩
          rw [hheard] at hmem
          obtain ⟨m, -, rfl⟩ := List.mem_map.1 hmem
          exact legible_line m

/-! ## From the script to the window -/

/-- The events of `svcc` of a user who connected and then heard the packets -/
def Attends (events : List ClientEvent) (packets : List Bytes) : Prop :=
  ∃ before session s, events = before ++ .enet .connect :: session ∧
    (∀ e ∈ before, e.Legible True) ∧ clientAfter before = .ok s ∧ s.state = .connecting ∧
      (∀ e ∈ session, e.Stays) ∧ heardLines session = packets.flatMap completeLines

theorem attends_legible {events : List ClientEvent} {packets : List Bytes}
    (h : Attends events packets) {msgs : List ServerMsg}
    (hmsgs : packets.flatMap completeLines = msgs.map ServerMsg.line) :
    ∀ e ∈ events, e.Legible True := by
  obtain ⟨before, session, s₀, rfl, hlegible, -, -, hstays, hheard⟩ := h
  intro e he
  rcases List.mem_append.1 he with he | he
  · exact hlegible e he
  · rcases List.mem_cons.1 he with rfl | he
    · trivial
    · exact legible_session hstays (hheard.trans hmsgs) e he

theorem attends_shows {events : List ClientEvent} {packets : List Bytes} {s : ClientState}
    (h : Attends events packets) {msgs : List ServerMsg}
    (hmsgs : packets.flatMap completeLines = msgs.map ServerMsg.line)
    (hfits : Replica.init.FitsAll msgs) (hrun : clientAfter events = .ok s) :
    s.state = .connected ∧ s.toClient.Shows (msgs.foldl Replica.apply .init) := by
  obtain ⟨before, session, s₀, rfl, -, hbefore, hstate, hstays, hheard⟩ := h
  have hdown : s₀.state ≠ .connected := by rw [hstate]; nofun
  have hrun' : clientMachine.run (clientMachine.next (.ok s₀) (.enet .connect)) session =
      .ok s := by
    rw [← hbefore, clientAfter, ← Machine.run_concat, ← Machine.run_append, List.append_assoc]
    exact hrun
  obtain ⟨s₁, hconnect⟩ : ∃ s₁, handleClientEvent s₀ (.enet .connect) = .ok s₁ := by
    rw [handleClientEvent, hstate]
    exact ⟨_, rfl⟩
  obtain ⟨hup, hshows⟩ := shows_connected (fresh_run hbefore hdown) hstate hconnect
  rw [clientMachine, Machine.fallible_next_ok, hconnect] at hrun'
  exact shows_session hup hshows hstays (hheard.trans hmsgs) hfits hrun'

/-- No update is lost on the way to the window of a user. -/
theorem published_shown {wx : WxWidgets} {signed : Bool} (hwx : wx.Lawful)
    (network : List NetworkEvent) (hadm : networkMachine.Guarded Admissible .init network)
    {p : ENetPeer} {l : Link} (hlink : (networkAfter network).links p = some l)
    (hread : l.inFlight = []) {events : List WxEvent} {x : WxClient}
    (hattends : Attends (svccEvents events) (heardBy p network))
    (h : WxClient.after wx signed events = .ok x) (hlife : x.life = .running) :
    ∃ s, (networkAfter network).server = .ok s ∧ ∃ later x', svccEvents later = [] ∧
      WxClient.after wx signed (events ++ later) = .ok x' ∧
      x'.window.serverInfo.Copies signed s.serverData := by
  obtain ⟨s, R, hok⟩ := networkOk_run hadm
  obtain ⟨msgs, coming, hcarries⟩ := carriesTo_run network hadm p l hlink
  obtain rfl : coming = [] := by
    have hnone := hcarries.inFlight_eq
    rw [hread] at hnone
    exact List.map_eq_nil_iff.1 hnone.symm
  have hfits := hcarries.fits
  have hr := hok.replica_eq hlink hcarries
  rw [List.append_nil] at hfits hr
  have hlegible := attends_legible hattends hcarries.heard_eq
  obtain ⟨hafter, later, x', _, _, _, hnone, hafter', -, -, hfollows, -, hwindow⟩ :=
    exists_caught_up hwx hlegible h hlife
  obtain ⟨hup, hshows⟩ := attends_shows hattends hcarries.heard_eq hfits hafter
  obtain ⟨dict, hdict, hcopies⟩ :=
    ((hok.replicated p _ hr).mirrors hok.keysOk hshows).serverInfo
  refine ⟨s, hok.server_eq, later, x', hnone, hafter', ?_⟩
  obtain ⟨dict', hdict', hvalues⟩ := hwindow.values trivial hup
  obtain rfl : dict = dict' := DsdictPtr.live.inj (hdict.symm.trans hdict')
  exact copies_shown hcopies hfollows.consistent hvalues

def topicSet : List NetworkEvent :=
  [.server (.connect 1 [] (.integer 1)),
    .server (.call (.serverset ⟨cstr "a", by decide⟩ ⟨cstr "b", by decide⟩)),
    .server .sendModified, .deliver 1, .deliver 1]

def topicRead : List ClientEvent :=
  ["YARE 0", "PADD 0", "SSET \"a\" \"b\""].map fun line => .enet (.line (cstr line))

theorem attends_topic : Attends (connection ++ topicRead) (heardBy 1 topicSet) := by
  refine ⟨connection.take 1, topicRead, _, rfl, ?_, rfl, rfl, ?_, by decide⟩
  · rintro event hevent
    obtain rfl := List.mem_singleton.1 hevent
    rintro addr cmd name port ⟨⟩ ⟨⟩
    exact ⟨by decide, by decide⟩
  · rintro event hevent
    obtain ⟨line, -, rfl⟩ := List.mem_map.1 hevent
    trivial

theorem published_shown_topic : ∃ x, WxClient.after plainWidgets true
      ((connection ++ topicRead).map .svcc) = .ok x ∧
    ∃ s, (networkAfter topicSet).server = .ok s ∧ ∃ later x', svccEvents later = [] ∧
      WxClient.after plainWidgets true ((connection ++ topicRead).map .svcc ++ later) = .ok x' ∧
      x'.window.serverInfo.Copies true s.serverData :=
  ⟨_, rfl, published_shown lawful_plainWidgets topicSet (by decide) (p := 1) rfl rfl
    attends_topic rfl rfl⟩

end Svc.Svcenet
