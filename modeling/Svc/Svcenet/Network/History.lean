import Svc.Svcenet.Network.Refinement

/-!
# What a client has heard

The packets that were delivered to a client since it connected are the commands that make a
replica, and so are the ones still on their way.
-/

namespace Svc.Svcenet

open Svc.Common Svc.Lib

/-- What was delivered to a peer since it connected, after one more event -/
def hear (peer : ENetPeer) (n : Network) (heard : List Bytes) : NetworkEvent → List Bytes
  | .server (.connect p _ _) => if p = peer then [] else heard
  | .server (.disconnect _ _) | .server (.call _) | .server .sendModified => heard
  | .deliver p =>
      if p = peer then heard ++ ((n.links peer).elim [] fun l => l.inFlight.take 1) else heard

def listenMachine (peer : ENetPeer) : Machine (Network × List Bytes) NetworkEvent Unit where
  step x event := ((networkMachine.next x.1 event, hear peer x.1 x.2 event), ())

def heardBy (peer : ENetPeer) (events : List NetworkEvent) : List Bytes :=
  ((listenMachine peer).run (.init, []) events).2

/-- The commands that were delivered, and the ones on their way, from the start of a connection -/
structure Link.Carries (l : Link) (heard : List Bytes) (msgs coming : List ServerMsg) : Prop where
  heard_eq : heard.flatMap completeLines = msgs.map ServerMsg.line
  inFlight_eq : l.inFlight.flatMap completeLines = coming.map ServerMsg.line
  fits : Replica.init.FitsAll (msgs ++ coming)
  drained_eq : l.drained =
    (msgs ++ coming).foldlM (fun c m => handleServerDecodedMsg c m.line) Client.connected
  /-- a client is told its id first, and only once -/
  named : ∀ id, ServerMsg.yare id ∉ (msgs ++ coming).tail

/-! ## One connection -/

section Links

variable {l : Link} {heard : List Bytes} {msgs coming : List ServerMsg} {c : Client}
  {r r' : Replica}

/-- A client shows one replica. -/
theorem Client.Shows.unique (h : c.Shows r) (h' : c.Shows r') : r = r' := by
  obtain ⟨dict, hdict, hinfo⟩ := h.info
  obtain ⟨dict', hdict', hinfo'⟩ := h'.info
  obtain rfl : dict = dict' := DsdictPtr.live.inj (hdict.symm.trans hdict')
  obtain ⟨info, myId, table⟩ := r
  obtain ⟨info', myId', table'⟩ := r'
  obtain rfl : info = info' := hinfo.symm.trans hinfo'
  obtain rfl : myId = myId' := h.myId.symm.trans h'.myId
  obtain rfl : table = table' := funext fun i => (h.table i).symm.trans (h'.table i)
  rfl

/-- Commands that fit do to a client what they do to its replica. -/
theorem Client.Shows.foldlM (h : c.Shows r) (hmsgs : r.FitsAll msgs) :
    ∃ c', msgs.foldlM (fun c m => handleServerDecodedMsg c m.line) c = .ok c' ∧
      c'.Shows (msgs.foldl Replica.apply r) := by
  rw [← handleServerMsg_encode]
  exact handleServerMsg_spec h hmsgs

theorem carries_opened : Link.opened.Carries [] [] [] :=
  ⟨rfl, rfl, trivial, rfl, fun _ => List.not_mem_nil⟩

theorem Link.Carries.shows (h : l.Carries heard msgs coming) :
    l.Shows ((msgs ++ coming).foldl Replica.apply .init) := by
  obtain ⟨c, hok, hc⟩ := shows_init.foldlM h.fits
  exact ⟨c, h.drained_eq.trans hok, hc⟩

theorem Link.Carries.eq_of_shows (h : l.Carries heard msgs coming) (hr : l.Shows r) :
    r = (msgs ++ coming).foldl Replica.apply .init := by
  obtain ⟨c, hdrained, hc⟩ := hr
  obtain ⟨c', hdrained', hc'⟩ := h.shows
  obtain rfl : c = c' := Except.ok.inj (hdrained.symm.trans hdrained')
  exact hc.unique hc'

theorem Link.Carries.push_nil (h : l.Carries heard msgs coming) :
    (l.push []).Carries heard msgs coming where
  heard_eq := h.heard_eq
  inFlight_eq := by rw [Link.push, List.append_nil, h.inFlight_eq]
  fits := h.fits
  drained_eq := by
    rw [drained_push, ← h.drained_eq]
    exact bind_pure l.drained
  named := h.named

theorem Link.Carries.push_msgs (h : l.Carries heard msgs coming) {new : List ServerMsg}
    (hnew : ((msgs ++ coming).foldl Replica.apply .init).FitsAll new)
    (hnamed : ∀ id, ServerMsg.yare id ∉ (msgs ++ coming ++ new).tail) :
    (l.push [new.flatMap ServerMsg.encode]).Carries heard msgs (coming ++ new) where
  heard_eq := h.heard_eq
  inFlight_eq := by
    rw [Link.push, List.flatMap_append, h.inFlight_eq, List.map_append, List.flatMap_singleton,
      completeLines_encode]
  fits := by
    rw [← List.append_assoc, Replica.fitsAll_append]
    exact ⟨h.fits, hnew⟩
  drained_eq := by
    have hlast : ∀ c, [new.flatMap ServerMsg.encode].foldlM handleServerMsg c =
        new.foldlM (fun c m => handleServerDecodedMsg c m.line) c := fun c => by
      rw [List.foldlM_cons, handleServerMsg_encode]
      exact bind_pure _
    have hall : (msgs ++ coming ++ new).foldlM (fun c m => handleServerDecodedMsg c m.line)
        Client.connected = (msgs ++ coming).foldlM (fun c m => handleServerDecodedMsg c m.line)
          Client.connected >>= new.foldlM fun c m => handleServerDecodedMsg c m.line :=
      List.foldlM_append
    rw [drained_push, h.drained_eq, ← List.append_assoc, hall]
    simp only [hlast]
    rfl
  named := by
    rw [← List.append_assoc]
    exact hnamed

theorem Link.Carries.push_lost (h : l.Carries heard msgs coming) {data : Bytes}
    (hdata : chr '\n' ∉ data) : (l.push [data]).Carries heard msgs coming where
  heard_eq := h.heard_eq
  inFlight_eq := by
    rw [Link.push, List.flatMap_append, h.inFlight_eq, List.flatMap_singleton,
      completeLines_of_not_mem hdata, List.append_nil]
  fits := h.fits
  drained_eq := by
    rw [drained_push, ← h.drained_eq]
    have hlost : ∀ c, [data].foldlM handleServerMsg c = pure c := fun c => by
      rw [List.foldlM_cons, handleServerMsg_of_not_mem hdata]
      rfl
    simp only [hlost]
    exact bind_pure l.drained
  named := h.named

theorem Link.Carries.deliver (h : l.Carries heard msgs coming) :
    ∃ msgs' coming', l.deliver.Carries (heard ++ l.inFlight.take 1) msgs' coming' := by
  obtain ⟨client, inFlight⟩ := l
  cases inFlight with
  | nil =>
      refine ⟨msgs, coming, ?_, h.inFlight_eq, h.fits, h.drained_eq, h.named⟩
      rw [List.take_nil, List.append_nil]
      exact h.heard_eq
  | cons data inFlight =>
      have hsplit := h.inFlight_eq
      rw [List.flatMap_cons, eq_comm, List.map_eq_append_iff] at hsplit
      obtain ⟨first, rest, rfl, hfirst, hrest⟩ := hsplit
      refine ⟨msgs ++ first, rest, ?_, hrest.symm, ?_, ?_, ?_⟩
      · rw [List.flatMap_append, h.heard_eq, List.take_succ_cons, List.take_zero,
          List.flatMap_singleton, List.map_append, hfirst]
      · rw [List.append_assoc]
        exact h.fits
      · rw [drained_deliver, List.append_assoc]
        exact h.drained_eq
      · rw [List.append_assoc]
        exact h.named

theorem Link.Carries.yare_not_mem (h : l.Carries heard msgs coming) {new : List ServerMsg}
    (hnew : ∀ id, ServerMsg.yare id ∉ new) (id : Nat) :
    ServerMsg.yare id ∉ (msgs ++ coming ++ new).tail := by
  cases hold : msgs ++ coming with
  | nil => exact fun hmem => hnew id (List.mem_of_mem_tail hmem)
  | cons m rest =>
      have hrest := h.named id
      rw [hold, List.tail_cons] at hrest
      rw [List.cons_append, List.tail_cons, List.mem_append]
      exact not_or.2 ⟨hrest, hnew id⟩

theorem yare_not_mem_modifiedMsgs (s : Server) (id : Nat) :
    ServerMsg.yare id ∉ modifiedMsgs s := by
  simp [modifiedMsgs]

theorem yare_not_mem_snapshotMsgs (s : Server) (slot id : Nat) :
    ServerMsg.yare id ∉ (snapshotMsgs s slot).tail := by
  simp [snapshotMsgs]

end Links

/-! ## The network -/

section Steps

variable {n : Network} {s : Server} {R : Replicas} {peer : ENetPeer} {heard : List Bytes}

def Network.CarriesTo (n : Network) (peer : ENetPeer) (heard : List Bytes) : Prop :=
  ∀ l, n.links peer = some l → ∃ msgs coming, l.Carries heard msgs coming

theorem NetworkOk.replica_eq (h : NetworkOk n s R) {p : ENetPeer} {l : Link}
    (hl : n.links p = some l) {msgs coming : List ServerMsg} (hc : l.Carries heard msgs coming) :
    R p = some ((msgs ++ coming).foldl Replica.apply .init) := by
  have hrel := h.shows p
  rw [hl] at hrel
  cases hr : R p with
  | none =>
      rw [hr] at hrel
      cases hrel
  | some r =>
      rw [hr] at hrel
      cases hrel with
      | some hshows => rw [hc.eq_of_shows hshows]

theorem carriesTo_deliver (hc : n.CarriesTo peer heard) (p : ENetPeer) :
    (networkMachine.next n (.deliver p)).CarriesTo peer (hear peer n heard (.deliver p)) := by
  intro l hl
  have hl : Function.update n.links p ((n.links p).map Link.deliver) peer = some l := hl
  rw [hear]
  by_cases hp : p = peer
  · subst hp
    rw [Function.update_self] at hl
    obtain ⟨l₀, hl₀, rfl⟩ := Option.map_eq_some_iff.1 hl
    obtain ⟨msgs, coming, hcarries⟩ := hc l₀ hl₀
    rw [if_pos rfl, hl₀]
    exact hcarries.deliver
  · rw [Function.update_of_ne (Ne.symm hp)] at hl
    rw [if_neg hp]
    exact hc l hl

theorem carriesTo_call (h : NetworkOk n s R) (hc : n.CarriesTo peer heard) (call : ScriptCall) :
    (networkMachine.next n (.server (.call call))).CarriesTo peer heard := by
  intro l hl
  rw [next_server h.server_eq (show handleEvent s (.call call) = .ok (runCall s call, []) from rfl)]
    at hl
  obtain ⟨l₀, hl₀, rfl⟩ := Option.map_eq_some_iff.1 hl
  obtain ⟨msgs, coming, hcarries⟩ := hc l₀ hl₀
  exact ⟨msgs, coming, hcarries.push_nil⟩

theorem carriesTo_sendModified (h : NetworkOk n s R) (hc : n.CarriesTo peer heard) :
    (networkMachine.next n (.server .sendModified)).CarriesTo peer heard := by
  intro l hl
  have hhandle : handleEvent s .sendModified = _ := sendModifiedData_eq h.linked
  rw [next_server h.server_eq hhandle] at hl
  obtain ⟨l₀, hl₀, rfl⟩ := Option.map_eq_some_iff.1 hl
  obtain ⟨msgs, coming, hcarries⟩ := hc l₀ hl₀
  have hr := h.replica_eq hl₀ hcarries
  have hmem : peer ∈ s.occupants.map fun x => x.2.owner := by
    rw [h.linked.mem_owners, ← h.owner_iff, hr]
    rfl
  have hpackets := packetsTo_sent h.linked.nodup_owners peer (encodeModified s)
  rw [if_pos hmem, List.map_map] at hpackets
  have hpackets : packetsTo peer (s.occupants.map fun x => .sent x.2.owner (encodeModified s)) =
      [encodeModified s] := hpackets
  rw [hpackets, encodeModified_eq]
  exact ⟨msgs, _, hcarries.push_msgs (h.replicated peer _ hr).fitsAll_modifiedMsgs
    (hcarries.yare_not_mem (yare_not_mem_modifiedMsgs s))⟩

theorem carriesTo_connect (h : NetworkOk n s R) (hc : n.CarriesTo peer heard) {p : ENetPeer}
    {calls : List ScriptCall} {result : ConnectResult}
    (hadm : Admissible n (.server (.connect p calls result))) :
    (networkMachine.next n (.server (.connect p calls result))).CarriesTo peer
      (hear peer n heard (.server (.connect p calls result))) := by
  obtain ⟨hlink, haccepts, hcount⟩ := hadm
  rw [h.occupiedCount_eq] at hcount
  have hp := h.eq_none_of_link hlink
  have hnew : ∀ j, s.peerAt j ≠ some (some p) := by
    intro j hj
    have howner := (h.owner_iff p).2 ⟨j, hj⟩
    rw [hp] at howner
    cases howner
  obtain ⟨i, s₁, hattach, hhandle⟩ :=
    handlePeerConnect_of_accepts calls h.tableOk h.linked hcount hnew haccepts
  have hhandle : handleEvent s (.connect p calls result) = _ := hhandle
  have hjoined := hattach.joined calls h.tableOk h.linked hnew
  intro l hl
  rw [next_server h.server_eq hhandle] at hl
  simp only [relink, packetsTo_connect (hjoined.linked.nodup_ownersBut i), hjoined.mem_ownersBut,
    ← h.owner_iff] at hl
  rw [hear]
  by_cases hq : p = peer
  · subst hq
    simp only [Function.update_self, Option.map_some, hp, if_true, Option.isSome_none,
      Bool.false_eq_true, if_false, List.append_nil, Option.some.injEq] at hl
    rw [encodeSnapshot_eq] at hl
    subst hl
    rw [if_pos rfl]
    exact ⟨[], _, carries_opened.push_msgs (fitsAll_snapshotMsgs hjoined.tableOk hattach.lt)
      (yare_not_mem_snapshotMsgs _ i)⟩
  · simp only [Function.update_of_ne (Ne.symm hq), if_neg hq, List.nil_append] at hl
    obtain ⟨l₀, hl₀, rfl⟩ := Option.map_eq_some_iff.1 hl
    obtain ⟨msgs, coming, hcarries⟩ := hc l₀ hl₀
    have hr := h.replica_eq hl₀ hcarries
    rw [if_neg hq, hr, if_pos Option.isSome_some, encodePadd_eq]
    have hlt : i < 2 ^ 31 - 1 := by
      have := hattach.lt
      omega
    have hfits : ((msgs ++ coming).foldl Replica.apply .init).FitsAll [.padd i] := ⟨hlt, trivial⟩
    have hcarries' := hcarries.push_msgs hfits (hcarries.yare_not_mem (by simp))
    rw [List.flatMap_singleton] at hcarries'
    exact ⟨msgs, _, hcarries'⟩

theorem carriesTo_disconnect (h : NetworkOk n s R) (hc : n.CarriesTo peer heard) {p : ENetPeer}
    {calls : List ScriptCall} (hadm : Admissible n (.server (.disconnect p calls))) :
    (networkMachine.next n (.server (.disconnect p calls))).CarriesTo peer heard := by
  have hp : (R p).isSome := by
    rw [← h.isSome_links]
    exact Option.isSome_iff_ne_none.2 hadm
  obtain ⟨i, hi⟩ := (h.owner_iff p).1 hp
  obtain ⟨s', hset, hleft, hhandle⟩ := handlePeerDisconnect_of_owner calls h.tableOk h.linked hi
  have hhandle : handleEvent s (.disconnect p calls) = _ := hhandle
  have hsame := sameSlots_runScript s calls
  have hlinked := hsame.linked h.linked
  intro l hl
  rw [next_server h.server_eq hhandle] at hl
  simp only [relink, packetsTo_disconnect (hlinked.nodup_ownersBut i)] at hl
  by_cases hq : peer = p
  · rw [hq, Function.update_self] at hl
    cases hl
  · rw [Function.update_of_ne hq] at hl
    obtain ⟨l₀, hl₀, rfl⟩ := Option.map_eq_some_iff.1 hl
    obtain ⟨msgs, coming, hcarries⟩ := hc l₀ hl₀
    split_ifs
    · exact ⟨msgs, coming, hcarries.push_lost (newline_not_mem_pdel i)⟩
    · exact ⟨msgs, coming, hcarries.push_nil⟩

theorem carriesTo_next (h : NetworkOk n s R) (hc : n.CarriesTo peer heard) {event : NetworkEvent}
    (hadm : Admissible n event) :
    (networkMachine.next n event).CarriesTo peer (hear peer n heard event) := by
  match event with
  | .server (.connect _ _ _) => exact carriesTo_connect h hc hadm
  | .server (.disconnect _ _) => exact carriesTo_disconnect h hc hadm
  | .server (.call call) => exact carriesTo_call h hc call
  | .server .sendModified => exact carriesTo_sendModified h hc
  | .deliver p => exact carriesTo_deliver hc p

end Steps

theorem listenMachine_fst (peer : ENetPeer) (events : List NetworkEvent) :
    ((listenMachine peer).run (.init, []) events).1 = networkAfter events := by
  induction events using List.reverseRecOn with
  | nil => rfl
  | append_singleton events event ih =>
      rw [Machine.run_concat, networkAfter_concat, ← ih]
      rfl

theorem heardBy_concat (peer : ENetPeer) (events : List NetworkEvent) (event : NetworkEvent) :
    heardBy peer (events ++ [event]) =
      hear peer (networkAfter events) (heardBy peer events) event := by
  rw [heardBy, Machine.run_concat, ← listenMachine_fst peer events]
  rfl

/-- Over a run, every link carries what its peer heard. -/
theorem carriesTo_run (events : List NetworkEvent)
    (hadm : networkMachine.Guarded Admissible .init events) (peer : ENetPeer) :
    (networkAfter events).CarriesTo peer (heardBy peer events) := by
  induction events using List.reverseRecOn with
  | nil => exact fun l hl => nomatch hl
  | append_singleton events event ih =>
      obtain ⟨hpast, hevent⟩ := (networkMachine.guarded_concat _ _ _ _).1 hadm
      obtain ⟨s, R, h⟩ := networkOk_run hpast
      rw [networkAfter_concat, heardBy_concat]
      exact carriesTo_next h (ih hpast) hevent

end Svc.Svcenet
