import Svc.Svcenet.Server.Handlers

/-!
# The life of a slot

A slot is taken by a connecting ENet peer and freed on two paths: at once, when the
script refuses the peer, and when ENet reports that the peer is gone.  ENet reports
that of a refused peer as well, so the second path runs after the first.
-/

namespace Svc.Svcenet

open Svc.Common Svc.Lib

/-! ## The server and ENet -/

structure Host where
  server : Except Fault Server
  /-- the peers whose connection was reported, and its end not yet -/
  connected : List ENetPeer
  /-- those of them that the server refused -/
  rejected : List ENetPeer

def Host.init : Host := ⟨.ok .init, [], []⟩

def Host.report (h : Host) : ServerEvent → List ENetPeer × List ENetPeer
  | .connect peer _ result =>
      (peer :: h.connected,
        if result.accepts then h.rejected.filter (· ≠ peer) else peer :: h.rejected)
  | .disconnect peer _ => (h.connected.filter (· ≠ peer), h.rejected.filter (· ≠ peer))
  | .call _ | .sendModified => (h.connected, h.rejected)

def hostMachine : Machine Host ServerEvent (List ServerEffect) where
  step h event :=
    (⟨serverMachine.next h.server event, (h.report event).1, (h.report event).2⟩,
      serverMachine.out h.server event)

def hostAfter (events : List ServerEvent) : Host := hostMachine.run .init events

def effectsOf (events : List ServerEvent) : List ServerEffect :=
  (hostMachine.outputs .init events).flatten

def Host.occupiedCount (h : Host) : Nat :=
  match h.server with
  | .ok s => s.occupiedCount
  | .error _ => 0

/-- What ENet promises: a connection is reported of a peer that is not connected,
its end once, and at most ten slots are occupied at once. -/
def Reported (h : Host) : ServerEvent → Prop
  | .connect peer _ _ => peer ∉ h.connected ∧ h.occupiedCount < 10
  | .disconnect peer _ => peer ∈ h.connected
  | .call _ | .sendModified => True

def NotRefused (h : Host) : ServerEvent → Prop
  | .disconnect peer _ => peer ∉ h.rejected
  | .connect _ _ _ | .call _ | .sendModified => True

instance (h : Host) : (event : ServerEvent) → Decidable (Reported h event)
  | .connect peer _ _ => inferInstanceAs (Decidable (peer ∉ h.connected ∧ h.occupiedCount < 10))
  | .disconnect peer _ => inferInstanceAs (Decidable (peer ∈ h.connected))
  | .call _ | .sendModified => .isTrue trivial

def ServerEffect.allocates (i : Nat) : ServerEffect → Bool
  | .allocated j => j = i
  | _ => false

def ServerEffect.frees (i : Nat) : ServerEffect → Bool
  | .freed j _ _ => j = i
  | _ => false

/-- Slot `i` was given out once more than it was freed if it is occupied, and as
often as it was freed if it is empty. -/
def FreedOnce (s : Server) (effects : List ServerEffect) : Prop :=
  ∀ i, effects.countP (ServerEffect.allocates i) =
    effects.countP (ServerEffect.frees i) + (s.occupantAt i).isSome.toNat

/-- `free_peer` was only ever called for the peer that the slot belonged to. -/
def FreedByOwner (effects : List ServerEffect) : Prop :=
  ∀ i caller occupant, .freed i caller occupant ∈ effects → occupant = some caller

structure SlotLifecycle (events : List ServerEvent) : Prop where
  freed_by_owner : FreedByOwner (effectsOf events)
  running : ∃ s, (hostAfter events).server = .ok s ∧ s.peersCount = s.occupiedCount ∧
    FreedOnce s (effectsOf events)

/-! ## One event -/

structure HostOk (h : Host) (s : Server) : Prop where
  server_eq : h.server = .ok s
  tableOk : s.TableOk
  linked : s.Linked
  owner_iff : ∀ p, (∃ i, s.peerAt i = some (some p)) ↔ p ∈ h.connected ∧ p ∉ h.rejected
  peerData_isSome : ∀ p ∈ h.connected, (s.peerData p).isSome
  rejected_subset : ∀ p ∈ h.rejected, p ∈ h.connected

structure GoodStep (h : Host) (s s' : Server) (event : ServerEvent)
    (effects : List ServerEffect) : Prop where
  handle_eq : handleEvent s event = .ok (s', effects)
  hostOk : HostOk (hostMachine.next h event) s'
  freed_by_owner : FreedByOwner effects
  balance : ∀ i, effects.countP (ServerEffect.allocates i) + (s.occupantAt i).isSome.toNat =
    effects.countP (ServerEffect.frees i) + (s'.occupantAt i).isSome.toNat

section Events

variable {h : Host} {s : Server}

theorem next_of_handle {event : ServerEvent} {s' : Server} {effects : List ServerEffect}
    (hserver : h.server = .ok s) (hok : handleEvent s event = .ok (s', effects)) :
    (hostMachine.next h event).server = .ok s' ∧ hostMachine.out h event = effects := by
  simp [hostMachine, Machine.next, Machine.out, serverMachine, hserver, hok]

theorem next_of_fault {event : ServerEvent} {fault : Fault}
    (hserver : h.server = .ok s) (hfault : handleEvent s event = .error fault) :
    (hostMachine.next h event).server = .error fault := by
  simp [hostMachine, Machine.next, serverMachine, hserver, hfault]

theorem SameSlots.isSome_occupantAt {s s' : Server} (hsame : SameSlots s s') (i : Nat) :
    (s'.occupantAt i).isSome = (s.occupantAt i).isSome := by
  rw [Svcenet.isSome_occupantAt, hsame.peerAt_eq, Svcenet.isSome_occupantAt]

theorem SameSlots.hostOk {s' : Server} {h' : Host} (hsame : SameSlots s s') (hh : HostOk h s)
    (hserver : h'.server = .ok s') (hconn : h'.connected = h.connected)
    (hrej : h'.rejected = h.rejected) : HostOk h' s' where
  server_eq := hserver
  tableOk := hsame.tableOk hh.tableOk
  linked := hsame.linked hh.linked
  owner_iff p := by rw [hsame.peerAt_eq, hconn, hrej, hh.owner_iff]
  peerData_isSome p hp := by
    rw [hsame.peerData_eq]
    exact hh.peerData_isSome p (hconn ▸ hp)
  rejected_subset p hp := by
    rw [hrej] at hp
    rw [hconn]
    exact hh.rejected_subset p hp

theorem goodStep_call (hh : HostOk h s) (call : ScriptCall) :
    GoodStep h s (runCall s call) (.call call) [] where
  handle_eq := rfl
  hostOk := (sameSlots_runCall s call).hostOk hh (next_of_handle hh.server_eq rfl).1 rfl rfl
  freed_by_owner := by simp [FreedByOwner]
  balance i := by simp [(sameSlots_runCall s call).isSome_occupantAt]

def OnlySends (effects : List ServerEffect) : Prop :=
  ∀ e ∈ effects, ∃ peer data, e = .sent peer data

theorem onlySends_map {β : Type} (l : List β) (peer : β → ENetPeer) (data : Bytes) :
    OnlySends (l.map fun x => .sent (peer x) data) := by
  intro e he
  obtain ⟨x, -, rfl⟩ := List.mem_map.1 he
  exact ⟨_, _, rfl⟩

theorem OnlySends.countP_allocates {effects : List ServerEffect} (hsends : OnlySends effects)
    (i : Nat) : effects.countP (ServerEffect.allocates i) = 0 := by
  rw [List.countP_eq_zero]
  intro e he
  obtain ⟨peer, data, rfl⟩ := hsends e he
  simp [ServerEffect.allocates]

theorem OnlySends.countP_frees {effects : List ServerEffect} (hsends : OnlySends effects)
    (i : Nat) : effects.countP (ServerEffect.frees i) = 0 := by
  rw [List.countP_eq_zero]
  intro e he
  obtain ⟨peer, data, rfl⟩ := hsends e he
  simp [ServerEffect.frees]

theorem OnlySends.freedByOwner {effects : List ServerEffect} (hsends : OnlySends effects) :
    FreedByOwner effects := by
  intro i caller occupant hmem
  obtain ⟨_, _, hne⟩ := hsends _ hmem
  cases hne

theorem goodStep_sendModified (hh : HostOk h s) :
    ∃ effects, GoodStep h s s.clearDirty .sendModified effects := by
  have hok : handleEvent s .sendModified = _ := sendModifiedData_eq hh.linked
  have hsends := onlySends_map s.occupants (fun x => x.2.owner) (encodeModified s)
  refine ⟨_, hok, (sameSlots_clearDirty s).hostOk hh (next_of_handle hh.server_eq hok).1 rfl rfl,
    hsends.freedByOwner, fun i => ?_⟩
  rw [hsends.countP_allocates, hsends.countP_frees, (sameSlots_clearDirty s).isSome_occupantAt]

theorem HostOk.not_owner (hh : HostOk h s) {p : ENetPeer}
    (hp : ¬ (p ∈ h.connected ∧ p ∉ h.rejected)) (j : Nat) : s.peerAt j ≠ some (some p) :=
  fun hj => hp ((hh.owner_iff p).1 ⟨j, hj⟩)

theorem isSome_peerData_of_joined {s' : Server} {i : Nat} {p : ENetPeer} (hh : HostOk h s)
    (hjoined : Joined s s' i p) : ∀ q ∈ p :: h.connected, (s'.peerData q).isSome := by
  intro q hq
  rw [hjoined.peerData_eq]
  by_cases hqp : q = p
  · simp [hqp]
  · rw [Function.update_of_ne hqp]
    exact hh.peerData_isSome q ((List.mem_cons.1 hq).resolve_left hqp)

theorem goodStep_accepted (hh : HostOk h s) {p : ENetPeer} {calls : List ScriptCall}
    {result : ConnectResult} (hp : p ∉ h.connected) (hcount : s.occupiedCount < 10)
    (haccepts : result.accepts = true) :
    ∃ s' effects, GoodStep h s s' (.connect p calls result) effects := by
  have hnew := hh.not_owner (p := p) fun hown => hp hown.1
  obtain ⟨i, s₁, hattach, hhandle⟩ :=
    handlePeerConnect_of_accepts calls hh.tableOk hh.linked hcount hnew haccepts
  have hhandle : handleEvent s (.connect p calls result) = _ := hhandle
  have hjoined := hattach.joined calls hh.tableOk hh.linked hnew
  have hsends := onlySends_map ((runScript s₁ calls).ownersBut i) id (encodePadd (decimal i))
  refine ⟨_, _, hhandle, ⟨(next_of_handle hh.server_eq hhandle).1, hjoined.tableOk,
    hjoined.linked, fun q => ?_, isSome_peerData_of_joined hh hjoined, fun q hq => ?_⟩,
    fun j caller occupant hmem => ?_, fun j => ?_⟩
  · rw [hjoined.peerAt_eq, exists_update_some hjoined.peerAt_eq_none, hh.owner_iff]
    simp only [hostMachine, Machine.next, Host.report, haccepts, if_true, List.mem_cons,
      List.mem_filter, Option.some.injEq, decide_eq_true_eq, ne_eq]
    by_cases hqp : q = p
    · simp [hqp]
    · simp [hqp, Ne.symm hqp]
  · simp only [hostMachine, Machine.next, Host.report, haccepts, if_true] at hq ⊢
    exact List.mem_cons_of_mem p (hh.rejected_subset q (List.mem_filter.1 hq).1)
  · simp only [List.mem_cons, reduceCtorEq, false_or] at hmem
    exact hsends.freedByOwner j caller occupant hmem
  · have hsent := hsends.countP_allocates j
    have hfrees := hsends.countP_frees j
    simp only [id] at hsent hfrees
    rw [isSome_occupantAt, isSome_occupantAt, hjoined.peerAt_eq]
    by_cases hij : i = j
    · subst hij
      simp [ServerEffect.allocates, ServerEffect.frees, hsent, hfrees, hjoined.peerAt_eq_none]
    · simp [ServerEffect.allocates, ServerEffect.frees, hsent, hfrees, hij,
        Function.update_of_ne (Ne.symm hij)]

theorem goodStep_rejected (hh : HostOk h s) {p : ENetPeer} {calls : List ScriptCall}
    {result : ConnectResult} (hp : p ∉ h.connected) (hcount : s.occupiedCount < 10)
    (hrejects : result.accepts = false) :
    ∃ s' effects, GoodStep h s s' (.connect p calls result) effects := by
  obtain ⟨i, s₁, s', hattach, hset, hhandle⟩ :=
    handlePeerConnect_of_rejects (p := p) calls hh.tableOk hcount hrejects
  have hhandle : handleEvent s (.connect p calls result) = _ := hhandle
  have hjoined := hattach.joined calls hh.tableOk hh.linked (hh.not_owner fun hown => hp hown.1)
  have hback : s'.peerAt = s.peerAt := by
    rw [peerAt_update hset.occupantAt_eq, hjoined.peerAt_eq, Function.update_idem, Option.map_none,
      ← hjoined.peerAt_eq_none, Function.update_eq_self]
  refine ⟨s', _, hhandle, ⟨(next_of_handle hh.server_eq hhandle).1, hset.tableOk,
    hset.linked hjoined.linked hjoined.length_eq, fun q => ?_, fun q hq => ?_, fun q hq => ?_⟩,
    fun j caller occupant hmem => ?_, fun j => ?_⟩
  · rw [hback, hh.owner_iff]
    simp only [hostMachine, Machine.next, Host.report, hrejects, List.mem_cons]
    by_cases hqp : q = p
    · simp [hqp, hp]
    · simp [hqp]
  · rw [hset.peerData_eq]
    exact isSome_peerData_of_joined hh hjoined q hq
  · simp only [hostMachine, Machine.next, Host.report, hrejects, Bool.false_eq_true, if_false,
      List.mem_cons] at hq ⊢
    exact hq.imp id (hh.rejected_subset q)
  · simp only [List.mem_cons, reduceCtorEq, false_or, List.not_mem_nil, or_false,
      ServerEffect.freed.injEq] at hmem
    obtain ⟨-, rfl, rfl⟩ := hmem
    rfl
  · rw [isSome_occupantAt, isSome_occupantAt, hback]
    simp [ServerEffect.allocates, ServerEffect.frees, List.countP_cons]

theorem goodStep_connect (hh : HostOk h s) {p : ENetPeer} {calls : List ScriptCall}
    {result : ConnectResult} (hreported : Reported h (.connect p calls result)) :
    ∃ s' effects, GoodStep h s s' (.connect p calls result) effects := by
  obtain ⟨hp, hcount⟩ := hreported
  rw [Host.occupiedCount, hh.server_eq] at hcount
  cases haccepts : result.accepts with
  | true => exact goodStep_accepted hh hp hcount haccepts
  | false => exact goodStep_rejected hh hp hcount haccepts

theorem goodStep_disconnect (hh : HostOk h s) {p : ENetPeer} {calls : List ScriptCall}
    (hp : p ∈ h.connected) (hrej : p ∉ h.rejected) :
    ∃ s' effects, GoodStep h s s' (.disconnect p calls) effects := by
  obtain ⟨i, hi⟩ := (hh.owner_iff p).2 ⟨hp, hrej⟩
  obtain ⟨s', -, hleft, hhandle⟩ := handlePeerDisconnect_of_owner calls hh.tableOk hh.linked hi
  have hhandle : handleEvent s (.disconnect p calls) = _ := hhandle
  have hsends := onlySends_map ((runScript s calls).ownersBut i) id (cstr "PDEL " ++ decimal i)
  refine ⟨s', _, hhandle, ⟨(next_of_handle hh.server_eq hhandle).1, hleft.tableOk, hleft.linked,
    fun q => ?_, fun q hq => ?_, fun q hq => ?_⟩, fun j caller occupant hmem => ?_, fun j => ?_⟩
  · rw [hleft.peerAt_eq, hh.linked.exists_owner_freed hi, hh.owner_iff]
    simp only [hostMachine, Machine.next, Host.report, List.mem_filter, decide_eq_true_eq]
    tauto
  · rw [hleft.peerData_eq]
    exact hh.peerData_isSome q (List.mem_filter.1 hq).1
  · simp only [hostMachine, Machine.next, Host.report, List.mem_filter] at hq ⊢
    exact ⟨hh.rejected_subset q hq.1, hq.2⟩
  · simp only [List.cons_append, List.mem_cons, reduceCtorEq, false_or, List.mem_append,
      List.not_mem_nil, or_false] at hmem
    rcases hmem with hmem | hmem
    · exact hsends.freedByOwner j caller occupant hmem
    · cases hmem
      rfl
  · have hsent := hsends.countP_allocates j
    have hfrees := hsends.countP_frees j
    simp only [id] at hsent hfrees
    rw [isSome_occupantAt, isSome_occupantAt, hleft.peerAt_eq]
    by_cases hij : i = j
    · subst hij
      simp [ServerEffect.allocates, ServerEffect.frees, List.countP_append, hsent, hfrees, hi]
    · simp [ServerEffect.allocates, ServerEffect.frees, List.countP_append, hsent, hfrees, hij,
        Function.update_of_ne (Ne.symm hij)]

/-- The end of a refused connection frees a slot that is empty or another peer's. -/
theorem bad_disconnect (calls : List ScriptCall) (hh : HostOk h s) {p : ENetPeer}
    (hp : p ∈ h.connected) (hrej : p ∈ h.rejected) :
    (∃ fault, (hostMachine.next h (.disconnect p calls)).server = .error fault) ∨
      ∃ i q, .freed i p (some q) ∈ hostMachine.out h (.disconnect p calls) ∧ q ≠ p := by
  obtain ⟨i, hdata⟩ := Option.isSome_iff_exists.1 (hh.peerData_isSome p hp)
  cases ho : s.occupantAt i with
  | none =>
      obtain ⟨fault, hhandle⟩ := handlePeerDisconnect_of_none calls hh.tableOk hh.linked
        hdata ho
      exact .inl ⟨fault, next_of_fault hh.server_eq hhandle⟩
  | some o =>
      obtain ⟨s', -, hhandle⟩ :=
        handlePeerDisconnect_of_some calls hh.tableOk hh.linked hdata ho
      have hhandle : handleEvent s (.disconnect p calls) = _ := hhandle
      have hat := peerAt_of_occupantAt ho
      rw [hh.linked.peer_eq ho] at hat hhandle
      refine .inr ⟨i, o.owner, ?_, ?_⟩
      · rw [(next_of_handle hh.server_eq hhandle).2]
        simp
      · rintro heq
        rw [heq] at hat
        exact hh.not_owner (fun hown => hown.2 hrej) i hat

theorem goodStep (hh : HostOk h s) {event : ServerEvent} (hreported : Reported h event)
    (hown : NotRefused h event) : ∃ s' effects, GoodStep h s s' event effects := by
  cases event with
  | connect peer calls result => exact goodStep_connect hh hreported
  | disconnect peer calls => exact goodStep_disconnect hh hreported hown
  | call call => exact ⟨_, _, goodStep_call hh call⟩
  | sendModified => exact ⟨_, goodStep_sendModified hh⟩

end Events

/-! ## Runs -/

theorem effectsOf_concat (events : List ServerEvent) (event : ServerEvent) :
    effectsOf (events ++ [event]) = effectsOf events ++
      hostMachine.out (hostAfter events) event := by
  simp [effectsOf, hostAfter]

theorem hostAfter_concat (events : List ServerEvent) (event : ServerEvent) :
    hostAfter (events ++ [event]) = hostMachine.next (hostAfter events) event := by
  simp [hostAfter]

theorem hostOk_init : HostOk .init .init where
  server_eq := rfl
  tableOk := ⟨.inl rfl, rfl, by simp [Server.init], rfl⟩
  linked := ⟨by simp [Server.init, Server.peerAt, Server.occupantAt], by simp [Server.init]⟩
  owner_iff p := by simp [Server.init, Host.init, Server.peerAt, Server.occupantAt]
  peerData_isSome p hp := by simp [Host.init] at hp
  rejected_subset p hp := hp

theorem GoodStep.lifecycle {events : List ServerEvent} {event : ServerEvent} {s s' : Server}
    {effects : List ServerEffect} (hgood : GoodStep (hostAfter events) s s' event effects)
    (hserver : (hostAfter events).server = .ok s) (hlife : SlotLifecycle events) :
    SlotLifecycle (events ++ [event]) := by
  obtain ⟨hfreed, s₀, hs₀, -, honce⟩ := hlife
  obtain rfl : s₀ = s := Except.ok.inj (hs₀.symm.trans hserver)
  have heffects : effectsOf (events ++ [event]) = effectsOf events ++ effects := by
    rw [effectsOf_concat, (next_of_handle hserver hgood.handle_eq).2]
  refine ⟨?_, s', ?_, hgood.hostOk.tableOk.peersCount_eq, fun i => ?_⟩
  · intro i caller occupant hmem
    rw [heffects, List.mem_append] at hmem
    exact hmem.elim (hfreed i caller occupant) (hgood.freed_by_owner i caller occupant)
  · rw [hostAfter_concat]
    exact hgood.hostOk.server_eq
  · have hbefore := honce i
    have hstep := hgood.balance i
    rw [heffects, List.countP_append, List.countP_append]
    omega

theorem lifecycle_of_guarded {events : List ServerEvent}
    (hreported : hostMachine.Guarded Reported .init events)
    (hown : hostMachine.Guarded NotRefused .init events) :
    (∃ s, HostOk (hostAfter events) s) ∧ SlotLifecycle events := by
  induction events using List.reverseRecOn with
  | nil =>
      refine ⟨⟨.init, hostOk_init⟩,
        ⟨by simp [FreedByOwner, effectsOf], .init, rfl, rfl, fun i => ?_⟩⟩
      simp [effectsOf, Server.init, Server.occupantAt]
  | append_singleton events event ih =>
      rw [Machine.guarded_concat] at hreported hown
      obtain ⟨⟨s, hh⟩, hlife⟩ := ih hreported.1 hown.1
      obtain ⟨s', effects, hgood⟩ := goodStep hh hreported.2 hown.2
      refine ⟨⟨s', ?_⟩, hgood.lifecycle hh.server_eq hlife⟩
      rw [hostAfter_concat]
      exact hgood.hostOk

theorem not_lifecycle_of_refused {events : List ServerEvent} {event : ServerEvent} {s : Server}
    (hh : HostOk (hostAfter events) s) (hreported : Reported (hostAfter events) event)
    (hbad : ¬ NotRefused (hostAfter events) event) : ¬ SlotLifecycle (events ++ [event]) := by
  intro hlife
  cases event with
  | disconnect p calls =>
      rcases bad_disconnect calls hh hreported (not_not.1 hbad) with
        ⟨fault, hfault⟩ | ⟨i, q, hmem, hne⟩
      · obtain ⟨s', hs', -⟩ := hlife.running
        rw [hostAfter_concat, hfault] at hs'
        cases hs'
      · have hfreed := hlife.freed_by_owner i p (some q)
          (by rw [effectsOf_concat]; exact List.mem_append_right _ hmem)
        exact hne (Option.some.inj hfreed)
  | _ => exact hbad trivial

/-- Every slot is freed once, for the peer it belonged to, at every moment of a run
if and only if no event of the run is the end of a connection that was refused. -/
theorem slotLifecycle_iff (events : List ServerEvent)
    (hreported : hostMachine.Guarded Reported .init events) :
    (∀ pre, pre <+: events → SlotLifecycle pre) ↔
      hostMachine.Guarded NotRefused .init events := by
  refine hostMachine.forall_prefix_iff_guarded events ?_ ?_
  · exact (lifecycle_of_guarded (hostMachine.guarded_nil _ _) (hostMachine.guarded_nil _ _)).2
  · intro pre event hpre hown
    have hreported := hostMachine.guarded_of_prefix hpre hreported
    obtain ⟨hbefore, hevent⟩ := (hostMachine.guarded_concat _ _ pre event).1 hreported
    obtain ⟨⟨s, hh⟩, -⟩ := lifecycle_of_guarded hbefore hown
    constructor
    · intro hlife
      by_contra hbad
      exact not_lifecycle_of_refused hh hevent hbad hlife
    · intro hgood
      exact (lifecycle_of_guarded hreported
        ((hostMachine.guarded_concat _ _ pre event).2 ⟨hown, hgood⟩)).2

/-- One peer that comes and goes. -/
theorem slotLifecycle_iff_one_peer :
    (∀ pre, pre <+: [.connect 1 [] (.integer 1), .disconnect 1 []] → SlotLifecycle pre) ↔
      hostMachine.Guarded NotRefused .init [.connect 1 [] (.integer 1), .disconnect 1 []] :=
  slotLifecycle_iff _ (by decide)

/-- Peer 1 is refused, peer 2 gets its slot, and the end of peer 1 frees that slot. -/
theorem not_slotLifecycle_of_reuse :
    hostMachine.Guarded Reported .init
        [.connect 1 [] (.integer 0), .connect 2 [] (.integer 1), .disconnect 1 []] ∧
      ¬ SlotLifecycle
        [.connect 1 [] (.integer 0), .connect 2 [] (.integer 1), .disconnect 1 []] := by
  refine ⟨by decide, fun hlife => ?_⟩
  exact absurd (hlife.freed_by_owner 0 1 (some 2) (by decide)) (by decide)

end Svc.Svcenet
