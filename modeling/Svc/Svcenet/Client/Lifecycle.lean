import Svc.Svcenet.Client.Exit
import Svc.Svcenet.Client.UseSafety

/-!
# The peers of libsvc over the life of the program

The peers that joined are those of the connected entries, as long as the server adds no
peer that is connected.  At the end of the program the table must have none of them left:
they leave with libsvc, and the table would make them leave again.
-/

namespace Svc.Svcenet

open Svc.Common Svc.Lib

/-- The number of peers that libsvc mixes is the number of connected entries of others. -/
def ClientState.PeersCounted (s : ClientState) : Prop :=
  s.joined.length = s.peers.countP fun e => e.connected && e.id != s.myId

def ClientState.Alone (s : ClientState) : Prop := ∀ e ∈ s.peers, e.connected = true → e.id = s.myId

/-- The id of the client comes before the table, and what is deleted or described is
connected. -/
def ServerLine.Orderly (c : Client) : ServerLine → Prop
  | .yare _ => c.peers = []
  | .pdel id | .pset id _ _ => c.IsConnected (decodePeerId id)
  | .sset _ _ | .padd _ | .mesg _ => True

theorem ServerLine.Orderly.safe {c : Client} {line : ServerLine} (h : line.Orderly c) :
    line.Safe c := by
  cases line with
  | pdel | pset => exact .inr h
  | sset | yare | padd | mesg => trivial

def ServerLine.AddsFresh (c : Client) : ServerLine → Prop
  | .padd id =>
      c.Fits (decodePeerId id) ∧ (decodePeerId id = c.myId ∨ ¬ c.IsConnected (decodePeerId id))
  | .sset _ _ | .yare _ | .pdel _ | .pset _ _ _ | .mesg _ => True

def Orderly (s : ClientState) : ClientEvent → Prop
  | .enet (.line string) =>
      s.state = .connected →
        ∃ line : ServerLine, dstrlexParse string = .ok line.tokens ∧ line.Orderly s.toClient
  | .enet (.audio packet) => s.state = .connected → s.CanHear packet
  | .connect _ _ _ | .disconnect | .mute _ | .deafen _ | .enet .connect | .enet .disconnect
  | .enet (.other _) => True

def AddsFresh (s : ClientState) : ClientEvent → Prop
  | .enet (.line string) =>
      s.state = .connected →
        ∀ line : ServerLine, dstrlexParse string = .ok line.tokens → line.AddsFresh s.toClient
  | .connect _ _ _ | .disconnect | .mute _ | .deafen _ | .enet .connect | .enet .disconnect
  | .enet (.audio _) | .enet (.other _) => True

/-! ## Whose entry it is -/

/-- An entry has the id of its place, and a connected one has no peer if it is the
client's own. -/
structure Client.IdsOk (c : Client) : Prop where
  id_eq : ∀ (i : Nat) (e : ClientPeer), c.peers[i]? = some e → e.id = i
  own : ∀ e ∈ c.peers, e.connected = true → (e.peer = none ↔ e.id = c.myId)

section IdsOk

variable {c c' : Client} {leaked : List SvcPeer}

theorem idsOk_nil (h : c.peers = []) : c.IdsOk where
  id_eq i e he := by
    rw [h] at he
    simp at he
  own e he := by
    rw [h] at he
    exact absurd he List.not_mem_nil

theorem Client.IdsOk.congr (h : c.IdsOk) (hpeers : c'.peers = c.peers) (hid : c'.myId = c.myId) :
    c'.IdsOk where
  id_eq := by rw [hpeers]; exact h.id_eq
  own := by rw [hpeers, hid]; exact h.own

theorem Client.IdsOk.set (h : c.IdsOk) {i : Nat} {e e' : ClientPeer} (he : c.peers[i]? = some e)
    (hpeers : c'.peers = c.peers.set i e') (hmyId : c'.myId = c.myId) (hid : e'.id = e.id)
    (hown : e'.connected = true → (e'.peer = none ↔ e'.id = c.myId)) : c'.IdsOk where
  id_eq j e'' he'' := by
    rw [hpeers, List.getElem?_set] at he''
    split_ifs at he'' with hij hi
    · rw [Option.some_inj] at he''
      rw [← he'', hid, h.id_eq i e he, hij]
    · exact h.id_eq j e'' he''
  own e'' he'' := by
    rw [hpeers] at he''
    rw [hmyId]
    rcases List.mem_or_eq_of_mem_set he'' with hold | rfl
    · exact h.own e'' hold
    · exact hown

theorem idsOk_grown (h : c.TableOk leaked) (hids : c.IdsOk) (id : Nat) : (c.grown id).IdsOk where
  id_eq i e he := by
    rcases lt_or_ge i c.peers.length with hlt | hge
    · rw [Client.grown, List.getElem?_append_left hlt] at he
      exact hids.id_eq i e he
    · rw [Client.grown, List.getElem?_append_right hge, List.getElem?_map,
        Option.map_eq_some_iff] at he
      obtain ⟨j, hj, rfl⟩ := he
      obtain ⟨_, hj⟩ := List.getElem?_eq_some_iff.1 hj
      rw [List.getElem_range', h.size] at hj
      change j = i
      omega
  own e he := by
    rcases List.mem_append.1 he with hold | hnew
    · exact hids.own e hold
    · obtain ⟨j, -, rfl⟩ := List.mem_map.1 hnew
      exact fun hnew => absurd hnew Bool.false_ne_true

/-- An orderly command keeps the ids. -/
theorem idsOk_run (h : c.TableOk leaked) (hids : c.IdsOk) {cmd : Bytes} {line : ServerLine}
    (horder : line.Orderly c) (hfits : line.Fits c) (hrun : line.run c cmd = .ok c') :
    c'.IdsOk := by
  cases line with
  | sset key value =>
      rw [ServerLine.run, scmdSset] at hrun
      obtain ⟨dict, -, hrun⟩ := bind_eq_ok.1 hrun
      cases hrun
      exact hids.congr rfl rfl
  | yare id =>
      cases hrun
      exact idsOk_nil horder
  | padd id =>
      obtain ⟨e, he⟩ := exists_grown h (decodePeerId id)
      have hgrown := idsOk_grown h hids (decodePeerId id)
      have hid := hgrown.id_eq _ e he
      rw [ServerLine.run, scmdPadd_eq h cmd (cstr "PADD") hfits he, Except.ok.injEq] at hrun
      subst hrun
      refine hgrown.set he rfl rfl rfl fun _ => ?_
      rw [hid]
      exact ite_eq_left_iff.trans
        ⟨fun hne => by_contra fun h => Option.some_ne_none _ (hne h), absurd⟩
  | pdel id =>
      obtain ⟨e, he, hconn⟩ := horder
      rw [ServerLine.run, scmdPdel_eq h cmd (cstr "PDEL") he hconn, Except.ok.injEq] at hrun
      subst hrun
      exact hids.set he rfl rfl rfl fun hdead => absurd hdead Bool.false_ne_true
  | pset id key value =>
      obtain ⟨e, he, hconn⟩ := horder
      obtain ⟨dict, hpset⟩ := scmdPset_eq h cmd (cstr "PSET") key value he hconn
      rw [ServerLine.run, hpset, Except.ok.injEq] at hrun
      subst hrun
      exact hids.set he rfl rfl rfl (hids.own e (List.mem_of_getElem? he))
  | mesg text =>
      cases hrun
      exact hids.congr rfl rfl

theorem livePeer_eq_none (hids : c.IdsOk) {e : ClientPeer} (he : e ∈ c.peers) :
    e.livePeer = none ↔ (e.connected = true → e.id = c.myId) := by
  unfold ClientPeer.livePeer
  cases hconn : e.connected with
  | false => simp
  | true => simpa using hids.own e he hconn

/-- The table loses a peer exactly if an entry of another is added again. -/
theorem loses_eq_nil (hids : c.IdsOk) {line : ServerLine} (hfits : line.Fits c) :
    line.loses c = [] ↔ line.AddsFresh c := by
  cases line with
  | sset | yare | pdel | pset | mesg => exact iff_of_true rfl trivial
  | padd id =>
      have hfits : c.Fits (decodePeerId id) := hfits
      rw [ServerLine.loses, ServerLine.AddsFresh, Option.toList_eq_nil_iff, and_iff_right hfits]
      cases he : c.peers[decodePeerId id]? with
      | none =>
          refine iff_of_true rfl (.inr ?_)
          rintro ⟨e, he', -⟩
          exact Option.some_ne_none e (he'.symm.trans he)
      | some e =>
          rw [Option.bind_some, livePeer_eq_none hids (List.mem_of_getElem? he), hids.id_eq _ e he,
            Client.IsConnected, he]
          simp only [Option.some.injEq, exists_eq_left']
          tauto

end IdsOk

/-! ## The peers that joined -/

section Peers

variable {s : ClientState} {leaked : List SvcPeer}

theorem peersCounted_iff (h : s.Ok leaked) (hids : s.IdsOk) : s.PeersCounted ↔ leaked = [] := by
  have hcount : (livePeers s.peers).length =
      s.peers.countP fun e => e.connected && e.id != s.myId := by
    rw [livePeers, List.length_filterMap_eq_countP]
    refine List.countP_congr fun e he => ?_
    rw [Option.isSome_iff_ne_none, Ne, livePeer_eq_none hids he]
    simp
  rw [ClientState.PeersCounted, ← hcount, h.table.joined.length_eq, List.length_append,
    Nat.add_eq_left, List.length_eq_zero_iff]

theorem livePeers_eq_nil (hids : s.IdsOk) : livePeers s.peers = [] ↔ s.Alone := by
  rw [livePeers, List.filterMap_eq_nil_iff]
  exact forall₂_congr fun e he => livePeer_eq_none hids he

/-- An orderly event goes well, but for a table that there cannot be, and loses no peer
exactly if it adds none that is connected. -/
theorem handleClientEvent_orderly (h : s.Ok []) (hids : s.IdsOk) {e : ClientEvent}
    (horder : Orderly s e) :
    (¬ AddsFresh s e ∧ ∃ fault, handleClientEvent s e = .error fault) ∨
      ∃ s' leaked, handleClientEvent s e = .ok s' ∧ s'.Ok leaked ∧ s'.IdsOk ∧
        (leaked = [] ↔ AddsFresh s e) := by
  by_cases hline : s.state = .connected ∧ ∃ string, e = .enet (.line string)
  · obtain ⟨hstate, string, rfl⟩ := hline
    obtain ⟨line, hparse, horder⟩ := horder hstate
    have hfresh : AddsFresh s (.enet (.line string)) ↔ line.AddsFresh s.toClient := by
      refine ⟨fun h => h hstate line hparse, fun h _ line' hparse' => ?_⟩
      rw [hparse, Except.ok.injEq] at hparse'
      rwa [← ServerLine.tokens_injective hparse']
    by_cases hfits : line.Fits s.toClient
    · obtain ⟨c, hrun, hs', hok⟩ := handleClientEvent_line h hstate hparse horder.safe hfits
      refine .inr ⟨_, _, hs', hok, idsOk_run h.table hids horder hfits hrun, ?_⟩
      rw [List.append_nil, loses_eq_nil hids hfits, hfresh]
    · obtain ⟨id, rfl, hnot⟩ := exists_padd_of_not_fits hfits
      obtain ⟨fault, hfault⟩ := scmdPadd_fault string (cstr "PADD") hnot
      refine .inl ⟨fun h => hnot (hfresh.1 h).1, fault, ?_⟩
      simp only [handleClientEvent, hstate, handleConnected, handleServerDecodedMsg_eq hparse,
        ServerLine.run, hfault]
      rfl
  · have hother : s.state = .connected → ∀ string, e ≠ .enet (.line string) :=
      fun hstate string he => hline ⟨hstate, string, he⟩
    have huses : UsesConnected s e ∧ AddsFresh s e := by
      cases e with
      | connect | disconnect | mute | deafen => exact ⟨trivial, trivial⟩
      | enet event =>
          cases event with
          | connect | disconnect | other => exact ⟨trivial, trivial⟩
          | line string =>
              exact ⟨fun hstate => absurd rfl (hother hstate string),
                fun hstate => absurd rfl (hother hstate string)⟩
          | audio packet => exact ⟨horder, trivial⟩
    obtain ⟨s', hs', hok, hkeeps⟩ := handleClientEvent_other h hother huses.1
    refine .inr ⟨s', [], hs', hok, ?_, iff_of_true rfl huses.2⟩
    rcases hkeeps with hnil | ⟨hpeers, hmyId⟩
    · exact idsOk_nil hnil
    · exact hids.congr hpeers hmyId

theorem exists_orderly (h : s.Ok []) (hids : s.IdsOk) {e : ClientEvent} (horder : Orderly s e)
    (hfresh : AddsFresh s e) : ∃ s', handleClientEvent s e = .ok s' ∧ s'.Ok [] ∧ s'.IdsOk := by
  obtain ⟨hnot, -⟩ | ⟨s', leaked, hs', hok, hids', hnil⟩ := handleClientEvent_orderly h hids horder
  · exact absurd hfresh hnot
  · obtain rfl := hnil.2 hfresh
    exact ⟨s', hs', hok, hids'⟩

theorem counted_step (h : s.Ok []) (hids : s.IdsOk) {e : ClientEvent} (horder : Orderly s e) :
    (AddsFresh s e →
        ∃ s', handleClientEvent s e = .ok s' ∧ (s'.Ok [] ∧ s'.IdsOk) ∧ s'.PeersCounted) ∧
      (¬ AddsFresh s e → ∀ s', handleClientEvent s e = .ok s' → ¬ s'.PeersCounted) := by
  constructor
  · intro hfresh
    obtain ⟨s', hs', hok, hids'⟩ := exists_orderly h hids horder hfresh
    exact ⟨s', hs', ⟨hok, hids'⟩, (peersCounted_iff hok hids').2 rfl⟩
  · intro hagain s' hs' hcounted
    obtain ⟨-, fault, hfault⟩ | ⟨s'', leaked, hs'', hok, hids', hnil⟩ :=
      handleClientEvent_orderly h hids horder
    · exact Machine.ne_ok_of_error hfault s' hs'
    · rw [hs', Except.ok.injEq] at hs''
      subst hs''
      exact hagain (hnil.1 ((peersCounted_iff hok hids').1 hcounted))

theorem exitMain_iff (h : s.Ok leaked) (hids : s.IdsOk) :
    (∃ s', exitMain s = .ok s' ∧ s'.joined = []) ↔ s.Alone := by
  rw [← livePeers_eq_nil hids]
  constructor
  · rintro ⟨s', hs', -⟩
    by_contra hsome
    obtain ⟨fault, hfault⟩ := exitMain_fault h hsome
    exact Machine.ne_ok_of_error hfault s' hs'
  · exact fun hnone => ⟨s.exited, exitMain_ok h hnone, rfl⟩

/-- The peers that joined are at every moment those of the connected entries, and the
program makes each of them leave once, exactly if no connected entry is added again and
none but the client's own is connected at the end. -/
theorem peerLifecycle_iff {events : List ClientEvent}
    (horder : clientMachine.Guarded (Machine.OnOk Orderly) (.ok .init) events) :
    ((∀ pre, pre <+: events → ∃ s, clientAfter pre = .ok s ∧ s.PeersCounted) ∧
        ∃ s, clientAfter events = .ok s ∧ ∃ s', exitMain s = .ok s' ∧ s'.joined = []) ↔
      clientMachine.Guarded (Machine.OnOk AddsFresh) (.ok .init) events ∧
        ∀ s, clientAfter events = .ok s → s.Alone := by
  have hstart : ClientState.init.Ok [] ∧ ClientState.init.IdsOk := ⟨ok_init, idsOk_nil rfl⟩
  have hcount := (peersCounted_iff hstart.1 hstart.2).2 rfl
  have hcounted := Machine.forall_prefix_ok_iff_guarded (I := fun s => s.Ok [] ∧ s.IdsOk)
    (G := AddsFresh) horder hstart hcount fun s e hs _ => counted_step hs.1 hs.2
  refine (and_congr_left' hcounted).trans (and_congr_right fun hfresh => ?_)
  obtain ⟨s, hrun, hok, hids⟩ := Machine.exists_run_of_guarded
    (fun s e hs he => exists_orderly hs.1 hs.2 he.1 he.2) hstart
    (Machine.guarded_onOk_and.2 ⟨horder, hfresh⟩)
  have hafter : clientAfter events = .ok s := hrun
  simp only [hafter, Except.ok.injEq, exists_eq_left', forall_eq']
  exact exitMain_iff hok hids

def visit : List ClientEvent :=
  connection ++ [.enet (.line (cstr "YARE 0")), .enet (.line (cstr "PADD 0")),
    .enet (.line (cstr "PADD 1")), .enet (.line (cstr "PDEL 1"))]

theorem peerLifecycle_visit :
    ((∀ pre, pre <+: visit → ∃ s, clientAfter pre = .ok s ∧ s.PeersCounted) ∧
        ∃ s, clientAfter visit = .ok s ∧ ∃ s', exitMain s = .ok s' ∧ s'.joined = []) ↔
      clientMachine.Guarded (Machine.OnOk AddsFresh) (.ok .init) visit ∧
        ∀ s, clientAfter visit = .ok s → s.Alone := by
  refine peerLifecycle_iff ⟨fun _ _ => trivial, fun _ _ => trivial, ?_, ?_, ?_, ?_, trivial⟩
  · rintro s hs -
    cases hs
    exact ⟨.yare (cstr "0"), by decide, rfl⟩
  · exact fun s _ _ => ⟨.padd (cstr "0"), by decide, trivial⟩
  · exact fun s _ _ => ⟨.padd (cstr "1"), by decide, trivial⟩
  · rintro s hs -
    cases hs
    exact ⟨.pdel (cstr "1"), by decide, _, rfl, rfl⟩

/-- The server adds client 1 again, as when its slot got a new owner. -/
def addedAgain : List ClientEvent :=
  connection ++ [.enet (.line (cstr "YARE 0")), .enet (.line (cstr "PADD 1")),
    .enet (.line (cstr "PADD 1"))]

theorem not_peerLifecycle_of_added_again :
    clientMachine.Guarded (Machine.OnOk Orderly) (.ok .init) addedAgain ∧
      ∃ s, clientAfter addedAgain = .ok s ∧ ¬ s.PeersCounted ∧
        exitMain s = .error .useAfterFree := by
  refine ⟨⟨fun _ _ => trivial, fun _ _ => trivial, ?_, ?_, ?_, trivial⟩, _, rfl, ?_, rfl⟩
  · rintro s hs -
    cases hs
    exact ⟨.yare (cstr "0"), by decide, rfl⟩
  · exact fun s _ _ => ⟨.padd (cstr "1"), by decide, trivial⟩
  · exact fun s _ _ => ⟨.padd (cstr "1"), by decide, trivial⟩
  · exact fun h : 2 = 1 => absurd h (by decide)

end Peers

end Svc.Svcenet
