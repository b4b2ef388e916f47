import Svc.Svcenet.Network.Refinement

/-!
# No update is lost

At every moment of a run, a client that has read what was sent to it has every value
that the server published and does not hold as dirty, and no key besides the server's.
-/

namespace Svc.Svcenet

open Svc.Common Svc.Lib

/-- The client's dictionary has the value of every clean node of the server's, and no
key that the server's has not. -/
structure Copies (dd : DataDict) (dict : Dsdict) : Prop where
  clean : ∀ ddn ∈ dd, ddn.dirty = false → dsdictGet dict ddn.key = some ddn.value.bytes
  keys : ∀ node ∈ dict, node.key ∈ dd.map DataDictNode.key

structure Mirrors (s : Server) (c : Client) : Prop where
  serverInfo : ∃ dict, c.serverInfo = .live dict ∧ Copies s.serverData dict
  peers : ∀ i o, s.occupantAt i = some o →
    ∃ e dict, c.peers[i]? = some e ∧ e.data = .live dict ∧ Copies o.pubData dict

/-- The server runs, and so does every connected client, which will have its copies as
soon as it has read what was sent to it. -/
def NoLostUpdate (n : Network) : Prop :=
  ∃ s, n.server = .ok s ∧ ∀ p l, n.links p = some l → ∃ c, l.drained = .ok c ∧ Mirrors s c

theorem copies_of_follows {dd : DataDict} (hdd : UniqueKeys dd) {dict : Dsdict}
    (h : Follows (ddValue dd) (ddDirty dd) (dsdictGet dict)) : Copies dd dict where
  clean _ hmem hclean := value_of_clean hdd h hmem hclean
  keys node hnode := by
    refine key_mem_of_ne_none h ?_
    rw [dsdictGet, ne_eq, Option.map_eq_none_iff, Dict.find_eq_none, not_not]
    exact List.mem_map_of_mem hnode

theorem Server.Replicated.mirrors {s : Server} {r : Replica} {c : Client} (hk : s.KeysOk)
    (h : s.Replicated r) (hc : c.Shows r) : Mirrors s c where
  serverInfo := by
    obtain ⟨dict, hdict, hinfo⟩ := hc.info
    exact ⟨dict, hdict, copies_of_follows hk.serverData (hinfo ▸ h.info)⟩
  peers i o ho := by
    obtain ⟨data, hdata, hfollows⟩ := h.table i o ho
    obtain ⟨e, dict, he, -, hlive, hget⟩ := exists_entry hc hdata
    exact ⟨e, dict, he, hlive, copies_of_follows (hk.pubData i o ho) (hget ▸ hfollows)⟩

theorem NetworkOk.exists_client {n : Network} {s : Server} {R : Replicas} (h : NetworkOk n s R)
    {p : ENetPeer} {l : Link} (hl : n.links p = some l) :
    ∃ c r, R p = some r ∧ l.drained = .ok c ∧ c.Shows r := by
  have hrel := h.shows p
  rw [hl] at hrel
  cases hr : R p with
  | none =>
      rw [hr] at hrel
      cases hrel
  | some r =>
      rw [hr] at hrel
      cases hrel with
      | some hshows =>
          obtain ⟨c, hdrained, hc⟩ := hshows
          exact ⟨c, r, rfl, hdrained, hc⟩

/-- No update is lost, after any run of connects, disconnects, calls of scripts and
packets of modified data, with any deliveries in between. -/
theorem noLostUpdate (events : List NetworkEvent)
    (hadm : networkMachine.Guarded Admissible .init events) :
    NoLostUpdate (networkAfter events) := by
  obtain ⟨s, R, h⟩ := networkOk_run hadm
  refine ⟨s, h.server_eq, fun p l hl => ?_⟩
  obtain ⟨c, r, hr, hdrained, hc⟩ := h.exists_client hl
  exact ⟨c, hdrained, (h.replicated p r hr).mirrors h.keysOk hc⟩

/-- A client joins, a value is set and sent, a second client joins and gets the slot of
the first after it left. -/
theorem noLostUpdate_rejoin :
    NoLostUpdate (networkAfter
      [.server (.connect 1 [] (.integer 1)),
        .server (.call (.serverset ⟨cstr "topic", by decide⟩ ⟨cstr "a \"b\"\n", by decide⟩)),
        .server .sendModified, .deliver 1, .server (.connect 2 [] (.integer 1)),
        .server (.disconnect 1 []), .server (.connect 3 [] (.integer 1)), .deliver 2]) :=
  noLostUpdate _ (by decide)

end Svc.Svcenet
