import Svc.Common.Dstrutils.Dsdict
import Svc.Svcenet.Client

/-!
# The client's dictionaries in memory

The client's model has a `dsdict` as the list of its nodes.  The functions on nodes that are
linked in memory do to them what those on the list do.
-/

namespace Svc.Svcenet

open Svc.Common Svc.Lib

def DsdictNode.entry (node : DsdictNode) : Nodes.Entry := ⟨node.key.bytes, node.value⟩

def Dsdict.LinkedAs (dict : Dsdict) (list : Nodes.NodeList Nodes.Entry)
    (nodes : List Nodes.NodePtr) : Prop :=
  ∃ xs, list.Holds xs ∧ xs.map Prod.fst = nodes ∧ xs.map Prod.snd = dict.map DsdictNode.entry

theorem linkedAs_dsdictNew : Dsdict.LinkedAs [] Nodes.dsdictNew [] :=
  ⟨[], Nodes.holds_listInit, rfl, rfl⟩

section Linked

variable {dict : Dsdict} {list : Nodes.NodeList Nodes.Entry} {nodes : List Nodes.NodePtr}
  (key : CString)

theorem entry_key_eq_iff (node : DsdictNode) :
    node.entry.key = key.bytes ↔ node.key = key := CString.bytes_inj

theorem linkedAs_dsdictGet (h : dict.LinkedAs list nodes) :
    Nodes.dsdictGet list key = .ok (dsdictGet dict key) := by
  obtain ⟨xs, hholds, -, hentries⟩ := h
  have hxs : Dict.find Nodes.Entry.key key.bytes (xs.map Prod.snd) =
      (Dict.find Nodes.keyOf key.bytes xs).map Prod.snd := Dict.find_map fun _ => Iff.rfl
  have hdict : Dict.find Nodes.Entry.key key.bytes (dict.map DsdictNode.entry) =
      (Dict.find DsdictNode.key key dict).map DsdictNode.entry :=
    Dict.find_map (entry_key_eq_iff key)
  rw [hentries, hdict] at hxs
  have hvalue := congrArg (Option.map Nodes.Entry.value) hxs
  rw [Option.map_map, Option.map_map] at hvalue
  rw [Nodes.dsdictGet_eq hholds, dsdictGet]
  exact congrArg Except.ok hvalue.symm

/-- `dsdict_set` changes the node of the key or links a new one. -/
theorem linkedAs_dsdictSet (h : dict.LinkedAs list nodes) {new : Nodes.NewNode}
    (hnew : new.node ∉ nodes) (value : Bytes) :
    ∃ list' nodes', Nodes.dsdictSet list new key value = .ok list' ∧
      (dsdictSet dict key value).LinkedAs list' nodes' := by
  obtain ⟨xs, hholds, rfl, hentries⟩ := h
  obtain ⟨list', hrun, hholds'⟩ := Nodes.dsdictSet_eq hholds hnew key value
  let change (entry : Nodes.Entry) : Nodes.Entry := { entry with value }
  let entry : Nodes.Entry := ⟨key.bytes, value⟩
  have hkey : ∀ x : Nodes.NodePtr × Nodes.Entry,
      (Prod.snd x).key = key.bytes ↔ Nodes.keyOf x = key.bytes := fun _ => Iff.rfl
  have hchange : ∀ x : Nodes.NodePtr × Nodes.Entry,
      Prod.snd (x.1, change x.2) = change (Prod.snd x) := fun _ => rfl
  have hxs : Dict.set Nodes.Entry.key key.bytes change entry (xs.map Prod.snd) =
      (Nodes.setEntry new.node key.bytes value xs).map Prod.snd :=
    Dict.set_map (new.node, entry) hkey hchange
  have hdict : Dict.set Nodes.Entry.key key.bytes change entry (dict.map DsdictNode.entry) =
      (dsdictSet dict key value).map DsdictNode.entry :=
    Dict.set_map ⟨key, value⟩ (entry_key_eq_iff key) fun _ => rfl
  exact ⟨list', _, hrun, _, hholds', rfl, hxs.symm.trans ((congrArg _ hentries).trans hdict)⟩

end Linked

end Svc.Svcenet
