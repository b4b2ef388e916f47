import Svc.Lib.Lagging
import Svc.Svcenet.Client.Replica
import Svc.Svcenet.Server.Handlers

/-!
# Replicas of the server

What the server publishes and which of it is still pending, what a replica has to
agree with, and what each change of the server and each group of commands does to
that agreement.
-/

namespace Svc.Svcenet

open Svc.Common Svc.Lib

/-! ## Published dictionaries -/

def ddValue (dd : DataDict) (key : CString) : Option Bytes :=
  (Dict.find DataDictNode.key key dd).map fun ddn => ddn.value.bytes

def ddDirty (dd : DataDict) : Set CString :=
  {key | ∃ ddn, Dict.find DataDictNode.key key dd = some ddn ∧ ddn.dirty = true}

def UniqueKeys (dd : DataDict) : Prop := (dd.map DataDictNode.key).Nodup

/-- The values of some nodes, written into a map one after the other. -/
def writeNodes (data : CString → Option Bytes) (nodes : DataDict) : CString → Option Bytes :=
  nodes.foldl (fun data ddn => Function.update data ddn.key (some ddn.value.bytes)) data

section DataDict

variable {dd : DataDict} {data : CString → Option Bytes}

theorem uniqueKeys_ddSet (hdd : UniqueKeys dd) (key value : CString) :
    UniqueKeys (ddSet dd key value) :=
  Dict.nodup_keys_set (fun _ => rfl) rfl hdd

theorem find_ddSet (dd : DataDict) (k key value : CString) :
    Dict.find DataDictNode.key k (ddSet dd key value) =
      if k = key then
        some ((Dict.find DataDictNode.key key dd).elim ⟨true, key, value⟩ fun ddn =>
          { ddn with value, dirty := true })
      else Dict.find DataDictNode.key k dd := by
  have hchange : ∀ ddn : DataDictNode,
      ({ ddn with value, dirty := true } : DataDictNode).key = ddn.key := fun _ => rfl
  have hnew : (DataDictNode.mk true key value).key = key := rfl
  rw [ddSet]
  by_cases hk : k = key
  · rw [if_pos hk, hk, Dict.find_set_self hchange hnew]
  · rw [if_neg hk, Dict.find_set_of_ne hk hchange hnew]

theorem ddValue_ddSet (dd : DataDict) (key value : CString) :
    ddValue (ddSet dd key value) = Function.update (ddValue dd) key (some value.bytes) := by
  funext k
  rw [ddValue, find_ddSet]
  by_cases hk : k = key
  · subst hk
    rw [if_pos rfl, Function.update_self]
    cases Dict.find DataDictNode.key k dd <;> rfl
  · rw [if_neg hk, Function.update_of_ne hk]
    rfl

theorem ddDirty_ddSet (dd : DataDict) (key value : CString) :
    ddDirty (ddSet dd key value) = insert key (ddDirty dd) := by
  ext k
  rw [Set.mem_insert_iff]
  change (∃ ddn, Dict.find DataDictNode.key k (ddSet dd key value) = some ddn ∧
    ddn.dirty = true) ↔ k = key ∨ ∃ ddn, Dict.find DataDictNode.key k dd = some ddn ∧
      ddn.dirty = true
  rw [find_ddSet]
  by_cases hk : k = key
  · rw [if_pos hk]
    refine ⟨fun _ => .inl hk, fun _ => ⟨_, rfl, ?_⟩⟩
    cases Dict.find DataDictNode.key key dd <;> rfl
  · rw [if_neg hk]
    simp only [hk, false_or]

theorem follows_ddSet (h : Follows (ddValue dd) (ddDirty dd) data) (key value : CString) :
    Follows (ddValue (ddSet dd key value)) (ddDirty (ddSet dd key value)) data := by
  rw [ddValue_ddSet, ddDirty_ddSet]
  exact h.write key (some value.bytes)

theorem keys_clearDirty (dd : DataDict) :
    (clearDirty dd).map DataDictNode.key = dd.map DataDictNode.key := by
  simp [clearDirty]

theorem ddValue_clearDirty (dd : DataDict) : ddValue (clearDirty dd) = ddValue dd := by
  funext k
  have hkey : ∀ ddn : DataDictNode,
      ({ ddn with dirty := false } : DataDictNode).key = k ↔ ddn.key = k := fun _ => Iff.rfl
  rw [ddValue, clearDirty, Dict.find_map hkey, Option.map_map]
  rfl

theorem writeNodes_apply (hdd : UniqueKeys dd) (data : CString → Option Bytes) (key : CString) :
    writeNodes data dd key =
      ((Dict.find DataDictNode.key key dd).map fun ddn => some ddn.value.bytes).getD (data key) :=
  Dict.foldl_update hdd _ data

theorem writeNodes_none (hdd : UniqueKeys dd) : writeNodes (fun _ => none) dd = ddValue dd := by
  funext key
  rw [writeNodes_apply hdd, ddValue]
  cases Dict.find DataDictNode.key key dd <;> rfl

theorem writeNodes_dirty (hdd : UniqueKeys dd) (h : Follows (ddValue dd) (ddDirty dd) data) :
    writeNodes data (dd.filter DataDictNode.dirty) = ddValue dd := by
  have happly : ∀ key, writeNodes data (dd.filter DataDictNode.dirty) key =
      (((Dict.find DataDictNode.key key dd).filter DataDictNode.dirty).map
        fun ddn => some ddn.value.bytes).getD (data key) := by
    intro key
    rw [writeNodes_apply (hdd.sublist (List.filter_sublist.map _)), Dict.find_filter hdd]
  refine h.flush ?_ ?_
  · rintro key ⟨ddn, hfind, hdirty⟩
    rw [happly, ddValue, hfind]
    simp [Option.filter, hdirty]
  · intro key hkey
    rw [happly]
    cases hfind : Dict.find DataDictNode.key key dd with
    | none => rfl
    | some ddn =>
        have hclean : ddn.dirty = false := by
          by_contra hdirty
          exact hkey ⟨ddn, hfind, by simpa using hdirty⟩
        simp [Option.filter, hclean]

theorem value_of_clean (hdd : UniqueKeys dd) (h : Follows (ddValue dd) (ddDirty dd) data)
    {ddn : DataDictNode} (hmem : ddn ∈ dd) (hclean : ddn.dirty = false) :
    data ddn.key = some ddn.value.bytes := by
  have hfind := Dict.find_of_mem hdd hmem
  rw [h.eq_of_not_mem, ddValue, hfind]
  · rfl
  · rintro ⟨ddn', hfind', hdirty⟩
    obtain rfl : ddn = ddn' := Option.some.inj (hfind.symm.trans hfind')
    rw [hclean] at hdirty
    cases hdirty

theorem key_mem_of_ne_none (h : Follows (ddValue dd) (ddDirty dd) data) {key : CString}
    (hkey : data key ≠ none) : key ∈ dd.map DataDictNode.key := by
  by_contra hmem
  have hfind := Dict.find_eq_none.2 hmem
  refine hkey ?_
  rw [h.eq_of_not_mem, ddValue, hfind]
  · rfl
  · rintro ⟨ddn, hfind', -⟩
    rw [hfind] at hfind'
    cases hfind'

end DataDict

/-! ## Agreement -/

structure Server.KeysOk (s : Server) : Prop where
  serverData : UniqueKeys s.serverData
  pubData : ∀ i o, s.occupantAt i = some o → UniqueKeys o.pubData

structure Server.Replicated (s : Server) (r : Replica) : Prop where
  info : Follows (ddValue s.serverData) (ddDirty s.serverData) r.info
  table : ∀ i o, s.occupantAt i = some o →
    ∃ data, r.table i = some data ∧ Follows (ddValue o.pubData) (ddDirty o.pubData) data

variable {s s' : Server} {r r' : Replica}

theorem Server.KeysOk.setSlot (h : s.KeysOk) (hdata : s'.serverData = s.serverData) {i : Nat}
    {o : Option Occupant} (hat : s'.occupantAt = Function.update s.occupantAt i o)
    (ho : ∀ o', o = some o' → UniqueKeys o'.pubData) : s'.KeysOk where
  serverData := by
    rw [hdata]
    exact h.serverData
  pubData j o' hj := by
    rw [hat, Dict.update_eq_some] at hj
    rcases hj with ⟨-, hnew⟩ | ⟨-, hold⟩
    · exact ho o' hnew
    · exact h.pubData j o' hold

theorem Server.Replicated.setSlot (h : s.Replicated r) (hdata : s'.serverData = s.serverData)
    {i : Nat} {o : Option Occupant} (hat : s'.occupantAt = Function.update s.occupantAt i o)
    (hinfo : r'.info = r.info) (htable : ∀ j, j ≠ i → r'.table j = r.table j)
    (ho : ∀ o', o = some o' →
      ∃ data, r'.table i = some data ∧ Follows (ddValue o'.pubData) (ddDirty o'.pubData) data) :
    s'.Replicated r' where
  info := by
    rw [hdata, hinfo]
    exact h.info
  table j o' hj := by
    rw [hat, Dict.update_eq_some] at hj
    rcases hj with ⟨rfl, hnew⟩ | ⟨hji, hold⟩
    · exact ho o' hnew
    · rw [htable j hji]
      exact h.table j o' hold

theorem keysOk_runCall (h : s.KeysOk) (call : ScriptCall) : (runCall s call).KeysOk := by
  cases call with
  | serverset key value => exact ⟨uniqueKeys_ddSet h.serverData key value, h.pubData⟩
  | peerset type peerId key value =>
      rcases runCall_peerset s type peerId key value with heq | ⟨i, o, ho, heq⟩
      · rw [heq]
        exact h
      · have hat := fun o' => occupantAt_setOccupant_eq_update (lt_length_of_occupantAt ho) o'
        rcases heq with heq | heq
        · rw [heq]
          refine h.setSlot rfl (hat _) ?_
          rintro _ ⟨⟩
          exact h.pubData i o ho
        · rw [heq]
          refine h.setSlot rfl (hat _) ?_
          rintro _ ⟨⟩
          exact uniqueKeys_ddSet (h.pubData i o ho) key value

theorem replicated_runCall (h : s.Replicated r) (call : ScriptCall) :
    (runCall s call).Replicated r := by
  cases call with
  | serverset key value => exact ⟨follows_ddSet h.info key value, h.table⟩
  | peerset type peerId key value =>
      rcases runCall_peerset s type peerId key value with heq | ⟨i, o, ho, heq⟩
      · rw [heq]
        exact h
      · have hat := fun o' => occupantAt_setOccupant_eq_update (lt_length_of_occupantAt ho) o'
        obtain ⟨data, hdata, hfollows⟩ := h.table i o ho
        rcases heq with heq | heq
        · rw [heq]
          refine h.setSlot rfl (hat _) rfl (fun _ _ => rfl) ?_
          rintro _ ⟨⟩
          exact ⟨data, hdata, hfollows⟩
        · rw [heq]
          refine h.setSlot rfl (hat _) rfl (fun _ _ => rfl) ?_
          rintro _ ⟨⟩
          exact ⟨data, hdata, follows_ddSet hfollows key value⟩

theorem keysOk_runScript (h : s.KeysOk) (calls : List ScriptCall) : (runScript s calls).KeysOk := by
  induction calls generalizing s with
  | nil => exact h
  | cons call calls ih => exact ih (keysOk_runCall h call)

theorem replicated_runScript (h : s.Replicated r) (calls : List ScriptCall) :
    (runScript s calls).Replicated r := by
  induction calls generalizing s with
  | nil => exact h
  | cons call calls ih => exact ih (replicated_runCall h call)

theorem keysOk_connect (h : s.KeysOk) {i : Nat} {p : ENetPeer} (hattach : Attached s s' i p)
    (calls : List ScriptCall) : (runScript s' calls).KeysOk := by
  refine keysOk_runScript (h.setSlot hattach.serverData_eq hattach.occupantAt_eq ?_) calls
  rintro _ ⟨⟩
  exact List.nodup_nil

theorem replicated_connect (h : s.Replicated r) {i : Nat} {p : ENetPeer}
    (hattach : Attached s s' i p) (calls : List ScriptCall) :
    (runScript s' calls).Replicated (r.apply (.padd i)) := by
  refine replicated_runScript ?_ calls
  refine h.setSlot hattach.serverData_eq hattach.occupantAt_eq rfl
    (fun j hj => Function.update_of_ne hj ..) ?_
  rintro _ ⟨⟩
  exact ⟨fun _ => none, Function.update_self .., follows_of_eq rfl⟩

theorem keysOk_disconnect (h : s.KeysOk) {i : Nat} (calls : List ScriptCall)
    (hset : SlotSet (runScript s calls) s' i none) : s'.KeysOk :=
  (keysOk_runScript h calls).setSlot hset.serverData_eq hset.occupantAt_eq (by rintro _ ⟨⟩)

theorem replicated_disconnect (h : s.Replicated r) {i : Nat} (calls : List ScriptCall)
    (hset : SlotSet (runScript s calls) s' i none) : s'.Replicated r :=
  (replicated_runScript h calls).setSlot hset.serverData_eq hset.occupantAt_eq rfl
    (fun _ _ => rfl) (by rintro _ ⟨⟩)

theorem keysOk_clearDirty (h : s.KeysOk) : s.clearDirty.KeysOk where
  serverData := by
    rw [UniqueKeys, Server.clearDirty, keys_clearDirty]
    exact h.serverData
  pubData i o ho := by
    rw [occupantAt_clearDirty, Option.map_eq_some_iff] at ho
    obtain ⟨o', ho', rfl⟩ := ho
    rw [UniqueKeys, keys_clearDirty]
    exact h.pubData i o' ho'

/-! ## Commands for one slot after the other -/

theorem foldl_sset (r : Replica) (nodes : DataDict) :
    (nodes.map fun ddn => ServerMsg.sset ddn.key ddn.value).foldl Replica.apply r =
      { r with info := writeNodes r.info nodes } := by
  induction nodes generalizing r with
  | nil => rfl
  | cons ddn nodes ih =>
      rw [List.map_cons, List.foldl_cons, ih]
      rfl

theorem foldl_pset (r : Replica) (i : Nat) (nodes : DataDict) :
    (nodes.map fun ddn => ServerMsg.pset i ddn.key ddn.value).foldl Replica.apply r =
      { r with
        table := Function.update r.table i
          ((r.table i).map fun data => writeNodes data nodes) } := by
  induction nodes generalizing r with
  | nil => simp [writeNodes]
  | cons ddn nodes ih =>
      rw [List.map_cons, List.foldl_cons, ih]
      simp only [Replica.apply, Function.update_self, Function.update_idem, Option.map_map]
      rfl

theorem fitsAll_sset (r : Replica) (nodes : DataDict) :
    r.FitsAll (nodes.map fun ddn => ServerMsg.sset ddn.key ddn.value) := by
  induction nodes generalizing r with
  | nil => trivial
  | cons ddn nodes ih => exact ⟨trivial, ih _⟩

theorem fitsAll_pset {i : Nat} (hi : (r.table i).isSome) (nodes : DataDict) :
    r.FitsAll (nodes.map fun ddn => ServerMsg.pset i ddn.key ddn.value) := by
  induction nodes generalizing r with
  | nil => trivial
  | cons ddn nodes ih => exact ⟨hi, ih (by simpa [Replica.apply] using hi)⟩

theorem find_occupants (s : Server) (i : Nat) :
    Dict.find Prod.fst i s.occupants = (s.occupantAt i).map (i, ·) := by
  cases ho : s.occupantAt i with
  | none =>
      rw [Option.map_none, Dict.find_eq_none, List.mem_map]
      rintro ⟨⟨j, o⟩, hmem, rfl⟩
      rw [mem_occupants.1 hmem] at ho
      cases ho
  | some o => exact Dict.find_of_mem (a := (i, o)) nodup_occupants (mem_occupants.2 ho)

section Slots

variable {msgs : Nat × Occupant → List ServerMsg}
  (change : Occupant → Option (CString → Option Bytes) → Option (CString → Option Bytes))

theorem foldl_slots (hmsgs : ∀ (r : Replica) x, (msgs x).foldl Replica.apply r =
      { r with table := Function.update r.table x.1 (change x.2 (r.table x.1)) })
    {l : List (Nat × Occupant)} (hl : (l.map Prod.fst).Nodup) (r : Replica) :
    (l.flatMap msgs).foldl Replica.apply r =
      { r with
        table := fun i => (Dict.find Prod.fst i l).elim (r.table i) fun x =>
          change x.2 (r.table i) } := by
  induction l generalizing r with
  | nil => rfl
  | cons x l ih =>
      rw [List.map_cons, List.nodup_cons] at hl
      rw [List.flatMap_cons, List.foldl_append, hmsgs, ih hl.2]
      congr 1
      funext i
      rw [Dict.find_cons]
      by_cases hi : x.1 = i
      · have hnone : Dict.find Prod.fst i l = none := Dict.find_eq_none.2 (hi ▸ hl.1)
        subst hi
        simp [hnone]
      · simp [hi, Function.update_of_ne (Ne.symm hi)]

theorem fitsAll_slots (hmsgs : ∀ (r : Replica) x, (msgs x).foldl Replica.apply r =
      { r with table := Function.update r.table x.1 (change x.2 (r.table x.1)) })
    {l : List (Nat × Occupant)} (hl : (l.map Prod.fst).Nodup)
    (Ready : Option (CString → Option Bytes) → Prop)
    (hfits : ∀ (r : Replica), ∀ x ∈ l, Ready (r.table x.1) → r.FitsAll (msgs x))
    (hready : ∀ x ∈ l, Ready (r.table x.1)) : r.FitsAll (l.flatMap msgs) := by
  induction l generalizing r with
  | nil => trivial
  | cons x l ih =>
      rw [List.map_cons, List.nodup_cons] at hl
      rw [List.flatMap_cons, Replica.fitsAll_append, hmsgs]
      refine ⟨hfits r x List.mem_cons_self (hready x List.mem_cons_self), ih hl.2
        (fun r' y hy => hfits r' y (List.mem_cons_of_mem x hy)) fun y hy => ?_⟩
      have hne : y.1 ≠ x.1 := fun heq => hl.1 (heq ▸ List.mem_map_of_mem hy)
      simpa [Function.update_of_ne hne] using hready y (List.mem_cons_of_mem x hy)

end Slots

/-! ## The packets of the server -/

theorem foldl_padd_pset (r : Replica) (x : Nat × Occupant) :
    (ServerMsg.padd x.1 :: x.2.pubData.map fun ddn => .pset x.1 ddn.key ddn.value).foldl
        Replica.apply r =
      { r with
        table := Function.update r.table x.1
          (some (writeNodes (fun _ => none) x.2.pubData)) } := by
  rw [List.foldl_cons, foldl_pset]
  simp [Replica.apply]

theorem foldl_snapshotMsgs (h : s.KeysOk) (i : Nat) :
    (snapshotMsgs s i).foldl Replica.apply .init =
      ⟨ddValue s.serverData, i, fun j => (s.occupantAt j).map fun o => ddValue o.pubData⟩ := by
  rw [snapshotMsgs, List.foldl_append, List.foldl_cons, foldl_sset,
    foldl_slots (fun o _ => some (writeNodes (fun _ => none) o.pubData)) foldl_padd_pset
      nodup_occupants]
  simp only [Replica.apply, Replica.init, Replica.mk.injEq, true_and, find_occupants]
  refine ⟨writeNodes_none h.serverData, ?_⟩
  funext j
  cases ho : s.occupantAt j with
  | none => rfl
  | some o => simp [writeNodes_none (h.pubData j o ho)]

theorem replicated_snapshot (h : s.KeysOk) (i : Nat) :
    s.Replicated ((snapshotMsgs s i).foldl Replica.apply .init) := by
  rw [foldl_snapshotMsgs h]
  refine ⟨follows_of_eq rfl, fun j o ho => ⟨ddValue o.pubData, ?_, follows_of_eq rfl⟩⟩
  simp [ho]

theorem fitsAll_snapshotMsgs (hs : s.TableOk) {i : Nat} (hi : i < 10) :
    Replica.init.FitsAll (snapshotMsgs s i) := by
  have hsset := fitsAll_sset (Replica.init.apply (.yare i)) s.serverData
  have hslots : ∀ r : Replica, r.FitsAll (s.occupants.flatMap fun x =>
      .padd x.1 :: x.2.pubData.map fun ddn => .pset x.1 ddn.key ddn.value) := by
    intro r
    refine fitsAll_slots (fun o _ => some (writeNodes (fun _ => none) o.pubData))
      foldl_padd_pset nodup_occupants (fun _ => True) (fun r x hx _ => ?_) (by simp)
    have hlt := lt_length_of_occupantAt (mem_occupants.1 hx)
    have hlen := hs.length_eq
    exact ⟨show x.1 < 2 ^ 31 - 1 by omega, fitsAll_pset (by simp [Replica.apply]) _⟩
  rw [snapshotMsgs, List.cons_append]
  exact ⟨show i < 2 ^ 31 by omega, (Replica.fitsAll_append _ _ _).2 ⟨hsset, hslots _⟩⟩

theorem foldl_modifiedMsgs (s : Server) (r : Replica) :
    (modifiedMsgs s).foldl Replica.apply r =
      { r with
        info := writeNodes r.info (s.serverData.filter DataDictNode.dirty)
        table := fun i => (s.occupantAt i).elim (r.table i) fun o =>
          (r.table i).map fun data => writeNodes data (o.pubData.filter DataDictNode.dirty) } := by
  rw [modifiedMsgs, List.foldl_append, foldl_sset,
    foldl_slots (fun o entry => entry.map fun data =>
      writeNodes data (o.pubData.filter DataDictNode.dirty)) (fun r x => foldl_pset r x.1 _)
      nodup_occupants]
  simp only [find_occupants]
  congr 1
  funext i
  cases s.occupantAt i <;> rfl

/-- The packet with what changed makes a replica equal to what the server publishes,
and nothing is pending any more. -/
theorem replicated_modified (hk : s.KeysOk) (h : s.Replicated r) :
    s.clearDirty.Replicated ((modifiedMsgs s).foldl Replica.apply r) := by
  rw [foldl_modifiedMsgs]
  refine ⟨follows_of_eq ?_, fun i o ho => ?_⟩
  · rw [Server.clearDirty, ddValue_clearDirty]
    exact writeNodes_dirty hk.serverData h.info
  · rw [occupantAt_clearDirty, Option.map_eq_some_iff] at ho
    obtain ⟨o', ho', rfl⟩ := ho
    obtain ⟨data, hdata, hfollows⟩ := h.table i o' ho'
    refine ⟨writeNodes data (o'.pubData.filter DataDictNode.dirty), ?_, follows_of_eq ?_⟩
    · simp only [ho', Option.elim_some, hdata, Option.map_some]
    · rw [ddValue_clearDirty]
      exact writeNodes_dirty (hk.pubData i o' ho') hfollows

theorem Server.Replicated.fitsAll_modifiedMsgs (h : s.Replicated r) :
    r.FitsAll (modifiedMsgs s) := by
  rw [modifiedMsgs, Replica.fitsAll_append, foldl_sset]
  refine ⟨fitsAll_sset r _, fitsAll_slots (fun o entry => entry.map fun data =>
      writeNodes data (o.pubData.filter DataDictNode.dirty))
    (fun r x => foldl_pset r x.1 _) nodup_occupants (fun entry => entry.isSome)
      (fun r x _ hx => fitsAll_pset hx _) ?_⟩
  intro x hx
  obtain ⟨data, hdata, -⟩ := h.table x.1 x.2 (mem_occupants.1 hx)
  simp [hdata]

end Svc.Svcenet
