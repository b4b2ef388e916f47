import Svc.Svcenet.SvcState

/-!
# The panel of a dictionary

`SVCObjectInfo` is a list box of the keys, where the user selects one, and a text box with its
value.  The box sorts its items, so a new key moves the selected one.
-/

namespace Svc.Svcenet

open Svc.Common Svc.Lib

structure SVCObjectInfo where
  values : WxMap
  keysBox : WxArrayString
  /-- `keysBox->GetSelection()`; `none` is `wxNOT_FOUND`. -/
  selection : Option Nat
  valueBox : WxString
  deriving DecidableEq

/-- `map[key]`, which adds a key that is missing -/
def wxMapGet (map : WxMap) (key : WxString) : WxString × WxMap :=
  match wxMapFind map key with
  | some value => (value, map)
  | none => ([], wxMapSet map key [])

def displayText (val : WxString) : WxString := if val = [] then wxT "(empty)" else val

namespace SVCObjectInfo

def init : SVCObjectInfo where
  values := []
  keysBox := []
  selection := none
  valueBox := []

def clearOptions (o : SVCObjectInfo) : SVCObjectInfo :=
  { o with keysBox := [], selection := none, values := [], valueBox := [] }

def displayOption (o : SVCObjectInfo) (name : WxString) : SVCObjectInfo :=
  let (val, values) := wxMapGet o.values name
  { o with values, valueBox := displayText val }

def insert (wx : WxWidgets) (o : SVCObjectInfo) (name : WxString) : SVCObjectInfo :=
  let (keysBox, selection) := wx.insert o.keysBox o.selection name
  { o with keysBox, selection }

def setOption (wx : WxWidgets) (o : SVCObjectInfo) (name value : WxString) : SVCObjectInfo :=
  match wxMapFind o.values name with
  | none =>
      -- new value
      { o.insert wx name with values := wxMapSet o.values name value }
  | some _ =>
      let o := { o with values := wxMapSet o.values name value }
      if o.selection = wx.findString o.keysBox name then o.displayOption name else o

def onItemSelect (o : SVCObjectInfo) (item : Option Nat) : SVCObjectInfo :=
  match item with
  | none => { o with selection := none }
  | some i =>
      match o.keysBox[i]? with
      -- there is no such item
      | none => o
      | some name => { o with selection := some i }.displayOption name

end SVCObjectInfo

/-! ## What the panel shows -/

section Maps

variable {map : WxMap} {key key' value : WxString}

theorem wxMapFind_eq_none_iff : wxMapFind map key = none ↔ key ∉ map.map WxMapEntry.key := by
  rw [wxMapFind, Option.map_eq_none_iff, Dict.find_eq_none]

theorem key_change (value : WxString) (entry : WxMapEntry) :
    WxMapEntry.key { entry with value } = entry.key := rfl

theorem wxMapFind_set_self : wxMapFind (wxMapSet map key value) key = some value := by
  have hnew : WxMapEntry.key ⟨key, value⟩ = key := rfl
  rw [wxMapFind, wxMapSet, Dict.find_set_self (key_change value) hnew]
  cases Dict.find WxMapEntry.key key map <;> rfl

theorem wxMapFind_set_of_ne (hne : key' ≠ key) :
    wxMapFind (wxMapSet map key value) key' = wxMapFind map key' := by
  have hnew : WxMapEntry.key ⟨key, value⟩ = key := rfl
  rw [wxMapFind, wxMapSet, Dict.find_set_of_ne hne (key_change value) hnew, wxMapFind]

theorem mem_keys_wxMapSet :
    key' ∈ (wxMapSet map key value).map WxMapEntry.key ↔
      key' = key ∨ key' ∈ map.map WxMapEntry.key := by
  have hnew : WxMapEntry.key ⟨key, value⟩ = key := rfl
  rw [wxMapSet, Dict.keys_set (key_change value) hnew]
  split_ifs with hmem
  · constructor
    · exact Or.inr
    · rintro (rfl | h)
      · exact hmem
      · exact h
  · rw [List.mem_append, List.mem_singleton, or_comm]

end Maps

/-- The box has the keys of the values, each once, and the text is the selected one's value. -/
structure SVCObjectInfo.Consistent (o : SVCObjectInfo) : Prop where
  nodup : o.keysBox.Nodup
  mem_keysBox : ∀ key, key ∈ o.keysBox ↔ key ∈ o.values.map WxMapEntry.key
  shown : ∀ i, o.selection = some i → ∃ key value, o.keysBox[i]? = some key ∧
    wxMapFind o.values key = some value ∧ o.valueBox = displayText value

section Consistent

variable {wx : WxWidgets} {o : SVCObjectInfo} {name value : WxString}

theorem consistent_init : SVCObjectInfo.init.Consistent where
  nodup := List.nodup_nil
  mem_keysBox _ := Iff.rfl
  shown _ hi := absurd hi nofun

theorem consistent_clearOptions (o : SVCObjectInfo) : o.clearOptions.Consistent where
  nodup := List.nodup_nil
  mem_keysBox _ := Iff.rfl
  shown _ hi := absurd hi nofun

/-- A key that is there is shown, and nothing is added. -/
theorem displayOption_of_find (h : wxMapFind o.values name = some value) :
    o.displayOption name = { o with valueBox := displayText value } := by
  rw [SVCObjectInfo.displayOption, wxMapGet, h]

theorem consistent_setOption_new (hwx : wx.Lawful) (ho : o.Consistent)
    (hnew : wxMapFind o.values name = none) :
    { o.insert wx name with values := wxMapSet o.values name value }.Consistent := by
  have hmem : name ∉ o.keysBox := fun h => wxMapFind_eq_none_iff.1 hnew ((ho.mem_keysBox name).1 h)
  have hperm := hwx.insert_perm o.keysBox o.selection name
  refine ⟨?_, fun key => ?_, fun i hi => ?_⟩
  · exact hperm.nodup_iff.2 (List.nodup_cons.2 ⟨hmem, ho.nodup⟩)
  · calc key ∈ (wx.insert o.keysBox o.selection name).1
        ↔ key = name ∨ key ∈ o.keysBox := by rw [hperm.mem_iff, List.mem_cons]
      _ ↔ key ∈ (wxMapSet o.values name value).map WxMapEntry.key := by
        rw [mem_keys_wxMapSet, ho.mem_keysBox]
  · obtain ⟨j, hj, hsame⟩ := hwx.insert_selection _ _ _ i hi
    obtain ⟨key, old, hkey, hold, hshown⟩ := ho.shown j hj
    have hne : key ≠ name := by
      rintro rfl
      exact hmem (List.mem_of_getElem? hkey)
    exact ⟨key, old, hsame.trans hkey, (wxMapFind_set_of_ne hne).trans hold, hshown⟩

theorem consistent_setOption (hwx : wx.Lawful) (ho : o.Consistent) (name value : WxString) :
    (o.setOption wx name value).Consistent := by
  rw [SVCObjectInfo.setOption]
  have hfind : ∀ i, wx.findString o.keysBox name = some i ↔ o.keysBox[i]? = some name :=
    fun i => hwx.findString_eq_some_iff o.keysBox name i ho.nodup
  cases hold : wxMapFind o.values name with
  | none => exact consistent_setOption_new hwx ho hold
  | some old =>
      have hin : name ∈ o.values.map WxMapEntry.key := by
        by_contra hout
        rw [wxMapFind_eq_none_iff.2 hout] at hold
        cases hold
      have hkeys : ∀ key, key ∈ o.keysBox ↔
          key ∈ (wxMapSet o.values name value).map WxMapEntry.key := by
        intro key
        rw [ho.mem_keysBox, mem_keys_wxMapSet, or_iff_right_of_imp]
        rintro rfl
        exact hin
      dsimp only
      split_ifs with hselected
      · rw [displayOption_of_find wxMapFind_set_self]
        refine ⟨ho.nodup, hkeys, fun i hi => ⟨name, value, ?_, wxMapFind_set_self, rfl⟩⟩
        exact (hfind i).1 (hselected.symm.trans hi)
      · refine ⟨ho.nodup, hkeys, fun i hi => ?_⟩
        obtain ⟨key, val, hkey, hval, hshown⟩ := ho.shown i hi
        have hne : key ≠ name := by
          rintro rfl
          exact hselected (hi.trans ((hfind i).2 hkey).symm)
        exact ⟨key, val, hkey, (wxMapFind_set_of_ne hne).trans hval, hshown⟩

theorem values_onItemSelect (ho : o.Consistent) (item : Option Nat) :
    (o.onItemSelect item).values = o.values := by
  unfold SVCObjectInfo.onItemSelect
  cases item with
  | none => rfl
  | some i =>
      dsimp only
      split
      · rfl
      · rename_i key hkey
        cases hval : wxMapFind o.values key with
        | none =>
            have hmem := (ho.mem_keysBox key).1 (List.mem_of_getElem? hkey)
            exact absurd hmem (wxMapFind_eq_none_iff.1 hval)
        | some val =>
            have hval : wxMapFind { o with selection := some i }.values key = some val := hval
            rw [displayOption_of_find hval]

theorem consistent_onItemSelect (ho : o.Consistent) (item : Option Nat) :
    (o.onItemSelect item).Consistent := by
  unfold SVCObjectInfo.onItemSelect
  cases item with
  | none => exact ⟨ho.nodup, ho.mem_keysBox, nofun⟩
  | some i =>
      dsimp only
      split
      · exact ho
      · rename_i key hkey
        obtain ⟨val, hval⟩ : ∃ val, wxMapFind o.values key = some val := by
          by_contra hnone
          have hnone := Option.eq_none_iff_forall_ne_some.2 (not_exists.1 hnone)
          exact wxMapFind_eq_none_iff.1 hnone ((ho.mem_keysBox key).1 (List.mem_of_getElem? hkey))
        have hval : wxMapFind { o with selection := some i }.values key = some val := hval
        rw [displayOption_of_find hval]
        refine ⟨ho.nodup, ho.mem_keysBox, ?_⟩
        rintro j hj
        cases hj
        exact ⟨key, val, hkey, hval, rfl⟩

end Consistent

end Svc.Svcenet
