import Svc.Lib.Fallible
import Svc.Svcenet.Client

/-!
# What the client prints of a line

A command of the server that was carried out is printed as it came, up to a zero in it; of any
other line nothing gets to `stdout`.  The dictionary of the server is changed by `SSET` only.
-/

namespace Svc.Svcenet

open Svc.Common Svc.Lib

def SameOutput (c c' : Client) : Prop := c'.stdout = c.stdout ∧ c'.serverInfo = c.serverInfo

structure PassedOn (c c' : Client) (cmd name : Bytes) (args : List Bytes) : Prop where
  stdout_eq : c'.stdout = c.stdout ++ [(asCString cmd).bytes ++ [chr '\n']]
  serverInfo :
    (∃ key value dict, name = cstr "SSET" ∧ args = [key, value] ∧ c.serverInfo = .live dict ∧
      c'.serverInfo = .live (dsdictSet dict (asCString key) value)) ∨
    (name ∈ [cstr "YARE", cstr "PADD", cstr "PDEL", cstr "PSET", cstr "MESG"] ∧
      c'.serverInfo = c.serverInfo)

section Passing

variable {c c' c₁ : Client} {cmd : Bytes} {argv args : List Bytes} {id : Nat}

theorem sameOutput_growPeers (h : c.growPeers id = .ok c') : SameOutput c c' := by
  unfold Client.growPeers at h
  dsimp only at h
  split_ifs at h <;> cases h <;> exact ⟨rfl, rfl⟩

theorem sameOutput_svcPeerLeave {peer : SvcPeer} (h : c.svcPeerLeave peer = .ok c') :
    SameOutput c c' := by
  unfold Client.svcPeerLeave at h
  split_ifs at h
  cases h
  exact ⟨rfl, rfl⟩

/-- Only lines on `stderr` or a whole command: what the handlers do to output and dictionary. -/
theorem scmdSset_cases (h : scmdSset c cmd (cstr "SSET" :: args) = .ok c') :
    SameOutput c c' ∨ PassedOn c c' cmd (cstr "SSET") args := by
  unfold scmdSset at h
  split at h
  · rename_i name key value heq
    obtain ⟨-, rfl⟩ := List.cons.inj heq
    obtain ⟨dict, hdict, hok⟩ := bind_eq_ok.1 h
    cases hok
    refine .inr ⟨rfl, .inl ⟨key, value, dict, rfl, rfl, ?_, rfl⟩⟩
    unfold DsdictPtr.deref at hdict
    split at hdict
    · cases hdict
    · cases hdict
    · rename_i hlive
      rw [hlive, Except.ok.inj hdict]
  · cases h
    exact .inl ⟨rfl, rfl⟩

theorem passedOn_echo {name : Bytes} (h : SameOutput c c₁)
    (hname : name ∈ [cstr "YARE", cstr "PADD", cstr "PDEL", cstr "PSET", cstr "MESG"]) :
    PassedOn c (c₁.echo cmd) cmd name args := by
  refine ⟨?_, .inr ⟨hname, h.2⟩⟩
  rw [Client.echo, h.1]
  rfl

theorem scmdYare_cases (h : scmdYare c cmd (cstr "YARE" :: args) = .ok c') :
    SameOutput c c' ∨ PassedOn c c' cmd (cstr "YARE") args := by
  unfold scmdYare at h
  split at h
  · cases h
    exact .inr (passedOn_echo ⟨rfl, rfl⟩ (by decide))
  · cases h
    exact .inl ⟨rfl, rfl⟩

theorem scmdPadd_cases (h : scmdPadd c cmd (cstr "PADD" :: args) = .ok c') :
    SameOutput c c' ∨ PassedOn c c' cmd (cstr "PADD") args := by
  unfold scmdPadd at h
  split at h
  · obtain ⟨c₁, hgrow, h⟩ := bind_eq_ok.1 h
    obtain ⟨entry, -, h⟩ := bind_eq_ok.1 h
    have hsame := sameOutput_growPeers hgrow
    dsimp only at h
    split_ifs at h
    · cases h
      exact .inr (passedOn_echo ⟨hsame.1, hsame.2⟩ (by decide))
    · cases h
      exact .inr (passedOn_echo ⟨hsame.1, hsame.2⟩ (by decide))
  · cases h
    exact .inl ⟨rfl, rfl⟩

theorem scmdPdel_cases (h : scmdPdel c cmd (cstr "PDEL" :: args) = .ok c') :
    SameOutput c c' ∨ PassedOn c c' cmd (cstr "PDEL") args := by
  unfold scmdPdel at h
  split at h
  · dsimp only at h
    split_ifs at h
    · cases h
      exact .inl ⟨rfl, rfl⟩
    · obtain ⟨entry, -, h⟩ := bind_eq_ok.1 h
      split at h
      · obtain ⟨c₁, hleave, h⟩ := bind_eq_ok.1 h
        obtain ⟨dict, -, h⟩ := bind_eq_ok.1 h
        have hsame := sameOutput_svcPeerLeave hleave
        cases h
        exact .inr (passedOn_echo ⟨hsame.1, hsame.2⟩ (by decide))
      · obtain ⟨c₁, hpure, h⟩ := bind_eq_ok.1 h
        obtain ⟨dict, -, h⟩ := bind_eq_ok.1 h
        cases hpure
        cases h
        exact .inr (passedOn_echo ⟨rfl, rfl⟩ (by decide))
  · cases h
    exact .inl ⟨rfl, rfl⟩

theorem scmdPset_cases (h : scmdPset c cmd (cstr "PSET" :: args) = .ok c') :
    SameOutput c c' ∨ PassedOn c c' cmd (cstr "PSET") args := by
  unfold scmdPset at h
  split at h
  · dsimp only at h
    split_ifs at h
    · cases h
      exact .inl ⟨rfl, rfl⟩
    · obtain ⟨entry, -, h⟩ := bind_eq_ok.1 h
      obtain ⟨dict, -, h⟩ := bind_eq_ok.1 h
      cases h
      exact .inr (passedOn_echo ⟨rfl, rfl⟩ (by decide))
  · cases h
    exact .inl ⟨rfl, rfl⟩

theorem scmdMesg_cases (h : scmdMesg c cmd (cstr "MESG" :: args) = .ok c') :
    SameOutput c c' ∨ PassedOn c c' cmd (cstr "MESG") args := by
  unfold scmdMesg at h
  split at h
  · cases h
    exact .inr (passedOn_echo ⟨rfl, rfl⟩ (by decide))
  · cases h
    exact .inl ⟨rfl, rfl⟩

/-- A line of the server is passed on as it is, or nothing is printed of it. -/
theorem handleServerDecodedMsg_cases {string : Bytes}
    (h : handleServerDecodedMsg c string = .ok c') :
    SameOutput c c' ∨ ∃ name args, dstrlexParse string = .ok (name :: args) ∧
      PassedOn c c' string name args := by
  unfold handleServerDecodedMsg at h
  cases hparse : dstrlexParse string with
  | error error =>
      rw [hparse] at h
      cases h
      exact .inl ⟨rfl, rfl⟩
  | ok argv =>
      rw [hparse] at h
      cases argv with
      | nil => cases h
      | cons name args =>
          suffices hcases : SameOutput c c' ∨ PassedOn c c' string name args from
            hcases.imp_right fun hpassed => ⟨name, args, rfl, hpassed⟩
          dsimp only at h
          split_ifs at h with hsset hyare hpadd hpdel hpset hmesg
          · exact hsset ▸ scmdSset_cases (hsset ▸ h)
          · exact hyare ▸ scmdYare_cases (hyare ▸ h)
          · exact hpadd ▸ scmdPadd_cases (hpadd ▸ h)
          · exact hpdel ▸ scmdPdel_cases (hpdel ▸ h)
          · exact hpset ▸ scmdPset_cases (hpset ▸ h)
          · exact hmesg ▸ scmdMesg_cases (hmesg ▸ h)
          · cases h
            exact .inl ⟨rfl, rfl⟩

end Passing

end Svc.Svcenet
