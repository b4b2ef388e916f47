import Svc.Svcenet.Client.State
import Svc.Svcenet.Messages
import Svc.Svcenet.SvcState

/-!
# The lines that `svcc` prints of itself

How the wx client reads the lines of `msg_state`, `msg_muted` and `msg_deafen`.
-/

namespace Svc.Svcenet

open Svc.Common Svc.Lib

open SVCParser (ofBytes ofBytes_eq_nil_iff)

def NeedsNoEscape (text : Bytes) : Prop := dstrlexEscapeMem text = text

instance (text : Bytes) : Decidable (NeedsNoEscape text) := inferInstanceAs (Decidable (_ = _))

def TextLine (line : Bytes) : Prop := chr '\n' ∉ line ∧ 0 ∉ line

instance (line : Bytes) : Decidable (TextLine line) := inferInstanceAs (Decidable (_ ∧ _))

structure ClientState.Addressed (s : ClientState) : Prop where
  name : NeedsNoEscape (asCString s.serverHostName).bytes
  addr : NeedsNoEscape (asCString s.serverHostAddr).bytes
  port : s.serverHostPort < 2 ^ 16

def serverLine (s : ClientState) : Bytes :=
  cstr ":SERVER \"" ++ (asCString s.serverHostName).bytes ++ cstr "\" \"" ++
    (asCString s.serverHostAddr).bytes ++ cstr "\" " ++ decimal s.serverHostPort

section OwnLines

variable {wx : WxWidgets} {signed : Bool} {s : ClientState} {w : SVCState}

theorem quoted_of_needsNoEscape {text : Bytes} (h : NeedsNoEscape text) :
    quoted text = chr '"' :: (text ++ [chr '"']) := by
  rw [quoted, h]

theorem serverLine_eq (h : s.Addressed) :
    serverLine s = cstr ":SERVER" ++ chr ' ' ::
      (quotedLine [(asCString s.serverHostName).bytes, (asCString s.serverHostAddr).bytes] ++
        chr ' ' :: decimal s.serverHostPort) := by
  simp [serverLine, quotedLine_cons_cons, quoted_of_needsNoEscape h.name,
    quoted_of_needsNoEscape h.addr, cstr]

theorem dstrlexParse_serverLine (h : s.Addressed) :
    dstrlexParse (serverLine s) =
      .ok [cstr ":SERVER", (asCString s.serverHostName).bytes, (asCString s.serverHostAddr).bytes,
        decimal s.serverHostPort] := by
  rw [serverLine_eq h, dstrlexParse, show LexState.init = between [] from rfl,
    foldl_lexChar_word_space (List.all_eq_true.1 (by decide)) (by decide), List.foldl_append,
    foldl_lexChar_quotedLine, List.foldl_cons, lexChar_space,
    finish_word (fun b hb => isPlain_of_mem_decimal hb) (decimal_ne_nil _)]
  rfl

theorem textLine_serverLine (h : s.Addressed) : TextLine (serverLine s) := by
  constructor
  · have hspace : chr '\n' ≠ chr ' ' := by decide
    rw [serverLine_eq h]
    simp only [List.mem_append, List.mem_cons, hspace, false_or, not_or]
    exact ⟨by decide, newline_not_mem_quotedLine _, newline_not_mem_decimal _⟩
  · simp only [serverLine, List.mem_append, not_or]
    exact ⟨⟨⟨⟨⟨by decide, (asCString _).nulFree⟩, by decide⟩, (asCString _).nulFree⟩, by decide⟩,
      nulFree_decimal _⟩

/-- What `printf` writes of a line that comes from a packet -/
theorem textLine_asCString {line : Bytes} (h : chr '\n' ∉ line) :
    TextLine (asCString line).bytes :=
  ⟨fun hmem => h (List.takeWhile_subset _ hmem), (asCString line).nulFree⟩

theorem runCommand_state (w : SVCState) (args : WxArrayString) :
    w.runCommand wx (wxT ":STATE" :: args) = w.handleStateConnection (wxT ":STATE" :: args) := by
  rw [SVCState.runCommand, if_pos (by decide), if_pos rfl]

theorem runCommand_muted (w : SVCState) (args : WxArrayString) :
    w.runCommand wx (wxT ":MUTED" :: args) = w.handleStateMuted (wxT ":MUTED" :: args) := by
  rw [SVCState.runCommand, if_pos (by decide), if_neg (by decide), if_pos rfl]

theorem runCommand_deafen (w : SVCState) (args : WxArrayString) :
    w.runCommand wx (wxT ":DEAFEN" :: args) = w.handleStateDeafen (wxT ":DEAFEN" :: args) := by
  rw [SVCState.runCommand, if_pos (by decide), if_neg (by decide), if_neg (by decide), if_pos rfl]

theorem runCommand_server (w : SVCState) (args : WxArrayString) :
    w.runCommand wx (wxT ":SERVER" :: args) = w.handleStateServer wx (wxT ":SERVER" :: args) := by
  rw [SVCState.runCommand, if_pos (by decide), if_neg (by decide), if_neg (by decide),
    if_neg (by decide), if_pos rfl]

/-- A line of two words -/
theorem readLine_words {line : Bytes} (name arg : String)
    (h : dstrlexParse line = .ok [cstr name, cstr arg]) (hname : isAscii name = true)
    (harg : isAscii arg = true) :
    w.readLine wx signed line = w.runCommand wx [wxT name, wxT arg] := by
  rw [readLine_of_tokens h, ← ofBytes_cstr signed hname, ← ofBytes_cstr signed harg]
  rfl

theorem readLine_disconnected (h : w.connectionState ≠ .disconnected) :
    w.readLine wx signed (cstr ":STATE disconnected") =
      { w.enter .disconnected with serverInfo := [] } := by
  rw [readLine_words ":STATE" "disconnected" (by decide) (by decide) (by decide),
    runCommand_state]
  have hconnecting : wxT "disconnected" ≠ wxT "connecting" := by decide
  have hconnected : wxT "disconnected" ≠ wxT "connected" := by decide
  simp [SVCState.handleStateConnection, hconnecting, hconnected, h]

theorem readLine_connecting (h : w.connectionState ≠ .connecting) :
    w.readLine wx signed (cstr ":STATE connecting") = w.enter .connecting := by
  rw [readLine_words ":STATE" "connecting" (by decide) (by decide) (by decide), runCommand_state]
  simp [SVCState.handleStateConnection, h]

theorem readLine_connected (h : w.connectionState ≠ .connected) :
    w.readLine wx signed (cstr ":STATE connected") = w.enter .connected := by
  rw [readLine_words ":STATE" "connected" (by decide) (by decide) (by decide), runCommand_state]
  have hconnecting : wxT "connected" ≠ wxT "connecting" := by decide
  simp [SVCState.handleStateConnection, hconnecting, h]

/-- No state is called so. -/
theorem readLine_exiting :
    w.readLine wx signed (cstr ":STATE exiting") = w.log "error: Invalid connection state" := by
  rw [readLine_words ":STATE" "exiting" (by decide) (by decide) (by decide), runCommand_state]
  have hconnecting : wxT "exiting" ≠ wxT "connecting" := by decide
  have hconnected : wxT "exiting" ≠ wxT "connected" := by decide
  have hdisconnected : wxT "exiting" ≠ wxT "disconnected" := by decide
  simp [SVCState.handleStateConnection, hconnecting, hconnected, hdisconnected]

def SVCState.atServer (w : SVCState) (host address : WxString) (port : Nat) : SVCState :=
  { w with serverHost := host, serverAddress := address, serverPort := some port }.append
    (.server host address (some port))

theorem readLine_serverLine (hwx : wx.Lawful) (h : s.Addressed) :
    w.readLine wx signed (serverLine s) =
      w.atServer (ofBytes signed (asCString s.serverHostName).bytes)
        (ofBytes signed (asCString s.serverHostAddr).bytes) s.serverHostPort := by
  have hlt := h.port
  have hport : (wx.toULong (ofBytes signed (decimal s.serverHostPort))).map (· % 2 ^ 32) =
      some s.serverHostPort := by
    rw [hwx.toULong_decimal signed _ (by omega), Option.map_some, Nat.mod_eq_of_lt (by omega)]
  rw [readLine_of_tokens (dstrlexParse_serverLine h), List.map_cons,
    ofBytes_cstr signed (by decide), runCommand_server]
  simp only [List.map_cons, List.map_nil, SVCState.handleStateServer, hport]
  rfl

theorem handleFlag_eq {name : String} {old : Bool} {change : Bool → SVCState}
    {event : Bool → SVCEvent} (flag : Bool) :
    w.handleFlag name old change event [wxT name, if flag then wxT "1" else wxT "0"] =
      if flag = old then w else (change flag).append (event flag) := by
  have hne : wxT "0" ≠ wxT "1" := by decide
  have hne' : wxT "1" ≠ wxT "0" := by decide
  cases flag <;> cases old <;> simp [SVCState.handleFlag, hne, hne']

end OwnLines

end Svc.Svcenet
