import Svc.Common.Dstrlex.Cut
import Svc.Svcenet.Client.Output
import Svc.Svcenet.SvcState.Lines

/-!
# What `svcc` announces

`svcc` prints a line for each change of its state, and passes on the commands of the server that
it could carry out.  The wx client shows the state before until it has read all the lines of a
change, and then the state after it.  Whatever the server sends, no line that is passed on is
taken for one of `svcc`'s own.
-/

namespace Svc.Svcenet

open Svc.Common Svc.Lib

open SVCParser (ofBytes)

def ConnectionState.svcCon : ConnectionState → SVCCon
  | .disconnected => .disconnected
  | .connecting => .connecting
  | .connected => .connected

def DsdictNode.shown (signed : Bool) (node : DsdictNode) : WxMapEntry :=
  ⟨ofBytes signed node.key.bytes, ofBytes signed node.value⟩

/-- The wx client shows what `svcc` is in; if the commands of the server are `clean`, also the
dictionary, and nothing was logged. -/
structure SVCState.Shows (signed : Bool) (clean : Prop) (w : SVCState) (s : ClientState) :
    Prop where
  muted : w.locallyMuted = s.muted
  deafen : w.locallyDeafen = s.deafen
  connection : w.connectionState = s.state.svcCon
  server : s.state ≠ .disconnected →
    w.serverHost = ofBytes signed (asCString s.serverHostName).bytes ∧
      w.serverAddress = ofBytes signed (asCString s.serverHostAddr).bytes ∧
      w.serverPort = some s.serverHostPort
  info_nil : s.state ≠ .connected → w.serverInfo = []
  info : clean → s.state = .connected →
    ∃ dict, s.serverInfo = .live dict ∧ w.serverInfo = dict.map (DsdictNode.shown signed)
  log : clean → w.stateLog = []

structure SameServer (s s' : ClientState) : Prop where
  name : s'.serverHostName = s.serverHostName
  addr : s'.serverHostAddr = s.serverHostAddr
  port : s'.serverHostPort = s.serverHostPort

/-- Between two states `svcc` prints these lines, and the wx client shows the first state until
it has read all of them, and then the second.  A connection keeps its server. -/
structure Announces (wx : WxWidgets) (signed : Bool) (clean : Prop) (s s' : ClientState)
    (lines : List Bytes) : Prop where
  server : s.state ≠ .disconnected → s'.state ≠ .disconnected → SameServer s s'
  stdout_eq : s'.stdout = s.stdout ++ lines.map (· ++ [chr '\n'])
  textLine : ∀ line ∈ lines, TextLine line
  before : ∀ w : SVCState, w.Shows signed clean s → ∀ pre, pre <+: lines → pre ≠ lines →
    (w.readLines wx signed pre).Shows signed clean s
  after : ∀ w : SVCState, w.Shows signed clean s →
    (w.readLines wx signed lines).Shows signed clean s'

/-! ## Announcements -/

section Announcements

variable {wx : WxWidgets} {signed : Bool} {clean : Prop} {s s' : ClientState} {w : SVCState}
  {line line' : Bytes}

structure SameView (s s' : ClientState) : Prop where
  muted : s'.muted = s.muted
  deafen : s'.deafen = s.deafen
  state : s'.state = s.state
  serverInfo : s'.serverInfo = s.serverInfo
  server : s.state ≠ .disconnected → SameServer s s'

theorem SVCState.Shows.congr (h : w.Shows signed clean s) (hsame : SameView s s') :
    w.Shows signed clean s' where
  muted := h.muted.trans hsame.muted.symm
  deafen := h.deafen.trans hsame.deafen.symm
  connection := by rw [hsame.state, h.connection]
  server hup := by
    rw [hsame.state] at hup
    obtain ⟨hname, haddr, hport⟩ := hsame.server hup
    rw [hname, haddr, hport]
    exact h.server hup
  info_nil hup := h.info_nil (hsame.state ▸ hup)
  info hclean hup := by
    rw [hsame.serverInfo]
    exact h.info hclean (hsame.state ▸ hup)
  log := h.log

theorem announces_nil (hstdout : s'.stdout = s.stdout) (hsame : SameView s s') :
    Announces wx signed clean s s' [] where
  server hup _ := hsame.server hup
  stdout_eq := by rw [hstdout, List.map_nil, List.append_nil]
  textLine _ hline := absurd hline List.not_mem_nil
  before _ _ _ hpre hne := absurd (List.prefix_nil.1 hpre) hne
  after _ hw := hw.congr hsame

theorem announces_singleton (hstdout : s'.stdout = s.stdout ++ [line ++ [chr '\n']])
    (hline : TextLine line)
    (hserver : s.state ≠ .disconnected → s'.state ≠ .disconnected → SameServer s s')
    (hshows : ∀ w : SVCState, w.Shows signed clean s →
      (w.readLine wx signed line).Shows signed clean s') :
    Announces wx signed clean s s' [line] where
  server := hserver
  stdout_eq := hstdout
  textLine l hl := List.mem_singleton.1 hl ▸ hline
  before w hw pre hpre hne := by
    rcases List.prefix_concat_iff.1 (show pre <+: [] ++ [line] from hpre) with rfl | hpre
    · exact absurd rfl hne
    · rw [List.prefix_nil.1 hpre]
      exact hw
  after w hw := hshows w hw

theorem announces_pair (hstdout : s'.stdout = s.stdout ++ [line ++ [chr '\n'], line' ++ [chr '\n']])
    (hline : TextLine line) (hline' : TextLine line')
    (hserver : s.state ≠ .disconnected → s'.state ≠ .disconnected → SameServer s s')
    (hfirst : ∀ w : SVCState, w.Shows signed clean s →
      (w.readLine wx signed line).Shows signed clean s)
    (hsecond : ∀ w : SVCState, w.Shows signed clean s →
      ((w.readLine wx signed line).readLine wx signed line').Shows signed clean s') :
    Announces wx signed clean s s' [line, line'] where
  server := hserver
  stdout_eq := hstdout
  textLine l hl := by
    rcases List.mem_cons.1 hl with rfl | hl
    · exact hline
    · exact List.mem_singleton.1 hl ▸ hline'
  before w hw pre hpre hne := by
    rcases List.prefix_concat_iff.1 (show pre <+: [line] ++ [line'] from hpre) with rfl | hpre
    · exact absurd rfl hne
    · rcases List.prefix_concat_iff.1 (show pre <+: [] ++ [line] from hpre) with rfl | hpre
      · exact hfirst w hw
      · rw [List.prefix_nil.1 hpre]
        exact hw
  after w hw := hsecond w hw

/-! ### The connection -/

theorem SVCState.Shows.atServer (h : w.Shows signed clean s)
    (hsame : s.state ≠ .disconnected → SameServer s s') :
    (w.atServer (ofBytes signed (asCString s'.serverHostName).bytes)
      (ofBytes signed (asCString s'.serverHostAddr).bytes) s'.serverHostPort).Shows
        signed clean s where
  muted := h.muted
  deafen := h.deafen
  connection := h.connection
  server hup := by
    obtain ⟨hname, haddr, hport⟩ := hsame hup
    rw [hname, haddr, hport]
    exact ⟨rfl, rfl, rfl⟩
  info_nil := h.info_nil
  info := h.info
  log := h.log

theorem stdout_msgServer (s : ClientState) :
    s.msgServer.stdout = s.stdout ++ [serverLine s ++ [chr '\n']] := rfl

theorem stdout_msgState_connecting (h : s.state = .connecting) :
    s.msgState.stdout =
      s.stdout ++ [serverLine s ++ [chr '\n'], cstr ":STATE connecting" ++ [chr '\n']] := by
  rw [ClientState.msgState, h]
  exact (congrArg (· ++ _) (stdout_msgServer s)).trans (List.append_assoc ..)

theorem stdout_msgState_connected (h : s.state = .connected) :
    s.msgState.stdout =
      s.stdout ++ [serverLine s ++ [chr '\n'], cstr ":STATE connected" ++ [chr '\n']] := by
  rw [ClientState.msgState, h]
  exact (congrArg (· ++ _) (stdout_msgServer s)).trans (List.append_assoc ..)

theorem stdout_msgState_disconnected (h : s.state = .disconnected) :
    s.msgState.stdout = s.stdout ++ [cstr ":STATE disconnected" ++ [chr '\n']] := by
  rw [ClientState.msgState, h]
  rfl

theorem sameView_msgState (s : ClientState) : SameView s s.msgState := by
  unfold ClientState.msgState
  cases hstate : s.state with
  | disconnected | connecting | connected =>
      exact ⟨rfl, rfl, hstate.symm ▸ rfl, rfl, fun _ => ⟨rfl, rfl, rfl⟩⟩

theorem sameServer_msgState (h : SameServer s s') : SameServer s s'.msgState := by
  unfold ClientState.msgState
  cases s'.state with
  | disconnected | connecting | connected => exact ⟨h.name, h.addr, h.port⟩

/-- The wx client after both lines that `msg_state` prints for a new connection -/
theorem SVCState.Shows.enter (h : w.Shows signed clean s) (hdown : s.state ≠ .connected)
    (hmuted : s'.muted = s.muted) (hdeafen : s'.deafen = s.deafen)
    (hinfo : s'.state = .connected → s'.serverInfo = .live []) :
    ((w.atServer (ofBytes signed (asCString s'.serverHostName).bytes)
      (ofBytes signed (asCString s'.serverHostAddr).bytes) s'.serverHostPort).enter
        s'.state.svcCon).Shows signed clean s'.msgState := by
  have hnil := h.info_nil hdown
  refine SVCState.Shows.congr ?_ (sameView_msgState s')
  exact ⟨h.muted.trans hmuted.symm, h.deafen.trans hdeafen.symm, rfl, fun _ => ⟨rfl, rfl, rfl⟩,
    fun _ => hnil, fun _ hup => ⟨[], hinfo hup, hnil⟩, h.log⟩

theorem announces_connecting (hwx : wx.Lawful) (hdown : s.state = .disconnected)
    (hup : s'.state = .connecting) (haddr : s'.Addressed) (hstdout : s'.stdout = s.stdout)
    (hmuted : s'.muted = s.muted)
    (hdeafen : s'.deafen = s.deafen) :
    Announces wx signed clean s s'.msgState [serverLine s', cstr ":STATE connecting"] := by
  have hnone : s.state ≠ .connected := by rw [hdown]; nofun
  have hfirst : ∀ w : SVCState, w.Shows signed clean s →
      (w.readLine wx signed (serverLine s')).Shows signed clean s := by
    intro w hw
    rw [readLine_serverLine hwx haddr]
    exact hw.atServer fun hne => absurd hdown hne
  refine announces_pair ?_ (textLine_serverLine haddr) (by decide)
    (fun hne => absurd hdown hne) hfirst fun w hw => ?_
  · rw [stdout_msgState_connecting hup, hstdout]
  · have hcon : (w.readLine wx signed (serverLine s')).connectionState ≠ .connecting := by
      rw [(hfirst w hw).connection, hdown]
      nofun
    have hshows := hw.enter hnone hmuted hdeafen (by rw [hup]; nofun)
    rw [hup] at hshows
    rw [readLine_connecting hcon, readLine_serverLine hwx haddr]
    exact hshows

theorem announces_connected (hwx : wx.Lawful) (hdown : s.state = .connecting)
    (hup : s'.state = .connected) (haddr : s'.Addressed) (hstdout : s'.stdout = s.stdout)
    (hmuted : s'.muted = s.muted)
    (hdeafen : s'.deafen = s.deafen) (hinfo : s'.serverInfo = .live [])
    (hsame : SameServer s s') :
    Announces wx signed clean s s'.msgState [serverLine s', cstr ":STATE connected"] := by
  have hnone : s.state ≠ .connected := by rw [hdown]; nofun
  have hfirst : ∀ w : SVCState, w.Shows signed clean s →
      (w.readLine wx signed (serverLine s')).Shows signed clean s := by
    intro w hw
    rw [readLine_serverLine hwx haddr]
    exact hw.atServer fun _ => hsame
  refine announces_pair ?_ (textLine_serverLine haddr) (by decide)
    (fun _ _ => sameServer_msgState hsame) hfirst fun w hw => ?_
  · rw [stdout_msgState_connected hup, hstdout]
  · have hcon : (w.readLine wx signed (serverLine s')).connectionState ≠ .connected := by
      rw [(hfirst w hw).connection, hdown]
      nofun
    have hshows := hw.enter hnone hmuted hdeafen fun _ => hinfo
    rw [hup] at hshows
    rw [readLine_connected hcon, readLine_serverLine hwx haddr]
    exact hshows

theorem announces_disconnected (hup : s.state ≠ .disconnected) (hdown : s'.state = .disconnected)
    (hstdout : s'.stdout = s.stdout) (hmuted : s'.muted = s.muted)
    (hdeafen : s'.deafen = s.deafen) :
    Announces wx signed clean s s'.msgState [cstr ":STATE disconnected"] := by
  have hdown' : s'.msgState.state = .disconnected := (sameView_msgState s').state.trans hdown
  refine announces_singleton ?_ (by decide) (fun _ hne => absurd hdown' hne) fun w hw => ?_
  · rw [stdout_msgState_disconnected hdown, hstdout]
  · have hcon : w.connectionState ≠ .disconnected := by
      rw [hw.connection]
      cases hstate : s.state with
      | disconnected => exact absurd hstate hup
      | connecting | connected => nofun
    rw [readLine_disconnected hcon]
    refine SVCState.Shows.congr ?_ (sameView_msgState s')
    refine ⟨hw.muted.trans hmuted.symm, hw.deafen.trans hdeafen.symm, ?_,
      fun hne => absurd hdown hne, fun _ => rfl, fun _ hconn => ?_, hw.log⟩
    · rw [hdown]
      rfl
    · rw [hdown] at hconn
      cases hconn

/-! ### Flags -/

theorem announces_muted (s : ClientState) (flag : Bool) :
    Announces wx signed clean s
      (({ s with muted := flag }).print (cstr ":MUTED " ++ printFlag flag ++ cstr "\n"))
      [cstr ":MUTED " ++ printFlag flag] := by
  have hread : ∀ w : SVCState, w.readLine wx signed (cstr ":MUTED " ++ printFlag flag) =
      if flag = w.locallyMuted then w
      else ({ w with locallyMuted := flag }).append (.muted flag) := by
    intro w
    have hwords : w.readLine wx signed (cstr ":MUTED " ++ printFlag flag) =
        w.runCommand wx [wxT ":MUTED", if flag then wxT "1" else wxT "0"] := by
      cases flag with
      | false => exact readLine_words ":MUTED" "0" (by decide) (by decide) (by decide)
      | true => exact readLine_words ":MUTED" "1" (by decide) (by decide) (by decide)
    rw [hwords, runCommand_muted]
    exact handleFlag_eq flag
  refine announces_singleton rfl (by cases flag <;> decide) (fun _ _ => ⟨rfl, rfl, rfl⟩)
    fun w hw => ?_
  rw [hread]
  split_ifs with hold
  · exact ⟨hold.symm, hw.deafen, hw.connection, hw.server, hw.info_nil, hw.info, hw.log⟩
  · exact ⟨rfl, hw.deafen, hw.connection, hw.server, hw.info_nil, hw.info, hw.log⟩

theorem announces_deafen (s : ClientState) (flag : Bool) :
    Announces wx signed clean s
      (({ s with deafen := flag }).print (cstr ":DEAFEN " ++ printFlag flag ++ cstr "\n"))
      [cstr ":DEAFEN " ++ printFlag flag] := by
  have hread : ∀ w : SVCState, w.readLine wx signed (cstr ":DEAFEN " ++ printFlag flag) =
      if flag = w.locallyDeafen then w
      else ({ w with locallyDeafen := flag }).append (.deafen flag) := by
    intro w
    have hwords : w.readLine wx signed (cstr ":DEAFEN " ++ printFlag flag) =
        w.runCommand wx [wxT ":DEAFEN", if flag then wxT "1" else wxT "0"] := by
      cases flag with
      | false => exact readLine_words ":DEAFEN" "0" (by decide) (by decide) (by decide)
      | true => exact readLine_words ":DEAFEN" "1" (by decide) (by decide) (by decide)
    rw [hwords, runCommand_deafen]
    exact handleFlag_eq flag
  refine announces_singleton rfl (by cases flag <;> decide) (fun _ _ => ⟨rfl, rfl, rfl⟩)
    fun w hw => ?_
  rw [hread]
  split_ifs with hold
  · exact ⟨hw.muted, hold.symm, hw.connection, hw.server, hw.info_nil, hw.info, hw.log⟩
  · exact ⟨hw.muted, rfl, hw.connection, hw.server, hw.info_nil, hw.info, hw.log⟩

/-! ### Commands of the server -/

/-- All but the dictionary and what is said of it is the same. -/
structure SVCState.SameFlags (w w' : SVCState) : Prop where
  muted : w'.locallyMuted = w.locallyMuted
  deafen : w'.locallyDeafen = w.locallyDeafen
  connection : w'.connectionState = w.connectionState
  host : w'.serverHost = w.serverHost
  address : w'.serverAddress = w.serverAddress
  port : w'.serverPort = w.serverPort

theorem sameFlags_log (w : SVCState) (text : String) : w.SameFlags (w.log text) :=
  ⟨rfl, rfl, rfl, rfl, rfl, rfl⟩

theorem sameFlags_runCommand {name : WxString} (hname : SVCState.firstChar name ≠ wxChr ':')
    (args : WxArrayString) : w.SameFlags (w.runCommand wx (name :: args)) := by
  rw [SVCState.runCommand, if_neg hname]
  unfold SVCState.handleCommandSset
  split_ifs
  · split
    · exact ⟨rfl, rfl, rfl, rfl, rfl, rfl⟩
    · exact sameFlags_log w _
  · exact ⟨rfl, rfl, rfl, rfl, rfl, rfl⟩

def passedCommands : List Bytes :=
  [cstr "SSET", cstr "YARE", cstr "PADD", cstr "PDEL", cstr "PSET", cstr "MESG"]

theorem PassedOn.mem_passedCommands {c c' : Client} {cmd name : Bytes} {args : List Bytes}
    (h : PassedOn c c' cmd name args) : name ∈ passedCommands := by
  rcases h.serverInfo with ⟨key, value, dict, rfl, -⟩ | ⟨hname, -⟩
  · exact List.mem_cons_self
  · exact List.mem_cons_of_mem _ hname

theorem firstChar_of_mem_passedCommands (signed : Bool) : ∀ name ∈ passedCommands,
    0 ∉ name ∧ SVCState.firstChar (ofBytes signed name) ≠ wxChr ':' := by
  cases signed <;> decide

/-- Whatever is left of a line that is passed on, the wx client does not take it for one of
`svcc`'s own. -/
theorem sameFlags_readLine {cmd name : Bytes} {args : List Bytes}
    (hparse : dstrlexParse cmd = .ok (name :: args)) (hname : name ∈ passedCommands) :
    w.SameFlags (w.readLine wx signed (asCString cmd).bytes) := by
  obtain ⟨hzero, hcolon⟩ := firstChar_of_mem_passedCommands signed name hname
  rcases dstrlexParse_cut hparse hzero with ⟨error, herror⟩ | ⟨args', hcut⟩
  · obtain ⟨text, hlog⟩ : ∃ text, w.readLine wx signed (asCString cmd).bytes = w.log text :=
      readLine_of_error herror
    rw [hlog]
    exact sameFlags_log w text
  · rw [readLine_of_tokens hcut]
    exact sameFlags_runCommand hcolon _

theorem wxMapSet_shown {dict : Dsdict} {key : Bytes} (hkey : 0 ∉ key) (value : Bytes) :
    wxMapSet (dict.map (DsdictNode.shown signed)) (ofBytes signed key) (ofBytes signed value) =
      (dsdictSet dict (asCString key) value).map (DsdictNode.shown signed) := by
  have hkeys : ∀ node : DsdictNode,
      (node.shown signed).key = ofBytes signed key ↔ node.key = asCString key := by
    intro node
    rw [DsdictNode.shown, (ofBytes_injective signed).eq_iff, ← CString.bytes_inj,
      asCString_of_nulFree hkey]
  have hchange : ∀ node : DsdictNode, DsdictNode.shown signed { node with value } =
      { node.shown signed with value := ofBytes signed value } := fun _ => rfl
  have hnew : DsdictNode.shown signed ⟨asCString key, value⟩ =
      ⟨ofBytes signed key, ofBytes signed value⟩ := by
    rw [DsdictNode.shown, asCString_of_nulFree hkey]
  rw [wxMapSet, ← hnew]
  exact Dict.set_map _ hkeys hchange

/-- A line with another first word changes nothing. -/
theorem readLine_ignored {name : Bytes} {args : List Bytes}
    (hparse : dstrlexParse line = .ok (name :: args))
    (hcolon : SVCState.firstChar (ofBytes signed name) ≠ wxChr ':') (hname : name ≠ cstr "SSET") :
    w.readLine wx signed line = w := by
  have hsset : ofBytes signed name ≠ wxT "SSET" := by
    rw [ne_eq, ofBytes_eq_wxT_iff (by decide)]
    exact hname
  rw [readLine_of_tokens hparse, List.map_cons, SVCState.runCommand, if_neg hcolon, if_neg hsset]

/-- A command without a zero is carried out by both. -/
theorem shows_readLine_clean {c' : Client} {cmd name : Bytes} {args : List Bytes}
    (hup : s.state = .connected) (hparse : dstrlexParse cmd = .ok (name :: args))
    (hpassed : PassedOn s.toClient c' cmd name args) (hzero : ∀ token ∈ name :: args, 0 ∉ token)
    (hclean : clean) (hw : w.Shows signed clean s) :
    (w.readLine wx signed cmd).Shows signed clean { s with toClient := c' } := by
  obtain ⟨dict, hdict, hmap⟩ := hw.info hclean hup
  rcases hpassed.serverInfo with ⟨key, value, dict', rfl, rfl, hlive, hset⟩ | ⟨hname, hsame⟩
  · obtain rfl : dict = dict' := by
      rw [hdict] at hlive
      exact DsdictPtr.live.inj hlive
    have hkey : 0 ∉ key := hzero key (by simp)
    have hrun : w.runCommand wx
        (ofBytes signed (cstr "SSET") :: [key, value].map (ofBytes signed)) =
        { w with serverInfo :=
          wxMapSet w.serverInfo (ofBytes signed key) (ofBytes signed value) }.append
          (.serverSet (ofBytes signed key) (ofBytes signed value)) := by
      rw [ofBytes_cstr signed (by decide), SVCState.runCommand, if_neg (by decide), if_pos rfl]
      rfl
    rw [readLine_of_tokens hparse, List.map_cons, hrun]
    refine ⟨hw.muted, hw.deafen, hw.connection, hw.server, fun hne => absurd hup hne,
      fun _ _ => ⟨_, hset, ?_⟩, hw.log⟩
    rw [← wxMapSet_shown hkey, ← hmap]
    rfl
  · have hcolon := (firstChar_of_mem_passedCommands signed name hpassed.mem_passedCommands).2
    have hsset : name ≠ cstr "SSET" := by
      rintro rfl
      revert hname
      decide
    rw [readLine_ignored hparse hcolon hsset]
    exact hw.congr ⟨rfl, rfl, rfl, hsame, fun _ => ⟨rfl, rfl, rfl⟩⟩

theorem announces_passedOn {c' : Client} {cmd name : Bytes} {args : List Bytes}
    (hup : s.state = .connected) (hparse : dstrlexParse cmd = .ok (name :: args))
    (hpassed : PassedOn s.toClient c' cmd name args) (hline : chr '\n' ∉ cmd)
    (hzero : clean → ∀ token ∈ name :: args, 0 ∉ token) :
    Announces wx signed clean s { s with toClient := c' } [(asCString cmd).bytes] := by
  refine announces_singleton hpassed.stdout_eq (textLine_asCString hline)
    (fun _ _ => ⟨rfl, rfl, rfl⟩) fun w hw => ?_
  by_cases hclean : clean
  · rw [asCString_of_nulFree (nulFree_of_tokens hparse (hzero hclean))]
    exact shows_readLine_clean hup hparse hpassed (hzero hclean) hclean hw
  · have hflags : w.SameFlags (w.readLine wx signed (asCString cmd).bytes) :=
      sameFlags_readLine hparse hpassed.mem_passedCommands
    refine ⟨hflags.muted.trans hw.muted, hflags.deafen.trans hw.deafen,
      hflags.connection.trans hw.connection, fun hne => ?_, fun hne => absurd hup hne,
      fun h => absurd h hclean, fun h => absurd h hclean⟩
    rw [hflags.host, hflags.address, hflags.port]
    exact hw.server hne

end Announcements

end Svc.Svcenet
