import Svc.Svcenet.Client.Program
import Svc.Svcenet.SvcState.Announcements
import Svc.Svcenet.SvcState.Updates

/-!
# The wx client shows what `svcc` is in

After any run of `svcc`, with any commands of the user and any packets of the server, the wx
client that has read the lines printed so far shows the state; before it has read them all, it
shows one that `svcc` was in.
-/

namespace Svc.Svcenet

open Svc.Common Svc.Lib

/-- A name that resolves, and an address, need no escape; a line of a packet has no newline, and
if it is clean its tokens have no zero. -/
def ClientEvent.Legible (clean : Prop) : ClientEvent → Prop
  | .connect argv resolved _ => ∀ addr cmd name port, resolved = some addr →
      argv = [cmd, name, port] →
      NeedsNoEscape (asCString name).bytes ∧ NeedsNoEscape (asCString addr).bytes
  | .enet (.line string) => chr '\n' ∉ string ∧
      (clean → ∀ tokens, dstrlexParse string = .ok tokens → ∀ token ∈ tokens, 0 ∉ token)
  | .disconnect | .mute _ | .deafen _ | .enet .connect | .enet .disconnect | .enet (.audio _)
  | .enet (.other _) => True

section Events

variable {wx : WxWidgets} {signed : Bool} {clean : Prop} {s s' : ClientState}

/-! ## Events -/

theorem ClientState.Addressed.msgState (h : s.Addressed) : s.msgState.Addressed := by
  unfold ClientState.msgState
  cases s.state with
  | disconnected | connecting | connected => exact ⟨h.name, h.addr, h.port⟩

def Reports (wx : WxWidgets) (signed : Bool) (clean : Prop) (s s' : ClientState) : Prop :=
  s'.Addressed ∧ ∃ lines, Announces wx signed clean s s' lines

theorem reports_same (haddr : s.Addressed) : Reports wx signed clean s s :=
  ⟨haddr, [], announces_nil rfl ⟨rfl, rfl, rfl, rfl, fun _ => ⟨rfl, rfl, rfl⟩⟩⟩

theorem reports_printError (haddr : s.Addressed) (line : Bytes) :
    Reports wx signed clean s (s.printError line) :=
  ⟨⟨haddr.name, haddr.addr, haddr.port⟩, [],
    announces_nil rfl ⟨rfl, rfl, rfl, rfl, fun _ => ⟨rfl, rfl, rfl⟩⟩⟩

/-- While there is no connection, the address may change unseen. -/
theorem reports_unseen (hdown : s.state = .disconnected) (hdown' : s'.state = .disconnected)
    (haddr : s'.Addressed) (hstdout : s'.stdout = s.stdout) (hmuted : s'.muted = s.muted)
    (hdeafen : s'.deafen = s.deafen) (hinfo : s'.serverInfo = s.serverInfo) :
    Reports wx signed clean s s' :=
  ⟨haddr, [], announces_nil hstdout
    ⟨hmuted, hdeafen, hdown'.trans hdown.symm, hinfo, fun hup => absurd hdown hup⟩⟩

theorem reports_cmdConnect (hwx : wx.Lawful) (haddr : s.Addressed) {argv : List Bytes}
    {resolved : Option Bytes}
    {progress : ConnectProgress}
    (hlegible : (ClientEvent.connect argv resolved progress).Legible clean) :
    Reports wx signed clean s (cmdConnect s argv resolved progress) := by
  unfold cmdConnect
  cases hstate : s.state with
  | connected | connecting => exact reports_printError haddr _
  | disconnected =>
      dsimp only
      split
      · exact reports_printError haddr _
      · rename_i cmd name port addr
        obtain ⟨hname, haddr'⟩ := hlegible addr cmd name port rfl rfl
        have hport : (atoi (asCString port) % 2 ^ 16).toNat < 2 ^ 16 := by omega
        cases progress with
        | noHost | noPeer =>
            exact reports_unseen hstate rfl ⟨hname, haddr', hport⟩ rfl rfl rfl rfl
        | initiated =>
            exact ⟨ClientState.Addressed.msgState ⟨hname, haddr', hport⟩, [_, _],
              announces_connecting hwx hstate rfl ⟨hname, haddr', hport⟩ rfl rfl rfl⟩
      · exact reports_printError haddr _

theorem reports_abandon (haddr : s.Addressed) (hup : s.state ≠ .disconnected) :
    Reports wx signed clean s s.abandon :=
  ⟨ClientState.Addressed.msgState ⟨haddr.name, haddr.addr, haddr.port⟩, _,
    announces_disconnected hup rfl rfl rfl rfl⟩

theorem stdout_freePeerEntry {c c' : Client} {entry : ClientPeer}
    (h : freePeerEntry c entry = .ok c') : c'.stdout = c.stdout := by
  unfold freePeerEntry at h
  split_ifs at h
  · obtain ⟨dict, -, h⟩ := bind_eq_ok.1 h
    split at h
    · exact (sameOutput_svcPeerLeave h).1
    · cases h
      rfl
  · cases h
    rfl

theorem stdout_freeServerInfo {c c' : Client} (h : freeServerInfo c = .ok c') :
    c'.stdout = c.stdout := by
  obtain ⟨c₁, hdict, h⟩ := bind_eq_ok.1 h
  obtain ⟨c₂, hpeers, h⟩ := bind_eq_ok.1 h
  have hpeers : c₂.stdout = c₁.stdout := by
    refine (view_foldlM Client.stdout (fun c i c' hround => ?_) hpeers :)
    obtain ⟨entry, -, hentry⟩ := bind_eq_ok.1 hround
    exact stdout_freePeerEntry hentry
  have hdict : c₁.stdout = c.stdout := by
    unfold freeServerDict at hdict
    split at hdict
    · cases hdict
      rfl
    · obtain ⟨dict, -, hdict⟩ := bind_eq_ok.1 hdict
      cases hdict
      rfl
  cases h
  exact hpeers.trans hdict

theorem reports_cmdDisconnect (haddr : s.Addressed) (h : cmdDisconnect s = .ok s') :
    Reports wx signed clean s s' := by
  unfold cmdDisconnect at h
  split at h
  · rename_i hstate
    obtain ⟨c, hfree, h⟩ := bind_eq_ok.1 h
    cases h
    have hup : s.state ≠ .disconnected := by rw [hstate]; nofun
    exact ⟨ClientState.Addressed.msgState ⟨haddr.name, haddr.addr, haddr.port⟩, _,
      announces_disconnected hup rfl (stdout_freeServerInfo hfree) rfl rfl⟩
  · rename_i hstate
    cases h
    exact reports_abandon haddr (by rw [hstate]; nofun)
  · cases h
    exact reports_printError haddr _

theorem reports_cmdMute (haddr : s.Addressed) (argv : List Bytes) :
    Reports wx signed clean s (cmdMute s argv) := by
  unfold cmdMute
  split
  · exact ⟨⟨haddr.name, haddr.addr, haddr.port⟩, _, announces_muted s _⟩
  · exact reports_printError haddr _

theorem reports_cmdDeafen (haddr : s.Addressed) (argv : List Bytes) :
    Reports wx signed clean s (cmdDeafen s argv) := by
  unfold cmdDeafen
  split
  · exact ⟨⟨haddr.name, haddr.addr, haddr.port⟩, _, announces_deafen s _⟩
  · exact reports_printError haddr _

theorem reports_line (haddr : s.Addressed) (hup : s.state = .connected) {string : Bytes}
    {c : Client} (hlegible : (ClientEvent.enet (.line string)).Legible clean)
    (h : handleServerDecodedMsg s.toClient string = .ok c) :
    Reports wx signed clean s { s with toClient := c } := by
  refine ⟨⟨haddr.name, haddr.addr, haddr.port⟩, ?_⟩
  obtain ⟨hline, hzero⟩ := hlegible
  rcases handleServerDecodedMsg_cases h with ⟨hstdout, hinfo⟩ | ⟨name, args, hparse, hpassed⟩
  · exact ⟨[], announces_nil hstdout ⟨rfl, rfl, rfl, hinfo, fun _ => ⟨rfl, rfl, rfl⟩⟩⟩
  · exact ⟨_, announces_passedOn hup hparse hpassed hline fun hclean => hzero hclean _ hparse⟩

theorem reports_audio (haddr : s.Addressed) {packet : ENetPacket}
    {given : Option (SvcPeer × NetworkPacket)} (h : handleServerAudio s packet = .ok (s', given)) :
    Reports wx signed clean s s' := by
  unfold handleServerAudio at h
  split at h
  · cases h
    exact reports_same haddr
  · cases h
    exact reports_printError haddr _
  · obtain ⟨entry, -, h⟩ := bind_eq_ok.1 h
    obtain ⟨peer, -, h⟩ := bind_eq_ok.1 h
    cases h
    exact reports_same haddr

theorem reports_handleConnected (haddr : s.Addressed) (hup : s.state = .connected)
    {event : ENetEvent} (hlegible : (ClientEvent.enet event).Legible clean)
    (h : handleConnected s event = .ok s') : Reports wx signed clean s s' := by
  cases event with
  | connect =>
      cases h
      exact reports_same haddr
  | disconnect =>
      obtain ⟨c, hfree, h⟩ := bind_eq_ok.1 h
      cases h
      have hne : s.state ≠ .disconnected := by rw [hup]; nofun
      exact ⟨ClientState.Addressed.msgState ⟨haddr.name, haddr.addr, haddr.port⟩, _,
        announces_disconnected hne rfl (stdout_freeServerInfo hfree) rfl rfl⟩
  | line string =>
      obtain ⟨c, hline, h⟩ := bind_eq_ok.1 h
      cases h
      exact reports_line haddr hup hlegible hline
  | audio packet =>
      obtain ⟨⟨s₁, given⟩, haudio, h⟩ := bind_eq_ok.1 h
      cases h
      exact reports_audio haddr haudio
  | other channelID =>
      cases h
      exact reports_printError haddr _

theorem reports_handleConnecting (hwx : wx.Lawful) (haddr : s.Addressed)
    (hstate : s.state = .connecting) (event : ENetEvent) :
    Reports wx signed clean s (handleConnecting s event) := by
  have haddr' : { s with state := .connected, serverInfo := .live [] : ClientState }.Addressed :=
    ⟨haddr.name, haddr.addr, haddr.port⟩
  cases event with
  | connect =>
      exact ⟨haddr'.msgState, [_, _],
        announces_connected hwx hstate rfl haddr' rfl rfl rfl rfl ⟨rfl, rfl, rfl⟩⟩
  | disconnect | line | audio | other => exact reports_abandon haddr (by rw [hstate]; nofun)

theorem reports_event (hwx : wx.Lawful) (haddr : s.Addressed) {event : ClientEvent}
    (hlegible : event.Legible clean) (h : handleClientEvent s event = .ok s') :
    Reports wx signed clean s s' := by
  cases event with
  | connect argv resolved progress =>
      cases h
      exact reports_cmdConnect hwx haddr hlegible
  | disconnect => exact reports_cmdDisconnect haddr h
  | mute argv =>
      cases h
      exact reports_cmdMute haddr argv
  | deafen argv =>
      cases h
      exact reports_cmdDeafen haddr argv
  | enet event =>
      rw [handleClientEvent] at h
      split at h
      · rename_i hstate
        exact reports_handleConnected haddr hstate hlegible h
      · rename_i hstate
        cases h
        exact reports_handleConnecting hwx haddr hstate event
      · cases h
        exact reports_same haddr

end Events

/-! ## Runs -/

structure SVCState.SameServer (w w' : SVCState) : Prop where
  host : w'.serverHost = w.serverHost
  address : w'.serverAddress = w.serverAddress
  port : w'.serverPort = w.serverPort

def SVCState.Steady (w w' : SVCState) : Prop :=
  w.connectionState ≠ .disconnected → w'.connectionState ≠ .disconnected → w.SameServer w'

/-- After these events `svcc` prints these lines.  A reader of all of them shows the state, a
reader of some of them one that `svcc` was in; nothing is wrong with a line but the one that
`svcc` ends with. -/
structure Mirrored (wx : WxWidgets) (signed : Bool) (clean ended : Prop)
    (events : List ClientEvent) (s : ClientState) (lines : List Bytes) : Prop where
  textLine : ∀ line ∈ lines, TextLine line
  past : ∀ pre, pre <+: lines → ∃ past, past <+: events ∧ ∃ s', clientAfter past = .ok s' ∧
    (SVCState.init.readLines wx signed pre).drained.Shows signed clean s'
  now : (SVCState.init.readLines wx signed lines).drained.Shows signed clean s
  steady : ∀ pre line, pre ++ [line] <+: lines →
    (SVCState.init.readLines wx signed pre).Steady
      (SVCState.init.readLines wx signed (pre ++ [line]))
  log : clean → ∀ pre, pre <+: lines → ∀ text ∈ (SVCState.init.readLines wx signed pre).stateLog,
    text = wxT "error: Invalid connection state" ∧ ended

section Runs

variable {wx : WxWidgets} {signed : Bool} {clean ended : Prop} {s s' : ClientState}
  {events : List ClientEvent} {w w' : SVCState} {lines lines' rest : List Bytes} {line : Bytes}

theorem SVCState.Shows.drained (h : w.Shows signed clean s) : w.drained.Shows signed clean s :=
  ⟨h.muted, h.deafen, h.connection, h.server, h.info_nil, h.info, fun _ => rfl⟩

theorem SVCState.Shows.state_ne (h : w.Shows signed clean s)
    (hup : w.connectionState ≠ .disconnected) : s.state ≠ .disconnected := by
  intro hdown
  rw [h.connection, hdown] at hup
  exact hup rfl

theorem SVCState.Shows.steady (h : w.Shows signed clean s) (h' : w'.Shows signed clean s')
    (hserver : s.state ≠ .disconnected → s'.state ≠ .disconnected → Svcenet.SameServer s s') :
    w.Steady w' := by
  intro hup hup'
  obtain ⟨hhost, haddress, hport⟩ := h.server (h.state_ne hup)
  obtain ⟨hhost', haddress', hport'⟩ := h'.server (h'.state_ne hup')
  have hsame := hserver (h.state_ne hup) (h'.state_ne hup')
  constructor
  · rw [hhost, hhost', hsame.name]
  · rw [haddress, haddress', hsame.addr]
  · rw [hport, hport', hsame.port]

theorem steady_of_drained {w₁ w₁' : SVCState} (hw : w₁.drained = w.drained)
    (hw' : w₁'.drained = w'.drained) (h : w.Steady w') : w₁.Steady w₁' := by
  have h : w.drained.Steady w'.drained := fun hup hup' =>
    ⟨(h hup hup').host, (h hup hup').address, (h hup hup').port⟩
  rw [← hw, ← hw'] at h
  exact fun hup hup' => ⟨(h hup hup').host, (h hup hup').address, (h hup hup').port⟩

theorem addressed_init : ClientState.init.Addressed := ⟨by decide, by decide, by decide⟩

theorem svcState_shows_init : SVCState.init.Shows signed clean .init :=
  ⟨rfl, rfl, rfl, fun hup => absurd rfl hup, fun _ => rfl,
    fun _ hup => ConnectionState.noConfusion hup, fun _ => rfl⟩

theorem mirrored_init : Mirrored wx signed clean ended [] .init [] where
  textLine _ hline := absurd hline List.not_mem_nil
  past pre hpre := by
    rw [List.prefix_nil.1 hpre]
    exact ⟨[], List.prefix_refl _, .init, rfl, svcState_shows_init⟩
  now := svcState_shows_init
  steady pre line hpre := by
    have hnil := List.prefix_nil.1 hpre
    simp at hnil
  log _ pre hpre := by
    rw [List.prefix_nil.1 hpre]
    exact fun _ htext => absurd htext List.not_mem_nil

theorem Mirrored.mono {ended' : Prop} (h : Mirrored wx signed clean ended events s lines)
    (hended : ended → ended') : Mirrored wx signed clean ended' events s lines :=
  { h with
    log := fun hclean pre hpre text htext => (h.log hclean pre hpre text htext).imp_right hended }

/-! ### An event -/

/-- Reading goes on from what is known. -/
theorem drained_readLines_append (lines rest : List Bytes) :
    (SVCState.init.readLines wx signed (lines ++ rest)).drained =
      ((SVCState.init.readLines wx signed lines).drained.readLines wx signed rest).drained := by
  have hsame : (SVCState.init.readLines wx signed lines).drained =
      (SVCState.init.readLines wx signed lines).drained.drained := rfl
  rw [readLines_append]
  exact drained_readLines hsame rest

theorem Mirrored.append {e : ClientEvent}
    (h : Mirrored wx signed clean ended events s lines)
    (hann : Announces wx signed clean s s' lines')
    (hbefore : clientAfter events = .ok s) (hafter : clientAfter (events ++ [e]) = .ok s') :
    Mirrored wx signed clean ended (events ++ [e]) s' (lines ++ lines') := by
  -- what a reader of `lines` knows, and nothing is queued
  have hnow := h.now
  have hrest : ∀ rest, rest <+: lines' →
      ∃ s'', ((SVCState.init.readLines wx signed lines).drained.readLines wx signed rest).Shows
        signed clean s'' ∧ (rest ≠ lines' → s'' = s) ∧ (rest = lines' → s'' = s') := by
    intro rest hrest
    by_cases hall : rest = lines'
    · exact ⟨s', hall ▸ hann.after _ hnow, fun hne => absurd hall hne, fun _ => rfl⟩
    · exact ⟨s, hann.before _ hnow rest hrest hall, fun _ => rfl, fun heq => absurd heq hall⟩
  refine ⟨fun line hline => ?_, fun pre hpre => ?_, ?_, fun pre line hpre => ?_,
    fun hclean pre hpre text htext => ?_⟩
  · rcases List.mem_append.1 hline with hline | hline
    · exact h.textLine line hline
    · exact hann.textLine line hline
  · rcases List.prefix_or_prefix_of_prefix hpre (List.prefix_append lines lines') with
      hin | ⟨rest, rfl⟩
    · obtain ⟨past, hpast, hshows⟩ := h.past pre hin
      exact ⟨past, hpast.trans (List.prefix_append _ _), hshows⟩
    · obtain ⟨s'', hshows, hsome, hall⟩ := hrest rest ((List.prefix_append_right_inj lines).1 hpre)
      rw [drained_readLines_append]
      by_cases heq : rest = lines'
      · obtain rfl := hall heq
        exact ⟨events ++ [e], List.prefix_refl _, s'', hafter, hshows.drained⟩
      · obtain rfl := hsome heq
        exact ⟨events, List.prefix_append _ _, s'', hbefore, hshows.drained⟩
  · rw [drained_readLines_append]
    exact (hann.after _ hnow).drained
  · rcases List.prefix_or_prefix_of_prefix hpre (List.prefix_append lines lines') with hin | hout
    · exact h.steady pre line hin
    rcases List.prefix_concat_iff.1 hout with heq | ⟨rest, rfl⟩
    · exact h.steady pre line (heq ▸ List.prefix_refl _)
    rw [List.append_assoc] at hpre
    have hpre := (List.prefix_append_right_inj lines).1 hpre
    have hne : rest ≠ lines' := by
      rintro rfl
      have hlength := hpre.length_le
      rw [List.length_append, List.length_singleton] at hlength
      omega
    obtain ⟨s₁, hshows, hsome, -⟩ := hrest rest ((List.prefix_append _ _).trans hpre)
    obtain ⟨s₂, hshows', hsome', hall'⟩ := hrest (rest ++ [line]) hpre
    obtain rfl := hsome hne
    refine steady_of_drained (drained_readLines_append lines rest)
      (by rw [List.append_assoc, drained_readLines_append]) (hshows.steady hshows' ?_)
    by_cases heq : rest ++ [line] = lines'
    · rw [hall' heq]
      exact hann.server
    · rw [hsome' heq]
      exact fun _ _ => ⟨rfl, rfl, rfl⟩
  · rcases List.prefix_or_prefix_of_prefix hpre (List.prefix_append lines lines') with
      hin | ⟨rest, rfl⟩
    · exact h.log hclean pre hin text htext
    · obtain ⟨s'', hshows, -⟩ := hrest rest ((List.prefix_append_right_inj lines).1 hpre)
      rw [readLines_append, stateLog_readLines, hshows.log hclean, List.append_nil] at htext
      exact h.log hclean lines (List.prefix_refl _) text htext

/-! ### Other lines -/

/-- A line after which as much is known, and what is said of it -/
structure Still (wx : WxWidgets) (signed : Bool) (ended : Prop) (line : Bytes) : Prop where
  textLine : TextLine line
  drained : ∀ w : SVCState, (w.readLine wx signed line).drained = w.drained
  log : ∀ w : SVCState, ∀ text ∈ (w.drained.readLine wx signed line).stateLog,
    text = wxT "error: Invalid connection state" ∧ ended

/-- Such a line may come between any others. -/
theorem readLines_still (hstill : Still wx signed ended line) (lines rest : List Bytes) :
    (SVCState.init.readLines wx signed (lines ++ line :: rest)).drained =
        (SVCState.init.readLines wx signed (lines ++ rest)).drained ∧
      ∀ text ∈ (SVCState.init.readLines wx signed (lines ++ line :: rest)).stateLog,
        text ∈ (SVCState.init.readLines wx signed (lines ++ rest)).stateLog ∨
          text = wxT "error: Invalid connection state" ∧ ended := by
  have hdrained := hstill.drained (SVCState.init.readLines wx signed lines)
  have hlog : ((SVCState.init.readLines wx signed lines).readLine wx signed line).stateLog = _ :=
    (readLine_of_drained rfl line).2
  constructor
  · rw [readLines_append, readLines_append, readLines_cons]
    exact drained_readLines hdrained rest
  · intro text htext
    rw [readLines_append, readLines_cons, stateLog_readLines, hdrained, hlog, List.mem_append,
      List.mem_append] at htext
    rw [readLines_append, stateLog_readLines, List.mem_append]
    rcases htext with (htext | htext) | htext
    · exact .inl (.inl htext)
    · exact .inr (hstill.log _ text htext)
    · exact .inl (.inr htext)

/-- The beginnings of the lines, with and without another one in between -/
theorem prefix_insert_cases {pre : List Bytes} (hpre : pre <+: lines ++ line :: rest) :
    pre <+: lines ∨ ∃ rest', rest' <+: rest ∧ pre = lines ++ line :: rest' := by
  rcases List.prefix_or_prefix_of_prefix hpre (List.prefix_append lines _) with hin | ⟨more, rfl⟩
  · exact .inl hin
  · have hmore := (List.prefix_append_right_inj lines).1 hpre
    cases more with
    | nil => exact .inl (by rw [List.append_nil])
    | cons line' rest' =>
        obtain ⟨rfl, hrest'⟩ := List.cons_prefix_cons.1 hmore
        exact .inr ⟨rest', hrest', rfl⟩

theorem Mirrored.insert (h : Mirrored wx signed clean ended events s (lines ++ rest))
    (hstill : Still wx signed ended line) :
    Mirrored wx signed clean ended events s (lines ++ line :: rest) := by
  have hlines : ∀ {pre}, pre <+: lines → pre <+: lines ++ rest :=
    fun hpre => hpre.trans (List.prefix_append _ _)
  have hboth : ∀ {rest'}, rest' <+: rest → lines ++ rest' <+: lines ++ rest :=
    fun hrest' => (List.prefix_append_right_inj lines).2 hrest'
  refine ⟨fun l hl => ?_, fun pre hpre => ?_, ?_, fun pre l hpre => ?_,
    fun hclean pre hpre text htext => ?_⟩
  · rw [List.mem_append, List.mem_cons] at hl
    rcases hl with hl | rfl | hl
    · exact h.textLine l (List.mem_append_left _ hl)
    · exact hstill.textLine
    · exact h.textLine l (List.mem_append_right _ hl)
  · rcases prefix_insert_cases hpre with hin | ⟨rest', hrest', rfl⟩
    · exact h.past pre (hlines hin)
    · rw [(readLines_still hstill lines rest').1]
      exact h.past _ (hboth hrest')
  · rw [(readLines_still hstill lines rest).1]
    exact h.now
  · rcases prefix_insert_cases hpre with hin | ⟨rest', hrest', heq⟩
    · exact h.steady pre l (hlines hin)
    · rcases List.eq_nil_or_concat rest' with rfl | ⟨rest'', l', rfl⟩
      · obtain ⟨rfl, hline⟩ := List.append_inj' heq rfl
        obtain rfl : l = line := List.singleton_inj.1 hline
        refine steady_of_drained rfl ?_ (fun _ _ => ⟨rfl, rfl, rfl⟩)
        rw [readLines_append]
        exact hstill.drained _
      · rw [List.concat_eq_append, ← List.cons_append, ← List.append_assoc] at heq
        obtain ⟨rfl, hline⟩ := List.append_inj' heq rfl
        obtain rfl : l = l' := List.singleton_inj.1 hline
        rw [List.concat_eq_append] at hrest'
        have hsteady := h.steady (lines ++ rest'') l (by
          rw [List.append_assoc]
          exact hboth hrest')
        refine steady_of_drained (readLines_still hstill lines rest'').1 ?_ hsteady
        rw [List.append_assoc, List.append_assoc, List.cons_append]
        exact (readLines_still hstill lines (rest'' ++ [l])).1
  · rcases prefix_insert_cases hpre with hin | ⟨rest', hrest', rfl⟩
    · exact h.log hclean pre (hlines hin) text htext
    · rcases (readLines_still hstill lines rest').2 text htext with htext | hsaid
      · exact h.log hclean _ (hboth hrest') text htext
      · exact hsaid

end Runs

end Svc.Svcenet
