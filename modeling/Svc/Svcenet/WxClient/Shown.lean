import Svc.Svcenet.WxClient.Follows

/-!
# What the user of the wx client sees

Whatever a server sends and however the steps of the two programs fall, the wx client says of
`svcc` only what was once so, or that it is gone; when it has read all that was printed, it says
what is so.
-/

namespace Svc.Svcenet

open Svc.Common Svc.Lib

open SVCParser (ofBytes)

def ClientState.statusText (signed : Bool) (s : ClientState) : Option WxString :=
  let host := ofBytes signed (asCString s.serverHostName).bytes
  let address := ofBytes signed (asCString s.serverHostAddr).bytes
  match s.state with
  | .connected => serverText "svcc running - connected to " host address (some s.serverHostPort)
  | .connecting => serverText "svcc running - connecting to " host address (some s.serverHostPort)
  | .disconnected => some (wxT "svcc running - disconnected")

/-- The window shows what `svcc` is in; if the commands of the server are `clean`, also the
dictionary.  Once `svcc` is not `ready` any more, the status bar may say so instead. -/
structure SVCWindow.ShowsClient (signed : Bool) (clean : Prop) (ready : Bool) (w : SVCWindow)
    (s : ClientState) : Prop where
  status : w.statusText = s.statusText signed ∨
    ready = false ∧ w.statusText = some (wxT "svcc not running")
  values_nil : s.state ≠ .connected → w.serverInfo.values = []
  values : clean → s.state = .connected → ∃ dict, s.serverInfo = .live dict ∧
    w.serverInfo.values = dict.map (DsdictNode.shown signed)

section Shown

variable {wx : WxWidgets} {signed : Bool} {clean : Prop} {x : WxClient} {events : List WxEvent}
  {s : ClientState} {lines pending parsed queued : List Bytes} {buffer : Bytes}

theorem statusText_of_shows {w : SVCState} (h : w.drained.Shows signed clean s) :
    w.statusText = s.statusText signed := by
  have hcon : w.connectionState = s.state.svcCon := h.connection
  have hserver := h.server
  rw [SVCState.statusText, ClientState.statusText, hcon]
  cases hstate : s.state with
  | disconnected => rfl
  | connected | connecting =>
      obtain ⟨hhost, haddress, hport⟩ := hserver (by rw [hstate]; decide)
      have hhost : w.serverHost = _ := hhost
      have haddress : w.serverAddress = _ := haddress
      have hport : w.serverPort = _ := hport
      rw [hhost, haddress, hport]
      rfl

theorem showsClient_of_presents {ready : Bool} {window : SVCWindow} {w : SVCState}
    (h : w.drained.Shows signed clean s) (hpresents : window.Presents ready w) :
    window.ShowsClient signed clean ready s where
  status := hpresents.status.imp_left (·.trans (statusText_of_shows h))
  values_nil hdown := hpresents.values.trans (h.info_nil hdown)
  values hclean hup := by
    obtain ⟨dict, hdict, hinfo⟩ := h.info hclean hup
    exact ⟨dict, hdict, hpresents.values.trans hinfo⟩

/-- What was taken out tells a state that `svcc` was in. -/
theorem WxClient.Prints.past {heard : List ClientEvent}
    (h : x.Prints wx signed clean heard lines pending) (hparsed : parsed <+: lines) :
    ∃ past, past <+: heard ∧ ∃ s, clientAfter past = .ok s ∧
      (SVCState.init.readLines wx signed parsed).drained.Shows signed clean s := by
  obtain ⟨heard', s, hheard', hs, hm, hrun⟩ := h.mirrored
  obtain ⟨past, hpast, hshows⟩ := hm.past parsed (hparsed.trans (List.prefix_append _ _))
  exact ⟨past, hpast.trans hheard', hshows⟩

/-- When all is printed and read, it is what `svcc` printed. -/
theorem WxClient.Follows.eq_lines (h : x.Follows wx signed clean parsed queued buffer)
    {heard : List ClientEvent} (hp : x.Prints wx signed clean heard lines pending)
    (hpipe : x.pipe = []) (houtput : x.stdoutThread.output = []) : parsed = lines := by
  obtain rfl : queued = [] := by
    rw [h.output] at houtput
    exact List.map_eq_nil_iff.1 houtput
  have hstream : Records.stream (chr '\n') (parsed ++ []) ++ buffer =
      Records.stream (chr '\n') lines := by
    have hall := h.stream
    rw [hpipe, List.append_nil, hp.stdout_eq] at hall
    exact hall
  have heq := (Records.eq_of_stream_eq h.newline_not_mem
    (fun line hline => (hp.textLine line hline).1) hstream h.newline_not_mem_buffer).1
  rwa [List.append_nil] at heq

/-! ## At every moment -/

/-- The user connects, `libsvc` has nothing to play, and the server has a topic; the wx client
reads all of it. -/
def wxVisit : List WxEvent :=
  connection.map .svcc ++ [.notice .noAudio, .svcc (.enet (.line (cstr "SSET topic x"))), .print] ++
    List.replicate 150 .getC ++ List.replicate 6 .processLine ++ [.timer, .select (some 0)]

/-- Then the user leaves, and `svcc` is gone. -/
def wxLeave : List WxEvent :=
  [.command (wxT "/quit"), .exit, .print] ++ List.replicate 15 .getC ++
    [.processLine, .timer, .gone, .kill, .timer, .command (wxT "/quit")]

theorem legible_line_of_tokens {string : Bytes} {tokens : List Bytes} (hline : chr '\n' ∉ string)
    (htokens : dstrlexParse string = .ok tokens) (hclean : ∀ token ∈ tokens, 0 ∉ token) :
    (ClientEvent.enet (.line string)).Legible clean := by
  refine ⟨hline, fun _ tokens' htokens' => ?_⟩
  obtain rfl : tokens = tokens' := Except.ok.inj (htokens.symm.trans htokens')
  exact hclean

theorem legible_connection : ∀ event ∈ connection, event.Legible clean := by
  rw [connection, List.forall_mem_cons, List.forall_mem_singleton]
  refine ⟨?_, trivial⟩
  rintro addr cmd name port ⟨⟩ ⟨⟩
  exact ⟨by decide, by decide⟩

theorem svccEvents_replicate {e : WxEvent} (he : e.isWx = true) (n : Nat) :
    svccEvents (List.replicate n e) = [] :=
  svccEvents_of_isWx fun _ he' => (List.eq_of_mem_replicate he').symm ▸ he

theorem svccEvents_wxVisit :
    svccEvents wxVisit = connection ++ [.enet (.line (cstr "SSET topic x"))] := by
  simp only [wxVisit, svccEvents_append, svccEvents_replicate (e := .getC) rfl,
    svccEvents_replicate (e := .processLine) rfl]
  rfl

theorem svccEvents_wxLeave : svccEvents wxLeave = [] := by
  simp only [wxLeave, svccEvents_append, svccEvents_replicate (e := .getC) rfl]
  rfl

theorem legible_wxVisit : ∀ event ∈ svccEvents wxVisit, event.Legible True := by
  rw [svccEvents_wxVisit, List.forall_mem_append, List.forall_mem_singleton]
  have htokens : dstrlexParse (cstr "SSET topic x") = .ok (["SSET", "topic", "x"].map cstr) := rfl
  exact ⟨legible_connection, legible_line_of_tokens (by decide) htokens (by decide)⟩

theorem exists_after_wxVisit : ∃ x, WxClient.after plainWidgets true wxVisit = .ok x ∧
    x.life = .running := by
  obtain ⟨x, hx, -, hlife⟩ :=
    exists_after plainWidgets true ((congrArg clientAfter svccEvents_wxVisit).trans rfl)
  exact ⟨x, hx, hlife (by simp [wxVisit, connection])⟩

theorem svccEvents_wxVisit_wxLeave : svccEvents (wxVisit ++ wxLeave) = svccEvents wxVisit :=
  svccEvents_append_of_nil svccEvents_wxLeave

theorem legible_wxLeave : ∀ event ∈ svccEvents (wxVisit ++ wxLeave), event.Legible True := by
  rw [svccEvents_wxVisit_wxLeave]
  exact legible_wxVisit

theorem exists_after_wxLeave :
    ∃ x, WxClient.after plainWidgets true (wxVisit ++ wxLeave) = .ok x := by
  obtain ⟨x, hx, -⟩ := exists_after plainWidgets true
    ((congrArg clientAfter (svccEvents_wxVisit_wxLeave.trans svccEvents_wxVisit)).trans rfl)
  exact ⟨x, hx⟩

theorem state_shows_past (hwx : wx.Lawful)
    (hlegible : ∀ event ∈ svccEvents events, event.Legible clean)
    (h : WxClient.after wx signed events = .ok x) :
    ∃ past, past <+: svccEvents events ∧
      ∃ s, clientAfter past = .ok s ∧ x.state.drained.Shows signed clean s := by
  obtain ⟨lines, pending, parsed, queued, buffer, hprints, hfollows⟩ := follows_run hwx hlegible h
  rw [hfollows.state]
  exact hprints.past ((List.prefix_append _ _).trans (hfollows.prefix_lines hprints))

theorem state_shows_past_wxVisit :
    ∃ x, WxClient.after plainWidgets true (wxVisit ++ wxLeave) = .ok x ∧
      ∃ past, past <+: svccEvents (wxVisit ++ wxLeave) ∧
        ∃ s, clientAfter past = .ok s ∧ x.state.drained.Shows true True s := by
  obtain ⟨x, hx⟩ := exists_after_wxLeave
  exact ⟨x, hx, state_shows_past lawful_plainWidgets legible_wxLeave hx⟩

/-- Once the timer has run, so does the window; its panel is always in order. -/
theorem window_shows_past (hwx : wx.Lawful)
    (hlegible : ∀ event ∈ svccEvents events, event.Legible clean)
    (h : WxClient.after wx signed events = .ok x) :
    x.window.serverInfo.Consistent ∧ (x.window.firstStateChange = false →
      ∃ past, past <+: svccEvents events ∧
        ∃ s, clientAfter past = .ok s ∧ x.window.ShowsClient signed clean x.ready s) := by
  obtain ⟨lines, pending, parsed, queued, buffer, hprints, hfollows⟩ := follows_run hwx hlegible h
  refine ⟨hfollows.consistent, fun hfirst => ?_⟩
  obtain ⟨old, hold, hpresents⟩ := hfollows.shown hfirst
  have hlines := (List.prefix_append _ _).trans (hfollows.prefix_lines hprints)
  obtain ⟨past, hpast, s, hs, hshows⟩ := hprints.past (hold.trans hlines)
  exact ⟨past, hpast, s, hs, showsClient_of_presents hshows hpresents⟩

theorem window_shows_past_wxVisit :
    ∃ x, WxClient.after plainWidgets true (wxVisit ++ wxLeave) = .ok x ∧
      x.window.serverInfo.Consistent ∧ (x.window.firstStateChange = false →
        ∃ past, past <+: svccEvents (wxVisit ++ wxLeave) ∧
          ∃ s, clientAfter past = .ok s ∧ x.window.ShowsClient true True x.ready s) := by
  obtain ⟨x, hx⟩ := exists_after_wxLeave
  exact ⟨x, hx, window_shows_past lawful_plainWidgets legible_wxLeave hx⟩

def WxClient.toRead (x : WxClient) : Nat :=
  3 * x.printing.flatten.length + x.printing.length + 2 * x.pipe.length +
    x.stdoutThread.output.length

structure WxClient.Rests (s : ClientState) (x : WxClient) : Prop where
  svcc : x.svcc = s
  life : x.life = .running
  killed : x.killed = false

theorem rests_print (h : x.Rests s) (hsome : x.printing ≠ []) :
    x.print.Rests s ∧ x.print.toRead < x.toRead := by
  obtain ⟨text, printing, hprinting⟩ := List.exists_cons_of_ne_nil hsome
  rw [WxClient.print, hprinting]
  refine ⟨⟨h.svcc, h.life, h.killed⟩, ?_⟩
  simp only [WxClient.toRead, WxClient.put, hprinting, List.flatten_cons, List.length_append,
    List.length_cons]
  omega

theorem rests_getC (h : x.Rests s) (hsome : x.pipe ≠ []) :
    (x.getC signed).Rests s ∧ (x.getC signed).toRead < x.toRead := by
  obtain ⟨b, pipe, hpipe⟩ := List.exists_cons_of_ne_nil hsome
  have hthread : ∀ c, (x.stdoutThread.entry c).output.length ≤
      x.stdoutThread.output.length + 1 := by
    intro c
    unfold SVCReaderThread.entry
    split_ifs
    · exact (List.length_append ..).le
    · exact Nat.le_succ _
  rw [WxClient.getC, h.killed, hpipe]
  refine ⟨⟨h.svcc, h.life, rfl⟩, ?_⟩
  have hle := hthread (SVCParser.byteChar signed b)
  simp only [WxClient.toRead, hpipe, List.length_cons]
  omega

theorem rests_processLine (h : x.Rests s) (hsome : x.stdoutThread.output ≠ []) :
    (x.processLine wx).Rests s ∧ (x.processLine wx).toRead < x.toRead := by
  obtain ⟨line, output, houtput⟩ := List.exists_cons_of_ne_nil hsome
  rw [WxClient.processLine, h.killed, houtput]
  refine ⟨⟨h.svcc, h.life, rfl⟩, ?_⟩
  simp only [WxClient.toRead, houtput, List.length_cons]
  omega

/-- While `svcc` only prints, the wx client gets to the end of what it printed. -/
theorem exists_all_read (wx : WxWidgets) (signed : Bool) (h : x.Rests s) :
    ∃ later x', svccEvents later = [] ∧
      (WxClient.machine wx signed).run (.ok x) later = .ok x' ∧ x'.Rests s ∧
        x'.printing = [] ∧ x'.pipe = [] ∧ x'.stdoutThread.output = [] := by
  have hstep : ∀ x : WxClient, x.Rests s →
      ¬ (x.printing = [] ∧ x.pipe = [] ∧ x.stdoutThread.output = []) →
      ∃ e x', svccEvents [e] = [] ∧ x.step wx signed e = .ok x' ∧ x'.Rests s ∧
        x'.toRead < x.toRead := by
    intro x h hends
    by_cases hprinting : x.printing = []
    · by_cases hpipe : x.pipe = []
      · have houtput : x.stdoutThread.output ≠ [] := fun hnone => hends ⟨hprinting, hpipe, hnone⟩
        exact ⟨.processLine, _, rfl, rfl, rests_processLine h houtput⟩
      · exact ⟨.getC, _, rfl, rfl, rests_getC h hpipe⟩
    · exact ⟨.print, _, rfl, rfl, rests_print h hprinting⟩
  obtain ⟨later, x', hlater, hrun, hrests, hread⟩ :=
    Machine.exists_run_ok_of_measure WxClient.toRead hstep h
  exact ⟨later, x', svccEvents_eq_nil hlater, hrun, hrests, hread⟩

/-- While `svcc` only prints, the wx client gets to a state that shows what it is in. -/
theorem exists_caught_up (hwx : wx.Lawful)
    (hlegible : ∀ event ∈ svccEvents events, event.Legible clean)
    (h : WxClient.after wx signed events = .ok x) (hlife : x.life = .running) :
    clientAfter (svccEvents events) = .ok x.svcc ∧
      ∃ later x' parsed queued buffer, svccEvents later = [] ∧
        WxClient.after wx signed (events ++ later) = .ok x' ∧ x'.svcc = x.svcc ∧
        x'.life = .running ∧ x'.Follows wx signed clean parsed queued buffer ∧
        x'.state.drained.Shows signed clean x.svcc ∧
        x'.window.ShowsClient signed clean true x.svcc := by
  have hkilled : x.killed = false := by
    obtain ⟨_, _, _, _, _, _, hfollows⟩ := follows_run hwx hlegible h
    refine eq_false_of_ne_true fun hkilled => ?_
    rw [hfollows.killed hkilled] at hlife
    cases hlife
  obtain ⟨later, x₁, hnone, hrun, hrests, hprinting, hpipe, houtput⟩ :=
    exists_all_read wx signed ⟨rfl, hlife, hkilled⟩
  have hevents : svccEvents (events ++ later) = svccEvents events :=
    svccEvents_append_of_nil hnone
  have hafter : WxClient.after wx signed (events ++ later) = .ok x₁ := by
    rw [WxClient.after, Machine.run_append, ← WxClient.after, h, hrun]
  obtain ⟨lines, pending, parsed, queued, buffer, hprints, hfollows⟩ :=
    follows_run hwx (hevents ▸ hlegible) hafter
  obtain rfl : parsed = lines := hfollows.eq_lines hprints hpipe houtput
  obtain rfl : pending = [] := by
    rw [hprints.printing_eq] at hprinting
    exact List.map_eq_nil_iff.1 hprinting
  obtain ⟨heard, s, -, hheard, hm, hrunning⟩ := hprints.mirrored
  obtain ⟨rfl, rfl, -⟩ := hrunning hrests.life
  rw [hrests.svcc, hevents] at hheard
  have hnow := hm.now
  rw [hrests.svcc, List.append_nil] at hnow
  have hready : x₁.ready = true :=
    ready_eq_true_iff.2 ⟨hrests.killed, by rw [hrests.life]; decide⟩
  have htimer : (x₁.timer wx).Follows wx signed clean parsed queued buffer :=
    follows_timer hwx hfollows
  refine ⟨hheard, later ++ [.timer], x₁.timer wx, parsed, queued, buffer, ?_, ?_, hrests.svcc,
    hrests.life, htimer, ?_, ?_⟩
  · rw [svccEvents_append_of_nil rfl, hnone]
  · rw [← List.append_assoc, WxClient.after, Machine.run_concat, ← WxClient.after, hafter]
    rfl
  · rw [htimer.state]
    exact hnow
  · have hdisplays := displays_timer hwx hfollows hready
    exact showsClient_of_presents hnow (hdisplays.presents _)

/-- From every state of a running `svcc` the wx client gets to show it, if `svcc` does nothing but
print what it has to say. -/
theorem catches_up (hwx : wx.Lawful) (hlegible : ∀ event ∈ svccEvents events, event.Legible clean)
    (h : WxClient.after wx signed events = .ok x) (hlife : x.life = .running) :
    clientAfter (svccEvents events) = .ok x.svcc ∧
      ∃ later x', svccEvents later = [] ∧ WxClient.after wx signed (events ++ later) = .ok x' ∧
        x'.svcc = x.svcc ∧ x'.life = .running ∧ x'.state.drained.Shows signed clean x.svcc ∧
        x'.window.ShowsClient signed clean true x.svcc := by
  obtain ⟨hafter, later, x', _, _, _, hnone, hafter', hsvcc, hlife', -, hstate, hwindow⟩ :=
    exists_caught_up hwx hlegible h hlife
  exact ⟨hafter, later, x', hnone, hafter', hsvcc, hlife', hstate, hwindow⟩

theorem catches_up_wxVisit : ∃ x, WxClient.after plainWidgets true wxVisit = .ok x ∧
    clientAfter (svccEvents wxVisit) = .ok x.svcc ∧
      ∃ later x', svccEvents later = [] ∧
        WxClient.after plainWidgets true (wxVisit ++ later) = .ok x' ∧
        x'.svcc = x.svcc ∧ x'.life = .running ∧ x'.state.drained.Shows true True x.svcc ∧
        x'.window.ShowsClient true True true x.svcc := by
  obtain ⟨x, hx, hlife⟩ := exists_after_wxVisit
  exact ⟨x, hx, catches_up lawful_plainWidgets legible_wxVisit hx hlife⟩

end Shown

end Svc.Svcenet
