import Svc.Svcenet.WxClient.Prints

/-!
# What the wx client has of what was printed

At every moment the lines that the wx client took out, those that wait, the beginning of the
next one and what is in the pipe are what `svcc` printed.
-/

namespace Svc.Svcenet

open Svc.Common Svc.Lib

open SVCParser (ofBytes ofBytes_append byteChar_eq_zero_iff byteChar_eq_wxChr_iff)

/-- The lines that the wx client took out, those that wait, and what there is of the next one -/
structure WxClient.Follows (wx : WxWidgets) (signed : Bool) (clean : Prop) (x : WxClient)
    (parsed queued : List Bytes) (buffer : Bytes) : Prop where
  stream : Records.stream (chr '\n') (parsed ++ queued) ++ buffer ++ x.pipe = x.stdout
  newline_not_mem : ∀ line ∈ parsed ++ queued, chr '\n' ∉ line
  newline_not_mem_buffer : chr '\n' ∉ buffer
  output : x.stdoutThread.output = queued.map (ofBytes signed)
  buffer_eq : x.stdoutThread.buffer = ofBytes signed buffer
  io : x.window.stdoutLines ++ x.svcOutput = parsed.map (ofBytes signed)
  killed : x.killed = true → x.life = .gone
  state : x.state.drained = (SVCState.init.readLines wx signed parsed).drained
  displays : x.ready = true → (x.window.start.handleEvents wx x.state.eventList).Displays
    (SVCState.init.readLines wx signed parsed)
  shown : x.window.firstStateChange = false → ∃ old, old <+: parsed ∧
    x.window.Presents x.ready (SVCState.init.readLines wx signed old)
  consistent : x.window.serverInfo.Consistent
  stateLog : clean → ∀ line ∈ x.state.stateLog, wxT "error: " <+: line →
    line = wxT "error: Invalid connection state" ∧ x.life ≠ .running
  logOutput : clean → ∀ text, LogLine.logError text ∈ x.window.logOutput →
    (text = wxT "Invalid connection state" ∧ x.life ≠ .running) ∨
      (text = wxT "Can't execute command, svcc not running" ∧ x.ready = false)

/-! ## Steps -/

section Follows

variable {wx : WxWidgets} {signed : Bool} {clean : Prop} {x x' : WxClient}
  {parsed queued lines pending : List Bytes} {buffer : Bytes} {events : List ClientEvent}

theorem follows_init : WxClient.init.Follows wx signed clean [] [] [] where
  stream := rfl
  newline_not_mem _ hline := absurd hline List.not_mem_nil
  newline_not_mem_buffer := List.not_mem_nil
  output := rfl
  buffer_eq := rfl
  io := rfl
  killed := nofun
  state := rfl
  displays _ := displays_init
  shown hfirst := absurd hfirst nofun
  consistent := consistent_init
  stateLog _ line hline herror := by
    have hnone : ∀ line ∈ WxClient.init.state.stateLog, ¬ wxT "error: " <+: line := by decide
    exact absurd herror (hnone line hline)
  logOutput _ _ hmem := absurd hmem List.not_mem_nil

/-- What was taken out and what waits are lines that `svcc` printed. -/
theorem WxClient.Follows.prefix_lines (h : x.Follows wx signed clean parsed queued buffer)
    (hp : x.Prints wx signed clean events lines pending) : parsed ++ queued <+: lines := by
  have hstream : Records.stream (chr '\n') (parsed ++ queued) ++ (buffer ++ x.pipe) =
      Records.stream (chr '\n') lines := by
    rw [← List.append_assoc, h.stream, hp.stdout_eq]
  exact Records.prefix_of_stream_eq h.newline_not_mem
    (fun line hline => (hp.textLine line hline).1) hstream

theorem wxCString_ofBytes {line : Bytes} (h : 0 ∉ line) :
    wxCString (ofBytes signed line) = ofBytes signed line := by
  refine List.takeWhile_eq_self_iff.2 fun c hc => decide_eq_true ?_
  obtain ⟨b, hb, rfl⟩ := List.mem_map.1 hc
  rw [ne_eq, byteChar_eq_zero_iff]
  rintro rfl
  exact h hb

theorem SVCWindow.Presents.mono {ready ready' : Bool} {w : SVCWindow} {s : SVCState}
    (h : w.Presents ready s) (hready : ready' = true → ready = true) : w.Presents ready' s where
  status := h.status.imp_right fun hgone => ⟨by
    rw [hgone.1] at hready
    exact eq_false_of_ne_true fun htrue => Bool.false_ne_true (hready htrue), hgone.2⟩
  values := h.values

theorem ready_eq_true_iff : x.ready = true ↔ x.killed = false ∧ x.life ≠ .gone := by
  simp [WxClient.ready]

/-- The steps of `svcc` -/
theorem follows_svcc (h : x.Follows wx signed clean parsed queued buffer) (svcc : ClientState)
    (printing : List Bytes) (text : Bytes) {life : SvccLife}
    (hrunning : life = .running → x.life = .running) (hgone : x.life = .gone → life = .gone) :
    { x.put text with svcc, life, printing }.Follows wx signed clean parsed queued buffer := by
  have hready : { x.put text with svcc, life, printing }.ready = true → x.ready = true := by
    rw [ready_eq_true_iff, ready_eq_true_iff]
    exact fun hready => ⟨hready.1, fun heq => hready.2 (hgone heq)⟩
  exact { h with
    stream := by
      show _ ++ (x.pipe ++ text) = x.stdout ++ text
      rw [← h.stream, List.append_assoc _ x.pipe]
    killed := fun hkilled => hgone (h.killed hkilled)
    displays := fun hr => h.displays (hready hr)
    shown := fun hfirst => by
      obtain ⟨old, hold, hpresents⟩ := h.shown hfirst
      exact ⟨old, hold, hpresents.mono hready⟩
    stateLog := fun hclean line hline herror =>
      (h.stateLog hclean line hline herror).imp_right fun hne heq => hne (hrunning heq)
    logOutput := fun hclean text htext => (h.logOutput hclean text htext).imp
      (fun hsaid => hsaid.imp_right fun hne heq => hne (hrunning heq))
      (fun hsaid => hsaid.imp_right fun hfalse => eq_false_of_ne_true fun htrue => by
        rw [hready htrue] at hfalse
        cases hfalse) }

theorem follows_handle (h : x.Follows wx signed clean parsed queued buffer) {event : ClientEvent}
    (hstep : x.handle event = .ok x') : x'.Follows wx signed clean parsed queued buffer := by
  unfold WxClient.handle at hstep
  split at hstep
  · obtain ⟨svcc, -, hnext⟩ := bind_eq_ok.1 hstep
    cases hnext
    exact follows_svcc h svcc _ x.printing.flatten id id
  · cases hstep
    exact h
  · cases hstep
    exact h

theorem follows_print (h : x.Follows wx signed clean parsed queued buffer) :
    x.print.Follows wx signed clean parsed queued buffer := by
  unfold WxClient.print
  split
  · exact h
  · exact follows_svcc h x.svcc _ _ id id

theorem follows_notice (h : x.Follows wx signed clean parsed queued buffer) (notice : Notice) :
    (x.notice notice).Follows wx signed clean parsed queued buffer := by
  unfold WxClient.notice
  split
  · exact follows_svcc h x.svcc x.printing _ id id
  · exact follows_svcc h x.svcc x.printing _ id id
  · exact h

theorem follows_exit (h : x.Follows wx signed clean parsed queued buffer) :
    x.exit.Follows wx signed clean parsed queued buffer := by
  unfold WxClient.exit
  split
  · rename_i hlife
    exact follows_svcc h x.svcc _ x.printing.flatten nofun fun heq => by
      rw [hlife] at heq
      cases heq
  · exact h
  · exact h

theorem follows_die (h : x.Follows wx signed clean parsed queued buffer) :
    x.die.Follows wx signed clean parsed queued buffer := by
  unfold WxClient.die
  split
  · exact follows_svcc h x.svcc _ x.printing.flatten nofun fun _ => rfl
  · exact h
  · exact h

/-- A character goes behind the unfinished line, or ends it. -/
theorem follows_getC (h : x.Follows wx signed clean parsed queued buffer)
    (hp : x.Prints wx signed clean events lines pending) :
    ∃ queued' buffer', (x.getC signed).Follows wx signed clean parsed queued' buffer' := by
  unfold WxClient.getC SVCReaderThread.entry
  split
  · rename_i b pipe _ hpipe
    have hstream := h.stream
    rw [hpipe] at hstream
    split_ifs with hchar
    · obtain rfl : b = chr '\n' := (byteChar_eq_wxChr_iff (by decide)).1 hchar
      have hmem : ∀ line ∈ parsed ++ (queued ++ [buffer]), chr '\n' ∉ line := by
        intro line hline
        rw [← List.append_assoc, List.mem_append, List.mem_singleton] at hline
        rcases hline with hline | rfl
        · exact h.newline_not_mem line hline
        · exact h.newline_not_mem_buffer
      have hstream' : Records.stream (chr '\n') (parsed ++ (queued ++ [buffer])) ++ pipe =
          x.stdout := by
        rw [← hstream]
        simp [Records.stream]
      have hlines : parsed ++ (queued ++ [buffer]) <+: lines :=
        Records.prefix_of_stream_eq hmem (fun line hline => (hp.textLine line hline).1)
          (hstream'.trans hp.stdout_eq)
      have htext : TextLine buffer := hp.textLine buffer (hlines.subset (by simp))
      refine ⟨queued ++ [buffer], [], { h with
        stream := by rw [List.append_nil]; exact hstream'
        newline_not_mem := hmem
        newline_not_mem_buffer := List.not_mem_nil
        output := ?_
        buffer_eq := rfl }⟩
      rw [h.output, h.buffer_eq, wxCString_ofBytes htext.2, List.map_append]
      rfl
    · refine ⟨queued, buffer ++ [b], { h with
        stream := ?_
        newline_not_mem_buffer := ?_
        buffer_eq := ?_ }⟩
      · rw [← hstream, List.append_assoc, List.append_assoc]
        simp
      · rw [List.mem_append, List.mem_singleton, not_or]
        refine ⟨h.newline_not_mem_buffer, fun heq => hchar ?_⟩
        exact (byteChar_eq_wxChr_iff (by decide)).2 heq.symm
      · rw [h.buffer_eq, ofBytes_append]
        rfl
  · exact ⟨queued, buffer, h⟩
  · exact ⟨queued, buffer, h⟩

theorem info_nil_of_shows {w : SVCState} {s : ClientState} (h : w.drained.Shows signed clean s) :
    w.connectionState ≠ .connected → w.serverInfo = [] := by
  intro hdown
  refine h.info_nil fun hup => hdown ?_
  have hcon : w.connectionState = _ := h.connection
  rw [hcon, hup]
  rfl

/-- A line that is taken out changes the state as it would be read at once. -/
theorem follows_processLine (h : x.Follows wx signed clean parsed queued buffer)
    (hp : x.Prints wx signed clean events lines pending) :
    ∃ parsed' queued', (x.processLine wx).Follows wx signed clean parsed' queued' buffer := by
  unfold WxClient.processLine
  split
  · rename_i line' output _ hline'
    obtain ⟨line, queued', rfl, rfl, rfl⟩ : ∃ line queued', queued = line :: queued' ∧
        ofBytes signed line = line' ∧ queued'.map (ofBytes signed) = output :=
      List.map_eq_cons_iff.1 (h.output.symm.trans hline')
    have hsplit : parsed ++ line :: queued' = (parsed ++ [line]) ++ queued' := by simp
    obtain ⟨heard, s, -, -, hm, -⟩ := hp.mirrored
    have hpre : parsed ++ [line] <+: lines ++ pending := by
      have hlines := (h.prefix_lines hp).trans (List.prefix_append lines pending)
      rw [hsplit] at hlines
      exact (List.prefix_append _ _).trans hlines
    obtain ⟨-, -, s', -, hshows⟩ := hm.past parsed ((List.prefix_append _ _).trans hpre)
    have hsteady := hm.steady parsed line hpre
    obtain ⟨u, hu, hupdate⟩ :=
      updates_readLine (s := SVCState.init.readLines wx signed parsed) wx signed line
    have hcore : SVCState.init.readLines wx signed (parsed ++ [line]) =
        (SVCState.init.readLines wx signed parsed).update u := by
      rw [readLines_append]
      exact hupdate _ rfl
    have hstate : x.state.parseCommand wx (ofBytes signed line) = x.state.update u :=
      hupdate _ h.state
    rw [hstate]
    refine ⟨parsed ++ [line], queued', { h with
      stream := by rw [← hsplit]; exact h.stream
      newline_not_mem := by rw [← hsplit]; exact h.newline_not_mem
      output := rfl
      io := ?_
      state := ?_
      displays := fun hready => ?_
      shown := fun hfirst => ?_
      stateLog := ?_ }⟩
    · rw [← List.append_assoc, h.io, List.map_append]
      rfl
    · rw [hcore]
      exact drained_update h.state u
    · rw [hcore] at hsteady ⊢
      rw [eventList_update, handleEvents_append]
      exact displays_update (h.displays hready) hu (info_nil_of_shows hshows) hsteady
    · obtain ⟨old, hold, hpresents⟩ := h.shown hfirst
      exact ⟨old, hold.trans (List.prefix_append _ _), hpresents⟩
    · intro hclean text htext herror
      rw [stateLog_update, List.mem_append] at htext
      rcases htext with htext | htext
      · exact h.stateLog hclean text htext herror
      · refine hm.log hclean (parsed ++ [line]) hpre text ?_
        rw [hcore, stateLog_update]
        exact List.mem_append_right _ htext
  · exact ⟨parsed, queued, h⟩
  · exact ⟨parsed, queued, h⟩

theorem follows_kill (h : x.Follows wx signed clean parsed queued buffer) :
    x.kill.Follows wx signed clean parsed queued buffer := by
  unfold WxClient.kill
  split_ifs with hlife
  · have hready : { x with killed := true }.ready = false := rfl
    exact { h with
      killed := fun _ => hlife
      displays := nofun
      shown := fun hfirst => by
        obtain ⟨old, hold, hpresents⟩ := h.shown hfirst
        exact ⟨old, hold, hpresents.mono fun htrue => absurd htrue (ne_true_of_eq_false hready)⟩
      logOutput := fun hclean text htext =>
        (h.logOutput hclean text htext).imp_right fun hsaid => ⟨hsaid.1, hready⟩ }
  · exact h

theorem displays_timer (hwx : wx.Lawful) (h : x.Follows wx signed clean parsed queued buffer)
    (hready : x.ready = true) :
    (x.timer wx).window.Displays (SVCState.init.readLines wx signed parsed) := by
  obtain ⟨window, heq, hrefreshes⟩ : ∃ window,
      x.window.onIOTimer wx true x.svcOutput x.state = (window, x.state.drained) ∧ _ :=
    onIOTimer_eq hwx x.window x.svcOutput x.state
  rw [WxClient.timer, hready, heq]
  exact (h.displays hready).congr hrefreshes.alike

theorem stdoutLines_of_writes {w w' : SVCWindow} {svcOutput : WxArrayString} {state : SVCState}
    (h : w.Writes svcOutput state w') : w'.stdoutLines = w.stdoutLines ++ svcOutput := by
  rw [SVCWindow.stdoutLines, h.ioOutput, List.filterMap_append, List.filterMap_map]
  exact congrArg (w.stdoutLines ++ ·) (List.filterMap_some)

theorem follows_timer (hwx : wx.Lawful) (h : x.Follows wx signed clean parsed queued buffer) :
    (x.timer wx).Follows wx signed clean parsed queued buffer := by
  have hlog : ∀ {window : SVCWindow}, x.window.Writes x.svcOutput x.state window → clean →
      ∀ text, .logError text ∈ window.logOutput →
        (text = wxT "Invalid connection state" ∧ x.life ≠ .running) ∨
          (text = wxT "Can't execute command, svcc not running" ∧ x.ready = false) := by
    intro window hwrites hclean text htext
    rcases hwrites.logError text htext with htext | htext
    · exact h.logOutput hclean text htext
    · obtain ⟨heq, hlife⟩ := h.stateLog hclean _ htext (List.prefix_append _ _)
      exact .inl ⟨(List.append_right_inj (wxT "error: ")).1 heq, hlife⟩
  cases hready : x.ready with
  | true =>
      have hdisplays := displays_timer hwx h hready
      obtain ⟨window, heq, hrefreshes⟩ : ∃ window,
          x.window.onIOTimer wx true x.svcOutput x.state = (window, x.state.drained) ∧ _ :=
        onIOTimer_eq hwx x.window x.svcOutput x.state
      rw [WxClient.timer, hready, heq] at hdisplays ⊢
      exact { h with
        io := by
          rw [List.append_nil, stdoutLines_of_writes hrefreshes.toWrites, h.io]
        state := h.state
        displays := fun _ => by
          rw [hrefreshes.start]
          exact hdisplays
        shown := fun _ => ⟨parsed, List.prefix_refl _, hdisplays.presents _⟩
        consistent := hrefreshes.consistent h.consistent
        stateLog := fun _ _ hnone => absurd hnone List.not_mem_nil
        logOutput := hlog hrefreshes.toWrites }
  | false =>
      obtain ⟨window, heq, hwrites, hinfo, hfirst, hstatus⟩ : ∃ window,
          x.window.onIOTimer wx false x.svcOutput x.state = (window, x.state.drained) ∧ _ :=
        onIOTimer_gone x.window x.svcOutput x.state
      rw [WxClient.timer, hready, heq]
      exact { h with
        io := by rw [List.append_nil, stdoutLines_of_writes hwrites, h.io]
        state := h.state
        displays := fun hready' => by
          have hready' : x.ready = true := hready'
          rw [hready] at hready'
          cases hready'
        shown := fun hstarted => by
          obtain ⟨old, hold, hpresents⟩ := h.shown (hfirst.symm.trans hstarted)
          refine ⟨old, hold, .inr ⟨hready, hstatus⟩, ?_⟩
          rw [hinfo]
          exact hpresents.values
        consistent := by
          rw [hinfo]
          exact h.consistent
        stateLog := fun _ _ hnone => absurd hnone List.not_mem_nil
        logOutput := hlog hwrites }

/-- A command and a selection change nothing that is shown. -/
theorem follows_window (h : x.Follows wx signed clean parsed queued buffer) {window : SVCWindow}
    (halike : x.window.Alike window) (hconsistent : window.serverInfo.Consistent)
    (hio : window.stdoutLines = x.window.stdoutLines)
    (hlog : ∀ text, .logError text ∈ window.logOutput → .logError text ∈ x.window.logOutput ∨
      text = wxT "Can't execute command, svcc not running" ∧ x.ready = false) :
    { x with window }.Follows wx signed clean parsed queued buffer :=
  { h with
    io := by rw [hio]; exact h.io
    displays := fun hready => (h.displays hready).congr (alike_handleEvents (alike_start halike) _)
    shown := fun hfirst => by
      obtain ⟨old, hold, hpresents⟩ := h.shown (halike.first.symm.trans hfirst)
      refine ⟨old, hold, ?_, halike.values.trans hpresents.values⟩
      rw [halike.status]
      exact hpresents.status
    consistent := hconsistent
    logOutput := fun hclean text htext =>
      (hlog text htext).elim (h.logOutput hclean text) .inr }

theorem follows_command (h : x.Follows wx signed clean parsed queued buffer) (text : WxString) :
    (x.command text).Follows wx signed clean parsed queued buffer := by
  unfold WxClient.command SVCWindow.onCommand
  split_ifs with hready
  · refine follows_window h ⟨rfl, rfl, rfl, rfl, rfl, rfl, rfl⟩ h.consistent ?_ fun said hsaid => ?_
    · show (x.window.ioOutput ++ [IoLine.stdin text]).filterMap _ = _
      rw [List.filterMap_append]
      exact List.append_nil _
    · rcases List.mem_append.1 hsaid with hsaid | hsaid
      · exact .inl hsaid
      · cases List.mem_singleton.1 hsaid
  · refine follows_window h ⟨rfl, rfl, rfl, rfl, rfl, rfl, rfl⟩ h.consistent rfl
      fun said hsaid => ?_
    rcases List.mem_append.1 hsaid with hsaid | hsaid
    · exact .inl hsaid
    · exact .inr ⟨LogLine.logError.inj (List.mem_singleton.1 hsaid), eq_false_of_ne_true hready⟩

theorem follows_select (h : x.Follows wx signed clean parsed queued buffer)
    (item : Option Nat) : (x.select item).Follows wx signed clean parsed queued buffer :=
  follows_window h
    ⟨rfl, rfl, rfl, rfl, rfl, rfl, values_onItemSelect h.consistent item⟩
    (consistent_onItemSelect h.consistent item) rfl fun _ hsaid => .inl hsaid

end Follows

/-! ## Runs -/

section Runs

variable {wx : WxWidgets} {signed : Bool} {clean : Prop} {x x' : WxClient}
  {parsed queued lines pending : List Bytes} {buffer : Bytes} {events : List WxEvent}

theorem follows_step (hwx : wx.Lawful) (h : x.Follows wx signed clean parsed queued buffer)
    (hp : x.Prints wx signed clean (svccEvents events) lines pending) {e : WxEvent}
    (hstep : x.step wx signed e = .ok x') :
    ∃ parsed queued buffer, x'.Follows wx signed clean parsed queued buffer := by
  cases e with
  | svcc event => exact ⟨_, _, _, follows_handle h hstep⟩
  | print =>
      cases hstep
      exact ⟨_, _, _, follows_print h⟩
  | notice notice =>
      cases hstep
      exact ⟨_, _, _, follows_notice h notice⟩
  | exit =>
      cases hstep
      exact ⟨_, _, _, follows_exit h⟩
  | gone =>
      cases hstep
      exact ⟨_, _, _, follows_die h⟩
  | getC =>
      cases hstep
      obtain ⟨queued', buffer', h'⟩ := follows_getC h hp
      exact ⟨parsed, queued', buffer', h'⟩
  | processLine =>
      cases hstep
      obtain ⟨parsed', queued', h'⟩ := follows_processLine h hp
      exact ⟨parsed', queued', buffer, h'⟩
  | kill =>
      cases hstep
      exact ⟨_, _, _, follows_kill h⟩
  | timer =>
      cases hstep
      exact ⟨_, _, _, follows_timer hwx h⟩
  | command text =>
      cases hstep
      exact ⟨_, _, _, follows_command h text⟩
  | select item =>
      cases hstep
      exact ⟨_, _, _, follows_select h item⟩

/-- What was printed and what the wx client has of it, at every moment of every run -/
theorem follows_run (hwx : wx.Lawful)
    (hlegible : ∀ event ∈ svccEvents events, event.Legible clean)
    (h : WxClient.after wx signed events = .ok x) :
    ∃ lines pending parsed queued buffer,
      x.Prints wx signed clean (svccEvents events) lines pending ∧
        x.Follows wx signed clean parsed queued buffer := by
  induction events using List.reverseRecOn generalizing x with
  | nil =>
      cases h
      exact ⟨[], [], [], [], [], prints_init, follows_init⟩
  | append_singleton events e ih =>
      rw [WxClient.after, Machine.run_concat] at h
      obtain ⟨x₀, hbefore, hstep⟩ : ∃ x₀, WxClient.after wx signed events = .ok x₀ ∧
          x₀.step wx signed e = .ok x := bind_eq_ok.1 h
      rw [svccEvents_append] at hlegible
      obtain ⟨lines, pending, parsed, queued, buffer, hprints, hfollows⟩ :=
        ih (fun event hevent => hlegible event (List.mem_append_left _ hevent)) hbefore
      obtain ⟨lines', pending', hprints'⟩ := prints_step hwx hprints
        (fun event hevent => hlegible event (List.mem_append_right _ hevent)) hstep
      obtain ⟨parsed', queued', buffer', hfollows'⟩ := follows_step hwx hfollows hprints hstep
      exact ⟨lines', pending', parsed', queued', buffer', hprints', hfollows'⟩

end Runs

end Svc.Svcenet
