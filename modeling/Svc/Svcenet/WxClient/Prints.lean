import Svc.Lib.Records
import Svc.Svcenet.WxClient

/-!
# What `svcc` printed

Between the answers of the main thread stand the lines of `libsvc`.  They say nothing that the
wx client would keep, so what was printed at any moment tells a state that `svcc` was in.
-/

namespace Svc.Svcenet

open Svc.Common Svc.Lib

/-- The lines that `svcc` printed, and those that it is about to -/
structure WxClient.Prints (wx : WxWidgets) (signed : Bool) (clean : Prop)
    (events : List ClientEvent) (x : WxClient) (lines pending : List Bytes) : Prop where
  stdout_eq : x.stdout = Records.stream (chr '\n') lines
  printing_eq : x.printing = pending.map (· ++ [chr '\n'])
  mirrored : ∃ heard s, heard <+: events ∧ clientAfter heard = .ok s ∧
    Mirrored wx signed clean (x.life ≠ .running) heard s (lines ++ pending) ∧
    (x.life = .running → heard = events ∧ s = x.svcc ∧ s.Addressed)

structure WxClient.SameSvcc (x x' : WxClient) : Prop where
  svcc : x'.svcc = x.svcc
  life : x'.life = x.life
  printing : x'.printing = x.printing
  stdout : x'.stdout = x.stdout

def WxEvent.isWx : WxEvent → Bool
  | .getC | .processLine | .kill | .timer | .command _ | .select _ => true
  | .svcc _ | .print | .notice _ | .exit | .gone => false

section Lines

variable {wx : WxWidgets} {signed : Bool} {ended : Prop} {w : SVCState}

theorem still_notice (notice : Notice) : Still wx signed ended (cstr notice.text) := by
  have hread : ∀ w : SVCState, w.readLine wx signed (cstr notice.text) = w := by
    intro w
    cases notice with
    | emptiedByPop | popedUseless | oldPacket | emptiedByGet | starving | noAudio | portaudioInit
    | portaudioClose | portaudioDone | sigint =>
        exact readLine_ignored rfl (by cases signed <;> decide) (by decide)
  refine ⟨by cases notice <;> decide, fun w => congrArg SVCState.drained (hread w), ?_⟩
  intro w text htext
  rw [hread] at htext
  exact absurd htext List.not_mem_nil

theorem still_exiting (hended : ended) : Still wx signed ended (cstr ":STATE exiting") := by
  refine ⟨by decide, fun w => ?_, fun w text htext => ?_⟩
  · rw [readLine_exiting]
    rfl
  · rw [readLine_exiting] at htext
    exact ⟨List.mem_singleton.1 htext, hended⟩

end Lines

/-! ## What is printed -/

section Prints

variable {wx : WxWidgets} {signed : Bool} {clean : Prop} {x x' : WxClient}
  {lines pending : List Bytes} {events : List ClientEvent}

theorem prints_init : WxClient.init.Prints wx signed clean [] [] [] where
  stdout_eq := rfl
  printing_eq := rfl
  mirrored := ⟨[], .init, List.prefix_refl _, rfl, mirrored_init,
    fun _ => ⟨rfl, rfl, addressed_init⟩⟩

theorem WxClient.Prints.textLine (h : x.Prints wx signed clean events lines pending) :
    ∀ line ∈ lines, TextLine line := by
  obtain ⟨heard, s, -, -, hm, -⟩ := h.mirrored
  exact fun line hline => hm.textLine line (List.mem_append_left _ hline)

theorem WxClient.Prints.congr (h : x.Prints wx signed clean events lines pending)
    (hsame : x.SameSvcc x') : x'.Prints wx signed clean events lines pending where
  stdout_eq := hsame.stdout.trans h.stdout_eq
  printing_eq := hsame.printing.trans h.printing_eq
  mirrored := by
    rw [hsame.svcc, hsame.life]
    exact h.mirrored

theorem prints_flush (h : x.Prints wx signed clean events lines pending) :
    x.flush.Prints wx signed clean events (lines ++ pending) [] where
  stdout_eq := by
    rw [Records.stream_append, ← h.stdout_eq, Records.stream, ← h.printing_eq]
    rfl
  printing_eq := rfl
  mirrored := by
    rw [List.append_nil]
    exact h.mirrored

theorem prints_print (h : x.Prints wx signed clean events lines pending) :
    ∃ lines' pending', x.print.Prints wx signed clean events lines' pending' := by
  unfold WxClient.print
  cases pending with
  | nil =>
      have hnone : x.printing = [] := h.printing_eq
      rw [hnone]
      exact ⟨lines, [], h⟩
  | cons line pending =>
      have hsome : x.printing = (line ++ [chr '\n']) :: pending.map (· ++ [chr '\n']) :=
        h.printing_eq
      rw [hsome]
      refine ⟨lines ++ [line], pending, ?_, rfl, ?_⟩
      · rw [Records.stream_append, ← h.stdout_eq]
        exact congrArg (x.stdout ++ ·) (List.append_nil _).symm
      · rw [List.append_assoc]
        exact h.mirrored

theorem prints_notice (h : x.Prints wx signed clean events lines pending) (notice : Notice) :
    ∃ lines', (x.notice notice).Prints wx signed clean events lines' pending := by
  have hput : (x.put (cstr notice.text ++ cstr "\n")).Prints wx signed clean events
      (lines ++ [cstr notice.text]) pending := by
    refine ⟨?_, h.printing_eq, ?_⟩
    · rw [Records.stream_append, ← h.stdout_eq]
      exact congrArg (x.stdout ++ ·) (List.append_nil _).symm
    · obtain ⟨heard, s, hheard, hafter, hm, hrun⟩ := h.mirrored
      refine ⟨heard, s, hheard, hafter, ?_, hrun⟩
      rw [List.append_assoc]
      exact hm.insert (still_notice notice)
  unfold WxClient.notice
  cases x.life with
  | running | exiting => exact ⟨_, hput⟩
  | gone => exact ⟨lines, h⟩

theorem prints_exit (h : x.Prints wx signed clean events lines pending) :
    ∃ lines' pending', x.exit.Prints wx signed clean events lines' pending' := by
  unfold WxClient.exit
  split
  · refine ⟨lines ++ pending, [cstr ":STATE exiting"], (prints_flush h).stdout_eq, rfl, ?_⟩
    obtain ⟨heard, s, hheard, hafter, hm, -⟩ := h.mirrored
    rw [← List.append_nil (lines ++ pending)] at hm
    refine ⟨heard, s, hheard, hafter, ?_, nofun⟩
    exact (hm.mono fun _ => nofun).insert (still_exiting nofun)
  · exact ⟨lines, pending, h⟩
  · exact ⟨lines, pending, h⟩

theorem prints_die (h : x.Prints wx signed clean events lines pending) :
    ∃ lines' pending', x.die.Prints wx signed clean events lines' pending' := by
  unfold WxClient.die
  split
  · refine ⟨lines ++ pending, [], (prints_flush h).stdout_eq, rfl, ?_⟩
    obtain ⟨heard, s, hheard, hafter, hm, -⟩ := (prints_flush h).mirrored
    exact ⟨heard, s, hheard, hafter, hm.mono fun _ => nofun, nofun⟩
  · exact ⟨lines, pending, h⟩
  · exact ⟨lines, pending, h⟩

/-- What is printed of an event tells what it did. -/
theorem prints_handle (hwx : wx.Lawful) (h : x.Prints wx signed clean events lines pending)
    {event : ClientEvent} (hlegible : event.Legible clean) (hstep : x.handle event = .ok x') :
    ∃ lines' pending', x'.Prints wx signed clean (events ++ [event]) lines' pending' := by
  obtain ⟨heard, s, hheard, hafter, hm, hrun⟩ := h.mirrored
  have hmore : events <+: events ++ [event] := List.prefix_append _ _
  unfold WxClient.handle at hstep
  cases hlife : x.life with
  | running =>
      rw [hlife] at hstep hm
      obtain ⟨svcc, hevent, hnext⟩ := bind_eq_ok.1 hstep
      cases hnext
      obtain ⟨rfl, rfl, haddr⟩ := hrun hlife
      obtain ⟨haddr', printed, hann⟩ : Reports wx signed clean x.svcc svcc :=
        reports_event hwx haddr hlegible hevent
      have hafter' : clientAfter (heard ++ [event]) = .ok svcc := by
        rw [clientAfter, Machine.run_concat, ← clientAfter, hafter]
        exact hevent
      refine ⟨lines ++ pending, printed, (prints_flush h).stdout_eq, ?_, ?_⟩
      · rw [hann.stdout_eq]
        exact List.drop_left
      · refine ⟨heard ++ [event], svcc, List.prefix_refl _, hafter', ?_,
          fun _ => ⟨rfl, rfl, haddr'⟩⟩
        exact (hm.append hann hafter hafter').mono fun hended => absurd rfl hended
  | exiting | gone =>
      rw [hlife] at hstep
      cases hstep
      refine ⟨lines, pending, h.stdout_eq, h.printing_eq, heard, s, hheard.trans hmore, hafter, hm,
        fun hrunning => ?_⟩
      rw [hlife] at hrunning
      cases hrunning

/-- The steps of the wx client do not fail, and `svcc` does not notice them. -/
theorem step_of_isWx (wx : WxWidgets) (signed : Bool) (x : WxClient) {e : WxEvent}
    (he : e.isWx = true) : ∃ x', x.step wx signed e = .ok x' ∧ x.SameSvcc x' := by
  cases e with
  | svcc | print | notice | exit | gone => cases he
  | getC =>
      refine ⟨_, rfl, ?_⟩
      unfold WxClient.getC
      split <;> exact ⟨rfl, rfl, rfl, rfl⟩
  | processLine =>
      refine ⟨_, rfl, ?_⟩
      unfold WxClient.processLine
      split <;> exact ⟨rfl, rfl, rfl, rfl⟩
  | kill =>
      refine ⟨_, rfl, ?_⟩
      unfold WxClient.kill
      split_ifs <;> exact ⟨rfl, rfl, rfl, rfl⟩
  | timer | command | select => exact ⟨_, rfl, rfl, rfl, rfl, rfl⟩

end Prints

/-! ## Runs -/

section Runs

variable {wx : WxWidgets} {signed : Bool} {clean : Prop} {x x' : WxClient} {events : List WxEvent}
  {lines pending : List Bytes} {e : WxEvent}

theorem svccEvents_append (events later : List WxEvent) :
    svccEvents (events ++ later) = svccEvents events ++ svccEvents later := List.flatMap_append

theorem svccEvents_append_of_nil {later : List WxEvent} (h : svccEvents later = []) :
    svccEvents (events ++ later) = svccEvents events := by
  rw [svccEvents_append, h, List.append_nil]

theorem svccEvents_eq_nil (h : ∀ e ∈ events, svccEvents [e] = []) : svccEvents events = [] := by
  induction events with
  | nil => rfl
  | cons e events ih =>
      obtain ⟨he, hrest⟩ := List.forall_mem_cons.1 h
      rw [← List.singleton_append, svccEvents_append_of_nil (ih hrest), he]

theorem svccEvents_of_isWx (h : ∀ e ∈ events, e.isWx = true) : svccEvents events = [] := by
  refine svccEvents_eq_nil fun e he => ?_
  have hwx := h e he
  cases e with
  | svcc => cases hwx
  | print | notice | exit | gone | getC | processLine | kill | timer | command | select => rfl

theorem prints_step (hwx : wx.Lawful)
    (h : x.Prints wx signed clean (svccEvents events) lines pending)
    (hlegible : ∀ event ∈ svccEvents [e], event.Legible clean)
    (hstep : x.step wx signed e = .ok x') :
    ∃ lines' pending', x'.Prints wx signed clean (svccEvents (events ++ [e])) lines' pending' := by
  by_cases he : e.isWx = true
  · obtain ⟨x'', hstep', hsame⟩ := step_of_isWx wx signed x he
    cases hstep.symm.trans hstep'
    rw [svccEvents_append_of_nil (svccEvents_of_isWx (List.forall_mem_singleton.2 he))]
    exact ⟨lines, pending, h.congr hsame⟩
  cases e with
  | svcc event =>
      rw [svccEvents_append]
      exact prints_handle hwx h (hlegible event List.mem_cons_self) hstep
  | print =>
      cases hstep
      rw [svccEvents_append_of_nil rfl]
      exact prints_print h
  | notice notice =>
      cases hstep
      rw [svccEvents_append_of_nil rfl]
      obtain ⟨lines', h'⟩ := prints_notice h notice
      exact ⟨lines', pending, h'⟩
  | exit =>
      cases hstep
      rw [svccEvents_append_of_nil rfl]
      exact prints_exit h
  | gone =>
      cases hstep
      rw [svccEvents_append_of_nil rfl]
      exact prints_die h
  | getC | processLine | kill | timer | command | select => exact absurd rfl he

/-- A step fails only where `svcc` would alone. -/
theorem exists_step (wx : WxWidgets) (signed : Bool) {s s' : ClientState}
    (hsvcc : x.life = .running → x.svcc = s)
    (h : clientMachine.run (.ok s) (svccEvents [e]) = .ok s') :
    ∃ x', x.step wx signed e = .ok x' ∧ (x'.life = .running → x'.svcc = s') ∧
      (e ≠ .exit → x.life = .running → x'.life = .running) := by
  by_cases he : e.isWx = true
  · obtain ⟨x', hstep, hsame⟩ := step_of_isWx wx signed x he
    rw [svccEvents_of_isWx (List.forall_mem_singleton.2 he)] at h
    cases h
    exact ⟨x', hstep, fun hlife => hsame.svcc.trans (hsvcc (hsame.life.symm.trans hlife)),
      fun _ hlife => hsame.life.trans hlife⟩
  cases e with
  | svcc event =>
      have hevent : handleClientEvent s event = .ok s' := h
      show ∃ x', x.handle event = .ok x' ∧ _
      unfold WxClient.handle
      cases hlife : x.life with
      | running =>
          dsimp only
          rw [hsvcc hlife, hevent]
          exact ⟨_, rfl, fun _ => rfl, fun _ _ => hlife⟩
      | exiting | gone =>
          refine ⟨x, rfl, fun hrunning => ?_, fun _ => nofun⟩
          rw [hlife] at hrunning
          cases hrunning
  | print =>
      cases h
      refine ⟨_, rfl, ?_⟩
      unfold WxClient.print
      split <;> exact ⟨hsvcc, fun _ => id⟩
  | notice notice =>
      cases h
      refine ⟨_, rfl, ?_⟩
      unfold WxClient.notice
      split <;> exact ⟨hsvcc, fun _ => id⟩
  | exit =>
      cases h
      refine ⟨_, rfl, ?_, fun hne => absurd rfl hne⟩
      unfold WxClient.exit
      split
      · exact nofun
      · exact hsvcc
      · exact hsvcc
  | gone =>
      cases h
      refine ⟨_, rfl, ?_⟩
      unfold WxClient.die
      split
      · rename_i hlife
        exact ⟨nofun, fun _ hrunning => by rw [hlife] at hrunning; cases hrunning⟩
      · exact ⟨hsvcc, fun _ => id⟩
      · exact ⟨hsvcc, fun _ => id⟩
  | getC | processLine | kill | timer | command | select => exact absurd rfl he

/-- The two programs go on as long as `svcc` would alone. -/
theorem exists_after (wx : WxWidgets) (signed : Bool) {events : List WxEvent} {s : ClientState}
    (h : clientAfter (svccEvents events) = .ok s) :
    ∃ x, WxClient.after wx signed events = .ok x ∧ (x.life = .running → x.svcc = s) ∧
      (.exit ∉ events → x.life = .running) := by
  induction events using List.reverseRecOn generalizing s with
  | nil =>
      cases h
      exact ⟨.init, rfl, fun _ => rfl, fun _ => rfl⟩
  | append_singleton events e ih =>
      rw [svccEvents_append] at h
      obtain ⟨s₀, hbefore, hlast⟩ := Machine.exists_of_run_append h
      obtain ⟨x, hafter, hsvcc, hlife⟩ := ih hbefore
      obtain ⟨x', hstep, hsvcc', hlife'⟩ := exists_step wx signed hsvcc hlast
      refine ⟨x', ?_, hsvcc', fun hnone => ?_⟩
      · rw [WxClient.after, Machine.run_concat, ← WxClient.after, hafter]
        exact hstep
      · rw [List.mem_append, not_or, List.mem_singleton] at hnone
        exact hlife' (Ne.symm hnone.2) (hlife hnone.1)

end Runs

end Svc.Svcenet
