import Svc.Svcenet.Audio.Relay
import Svc.Svcenet.Server.Script.Runs

/-!
# Who hears whom

A packet of a peer that is not muted goes to the other peers of its channel that are not
deafened, and changes nothing of theirs.  The script compares channels by `==`, which takes
names that are numbers for the numbers: two names of one number are one channel.
-/

namespace Svc.Svcenet

open Svc.Common Svc.Lib RaiseM

def sentTo (q : Nat) (sends : List AudioSend) : List AudioSend :=
  sends.filter fun send => send.1 = q

namespace Occupant

variable (o : Occupant)

def channel : Bytes := ddGet o.pubData channelKey

def isMuted : Prop := ddGet o.pubData mutedKey = cstr "1"

def isDeaf : Prop := ddGet o.pubData deafenKey = cstr "1"

instance : Decidable o.isMuted := inferInstanceAs (Decidable (_ = _))

instance : Decidable o.isDeaf := inferInstanceAs (Decidable (_ = _))

end Occupant

def Server.Flagged (s : Server) : Prop :=
  ∀ p o, s.occupantAt p = some o →
    IsFlag (ddGet o.pubData mutedKey) ∧ IsFlag (ddGet o.pubData deafenKey)

/-- The packet that slot `p` sent reaches those who should hear it, and nobody else. -/
structure RoutesRight (s : Server) (p : Nat) (o : Occupant) (packet : ENetPacket)
    (result : Server × List AudioSend) : Prop where
  muted : o.isMuted → result.2 = []
  passed : ¬ o.isMuted → ∀ q, sentTo q result.2 =
    match s.occupantAt q with
    | some o' =>
        if q ≠ p ∧ o'.channel = o.channel ∧ ¬ o'.isDeaf then [(q, o'.peer, packet)] else []
    | none => []
  others : ∀ q, q ≠ p → result.1.occupantAt q = s.occupantAt q

/-- Where both strings are numbers, `==` tells them apart as strings. -/
def JimExpr.Distinguishes (E : JimExpr) (a b : Bytes) : Prop :=
  ∀ x y, E.number a = some x → E.number b = some y → (E.numbersEqual x y = true ↔ a = b)

/-! ## The loop of `on_audio_packet` -/

def passedTo (s : Server) (p : Nat) (packet : ENetPacket) (q : Nat) : List AudioSend :=
  match s.occupantAt q with
  | some o => if q ≠ p ∧ ¬ o.isDeaf then [(q, o.peer, packet)] else []
  | none => []

section Loop

variable {E : JimExpr} {W : Nat → Prop} {s : Server} {p q : Nat} {o : Occupant}
  {packet : ENetPacket}

theorem JimExpr.distinguishes_iff (a b : Bytes) :
    E.Distinguishes a b ↔ (E.equal a b = true ↔ a = b) := by
  rw [JimExpr.Distinguishes, JimExpr.equal]
  cases E.number a with
  | none => simp
  | some x =>
      cases E.number b with
      | none => simp
      | some y => simp

theorem ite_singleton_eq_iff {β : Type} (b : β) (c d : Prop) [Decidable c] [Decidable d] :
    (if c then [b] else []) = (if d then [b] else []) ↔ (c ↔ d) := by
  by_cases hc : c
  · by_cases hd : d <;> simp [hc, hd]
  · by_cases hd : d <;> simp [hc, hd]

/-- A loop body that does something for one element only -/
theorem flatMap_of_nodup {β : Type} {l : List Nat} (hl : l.Nodup) {f : Nat → List β}
    (hf : ∀ r, r ≠ q → f r = []) : l.flatMap f = if q ∈ l then f q else [] := by
  induction l with
  | nil => rfl
  | cons r l ih =>
      obtain ⟨hnotin, hl⟩ := List.nodup_cons.1 hl
      rw [List.flatMap_cons, ih hl]
      by_cases hr : r = q
      · subst hr
        simp [hnotin]
      · simp [hf r hr, Ne.symm hr]

theorem sentTo_passedTo (r : Nat) :
    sentTo q (passedTo s p packet r) = if r = q then passedTo s p packet q else [] := by
  have hown : ∀ send ∈ passedTo s p packet r, send.1 = r := by
    intro send hsend
    rw [passedTo] at hsend
    split at hsend
    · split_ifs at hsend
      · rw [List.mem_singleton.1 hsend]
      · cases hsend
    · cases hsend
  split_ifs with hr
  · subst hr
    exact List.filter_eq_self.2 fun send hsend => decide_eq_true (hown send hsend)
  · exact List.filter_eq_nil_iff.2 fun send hsend => by simpa [hown send hsend] using hr

theorem sentTo_flatMap {l : List Nat} (hl : l.Nodup) :
    sentTo q (l.flatMap (passedTo s p packet)) =
      if q ∈ l then passedTo s p packet q else [] := by
  have hfilter : sentTo q (l.flatMap (passedTo s p packet)) =
      l.flatMap fun r => sentTo q (passedTo s p packet r) := List.filter_flatMap
  rw [hfilter, flatMap_of_nodup hl fun r hr => by rw [sentTo_passedTo, if_neg hr],
    sentTo_passedTo, if_pos rfl]

theorem mem_channelPeers {channel : Bytes} :
    q ∈ s.channelPeers E channel ↔ ∃ o, s.occupantAt q = some o ∧
      E.equal o.channel channel = true := by
  rw [Server.channelPeers, List.mem_filter, mem_cmdPeersList]
  constructor
  · rintro ⟨⟨o, ho⟩, hequal⟩
    rw [ho, Option.any_some] at hequal
    exact ⟨o, ho, hequal⟩
  · rintro ⟨o, ho, hequal⟩
    exact ⟨⟨o, ho⟩, by rw [ho, Option.any_some]; exact hequal⟩

theorem nodup_channelPeers (channel : Bytes) : (s.channelPeers E channel).Nodup :=
  (nodup_cmdPeersList s).filter _

theorem exec_passOn {i : Interp} (hE : E.ComparesSlots W) (hp : W p) (hq : W q)
    (hs : i.server.Sized) (ho : i.server.occupantAt q = some o)
    (hflag : IsFlag (ddGet o.pubData deafenKey)) (hpacket : i.audioPacket = some packet) :
    exec (passOn E p q) i =
      (.ok (), { i with sent := i.sent ++ passedTo i.server p packet q }) := by
  have htruth : E.truth (ddGet o.pubData deafenKey) = .ok (decide o.isDeaf) :=
    truth_of_isFlag hE.toLawful hflag
  have hsame : ({ i with sent := i.sent ++ [] } : Interp) = i := by rw [List.append_nil]
  have hpassed : passedTo i.server p packet q =
      if q ≠ p ∧ ¬ o.isDeaf then [(q, o.peer, packet)] else [] := by rw [passedTo, ho]
  rw [passOn, hE.equal_decimal p q hp hq, hpassed]
  by_cases hpq : p = q
  · rw [if_pos (decide_eq_true hpq), if_neg fun h => h.1 hpq.symm, hsame, exec_pure]
  · rw [if_neg (by simpa using hpq), exec_bind_ok (exec_peerget_pub hs ho),
      exec_bind_ok (exec_condition htruth)]
    by_cases hdeaf : o.isDeaf
    · rw [if_pos (decide_eq_true hdeaf), if_neg fun h => h.2 hdeaf, hsame, exec_pure]
    · rw [if_neg (by simpa using hdeaf), if_pos ⟨Ne.symm hpq, hdeaf⟩, exec_sendaudio hs ho hpacket]

/-- The loop with what it still has to do: the server is `s` but for slot `p`. -/
structure Passing (s : Server) (p : Nat) (packet : ENetPacket) (l rest : List Nat) (i : Interp) :
    Prop where
  sized : i.server.Sized
  occupantAt_eq : ∀ q, q ≠ p → i.server.occupantAt q = s.occupantAt q
  connected : ∀ q ∈ rest, ∃ o, i.server.occupantAt q = some o ∧ IsFlag (ddGet o.pubData deafenKey)
  audioPacket_eq : i.audioPacket = some packet
  sent_eq : i.sent ++ rest.flatMap (passedTo s p packet) = l.flatMap (passedTo s p packet)

theorem passedTo_congr {s' : Server} (h : q ≠ p → s'.occupantAt q = s.occupantAt q) :
    passedTo s' p packet q = passedTo s p packet q := by
  by_cases hq : q = p
  · have hnone : ∀ t : Server, passedTo t p packet q = [] := by
      intro t
      rw [passedTo]
      split
      · exact if_neg fun h => h.1 hq
      · rfl
    rw [hnone, hnone]
  · rw [passedTo, passedTo, h hq]

theorem Passing.step {l rest : List Nat} {i : Interp} (hE : E.ComparesSlots W) (hp : W p)
    (hW : ∀ q o, s.occupantAt q = some o → W q) (h : Passing s p packet l (q :: rest) i) :
    ∃ j, exec (passOn E p q) i = (.ok (), j) ∧ Passing s p packet l rest j := by
  obtain ⟨o, ho, hflag⟩ := h.connected q List.mem_cons_self
  have hq : W q := by
    by_cases hqp : q = p
    · exact hqp ▸ hp
    · exact hW q o ((h.occupantAt_eq q hqp).symm.trans ho)
  refine ⟨_, exec_passOn hE hp hq h.sized ho hflag h.audioPacket_eq, h.sized, h.occupantAt_eq,
    fun r hr => h.connected r (List.mem_cons_of_mem q hr), h.audioPacket_eq, ?_⟩
  rw [passedTo_congr (h.occupantAt_eq q), List.append_assoc]
  exact h.sent_eq

end Loop

/-! ## Packets that are accepted -/

section Accepted

variable {E : JimExpr} {W : Nat → Prop} {s : Server} {p : Nat} {o : Occupant}
  {packet audioPacket : ENetPacket}

theorem passing_channelPeers (hs : s.Sized) (hflagged : s.Flagged) (ho : s.occupantAt p = some o)
    (packet : ENetPacket) (timeout : Int) :
    Passing s p packet (s.channelPeers E o.channel) (s.channelPeers E o.channel)
      (Interp.setOccupant ⟨s, some packet, []⟩ p (o.heard timeout)) := by
  have hslots : (s.setOccupant p (some (o.heard timeout))).occupantAt =
      Function.update s.occupantAt p (some (o.heard timeout)) :=
    occupantAt_setOccupant_eq_update (lt_length_of_occupantAt ho) _
  refine ⟨sized_setOccupant hs p _, fun q hq => ?_, fun q hq => ?_, rfl, rfl⟩
  · rw [Interp.server_setOccupant, hslots, Function.update_of_ne hq]
  · obtain ⟨o', ho', -⟩ := mem_channelPeers.1 hq
    rw [Interp.server_setOccupant, hslots]
    by_cases hqp : q = p
    · subst hqp
      rw [Function.update_self]
      refine ⟨_, rfl, ?_⟩
      rw [Occupant.ddGet_heard o timeout (by decide)]
      exact (hflagged q o ho).2
    · rw [Function.update_of_ne hqp]
      exact ⟨o', ho', (hflagged q o' ho').2⟩

/-- What is sent for a packet of a peer that is not muted -/
theorem sends_of_not_muted (hE : E.ComparesSlots W)
    (hW : ∀ q o, s.occupantAt q = some o → W q) (hs : s.Sized) (hflagged : s.Flagged)
    (ho : s.occupantAt p = some o) (hspeaking : IsFlag (ddGet o.pubData speakingKey))
    (haccepted : decodeAudioPacket p packet = .ok audioPacket) (hmuted : ¬ o.isMuted)
    (speakTime time : Int) :
    (handlePacketInputAudio E speakTime time s p packet).2 =
      (s.channelPeers E o.channel).flatMap (passedTo s p audioPacket) := by
  have htruth : E.truth (ddGet o.pubData mutedKey) = .ok false := by
    rw [truth_of_isFlag hE.toLawful (hflagged p o ho).1]
    exact congrArg Except.ok (decide_eq_false hmuted)
  obtain ⟨j, hloop, hend⟩ := exec_forM_ok (Passing s p audioPacket (s.channelPeers E o.channel))
    (fun q rest i hi => hi.step hE (hW p o ho) hW)
      (passing_channelPeers hs hflagged ho audioPacket (time + speakTime))
  have hrun : exec (onAudioPacket E speakTime time p) ⟨s, some audioPacket, []⟩ = (.ok (), j) :=
    (exec_onAudioPacket hE.toLawful hs ho hspeaking htruth speakTime time).trans hloop
  rw [handlePacketInputAudio, haccepted]
  simpa [hrun] using hend.sent_eq

theorem sends_of_muted (hE : E.Lawful) (hs : s.Sized) (ho : s.occupantAt p = some o)
    (haccepted : decodeAudioPacket p packet = .ok audioPacket) (hmuted : o.isMuted)
    (speakTime time : Int) : (handlePacketInputAudio E speakTime time s p packet).2 = [] := by
  have htruth : E.truth (ddGet o.pubData mutedKey) = .ok true := by
    rw [show ddGet o.pubData mutedKey = cstr "1" from hmuted, hE.truth_one]
  have hrun := exec_onAudioPacket_muted (i := ⟨s, some audioPacket, []⟩) hs ho htruth speakTime time
  rw [handlePacketInputAudio, haccepted]
  simp only [hrun]

theorem sentTo_of_not_muted (hE : E.ComparesSlots W)
    (hW : ∀ q o, s.occupantAt q = some o → W q) (hs : s.Sized) (hflagged : s.Flagged)
    (ho : s.occupantAt p = some o) (hspeaking : IsFlag (ddGet o.pubData speakingKey))
    (haccepted : decodeAudioPacket p packet = .ok audioPacket) (hmuted : ¬ o.isMuted)
    (speakTime time : Int) (q : Nat) :
    sentTo q (handlePacketInputAudio E speakTime time s p packet).2 =
      match s.occupantAt q with
      | some o' =>
          if q ≠ p ∧ E.equal o'.channel o.channel = true ∧ ¬ o'.isDeaf then
            [(q, o'.peer, audioPacket)]
          else []
      | none => [] := by
  rw [sends_of_not_muted hE hW hs hflagged ho hspeaking haccepted hmuted,
    sentTo_flatMap (nodup_channelPeers o.channel), passedTo]
  cases ho' : s.occupantAt q with
  | none => simp
  | some o' =>
      have hmem : q ∈ s.channelPeers E o.channel ↔ E.equal o'.channel o.channel = true := by
        rw [mem_channelPeers, ho']
        simp
      by_cases hequal : E.equal o'.channel o.channel = true
      · simp [hmem, hequal]
      · simp [hmem, hequal]

theorem others_of_accepted (hE : E.Lawful) (hs : s.Sized) (ho : s.occupantAt p = some o)
    (hspeaking : IsFlag (ddGet o.pubData speakingKey)) (speakTime time : Int) {q : Nat}
    (hq : q ≠ p) :
    (handlePacketInputAudio E speakTime time s p packet).1.occupantAt q = s.occupantAt q := by
  rw [server_handlePacketInputAudio hE hs ho hspeaking]
  split_ifs
  · rw [occupantAt_setOccupant_eq_update (lt_length_of_occupantAt ho), Function.update_of_ne hq]
  · rfl

/-- Audio goes where it should exactly if its source is muted or `==` tells the channels of the
peers that could hear it from the channel of the source. -/
theorem routesRight_iff (hE : E.ComparesSlots W) (hW : ∀ q o, s.occupantAt q = some o → W q)
    (hs : s.Sized) (hflagged : s.Flagged)
    (ho : s.occupantAt p = some o) (hspeaking : IsFlag (ddGet o.pubData speakingKey))
    (haccepted : decodeAudioPacket p packet = .ok audioPacket) (speakTime time : Int) :
    RoutesRight s p o audioPacket (handlePacketInputAudio E speakTime time s p packet) ↔
      o.isMuted ∨ ∀ q o', q ≠ p → s.occupantAt q = some o' → ¬ o'.isDeaf →
        E.Distinguishes o'.channel o.channel := by
  have hothers : ∀ q, q ≠ p →
      (handlePacketInputAudio E speakTime time s p packet).1.occupantAt q = s.occupantAt q :=
    fun q hq => others_of_accepted hE.toLawful hs ho hspeaking speakTime time hq
  by_cases hmuted : o.isMuted
  · have hnone := sends_of_muted hE.toLawful hs ho haccepted hmuted speakTime time
    exact iff_of_true ⟨fun _ => hnone, fun h => absurd hmuted h, hothers⟩ (.inl hmuted)
  · have hsent := sentTo_of_not_muted hE hW hs hflagged ho hspeaking haccepted hmuted speakTime time
    rw [or_iff_right hmuted]
    constructor
    · intro h q o' hq ho' hdeaf
      have hpassed := (hsent q).symm.trans (h.passed hmuted q)
      simp only [ho', ite_singleton_eq_iff] at hpassed
      rw [JimExpr.distinguishes_iff]
      simpa only [hq, hdeaf, ne_eq, not_false_eq_true, and_true, true_and] using hpassed
    · intro h
      refine ⟨fun h => absurd h hmuted, fun _ q => ?_, hothers⟩
      rw [hsent q]
      cases ho' : s.occupantAt q with
      | none => rfl
      | some o' =>
          refine (ite_singleton_eq_iff _ _ _).2
            (and_congr_right fun hq => and_congr_left fun hdeaf => ?_)
          exact (JimExpr.distinguishes_iff _ _).1 (h q o' hq ho' hdeaf)

end Accepted

/-! ## Two peers -/

def twoPeers (a b : CString) : Server where
  peers := [⟨0, some (Occupant.greeted ⟨some 5, [], []⟩ a 0)⟩,
    ⟨1, some (Occupant.greeted ⟨some 6, [], []⟩ b 1)⟩]
  peersCount := 2
  peersSize := 2
  serverData := []
  peerData := fun _ => none

theorem flagged_twoPeers (a b : CString) : (twoPeers a b).Flagged := by
  intro p o ho
  match p with
  | 0 =>
      obtain rfl := Option.some.inj ho
      exact ⟨.inl rfl, .inl rfl⟩
  | 1 =>
      obtain rfl := Option.some.inj ho
      exact ⟨.inl rfl, .inl rfl⟩
  | p + 2 => cases ho

theorem lt_of_twoPeers (a b : CString) :
    ∀ q o, (twoPeers a b).occupantAt q = some o → q < 2 ^ 63 := by
  intro q o ho
  have hq : q < 2 := lt_length_of_occupantAt ho
  omega

theorem decodeAudioPacket_oneBytePacket :
    decodeAudioPacket 0 oneBytePacket = .ok oneBytePacket := by
  rfl

/-- Channels whose names are not numbers -/
theorem routesRight_iff_names :
    RoutesRight (twoPeers (literal "lobby") (literal "attic")) 0
        (Occupant.greeted ⟨some 5, [], []⟩ (literal "lobby") 0) oneBytePacket
        (handlePacketInputAudio integerExpr 50 100 (twoPeers (literal "lobby") (literal "attic")) 0
          oneBytePacket) ↔
      (Occupant.greeted ⟨some 5, [], []⟩ (literal "lobby") 0).isMuted ∨ ∀ q o', q ≠ 0 →
        (twoPeers (literal "lobby") (literal "attic")).occupantAt q = some o' → ¬ o'.isDeaf →
          integerExpr.Distinguishes o'.channel
            (Occupant.greeted ⟨some 5, [], []⟩ (literal "lobby") 0).channel :=
  routesRight_iff (comparesSlots_integerExpr (· < 2 ^ 63)) (lt_of_twoPeers _ _)
    (show (twoPeers _ _).Sized from rfl) (flagged_twoPeers _ _) rfl (.inl rfl)
    decodeAudioPacket_oneBytePacket 50 100

/-- A peer in channel `01` hears one in channel `1`. -/
theorem not_routesRight_one :
    ¬ RoutesRight (twoPeers (literal "1") (literal "01")) 0
        (Occupant.greeted ⟨some 5, [], []⟩ (literal "1") 0) oneBytePacket
        (handlePacketInputAudio integerExpr 50 100 (twoPeers (literal "1") (literal "01")) 0
          oneBytePacket) := by
  intro h
  have hone : (sentTo 1 (handlePacketInputAudio integerExpr 50 100
      (twoPeers (literal "1") (literal "01")) 0 oneBytePacket).2).length = 1 := by rfl
  have hnone : sentTo 1 (handlePacketInputAudio integerExpr 50 100
      (twoPeers (literal "1") (literal "01")) 0 oneBytePacket).2 = [] :=
    h.passed (by decide) 1
  rw [hnone] at hone
  cases hone

end Svc.Svcenet
