import Svc.Libsvc.Incoming.Samples

/-!
# The listener is what is played

Every call on the memory of `libsvc_incoming.c` does to the listener what it is for: a
pointer that a cage holds leads to the samples it was put with, until the cage gives it back.
-/

namespace Svc.Libsvc

open Svc.Lib Svc.Lib.Links

variable {σ δ : Type}

/-! ## Pointers and samples -/

def AudioHeap.Sized (audio : AudioHeap) (size : Nat) : Prop :=
  ∀ a, audio a ≠ none → audio a = some size

theorem map_congr_packets {α β : Type} {size : Nat} {f g : α → β} {cage : PacketCage α size}
    (h : ∀ a ∈ cage.packets, f a = g a) : cage.map f = cage.map g := by
  have hslots : cage.audioQueue.map (Option.map f) = cage.audioQueue.map (Option.map g) := by
    refine Vector.map_congr_left fun slot hslot => ?_
    cases slot with
    | none => rfl
    | some a =>
        exact congrArg some
          (h a (List.mem_filterMap.2 ⟨some a, Vector.mem_toList_iff.2 hslot, rfl⟩))
  rw [PacketCage.map, PacketCage.map, hslots]

theorem map_newPeerCage (data : AudioPtr → Samples σ) :
    newPeerCage.map data = packetCageCreate 5 queueSize_pos := by
  simp [newPeerCage, packetCageCreate, PacketCage.map]

namespace Mixer

variable {m : Mixer}

theorem Owned.allocated (h : m.Owned) {x : PeerPtr × PeerCage} (hx : x ∈ m.peers) {a : AudioPtr}
    (ha : a ∈ x.2.packets) : m.audio a ≠ none := by
  obtain ⟨before, after, hpeers⟩ := List.append_of_mem hx
  have hheld : m.held a = _ := congrArg (heldIn · a) hpeers
  have hpos := List.count_pos_iff.2 ha
  rw [count_packets] at hpos
  rw [heldIn_append, heldIn_cons] at hheld
  exact (h.packets.allocated a (by omega)).1

theorem Owned.taken_allocated (h : m.Owned) {a : AudioPtr}
    (ha : a ∈ m.taken.map fun t => t.2.getD m.silentSound) : m.audio a ≠ none := by
  obtain ⟨⟨peer, data⟩, ht, rfl⟩ := List.mem_map.1 ha
  cases data with
  | none => exact h.packets.silent
  | some a =>
      have hdue : a ∈ m.due := m.filterMap_taken ▸ List.mem_filterMap.2 ⟨_, ht, rfl⟩
      exact (h.packets.allocated a ((List.count_pos_iff.2 hdue).trans_le (m.count_due_le a))).1

theorem sized_release {audio : AudioHeap} {size : Nat} (h : audio.Sized size)
    (packets : List AudioPtr) : (audio.release packets).Sized size := by
  intro a ha
  rw [AudioHeap.release] at ha ⊢
  split at ha
  · exact absurd rfl ha
  · next hnot =>
      rw [if_neg hnot]
      exact h a ha

theorem sized_next (h : m.audio.Sized m.frameSize) (op : IncomingOp) :
    (m.next op).audio.Sized (m.next op).frameSize := by
  cases op with
  | join newPeer => exact h
  | leave peer =>
      rw [next]
      split
      · exact h
      · exact sized_release h _
  | recieve audioData time peer =>
      rw [next]
      split
      · exact h
      · refine sized_release (fun a ha => ?_) _
        by_cases heq : a = audioData
        · rw [heq, Function.update_self]
        · rw [Function.update_of_ne heq] at ha ⊢
          exact h a ha
  | request size => exact sized_release h _

theorem silentSound_next (m : Mixer) (op : IncomingOp) :
    (m.next op).silentSound = m.silentSound := by
  cases op <;> simp only [next] <;> split <;> rfl

theorem frameSize_next (m : Mixer) (op : IncomingOp) : (m.next op).frameSize = m.frameSize := by
  cases op <;> simp only [next] <;> split <;> rfl

/-- A packet goes into the cage of its peer. -/
theorem peers_recieve (hnodup : m.joined.Nodup) {peer : PeerPtr} (hpeer : peer ∈ m.joined)
    (audioData : AudioPtr) (time : PacketTime) :
    (m.next (.recieve audioData time peer)).peers = m.peers.map fun x =>
      if x.1 = peer then (peer, (packetCagePutData x.2 audioData time).1) else x := by
  obtain ⟨x, before, after, rfl, hpeers, hbefore⟩ := exists_peer hpeer
  have hothers (xs : List (PeerPtr × PeerCage)) (hxs : x.1 ∉ xs.map Prod.fst) :
      (xs.map fun y =>
        if y.1 = x.1 then (x.1, (packetCagePutData y.2 audioData time).1) else y) = xs := by
    conv_rhs => rw [← List.map_id xs]
    refine List.map_congr_left fun y hy => if_neg ?_
    rintro heq
    exact hxs (heq ▸ List.mem_map_of_mem hy)
  have hafter : x.1 ∉ after.map Prod.fst := by
    rw [joined, hpeers, List.map_append, List.map_cons] at hnodup
    exact (List.nodup_cons.1 hnodup.of_append_right).1
  rw [next_recieve hpeers hbefore, hpeers, List.map_append, List.map_cons, if_pos rfl,
    hothers before hbefore, hothers after hafter]

end Mixer

/-! ## The calls -/

section Calls

/-- A peer with what its memory leads to -/
def heardAs (newDecoder : δ) (s : IncomingAudio σ δ) (x : PeerPtr × PeerCage) : HeardPeer σ δ :=
  ⟨x.1, (s.decoders x.1).getD newDecoder, x.2.map s.data⟩

theorem heardAs_congr {newDecoder : δ} {s s' : IncomingAudio σ δ} {x : PeerPtr × PeerCage}
    (hdecoder : s'.decoders x.1 = s.decoders x.1)
    (hdata : ∀ a ∈ x.2.packets, s'.data a = s.data a) :
    heardAs newDecoder s' x = heardAs newDecoder s x := by
  rw [heardAs, heardAs, hdecoder, map_congr_packets hdata]

/-- The mixed streams are the packets that are due, and the silence for the others. -/
theorem mixStreams_eq {s : Incoming} {m : Mixer} (h : Refines s m) :
    mixStreams s = .ok ((m.taken.map fun t => t.2.getD m.silentSound).map some) := by
  obtain ⟨peers, mix, hsweep, -, hmix⟩ := sweep_mixPeer h
  rw [mixStreams, hsweep, List.map_map]
  exact congrArg Except.ok ((congrArg (fun n => (List.range n).map mix.mixerBuffer)
    hmix.peersToMix).trans hmix.streams)

variable [Zero σ]

/-- The memory is that of a mixer, and what it leads to is the listener. -/
structure Sounds (newDecoder : δ) (s : IncomingAudio σ δ) (m : Mixer) (l : Listener σ δ) :
    Prop where
  refines : Refines s.incoming m
  owned : m.Owned
  few : m.joined.length ≤ maxPeers
  sized : m.audio.Sized m.frameSize
  silent : ∀ k < m.frameSize, s.data m.silentSound k = 0
  decoders : ∀ peer ∈ m.joined, s.decoders peer ≠ none
  peers : l.peers = m.peers.map (heardAs newDecoder s)
  played : s.played = l.played

variable {newDecoder : δ} {s : IncomingAudio σ δ} {m : Mixer} {l : Listener σ δ}

theorem sounds_init (frameSize : Nat) (silentSound : AudioPtr)
    (mixerBuffer : Nat → Option AudioPtr) (data : AudioPtr → Samples σ) :
    Sounds newDecoder (soundInit frameSize silentSound mixerBuffer data)
      (.init frameSize silentSound) ⟨[], []⟩ where
  refines := refines_init frameSize silentSound mixerBuffer
  owned := Mixer.owned_init frameSize silentSound
  few := Nat.zero_le _
  sized := by
    intro a ha
    unfold Mixer.init at ha ⊢
    dsimp only at ha ⊢
    by_cases heq : a = silentSound
    · rw [heq, Function.update_self]
    · rw [Function.update_of_ne heq] at ha
      exact absurd rfl ha
  silent k hk := by
    have hcleared : clearSamples frameSize (data silentSound) k = 0 := if_pos hk
    exact (congrFun (Function.update_self silentSound _ data) k).trans hcleared
  decoders := fun _ h => absurd h List.not_mem_nil
  peers := rfl
  played := rfl

theorem frames_eq (h : Sounds newDecoder s m l) :
    List.Forall₂ (fun f f' => ∀ k < m.frameSize, f k = f' k)
      ((m.taken.map fun t => t.2.getD m.silentSound).map s.data) l.frames := by
  rw [Listener.frames, h.peers, Mixer.taken, List.map_map, List.map_map, List.map_map,
    List.forall₂_map_left_iff, List.forall₂_map_right_iff, List.forall₂_same]
  intro x hx k hk
  simp only [Function.comp_apply, heardAs, getData_map]
  cases (packetCageGetData x.2).1 with
  | none => exact h.silent k hk
  | some a => rfl

variable [Add σ] {decode : DecodeSamples σ δ} {frameSize : Nat}

theorem join_sounds (h : Sounds newDecoder s m l) {newPeer : PeerPtr}
    (hnew : newPeer ∉ m.joined ++ m.left) (hroom : m.joined.length < maxPeers) :
    ∃ s', soundStep decode newDecoder s (.join newPeer) = .ok s' ∧
      Sounds newDecoder s' (m.next (.join newPeer))
        (l.next decode newDecoder frameSize (.join newPeer)) := by
  have hop : m.Allowed (.join newPeer) := hnew
  obtain ⟨incoming, hrun, hrefines⟩ := incomingStep_refines h.refines h.owned hop h.few
  rw [incomingStep] at hrun
  let s' := { s with
    incoming, decoders := Function.update s.decoders newPeer (some newDecoder) }
  have hothers : ∀ peer ∈ m.joined, s'.decoders peer = s.decoders peer := fun peer hpeer =>
    Function.update_of_ne (ne_of_mem_of_not_mem (List.mem_append_left m.left hpeer) hnew) _ _
  have hself : s'.decoders newPeer = some newDecoder := Function.update_self ..
  have hstep : soundStep decode newDecoder s (.join newPeer) = .ok s' := by
    rw [soundStep, hrun]
    rfl
  refine ⟨s', hstep, hrefines, Mixer.owned_next h.owned hop, hroom, Mixer.sized_next h.sized _,
    h.silent, ?_, ?_, h.played⟩
  · intro peer hpeer
    rcases List.mem_cons.1 hpeer with rfl | hpeer
    · rw [hself]
      exact Option.some_ne_none _
    · rw [hothers peer hpeer]
      exact h.decoders peer hpeer
  · have hnewPeer : heardAs newDecoder s' (newPeer, newPeerCage) =
        ⟨newPeer, newDecoder, packetCageCreate 5 queueSize_pos⟩ := by
      rw [heardAs, hself, map_newPeerCage]
      rfl
    have hpeers : m.peers.map (heardAs newDecoder s') = m.peers.map (heardAs newDecoder s) :=
      List.map_congr_left fun x hx =>
        heardAs_congr (hothers x.1 (List.mem_map_of_mem hx)) fun _ _ => rfl
    rw [Listener.next, h.peers, Mixer.next, List.map_cons, hnewPeer, hpeers]

theorem leave_sounds (h : Sounds newDecoder s m l) {peer : PeerPtr} (hpeer : peer ∈ m.joined) :
    ∃ s', soundStep decode newDecoder s (.leave peer) = .ok s' ∧
      Sounds newDecoder s' (m.next (.leave peer))
        (l.next decode newDecoder frameSize (.leave peer)) := by
  have hop : m.Allowed (.leave peer) := hpeer
  obtain ⟨incoming, hrun, hrefines⟩ := incomingStep_refines h.refines h.owned hop h.few
  rw [incomingStep] at hrun
  let s' := { s with incoming, decoders := Function.update s.decoders peer none }
  have hpeers : (m.next (.leave peer)).peers = m.peers.filter (·.1 ≠ peer) := by
    rw [Mixer.next]
    cases hfind : Dict.find Prod.fst peer m.peers with
    | none => exact absurd hpeer (Dict.find_eq_none.1 hfind)
    | some x => rfl
  have hothers : ∀ x ∈ m.peers.filter (·.1 ≠ peer), s'.decoders x.1 = s.decoders x.1 :=
    fun x hx => Function.update_of_ne (by simpa using (List.mem_filter.1 hx).2) _ _
  have hstep : soundStep decode newDecoder s (.leave peer) = .ok s' := by
    rw [soundStep, hrun]
    rfl
  refine ⟨s', hstep, hrefines, Mixer.owned_next h.owned hop,
    (length_joined_next h.few _).2 trivial, Mixer.sized_next h.sized _, ?_, ?_, ?_, h.played⟩
  · rw [Mixer.frameSize_next, Mixer.silentSound_next]
    exact h.silent
  · intro peer' hpeer'
    rw [Mixer.joined, hpeers] at hpeer'
    obtain ⟨x, hx, rfl⟩ := List.mem_map.1 hpeer'
    rw [hothers x hx]
    exact h.decoders x.1 (List.mem_map_of_mem (List.mem_of_mem_filter hx))
  · have hstay : (m.peers.filter (·.1 ≠ peer)).map (heardAs newDecoder s') =
        (m.peers.filter (·.1 ≠ peer)).map (heardAs newDecoder s) :=
      List.map_congr_left fun x hx => heardAs_congr (hothers x hx) fun _ _ => rfl
    rw [Listener.next, h.peers, hpeers, hstay, List.filter_map]
    rfl

theorem recieve_sounds (h : Sounds newDecoder s m l) {audioData : AudioPtr}
    (uninit : Samples σ) (bytes : List UInt8) (time : PacketTime) {peer : PeerPtr}
    (haudio : m.audio audioData = none) (hpeer : peer ∈ m.joined) :
    ∃ s', soundStep decode newDecoder s (.recieve audioData uninit bytes time peer) = .ok s' ∧
      Sounds newDecoder s' (m.next (.recieve audioData time peer))
        (l.next decode newDecoder frameSize (.recieve audioData uninit bytes time peer)) := by
  have hop : m.Allowed (.recieve audioData time peer) := ⟨haudio, hpeer⟩
  obtain ⟨incoming, hrun, hrefines⟩ := incomingStep_refines h.refines h.owned hop h.few
  rw [incomingStep] at hrun
  obtain ⟨decoder, hdecoder⟩ := Option.ne_none_iff_exists'.1 (h.decoders peer hpeer)
  let decoded := decode decoder bytes uninit
  let s' := { s with
    incoming
    data := Function.update s.data audioData decoded.2
    decoders := Function.update s.decoders peer (some decoded.1) }
  -- the new audio data is none that a cage has
  have hdata : ∀ x ∈ m.peers, ∀ a ∈ x.2.packets, s'.data a = s.data a := by
    intro x hx a ha
    refine Function.update_of_ne ?_ _ _
    rintro rfl
    exact h.owned.allocated hx ha haudio
  have hself : s'.data audioData = decoded.2 := Function.update_self ..
  have hdecoderSelf : s'.decoders peer = some decoded.1 := Function.update_self ..
  have hstep : soundStep decode newDecoder s (.recieve audioData uninit bytes time peer) =
      .ok s' := by
    rw [soundStep, hdecoder, hrun]
    rfl
  refine ⟨s', hstep, hrefines, Mixer.owned_next h.owned hop,
    (length_joined_next h.few _).2 trivial, Mixer.sized_next h.sized _, ?_, ?_, ?_, h.played⟩
  · rw [Mixer.frameSize_next, Mixer.silentSound_next]
    have hne : m.silentSound ≠ audioData := fun heq => h.owned.packets.silent (heq ▸ haudio)
    have hsilent : s'.data m.silentSound = s.data m.silentSound := Function.update_of_ne hne _ _
    rw [hsilent]
    exact h.silent
  · rw [joined_next]
    intro peer' hpeer'
    by_cases heq : peer' = peer
    · rw [heq, hdecoderSelf]
      exact Option.some_ne_none _
    · have hother : s'.decoders peer' = s.decoders peer' := Function.update_of_ne heq _ _
      rw [hother]
      exact h.decoders peer' hpeer'
  · rw [Listener.next, h.peers, m.peers_recieve h.owned.nodup.of_append_left hpeer, List.map_map,
      List.map_map]
    refine List.map_congr_left fun x hx => ?_
    rw [Function.comp_apply, Function.comp_apply, heardAs]
    by_cases heq : x.1 = peer
    · have hput : (packetCagePutData (x.2.map s.data) decoded.2 time).1 =
          (packetCagePutData x.2 audioData time).1.map s'.data := by
        rw [← map_congr_packets (hdata x hx), ← hself]
        exact congrArg Prod.fst (putData_map s'.data x.2 audioData time)
      rw [if_pos heq, if_pos heq, heardAs, heq, hdecoder, Option.getD_some, hdecoderSelf,
        Option.getD_some]
      exact congrArg (HeardPeer.mk peer decoded.1) hput
    · have hother : s'.decoders x.1 = s.decoders x.1 := Function.update_of_ne heq _ _
      rw [if_neg heq, if_neg heq]
      exact (heardAs_congr hother (hdata x hx)).symm

theorem request_sounds (h : Sounds newDecoder s m l) (size : Nat) (output : Samples σ) :
    ∃ s', soundStep decode newDecoder s (.request size output) = .ok s' ∧
      Sounds newDecoder s' (m.next (.request size))
        (l.next decode newDecoder m.frameSize (.request size output)) := by
  obtain ⟨incoming, log, hrun, hrefines, -⟩ :=
    svcRequestIncomingAudio_refines h.refines h.owned size
  have hsize : ∀ a ∈ m.taken.map fun t => t.2.getD m.silentSound,
      s.incoming.audio a = some m.frameSize := fun a ha => by
    rw [h.refines.audio]
    exact h.sized a (h.owned.taken_allocated ha)
  obtain ⟨code, hmix⟩ := mixSamples_eq s.data size _ output hsize
  rw [mixed_congr output (frames_eq h)] at hmix
  refine ⟨{ s with
    incoming, played := s.played ++ [Listener.mixed m.frameSize size l.frames output] }, ?_,
    hrefines, Mixer.owned_next h.owned trivial, (length_joined_next h.few _).2 trivial,
    Mixer.sized_next h.sized _, ?_, ?_, ?_, ?_⟩
  · rw [soundStep, mixStreams_eq h.refines]
    simp only [bind, Except.bind, hmix, hrun]
    rfl
  · exact h.silent
  · rw [joined_next]
    exact h.decoders
  · rw [Listener.next, h.peers, Mixer.next, List.map_map, List.map_map]
    refine List.map_congr_left fun x _ => ?_
    simp only [Function.comp_apply, heardAs, getData_map]
  · exact congrArg (· ++ _) h.played

theorem soundStep_sounds (decode : DecodeSamples σ δ) (h : Sounds newDecoder s m l) {op : SoundOp σ}
    (hop : m.Allowed op.call) (hroom : HasRoom m op.call) :
    ∃ s', soundStep decode newDecoder s op = .ok s' ∧
      Sounds newDecoder s' (m.next op.call) (l.next decode newDecoder m.frameSize op) := by
  cases op with
  | join newPeer => exact join_sounds h hop hroom
  | leave peer => exact leave_sounds h hop
  | recieve audioData uninit bytes time peer =>
      exact recieve_sounds h uninit bytes time hop.1 hop.2
  | request size output => exact request_sounds h size output

end Calls

/-! ## Runs -/

section Runs

variable [Zero σ] [Add σ] (decode : DecodeSamples σ δ) (newDecoder : δ)

def listenerMachine (frameSize : Nat) : Machine (Listener σ δ) (SoundOp σ) Unit where
  step l op := (l.next decode newDecoder frameSize op, ())

variable {newDecoder}

theorem exists_run_sounds {s : IncomingAudio σ δ} {m : Mixer} {l : Listener σ δ}
    (h : Sounds newDecoder s m l) {ops : List (SoundOp σ)}
    (hops : mixerMachine.Guarded (fun m op => m.Allowed op ∧ HasRoom m op) m
      (ops.map SoundOp.call)) :
    ∃ s', (Machine.fallible (soundStep decode newDecoder)).run (.ok s) ops = .ok s' ∧
      Sounds newDecoder s' (mixerMachine.run m (ops.map SoundOp.call))
        ((listenerMachine decode newDecoder m.frameSize).run l ops) := by
  induction ops generalizing s m l with
  | nil => exact ⟨s, rfl, h⟩
  | cons op ops ih =>
      obtain ⟨⟨hop, hroom⟩, hrest⟩ := hops
      obtain ⟨s', hs', h'⟩ := soundStep_sounds decode h hop hroom
      obtain ⟨s'', hrun, hsounds⟩ := ih h' hrest
      refine ⟨s'', ?_, ?_⟩
      · rw [Machine.run_cons, Machine.fallible_next_ok, hs', hrun]
      · rw [Mixer.frameSize_next] at hsounds
        exact hsounds

/-- Over any run in which no peer joins without room for it, what is played is what the
listener is to hear. -/
theorem played_as_heard (decode : DecodeSamples σ δ) (newDecoder : δ) (frameSize : Nat)
    (silentSound : AudioPtr) (mixerBuffer : Nat → Option AudioPtr) (data : AudioPtr → Samples σ)
    (ops : List (SoundOp σ))
    (hops : mixerMachine.Guarded Mixer.Allowed (.init frameSize silentSound)
      (ops.map SoundOp.call))
    (hroom : mixerMachine.Guarded HasRoom (.init frameSize silentSound)
      (ops.map SoundOp.call)) :
    ∃ s, (Machine.fallible (soundStep decode newDecoder)).run
        (.ok (soundInit frameSize silentSound mixerBuffer data)) ops = .ok s ∧
      s.played = ((listenerMachine decode newDecoder frameSize).run ⟨[], []⟩ ops).played := by
  obtain ⟨s, hrun, hsounds⟩ := exists_run_sounds decode
    (sounds_init frameSize silentSound mixerBuffer data) ((Machine.guarded_and _).2 ⟨hops, hroom⟩)
  exact ⟨s, hrun, hsounds.played⟩

/-- Two peers, one of which gets a packet into memory that was freed. -/
theorem played_as_heard_two_peers :
    ∃ s, (Machine.fallible (soundStep (fun (d : Int) (bytes : List UInt8) _ =>
          (d + 1, fun k => d + (bytes.getD k 0).toNat)) 0)).run
        (.ok (soundInit 2 9 (fun _ => none) fun _ _ => 5))
        [.join 1, .join 2, .recieve 10 (fun _ => 3) [1, 2] 7 1,
          .recieve 11 (fun _ => 3) [3, 4] 12 1, .recieve 10 (fun _ => 3) [5, 6] 9 1,
          .request 2 fun _ => 4, .request 2 fun _ => 4] = .ok s ∧
      s.played = ((listenerMachine (fun (d : Int) (bytes : List UInt8) _ =>
          (d + 1, fun k => d + (bytes.getD k 0).toNat)) 0 2).run ⟨[], []⟩
        [.join 1, .join 2, .recieve 10 (fun _ => 3) [1, 2] 7 1,
          .recieve 11 (fun _ => 3) [3, 4] 12 1, .recieve 10 (fun _ => 3) [5, 6] 9 1,
          .request 2 fun _ => 4, .request 2 fun _ => 4]).played :=
  played_as_heard _ 0 2 9 (fun _ => none) (fun _ _ => 5)
    [.join 1, .join 2, .recieve 10 (fun _ => 3) [1, 2] 7 1,
      .recieve 11 (fun _ => 3) [3, 4] 12 1, .recieve 10 (fun _ => 3) [5, 6] 9 1,
      .request 2 fun _ => 4, .request 2 fun _ => 4] (by decide) (by decide)

end Runs

end Svc.Libsvc
