import Svc.Libsvc.Incoming.Mixer

/-!
# The code is the mixer

The list in memory has the peers of the abstract mixer, and each call on it does what the
mixer does.
-/

namespace Svc.Libsvc

open Svc.Lib Svc.Lib.Links

def nodesOf (peers : List (PeerPtr × PeerCage)) : List (PeerPtr × Option PeerCage) :=
  peers.map fun x => (x.1, some x.2)

@[simp] theorem map_fst_nodesOf (peers : List (PeerPtr × PeerCage)) :
    (nodesOf peers).map Prod.fst = peers.map Prod.fst := by
  simp [nodesOf]

theorem nodesOf_append_cons (before after : List (PeerPtr × PeerCage)) (x : PeerPtr × PeerCage) :
    nodesOf (before ++ x :: after) = nodesOf before ++ (x.1, some x.2) :: nodesOf after := by
  simp [nodesOf]

theorem nodesOf_append (before after : List (PeerPtr × PeerCage)) :
    nodesOf (before ++ after) = nodesOf before ++ nodesOf after := by
  simp [nodesOf]

/-- The static variables are those of a mixer whose peers an `unsigned int` counts. -/
structure Refines (s : Incoming) (m : Mixer) : Prop where
  linked : Linked s.peers (nodesOf m.peers)
  first : s.peerList = front (nodesOf m.peers)
  count : s.peerCount = m.peers.length
  few : m.peers.length < 2 ^ 32
  audio : s.audio = m.audio
  silent : s.silentSound = m.silentSound
  frame : s.frameSize = m.frameSize

theorem refines_init (frameSize : Nat) (silentSound : AudioPtr)
    (mixerBuffer : Nat → Option AudioPtr) :
    Refines (svcIncomingInit frameSize silentSound mixerBuffer)
      (.init frameSize silentSound) :=
  ⟨linked_nil _, rfl, rfl, Nat.two_pow_pos 32, rfl, rfl, rfl⟩

theorem AudioHeap.Accounted.foldlM_free {audio : AudioHeap} {held : AudioPtr → Nat}
    {silentSound : AudioPtr} (h : audio.Accounted held silentSound) {packets : List AudioPtr}
    (hpackets : ∀ a, packets.count a ≤ held a) :
    packets.foldlM AudioHeap.free audio = .ok (audio.release packets) := by
  refine Libsvc.foldlM_free (List.nodup_iff_count_le_one.2 fun a => ?_) fun a ha => ?_
  · exact (hpackets a).trans (h.once a)
  · exact (h.allocated a ((List.count_pos_iff.2 ha).trans_le (hpackets a))).1

section Calls

variable {s : Incoming} {m : Mixer}

theorem svcPeerJoin_refines (h : Refines s m) {newPeer : PeerPtr} (hnew : newPeer ∉ m.joined)
    (hfew : m.peers.length + 1 < 2 ^ 32) :
    ∃ s', svcPeerJoin s newPeer = .ok s' ∧ Refines s' (m.next (.join newPeer)) := by
  let cage := newPeerCage
  let peers := Function.update
    (relink s.peers (front (nodesOf m.peers)) fun n => { n with prev := some newPeer }) newPeer
    (some ⟨none, front (nodesOf m.peers), some cage⟩)
  have hnot : newPeer ∉ (nodesOf m.peers).map Prod.fst := by rwa [map_fst_nodesOf]
  have hlinked : Linked peers (nodesOf ((newPeer, cage) :: m.peers)) :=
    h.linked.prepend (x := (newPeer, some cage)) hnot
  have hcount : (s.peerCount + 1) % 2 ^ 32 = m.peers.length + 1 := by
    rw [h.count, Nat.mod_eq_of_lt hfew]
  have hrun : svcPeerJoin s newPeer = .ok { s with
      peers, peerList := some newPeer, peerCount := m.peers.length + 1 } := by
    unfold svcPeerJoin
    cases hfirst : s.peerList with
    | none =>
        simp only [peers, ← h.first, hfirst, hcount, relink_none]
        rfl
    | some first =>
        have hfront := h.first.symm.trans hfirst
        obtain ⟨n, hn⟩ := h.linked.seg.exists_of_mem (front_mem hfront)
        have hne : first ≠ newPeer := ne_of_mem_of_not_mem (front_mem hfront) hnot
        simp only [peers, hfront, hcount, store_update_of_ne hne hn, bind, Except.bind]
        rfl
  exact ⟨_, hrun, hlinked, rfl, rfl, hfew, h.audio, h.silent, h.frame⟩

theorem svcPeerLeave_refines (h : Refines s m) (howned : m.Owned) {peer : PeerPtr}
    (hpeer : peer ∈ m.joined) :
    ∃ s', svcPeerLeave s peer = .ok s' ∧ Refines s' (m.next (.leave peer)) := by
  obtain ⟨x, before, after, rfl, hpeers, -⟩ := Mixer.exists_peer hpeer
  rw [Mixer.next_leave hpeers howned.nodup.of_append_left]
  have hl := h.linked
  rw [hpeers, nodesOf_append_cons] at hl
  let unlinked := relink (relink s.peers (back (nodesOf before))
    fun n => { n with next := front (nodesOf after) }) (front (nodesOf after))
    fun n => { n with prev := back (nodesOf before) }
  have hat : unlinked x.1 = some ⟨back (nodesOf before), front (nodesOf after), some x.2⟩ :=
    hl.at_relink _ _
  have hlength : m.peers.length = before.length + after.length + 1 := by
    rw [hpeers, List.length_append, List.length_cons, Nat.add_assoc]
  have hcount : (s.peerCount + 2 ^ 32 - 1) % 2 ^ 32 = (before ++ after).length := by
    have hfew := h.few
    rw [h.count, hlength, List.length_append]
    omega
  have hfree : x.2.packets.foldlM AudioHeap.free s.audio =
      .ok (AudioHeap.release s.audio x.2.packets) := by
    rw [h.audio]
    refine howned.packets.foldlM_free fun a => ?_
    rw [count_packets, Mixer.held, hpeers, heldIn_append, heldIn_cons]
    omega
  have hfirst : (if s.peerList = some x.1 then front (nodesOf after) else s.peerList) =
      front (nodesOf (before ++ after)) := by
    rw [h.first, hpeers, nodesOf_append_cons, nodesOf_append]
    exact hl.front_without
  have hrun : svcPeerLeave s x.1 = .ok { s with
      peers := relink unlinked (some x.1) fun n => { n with val := none }
      peerList := front (nodesOf (before ++ after))
      audio := s.audio.release x.2.packets
      peerCount := (before ++ after).length } := by
    unfold svcPeerLeave
    simp only [load_eq hl.at, hfirst, hl.storeIf_back, load_eq (hl.at_relink_back _),
      hl.storeIf_front, load_eq (hl.at_relink _ _), derefCage, hfree, store_eq (hl.at_relink _ _),
      hcount, bind, Except.bind]
    rfl
  refine ⟨_, hrun, ?_, rfl, rfl, ?_, ?_, h.silent, h.frame⟩
  · have hlinked : Linked unlinked (nodesOf before ++ nodesOf after) := hl.erase
    rw [nodesOf_append]
    exact hlinked.relink_of_not_mem hl.not_mem _
  · have hfew := h.few
    rw [List.length_append]
    omega
  · rw [h.audio]

theorem svcPacketRecieve_refines (h : Refines s m) (howned : m.Owned) {audioData : AudioPtr}
    (time : PacketTime) {peer : PeerPtr} (haudio : m.audio audioData = none)
    (hpeer : peer ∈ m.joined) :
    ∃ s', svcPacketRecieve s audioData time peer = .ok s' ∧
      Refines s' (m.next (.recieve audioData time peer)) := by
  obtain ⟨x, before, after, rfl, hpeers, hbefore⟩ := Mixer.exists_peer hpeer
  rw [Mixer.next_recieve hpeers hbefore]
  have hl := h.linked
  rw [hpeers, nodesOf_append_cons] at hl
  let put := packetCagePutData x.2 audioData time
  have hfree : (destroyedBy put.2).foldlM AudioHeap.free
      (Function.update s.audio audioData (some s.frameSize)) =
        .ok (AudioHeap.release (Function.update m.audio audioData (some m.frameSize))
          (destroyedBy put.2)) := by
    rw [h.audio, h.frame]
    refine (howned.packets.alloc haudio m.frameSize).foldlM_free fun a => ?_
    have hput := held_putData x.2 audioData time a
    rw [Mixer.held, hpeers, heldIn_append, heldIn_cons]
    dsimp only [put]
    omega
  have hrun : svcPacketRecieve s audioData time x.1 = .ok { s with
      peers := relink s.peers (some x.1) fun n => { n with val := some put.1 }
      audio := AudioHeap.release (Function.update m.audio audioData (some m.frameSize))
        (destroyedBy put.2) } := by
    unfold svcPacketRecieve
    simp only [load_eq hl.at, derefCage, bind, Except.bind, hfree, store_eq hl.at, put]
    rfl
  have hptrs : (nodesOf m.peers).map Prod.fst =
      (nodesOf (before ++ (x.1, put.1) :: after)).map Prod.fst := by
    simp [hpeers]
  have hlength : m.peers.length = (before ++ (x.1, put.1) :: after).length := by
    simp [hpeers]
  refine ⟨_, hrun, ?_, ?_, h.count.trans hlength, hlength ▸ h.few, rfl, h.silent, h.frame⟩
  · rw [nodesOf_append_cons]
    exact hl.revalue (some put.1)
  · exact h.first.trans (front_congr hptrs)

end Calls

/-! ## Mixing -/

/-- What `FORALL_PEERS` makes of its locals, for the results of `packet_cage_get_data` -/
structure Mix.Holds (mix : Mix) (silentSound : AudioPtr)
    (results : List (PeerPtr × Option AudioPtr)) : Prop where
  taken : mix.taken = results
  peersToMix : mix.peersToMix = results.length
  streams : (List.range results.length).map mix.mixerBuffer =
    results.map fun t => some (t.2.getD silentSound)
  written : ∀ i, i ∈ mix.written ↔ i < results.length

section Add

variable (mix : Mix) (silentSound : AudioPtr) (peer : PeerPtr) (data : Option AudioPtr)

theorem mixerBuffer_add :
    (mix.add silentSound peer data).mixerBuffer =
      Function.update mix.mixerBuffer mix.peersToMix (some (data.getD silentSound)) := by
  cases data <;> simp [Mix.add, Mix.put]

theorem mem_written_add (i : Nat) :
    i ∈ (mix.add silentSound peer data).written ↔ i ∈ mix.written ∨ i = mix.peersToMix := by
  cases data <;> simp [Mix.add, Mix.put]

theorem peersToMix_add : (mix.add silentSound peer data).peersToMix = mix.peersToMix + 1 := by
  cases data <;> rfl

theorem taken_add : (mix.add silentSound peer data).taken = mix.taken ++ [(peer, data)] := by
  cases data <;> rfl

end Add

theorem Mix.Holds.add {mix : Mix} {silentSound : AudioPtr}
    {results : List (PeerPtr × Option AudioPtr)} (h : mix.Holds silentSound results)
    (t : PeerPtr × Option AudioPtr) :
    (mix.add silentSound t.1 t.2).Holds silentSound (results ++ [t]) where
  taken := by rw [taken_add, h.taken]
  peersToMix := by rw [peersToMix_add, h.peersToMix, List.length_append, List.length_singleton]
  streams := by
    have hold : (List.range results.length).map (Function.update mix.mixerBuffer results.length
        (some (t.2.getD silentSound))) = (List.range results.length).map mix.mixerBuffer :=
      List.map_congr_left fun i hi =>
        Function.update_of_ne (List.mem_range.1 hi).ne _ _
    rw [mixerBuffer_add, h.peersToMix, List.length_append, List.length_singleton, List.range_succ,
      List.map_append, hold, h.streams, List.map_append, List.map_singleton, Function.update_self]
    rfl
  written i := by
    rw [mem_written_add, h.written, h.peersToMix, List.length_append, List.length_singleton]
    omega

theorem foldl_add_holds {silentSound : AudioPtr} (new results : List (PeerPtr × Option AudioPtr))
    {mix : Mix} (h : mix.Holds silentSound results) :
    (new.foldl (fun mix t => mix.add silentSound t.1 t.2) mix).Holds silentSound
      (results ++ new) := by
  induction new generalizing mix results with
  | nil => rwa [List.append_nil]
  | cons t new ih =>
      rw [List.append_cons]
      exact ih _ (h.add t)

theorem svcMixAudioStreams_ok {audio : AudioHeap} (size : Nat) {streams : List AudioPtr}
    (h : ∀ a ∈ streams, audio a ≠ none) :
    ∃ result, svcMixAudioStreams audio size (streams.map some) = .ok result := by
  induction streams with
  | nil => exact ⟨0, rfl⟩
  | cons a streams ih =>
      obtain ⟨ha, hstreams⟩ := List.forall_mem_cons.1 h
      obtain ⟨streamSize, hsize⟩ := Option.ne_none_iff_exists'.1 ha
      rw [List.map_cons, svcMixAudioStreams, hsize]
      dsimp only
      split_ifs
      · exact ⟨-1, rfl⟩
      · exact ih hstreams

/-- The loop that destroys the streams frees the packets and passes over the silence. -/
theorem destroyStreams_eq {silentSound : AudioPtr} (results : List (PeerPtr × Option AudioPtr))
    (destroyed : List AudioPtr) {audio : AudioHeap} (hnodup : (results.filterMap Prod.snd).Nodup)
    (haudio : ∀ a ∈ results.filterMap Prod.snd, audio a ≠ none ∧ a ≠ silentSound) :
    (results.map fun t => some (t.2.getD silentSound)).foldlM (destroyStream silentSound)
        (audio, destroyed) =
      .ok (audio.release (results.filterMap Prod.snd),
        destroyed ++ results.filterMap Prod.snd) := by
  induction results generalizing audio destroyed with
  | nil =>
      rw [List.filterMap_nil, release_nil, List.append_nil]
      rfl
  | cons t results ih =>
      obtain ⟨peer, data⟩ := t
      cases data with
      | none =>
          have hsilent : destroyStream silentSound (audio, destroyed) (some silentSound) =
              .ok (audio, destroyed) := by
            rw [destroyStream, if_neg (not_not.2 rfl)]
          rw [List.map_cons, List.foldlM_cons, Option.getD_none, hsilent]
          exact ih destroyed hnodup haudio
      | some a =>
          have hsome : ((peer, some a) :: results).filterMap Prod.snd =
              a :: results.filterMap Prod.snd := rfl
          rw [hsome] at hnodup haudio ⊢
          obtain ⟨ha, hresults⟩ := List.nodup_cons.1 hnodup
          obtain ⟨haudioA, haudio⟩ := List.forall_mem_cons.1 haudio
          have hfree : destroyStream silentSound (audio, destroyed) (some a) =
              .ok (Function.update audio a none, destroyed ++ [a]) := by
            rw [destroyStream, if_pos haudioA.2, free_eq haudioA.1]
            rfl
          rw [List.map_cons, List.foldlM_cons, Option.getD_some, hfree, release_cons]
          refine (ih (destroyed ++ [a]) hresults fun b hb => ?_).trans ?_
          · rw [Function.update_of_ne (ne_of_mem_of_not_mem hb ha)]
            exact haudio b hb
          · rw [List.append_assoc]
            rfl

def Mixer.taken (m : Mixer) : List (PeerPtr × Option AudioPtr) :=
  m.peers.map fun x => (x.1, (packetCageGetData x.2).1)

theorem Mixer.filterMap_taken (m : Mixer) : m.taken.filterMap Prod.snd = m.due := by
  rw [Mixer.taken, List.filterMap_map]
  rfl

theorem Mixer.map_fst_taken (m : Mixer) : m.taken.map Prod.fst = m.joined := by
  rw [Mixer.taken, List.map_map]
  rfl

theorem mixPeer_eq (silentSound : AudioPtr) {peers : List (PeerPtr × PeerCage)} (mix : Mix)
    (x : PeerPtr × Option PeerCage) (hx : x ∈ nodesOf peers) :
    mixPeer silentSound mix x.1 x.2 =
      .ok (mix.add silentSound x.1 (x.2.bind fun cage => (packetCageGetData cage).1),
        x.2.map fun cage => (packetCageGetData cage).2.1) := by
  obtain ⟨y, -, rfl⟩ := List.mem_map.1 hx
  rfl

/-- The first loop takes a packet from each cage, and has it or the silence in the buffer. -/
theorem sweep_mixPeer {s : Incoming} {m : Mixer} (h : Refines s m) :
    ∃ peers mix, sweep s.peers (mixPeer s.silentSound) s.peerCount ⟨s.mixerBuffer, 0, [], []⟩
        s.peerList = .ok (peers, mix) ∧
      Linked peers (nodesOf (m.next (.request 0)).peers) ∧ mix.Holds m.silentSound m.taken := by
  have hrounds : (nodesOf m.peers).length ≤ s.peerCount := by simp [nodesOf, h.count]
  obtain ⟨peers, hsweep, hseg, -⟩ := sweep_eq h.linked.seg h.linked.nodup
    (fun cage => cage.map fun cage => (packetCageGetData cage).2.1)
    (fun (mix : Mix) x => mix.add s.silentSound x.1
      (x.2.bind fun cage => (packetCageGetData cage).1))
    (mixPeer_eq s.silentSound) ⟨s.mixerBuffer, 0, [], []⟩ hrounds
  have hnodes : (nodesOf m.peers).map (fun x => (x.1, x.2.map fun cage =>
      (packetCageGetData cage).2.1)) = nodesOf (m.next (.request 0)).peers := by
    simp [nodesOf, Mixer.next]
  have hfold : (nodesOf m.peers).foldl (fun mix x => mix.add s.silentSound x.1
      (x.2.bind fun cage => (packetCageGetData cage).1)) ⟨s.mixerBuffer, 0, [], []⟩ =
        m.taken.foldl (fun mix t => mix.add s.silentSound t.1 t.2)
          (⟨s.mixerBuffer, 0, [], []⟩ : Mix) := by
    simp [nodesOf, Mixer.taken, List.foldl_map]
  rw [hnodes] at hseg
  rw [hfold, ← h.first] at hsweep
  refine ⟨peers, _, hsweep, ⟨?_, hseg⟩, ?_⟩
  · have hptrs : (nodesOf (m.next (.request 0)).peers).map Prod.fst =
        (nodesOf m.peers).map Prod.fst := by simp [Mixer.next]
    exact hptrs ▸ h.linked.nodup
  · rw [h.silent]
    exact foldl_add_holds m.taken [] ⟨rfl, rfl, rfl, fun i => by simp⟩

theorem svcRequestIncomingAudio_refines {s : Incoming} {m : Mixer} (h : Refines s m)
    (howned : m.Owned) (size : Nat) :
    ∃ s' log, svcRequestIncomingAudio s size = .ok (s', log) ∧
      Refines s' (m.next (.request size)) ∧ log.taken = m.taken ∧
      (∀ i, i ∈ log.written ↔ i < m.peers.length) ∧ log.destroyed = m.due := by
  have hdue := m.count_due_le
  have hnodup : m.due.Nodup := List.nodup_iff_count_le_one.2 fun a =>
    (hdue a).trans (howned.packets.once a)
  have hallocated : ∀ a ∈ m.due, m.audio a ≠ none ∧ a ≠ m.silentSound := fun a ha =>
    howned.packets.allocated a ((List.count_pos_iff.2 ha).trans_le (hdue a))
  obtain ⟨peers, mix, hsweep, hlinked, hmix⟩ := sweep_mixPeer h
  rw [h.silent] at hsweep
  have hstreams : (List.range mix.peersToMix).map mix.mixerBuffer =
      m.taken.map fun t => some (t.2.getD m.silentSound) := by
    rw [hmix.peersToMix, hmix.streams]
  obtain ⟨result, hresult⟩ : ∃ result, svcMixAudioStreams m.audio size
      (m.taken.map fun t => some (t.2.getD m.silentSound)) = .ok result := by
    have hsome : (m.taken.map fun t => some (t.2.getD m.silentSound)) =
        (m.taken.map fun t => t.2.getD m.silentSound).map some := by simp
    rw [hsome]
    refine svcMixAudioStreams_ok size fun a ha => ?_
    obtain ⟨⟨peer, data⟩, ht, rfl⟩ := List.mem_map.1 ha
    cases data with
    | none => exact howned.packets.silent
    | some a =>
        rw [← m.filterMap_taken] at hallocated
        exact (hallocated a (List.mem_filterMap.2 ⟨_, ht, rfl⟩)).1
  have hdestroy := destroyStreams_eq m.taken []
    (m.filterMap_taken ▸ hnodup) (m.filterMap_taken ▸ hallocated)
  rw [m.filterMap_taken, List.nil_append] at hdestroy
  refine ⟨{ s with peers, audio := m.audio.release m.due, mixerBuffer := mix.mixerBuffer },
    ⟨mix.taken, mix.written, m.due⟩, ?_, ?_, hmix.taken, fun i => ?_, rfl⟩
  · unfold svcRequestIncomingAudio
    simp only [hsweep, bind, Except.bind, hstreams, h.audio, h.silent, hresult, hdestroy]
    rfl
  · refine ⟨hlinked, ?_, ?_, ?_, rfl, h.silent, h.frame⟩
    · refine h.first.trans (front_congr ?_)
      simp [Mixer.next]
    · exact h.count.trans (List.length_map _).symm
    · exact (List.length_map _).trans_lt h.few
  · rw [hmix.written, Mixer.taken, List.length_map]

end Svc.Libsvc
