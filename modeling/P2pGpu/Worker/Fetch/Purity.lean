import P2pGpu.Data.Since
import P2pGpu.Worker.Fetch.Completion

namespace P2pGpu.Worker

open P2pGpu.Protocol
open P2pGpu.Coordinator (AssetSource Hash32 kChunkBytes)

namespace TaskLoop

namespace FetchEvent

-- The chunk that comes in, by whichever way.
def chunk : FetchEvent → Option AssetChunk
  | .coordinatorChunk c => some c
  | .peer _ (.assetChunk c) => some c
  | _ => none

def isCoordinators : FetchEvent → Bool
  | .coordinatorChunk _ => true
  | _ => false

end FetchEvent

-- The fetch with the chunk in it, if it is new there and fits.
def taken (cfg : Config) (l : TaskLoop) (now : Nat) (c : AssetChunk) : Option AssetFetch :=
  match l.fetch, c.bytes with
  | some f, some bytes =>
      match f.take cfg now c.index c.total bytes with
      | .stored g => some g
      | _ => none
  | _, _ => none

def takes (cfg : Config) (l : TaskLoop) (now : Nat) (e : FetchEvent) : Option AssetFetch :=
  e.chunk.bind (l.taken cfg now)

-- One event, and only what is sent because of it.
def fetchNext (cfg : Config) (l : TaskLoop) (e : Nat × FetchEvent) : TaskLoop :=
  l.cleared.onFetchEvent cfg e.1 e.2

def FetchStepsTo (cfg : Config) (l : TaskLoop) (e : Nat × FetchEvent) (l' : TaskLoop) : Prop :=
  l' = l.fetchNext cfg e

abbrev FetchHistory : Type := List (TaskLoop × Nat × FetchEvent)

-- The last chunk comes in, and the whole is what it should be.
def finishes (cfg : Config) (l : TaskLoop) (e : Nat × FetchEvent) : Bool :=
  match l.takes cfg e.1 e.2 with
  | none => false
  | some g => g.received = g.total && cfg.blake3Hex g.bytes = g.address && cfg.loadBvh g.bytes

-- After it there is nothing of an asset but what is resident.
def Empties (cfg : Config) (l : TaskLoop) (e : Nat × FetchEvent) : Prop :=
  ∀ f, (l.fetchNext cfg e).fetch = some f → f.received = 0

-- A chunk of the coordinator is among those that the fetch holds.
def FromCoordinator (cfg : Config) (past : FetchHistory) : Prop :=
  Since
    (fun _ x => x.2.2.isCoordinators = true ∧ (x.1.takes cfg x.2.1 x.2.2).isSome = true ∧
      ¬ x.1.Empties cfg x.2)
    (fun _ x => x.1.Empties cfg x.2) past

-- What a peer phase is to keep apart. While there is a link to a peer nothing is asked
-- of the coordinator, and what is told to be of peers is of peers alone.
structure KeepsApart (cfg : Config) (past : FetchHistory) (l : TaskLoop) (e : Nat × FetchEvent) :
    Prop where
  silent : (l.fetchNext cfg e).peer.isSome = true → (l.fetchNext cfg e).asked = []
  pure : l.finishes cfg e = true → (l.fetchNext cfg e).assetSource = .peer →
    e.2.isCoordinators = false ∧ ¬ FromCoordinator cfg past
  told : (l.fetchNext cfg e).assetSource = .peer →
    l.assetSource = .peer ∨ l.finishes cfg e = true

-- While there is a link to a peer no chunk of the coordinator is taken, and none that
-- ends a batch before it ends the asset.
structure Separate (cfg : Config) (l : TaskLoop) (e : Nat × FetchEvent) : Prop where
  sources : l.peer.isSome = true → e.2.isCoordinators = true → l.takes cfg e.1 e.2 = none
  batches : ∀ g, l.peer.isSome = true → l.takes cfg e.1 e.2 = some g → g.received ≠ g.total →
    g.received % kAssetChunkRequestBatch ≠ 0

section

variable {cfg : Config} {l : TaskLoop} {now : Nat}

theorem fallBackToCoordinator_same (l : TaskLoop) (now : Nat) :
    (l.fallBackToCoordinator now).peer = none ∧
      (l.fallBackToCoordinator now).assetSource = l.assetSource := by
  unfold fallBackToCoordinator
  dsimp only
  split
  · exact ⟨rfl, rfl⟩
  · rename_i f _
    have hasks := sendAssetRequest_tells { l with
      peer := none
      peerTarget := Id.nil
      fetch := some { f with lastProgress := now } } f.address 0 kAssetChunkRequestBatch
    exact ⟨hasks.peer, hasks.assetSource⟩

-- The next source: a peer, of which the coordinator learns nothing, or itself.
theorem tryNextPeerOrFallBack_quiet (l : TaskLoop) (now : Nat) :
    ((l.tryNextPeerOrFallBack now).peer = none ∨
        (l.tryNextPeerOrFallBack now).asked = l.asked) ∧
      (l.tryNextPeerOrFallBack now).assetSource = l.assetSource := by
  obtain ⟨hpeer, hsource⟩ := fallBackToCoordinator_same l now
  unfold tryNextPeerOrFallBack
  split
  · exact ⟨.inr rfl, rfl⟩
  · split
    · exact ⟨.inl hpeer, hsource⟩
    · split
      · exact ⟨.inl hpeer, hsource⟩
      · refine ⟨.inr ?_, rfl⟩
        rw [asked_send]
        simp [Sent.request, asked]

theorem releaseAll_same (l : TaskLoop) (tasks : List PendingTask) :
    (l.releaseAll tasks).peer = l.peer ∧ (l.releaseAll tasks).assetSource = l.assetSource := by
  unfold releaseAll
  induction tasks generalizing l with
  | nil => exact ⟨rfl, rfl⟩
  | cons t tasks ih =>
      rw [List.foldl_cons]
      exact ih (l.sendRelease t.id .assetUnavailable)

theorem abandonAssetFetch_same (l : TaskLoop) :
    l.abandonAssetFetch.peer = none ∧ l.abandonAssetFetch.assetSource = l.assetSource :=
  releaseAll_same { l with fetch := none, peer := none, peerTarget := Id.nil } l.waitingOnAsset

theorem rejectBytesAndRetry_quiet (l : TaskLoop) (now : Nat) :
    ((l.rejectBytesAndRetry now).peer = none ∨ (l.rejectBytesAndRetry now).asked = l.asked) ∧
      (l.rejectBytesAndRetry now).assetSource = l.assetSource := by
  unfold rejectBytesAndRetry
  split
  · exact ⟨.inr rfl, rfl⟩
  · split
    · obtain ⟨hpeer, hsource⟩ := abandonAssetFetch_same l
      exact ⟨.inl hpeer, hsource⟩
    · exact tryNextPeerOrFallBack_quiet _ now

-- The whole is right, and it is told where it came from.
theorem finishAssetFetch_passes {g : AssetFetch} (hf : l.fetch = some g)
    (hhash : cfg.blake3Hex g.bytes = g.address) (hload : cfg.loadBvh g.bytes = true) :
    (l.finishAssetFetch cfg now).peer = none ∧
      (l.finishAssetFetch cfg now).assetSource =
        if l.peer.isSome then .peer else .coordinator := by
  unfold finishAssetFetch
  simp only [hf, hhash, hload, ne_eq, not_true, if_false, Bool.not_true, Bool.false_eq_true]
  obtain ⟨hpeer, hsource⟩ := releaseAll_same { l with
    residentBytes := g.bytes
    assetSource := if l.peer.isSome then .peer else .coordinator
    residentAsset := g.address
    fetch := none
    peer := none
    peerTarget := Id.nil } (l.waitingOnAsset.filter fun t => t.asset ≠ g.address)
  exact ⟨hpeer, hsource⟩

theorem finishAssetFetch_fails {g : AssetFetch} (hf : l.fetch = some g)
    (hbad : (cfg.blake3Hex g.bytes = g.address && cfg.loadBvh g.bytes) = false) :
    l.finishAssetFetch cfg now = l.rejectBytesAndRetry now := by
  unfold finishAssetFetch
  simp only [hf]
  by_cases hhash : cfg.blake3Hex g.bytes = g.address
  · have hload : cfg.loadBvh g.bytes = false := by simpa [hhash] using hbad
    simp [hhash, hload]
  · simp [hhash]

-- A chunk that is not taken.
theorem handleAssetChunk_untaken {c : AssetChunk} (h : l.taken cfg now c = none) :
    ((l.handleAssetChunk cfg now c).peer = none ∨
        ((l.handleAssetChunk cfg now c).asked = l.asked ∧
          (l.handleAssetChunk cfg now c).peer = l.peer)) ∧
      (l.handleAssetChunk cfg now c).assetSource = l.assetSource := by
  unfold handleAssetChunk
  unfold taken at h
  cases hf : l.fetch with
  | none => exact ⟨.inr ⟨rfl, rfl⟩, rfl⟩
  | some f =>
      cases hbytes : c.bytes with
      | none => exact ⟨.inr ⟨rfl, rfl⟩, rfl⟩
      | some bytes =>
          rw [hf, hbytes] at h
          dsimp only at h ⊢
          cases htake : f.take cfg now c.index c.total bytes with
          | refused why =>
              obtain ⟨hpeer, hsource⟩ := abandonAssetFetch_same l
              exact ⟨.inl hpeer, hsource⟩
          | duplicate g => exact ⟨.inr ⟨rfl, rfl⟩, rfl⟩
          | stored g =>
              rw [htake] at h
              cases h

-- And one that is.
theorem handleAssetChunk_taken {c : AssetChunk} {g : AssetFetch}
    (h : l.taken cfg now c = some g) : l.handleAssetChunk cfg now c =
      if g.received = g.total then { l with fetch := some g }.finishAssetFetch cfg now
      else if g.received % kAssetChunkRequestBatch = 0 then
        { l with fetch := some g }.requestAssetChunks
      else { l with fetch := some g } := by
  unfold handleAssetChunk
  unfold taken at h
  cases hf : l.fetch with
  | none =>
      rw [hf] at h
      cases h
  | some f =>
      cases hbytes : c.bytes with
      | none =>
          rw [hf, hbytes] at h
          cases h
      | some bytes =>
          rw [hf, hbytes] at h
          dsimp only at h ⊢
          cases htake : f.take cfg now c.index c.total bytes with
          | refused why =>
              rw [htake] at h
              cases h
          | duplicate f' =>
              rw [htake] at h
              cases h
          | stored f' =>
              rw [htake] at h
              cases h
              rfl

-- What an event comes to that brings no chunk to the fetch: whatever is asked for is
-- asked without a peer, and a link to a peer only follows another one.
structure Apart (l l' : TaskLoop) : Prop where
  asked : l'.peer = none ∨ l'.asked = l.asked
  source : l'.assetSource = .peer → l.assetSource = .peer
  peer : l.peer = none → l'.peer = none ∨ ∀ f, l'.fetch = some f → f.received = 0

theorem handleAssetMiss_apart (l : TaskLoop) (now : Nat) : l.Apart (l.handleAssetMiss now) := by
  unfold handleAssetMiss
  split
  · rename_i hsome
    obtain ⟨hasked, hsource⟩ := tryNextPeerOrFallBack_quiet { l with peer := none } now
    refine ⟨hasked, fun h => hsource ▸ h, fun hnone => ?_⟩
    rw [hnone] at hsome
    cases hsome
  · obtain ⟨hpeer, hsource⟩ := abandonAssetFetch_same l
    exact ⟨.inl hpeer, fun h => hsource ▸ h, fun _ => .inl hpeer⟩

theorem onOpen_apart (l : TaskLoop) (isOpen : Bool) : l.Apart (l.onOpen isOpen) := by
  unfold onOpen
  cases hpeer : l.peer with
  | none => exact ⟨.inr rfl, id, fun _ => .inl hpeer⟩
  | some link =>
      have hno : l.peer ≠ none := by simp [hpeer]
      dsimp only
      split
      · exact ⟨.inr rfl, id, fun h => absurd h hno⟩
      · split
        · exact ⟨.inr rfl, id, fun h => absurd h hno⟩
        · rename_i f _ _
          have htalks := sendToPeer_tells { l with
            peer := some { link with isOpen }
            peerConnected := l.peerConnected || isOpen } none
            (.assetRequest ⟨some (hashFromHex f.address), 0, kAssetChunkRequestBatch⟩)
          exact ⟨.inr (htalks.asked fun _ hm => hm.unasked), fun h => htalks.assetSource ▸ h,
            fun h => absurd h hno⟩

theorem parkOnAsset_apart (l : TaskLoop) (now : Nat) (task : PendingTask) (inputBytes : UInt64) :
    l.Apart (l.parkOnAsset now task inputBytes) := by
  unfold parkOnAsset
  split
  · exact ⟨.inr rfl, fun h => (by cases h), fun h => .inl h⟩
  · dsimp only
    split
    · exact ⟨.inr rfl, id, fun h => .inl h⟩
    · -- the fetch is new, so nothing of it is there
      obtain ⟨hasked, hsource⟩ := tryNextPeerOrFallBack_quiet { l with
        waitingOnAsset := l.waitingOnAsset ++ [task]
        fetch := some { address := task.asset, expectedBytes := inputBytes, lastProgress := now }
        peerAttempt := 0
        peerAttemptsMade := 0
        peerConnected := false } now
      refine ⟨hasked, fun h => hsource ▸ h, fun _ => .inr fun f hf => ?_⟩
      rcases tryNextPeerOrFallBack_fetch { l with
        waitingOnAsset := l.waitingOnAsset ++ [task]
        fetch := some { address := task.asset, expectedBytes := inputBytes, lastProgress := now }
        peerAttempt := 0
        peerAttemptsMade := 0
        peerConnected := false } now with he | he
      · rw [he] at hf
        cases hf
        rfl
      · rw [he] at hf
        cases hf
        rfl

theorem pollFetch_apart (l : TaskLoop) (now : Nat) : l.Apart (l.pollFetch now) := by
  unfold pollFetch
  have hfirst : l.Apart (if l.fetch.isSome ∧ l.peer.isSome ∧ l.peerDeadline < now then
      { l with peer := none }.tryNextPeerOrFallBack now else l) := by
    split
    · rename_i hlate
      obtain ⟨hasked, hsource⟩ := tryNextPeerOrFallBack_quiet { l with peer := none } now
      refine ⟨hasked, fun h => hsource ▸ h, fun hnone => ?_⟩
      rw [hnone] at hlate
      exact absurd hlate.2.1 (by simp)
    · exact ⟨.inr rfl, id, fun h => .inl h⟩
  dsimp only
  split
  · exact hfirst
  · split
    · obtain ⟨hpeer, hsource⟩ := abandonAssetFetch_same
        (if l.fetch.isSome ∧ l.peer.isSome ∧ l.peerDeadline < now then
          { l with peer := none }.tryNextPeerOrFallBack now else l)
      exact ⟨.inl hpeer, fun h => hfirst.source (hsource ▸ h), fun _ => .inl hpeer⟩
    · exact hfirst

theorem onFetchEvent_chunk {e : FetchEvent} {c : AssetChunk} (h : e.chunk = some c) :
    l.onFetchEvent cfg now e = l.handleAssetChunk cfg now c := by
  cases e with
  | coordinatorChunk c' =>
      cases h
      rfl
  | peer servingCurrent m =>
      cases m with
      | assetChunk c' =>
          cases h
          rfl
      | assetRequest m => cases h
      | assetMiss hash => cases h
  | coordinatorMiss => cases h
  | opened isOpen => cases h
  | grant task inputBytes => cases h
  | peerList peers => cases h
  | poll => cases h

theorem onFetchEvent_untaken {e : FetchEvent} (h : l.takes cfg now e = none) :
    l.Apart (l.onFetchEvent cfg now e) := by
  cases hchunk : e.chunk with
  | some c =>
      have huntaken : l.taken cfg now c = none := by simpa [takes, hchunk] using h
      obtain ⟨hrest, hsource⟩ := handleAssetChunk_untaken huntaken
      rw [onFetchEvent_chunk hchunk]
      refine ⟨hrest.imp_right And.left, fun hs => hsource ▸ hs, fun hnone => .inl ?_⟩
      rcases hrest with hpeer | ⟨-, hpeer⟩
      · exact hpeer
      · exact hpeer.trans hnone
  | none =>
      cases e with
      | coordinatorChunk c => cases hchunk
      | coordinatorMiss => exact handleAssetMiss_apart l now
      | peer servingCurrent m =>
          cases m with
          | assetChunk c => cases hchunk
          | assetRequest m =>
              have htalks := servePeerAssetRequest_tells l servingCurrent m
              exact ⟨.inr (htalks.asked fun _ hm => hm.unasked),
                fun hs => htalks.assetSource ▸ hs, fun hnone => .inl (htalks.peer.trans hnone)⟩
          | assetMiss hash => exact handleAssetMiss_apart l now
      | opened isOpen => exact onOpen_apart l isOpen
      | grant task inputBytes => exact parkOnAsset_apart l now task inputBytes
      | peerList peers => exact ⟨.inr rfl, id, fun hnone => .inl hnone⟩
      | poll => exact pollFetch_apart l now

theorem onFetchEvent_taken {e : FetchEvent} {g : AssetFetch} (h : l.takes cfg now e = some g) :
    l.onFetchEvent cfg now e =
      if g.received = g.total then { l with fetch := some g }.finishAssetFetch cfg now
      else if g.received % kAssetChunkRequestBatch = 0 then
        { l with fetch := some g }.requestAssetChunks
      else { l with fetch := some g } := by
  obtain ⟨c, hchunk, htaken⟩ := Option.bind_eq_some_iff.mp h
  rw [onFetchEvent_chunk hchunk, handleAssetChunk_taken htaken]

variable {e : Nat × FetchEvent} {g : AssetFetch}

-- The four things that a chunk can come to that is taken.
theorem fetchNext_taken (h : l.takes cfg e.1 e.2 = some g) :
    (l.finishes cfg e = true ∧ (l.fetchNext cfg e).peer = none ∧
        (l.fetchNext cfg e).assetSource = if l.peer.isSome then .peer else .coordinator) ∨
      (l.finishes cfg e = false ∧ g.received = g.total ∧ l.fetchNext cfg e =
        { l.cleared with fetch := some g }.rejectBytesAndRetry e.1) ∨
      (l.finishes cfg e = false ∧ g.received ≠ g.total ∧
        g.received % kAssetChunkRequestBatch = 0 ∧
        l.fetchNext cfg e = { l.cleared with fetch := some g }.requestAssetChunks) ∨
      (l.finishes cfg e = false ∧ l.fetchNext cfg e = { l.cleared with fetch := some g }) := by
  have hnext : l.fetchNext cfg e = _ := onFetchEvent_taken (l := l.cleared) h
  rw [hnext]
  unfold finishes
  rw [h]
  by_cases hall : g.received = g.total
  · simp only [hall, if_true, decide_true, Bool.true_and]
    cases hgood : (cfg.blake3Hex g.bytes = g.address && cfg.loadBvh g.bytes) with
    | true =>
        rw [Bool.and_eq_true, decide_eq_true_eq] at hgood
        exact .inl ⟨rfl, finishAssetFetch_passes (l := { l.cleared with fetch := some g }) rfl
          hgood.1 hgood.2⟩
    | false =>
        exact .inr (.inl ⟨rfl, trivial,
          finishAssetFetch_fails (l := { l.cleared with fetch := some g }) rfl hgood⟩)
  · simp only [hall, if_false, decide_false, Bool.false_and]
    by_cases hbatch : g.received % kAssetChunkRequestBatch = 0
    · rw [if_pos hbatch]
      exact .inr (.inr (.inl ⟨trivial, hall, hbatch, rfl⟩))
    · rw [if_neg hbatch]
      exact .inr (.inr (.inr ⟨trivial, rfl⟩))

theorem rejectBytesAndRetry_none (hpeer : l.peer = none) (now : Nat) :
    (l.rejectBytesAndRetry now).peer = none := by
  unfold rejectBytesAndRetry
  split
  · exact hpeer
  · rw [if_pos (by simp [hpeer])]
    exact (abandonAssetFetch_same l).1

-- Once a fetch has no peer it has none to its end.
theorem fetchNext_peer (h : l.peer = none) :
    (l.fetchNext cfg e).peer = none ∨ l.Empties cfg e := by
  cases htakes : l.takes cfg e.1 e.2 with
  | none =>
      exact (onFetchEvent_untaken (l := l.cleared) htakes).peer h
  | some g =>
      left
      rcases fetchNext_taken htakes with ⟨-, hpeer, -⟩ | ⟨-, -, heq⟩ | ⟨-, -, -, heq⟩ | ⟨-, heq⟩
      · exact hpeer
      · have hnone : ({ l.cleared with fetch := some g } : TaskLoop).peer = none := h
        rw [heq]
        exact rejectBytesAndRetry_none hnone e.1
      · rw [heq, (requestAssetChunks_tells _).peer]
        exact h
      · rw [heq]
        exact h

-- A chunk of the coordinator that is held means that there is no peer.
theorem fromCoordinator_next {past : FetchHistory} (hsep : l.Separate cfg e)
    (hpast : FromCoordinator cfg past → l.peer = none)
    (h : FromCoordinator cfg (past ++ [(l, e)])) : (l.fetchNext cfg e).peer = none := by
  have hkept : l.peer = none ∧ ¬ l.Empties cfg e := by
    rcases Since.concat.mp h with ⟨hcoordinator, htakes, hkeeps⟩ | ⟨hold, hkeeps⟩
    · refine ⟨?_, hkeeps⟩
      by_contra hpeer
      have hnone := hsep.sources (Option.isSome_iff_ne_none.mpr hpeer) hcoordinator
      dsimp only at htakes
      rw [hnone] at htakes
      cases htakes
    · exact ⟨hpast hold, hkeeps⟩
  exact (fetchNext_peer hkept.1).resolve_right hkept.2

theorem keepsApart_of_separate {past : FetchHistory} (hsep : l.Separate cfg e)
    (hpast : FromCoordinator cfg past → l.peer = none) : KeepsApart cfg past l e := by
  cases htakes : l.takes cfg e.1 e.2 with
  | none =>
      have hapart : l.cleared.Apart (l.fetchNext cfg e) :=
        onFetchEvent_untaken (l := l.cleared) htakes
      have hends : l.finishes cfg e = false := by simp [finishes, htakes]
      refine ⟨fun hpeer => ?_, fun hfinishes => ?_, fun hs => .inl (hapart.source hs)⟩
      · rcases hapart.asked with hnone | hsame
        · rw [hnone] at hpeer
          cases hpeer
        · exact hsame
      · rw [hends] at hfinishes
        cases hfinishes
  | some g =>
      rcases fetchNext_taken htakes with ⟨hends, hpeer, hsource⟩ | ⟨hends, -, heq⟩ |
        ⟨hends, hmore, hbatch, heq⟩ | ⟨hends, heq⟩
      · refine ⟨fun hsome => ?_, fun _ hs => ?_, fun _ => .inr hends⟩
        · rw [hpeer] at hsome
          cases hsome
        · have hsome : l.peer.isSome = true := by
            by_contra hnone
            rw [hsource, if_neg hnone] at hs
            cases hs
          refine ⟨?_, fun hold => ?_⟩
          · by_contra hcoordinator
            have huntaken := hsep.sources hsome (by simpa using hcoordinator)
            rw [htakes] at huntaken
            cases huntaken
          · rw [hpast hold] at hsome
            cases hsome
      · obtain ⟨hquiet, hsource⟩ :=
          rejectBytesAndRetry_quiet { l.cleared with fetch := some g } e.1
        rw [← heq] at hquiet hsource
        refine ⟨fun hpeer => ?_, fun hfinishes => ?_, fun hs => .inl (hsource ▸ hs)⟩
        · rcases hquiet with hnone | hsame
          · rw [hnone] at hpeer
            cases hpeer
          · exact hsame
        · rw [hends] at hfinishes
          cases hfinishes
      · have hasks := requestAssetChunks_tells { l.cleared with fetch := some g }
        have hpeer := hasks.peer
        have hsource := hasks.assetSource
        rw [← heq] at hpeer hsource
        refine ⟨fun hsome => ?_, fun hfinishes => ?_, fun hs => .inl (hsource ▸ hs)⟩
        · rw [hpeer] at hsome
          exact absurd hbatch (hsep.batches g hsome htakes hmore)
        · rw [hends] at hfinishes
          cases hfinishes
      · refine ⟨fun _ => ?_, fun hfinishes => ?_, fun hs => .inl ?_⟩
        · rw [heq]
          rfl
        · rw [hends] at hfinishes
          cases hfinishes
        · rw [heq] at hs
          exact hs

-- A run keeps the two sources apart as long as no chunk of the coordinator is taken, and
-- no batch ends, while there is a link to a peer.
theorem peer_phase_pure (cfg : Config) (first : TaskLoop) (x : TaskLoop × FetchHistory)
    (h : Reach (Recalling (FetchStepsTo cfg)) (fun s e => s.1.Separate cfg e) (first, []) x)
    (e : Nat × FetchEvent) (hsep : x.1.Separate cfg e) : KeepsApart cfg x.2 x.1 e := by
  have hpast : FromCoordinator cfg x.2 → x.1.peer = none := by
    refine Recalling.invariant h (fun l past => FromCoordinator cfg past → l.peer = none)
      (fun hnone => absurd hnone Since.nil) ?_
    intro l past e l' _ hsep hold hstep hnow
    rw [hstep]
    exact fromCoordinator_next hsep hold hnow
  exact keepsApart_of_separate hsep hpast

end

def asksPeerForThree : TaskLoop :=
  Swarm.knowsPeer.fetchNext Swarm.knowsThree (0, .grant Swarm.waits 3)

-- A peer sends an asset of one chunk.
theorem peer_phase_pure_three :
    KeepsApart Swarm.knowsThree [(Swarm.knowsPeer, 0, .grant Swarm.waits 3)] asksPeerForThree
      (1, .peer none (.assetChunk (chunkOf Swarm.nameOfThree Swarm.threeBytes 0))) := by
  have hwhole : ((asksPeerForThree.takes Swarm.knowsThree 1
      (.peer none (.assetChunk (chunkOf Swarm.nameOfThree Swarm.threeBytes 0)))).all
        fun g => g.received = g.total) = true := by
    decide +kernel
  refine peer_phase_pure Swarm.knowsThree Swarm.knowsPeer
    (asksPeerForThree, [(Swarm.knowsPeer, 0, .grant Swarm.waits 3)]) ?_ _ ?_
  · refine .single (l := (0, .grant Swarm.waits 3)) ⟨fun h => ?_, fun g h => ?_⟩ ⟨rfl, rfl⟩
    · cases h
    · cases h
  · refine ⟨fun _ hcoordinator => (by cases hcoordinator), fun g _ htakes hmore => ?_⟩
    rw [htakes] at hwhole
    exact absurd (of_decide_eq_true hwhole) hmore

-- A peer sends the asset from its first chunk on, and so many are there.
structure FromPeer (hash : Hash32) (blob : List UInt8) (j : Nat) (l : TaskLoop) (f : AssetFetch) :
    Prop where
  holding : l.Holding hash blob f
  peer : l.peer.isSome = true
  missing : f.missing = Finset.Ico j (chunkTotal blob)
  received : f.received.toNat = j

def peerSends (hash : Hash32) (blob : List UInt8) (j : Nat) : Nat × FetchEvent :=
  (0, .peer none (.assetChunk (chunkOf hash blob j)))

section

variable {cfg : Config} {hash : Hash32} {blob : List UInt8} {l : TaskLoop} {f : AssetFetch}
  {j : Nat}

theorem FromPeer.takesRight (h : FromPeer hash blob j l f) (hblob : Fetchable blob)
    (cfg : Config) (hmore : j + 1 < chunkTotal blob) :
    ∃ g, TakesRight hash blob j f g l.cleared (l.fetchNext cfg (peerSends hash blob j)) ∧
      FromPeer hash blob (j + 1) (l.fetchNext cfg (peerSends hash blob j)) g := by
  have hcleared : l.cleared.Holding hash blob f :=
    ⟨h.holding.fetch, h.holding.kept, h.holding.address, h.holding.expected, h.holding.parked⟩
  have hrest : f.missing.erase j = Finset.Ico (j + 1) (chunkTotal blob) := by
    rw [h.missing]
    ext i
    simp only [Finset.mem_erase, Finset.mem_Ico]
    omega
  have hmem : j ∈ f.missing := by
    rw [h.missing, Finset.mem_Ico]
    omega
  obtain ⟨g, hright⟩ := hcleared.takesRight hblob cfg 0 (i := j) (by omega) (by
    rw [hrest]
    exact ⟨j + 1, Finset.mem_Ico.mpr ⟨Nat.le_refl _, hmore⟩⟩)
  have hreceived := hright.received
  rw [if_pos hmem, h.received] at hreceived
  refine ⟨g, hright, hright.holding, ?_, hright.missing.trans hrest, hreceived⟩
  exact hright.peer ▸ h.peer

theorem FromPeer.run (h : FromPeer hash blob 0 l f) (hblob : Fetchable blob) (cfg : Config)
    (past : FetchHistory) (hj : j < chunkTotal blob) :
    ∃ x g, Reach (Recalling (FetchStepsTo cfg)) (fun _ _ => True) (l, past) x ∧
      FromPeer hash blob j x.1 g := by
  induction j with
  | zero => exact ⟨(l, past), f, Reach.refl _, h⟩
  | succ j ih =>
      obtain ⟨x, g, hrun, hx⟩ := ih (by omega)
      obtain ⟨g', -, hnext⟩ := hx.takesRight hblob cfg hj
      refine ⟨(x.1.fetchNext cfg (peerSends hash blob j), x.2 ++ [(x.1, peerSends hash blob j)]),
        g', ?_, hnext⟩
      exact hrun.tail (l := peerSends hash blob j) trivial ⟨rfl, rfl⟩

-- Of an asset of more than one batch a peer alone cannot send the first batch without the
-- coordinator being asked for the next.
theorem FromPeer.asks (h : FromPeer hash blob 0 l f) (hblob : Fetchable blob)
    (hlong : 64 < chunkTotal blob) (cfg : Config) (past : FetchHistory) :
    ∃ x, Reach (Recalling (FetchStepsTo cfg)) (fun _ _ => True) (l, past) x ∧
      ¬ KeepsApart cfg x.2 x.1 (peerSends hash blob 63) := by
  obtain ⟨x, g, hrun, hx⟩ := h.run hblob cfg past (j := 63) (by omega)
  obtain ⟨g', hright, hnext⟩ := hx.takesRight hblob cfg (by omega)
  have hmem : 63 ∈ g.missing := by
    rw [hx.missing, Finset.mem_Ico]
    omega
  obtain ⟨m, -, -, hasked⟩ := hright.asks hmem (by rw [hx.received])
  refine ⟨x, hrun, fun hapart => ?_⟩
  have hsilent := hapart.silent hnext.peer
  rw [hasked] at hsilent
  simp at hsilent

end

-- A channel opens to the peer that has the 129 chunks, and it sends 64 of them.
def asksPeerForZeros : List (Nat × FetchEvent) :=
  [(0, .grant Swarm.waitsForZeros 2113536), (0, .opened true)]

theorem peer_batch_asks_coordinator :
    ∃ x, Reach (Recalling (FetchStepsTo Swarm.knowsZeros)) (fun _ _ => True)
        (Swarm.knowsPeer, []) x ∧
      ¬ KeepsApart Swarm.knowsZeros x.2 x.1 (peerSends Swarm.nameOfZeros Swarm.zeros 63) := by
  have htotal := Swarm.zeros_total
  have hopened := onOpen_quiet Swarm.startsZeros.loop.cleared true
  have hparked := Swarm.startsZeros_holding
  have hfresh : (Swarm.freshFetch 0 Swarm.waitsForZeros 2113536).missing =
      Finset.range (chunkTotal Swarm.zeros) :=
    Swarm.freshFetch_missing Swarm.zeros_length.symm
  have hfirst : FromPeer Swarm.nameOfZeros Swarm.zeros 0
      (Swarm.startsZeros.loop.cleared.onOpen true)
      (Swarm.freshFetch 0 Swarm.waitsForZeros 2113536) := by
    refine ⟨⟨hopened.fetch.trans hparked.fetch, hparked.kept, hparked.address, hparked.expected,
      fun t ht => hparked.parked t (hopened.patient.waiting ▸ ht)⟩, ?_, ?_, rfl⟩
    · by_contra hnone
      have hlost := hopened.peer (by simpa using hnone)
      cases hlost
    · rw [hfresh, Finset.range_eq_Ico]
  obtain ⟨x, hrun, hx⟩ := hfirst.asks Swarm.zeros_fetchable (by omega) Swarm.knowsZeros
    (Recalling.history (fetchNext Swarm.knowsZeros) Swarm.knowsPeer asksPeerForZeros)
  have hnext : ∀ l e, FetchStepsTo Swarm.knowsZeros l e (l.fetchNext Swarm.knowsZeros e) :=
    fun _ _ => rfl
  have hstart := Recalling.foldl hnext asksPeerForZeros [] Swarm.knowsPeer
  exact ⟨x, hstart.trans hrun, hx⟩

end TaskLoop

end P2pGpu.Worker
