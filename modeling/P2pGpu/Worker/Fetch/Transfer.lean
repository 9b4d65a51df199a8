import P2pGpu.Worker.Fetch.Completion

namespace P2pGpu.Worker

open P2pGpu.Protocol
open P2pGpu.Coordinator (AssetRequest Double Hash32 Reply Session Shared kChunkBytes
  kMaxChunksPerRequest)

def isChunk : Reply → Bool
  | .assetChunk .. => true
  | _ => false

section

variable {F : Type} [Double F]

theorem length_chunks_le (blob : List UInt8) (hash : Hash32) (total start finish : UInt32) :
    (Session.chunks blob hash total start
      (min finish (start + kMaxChunksPerRequest))).length ≤ 64 := by
  have hbatch : (start + kMaxChunksPerRequest).toNat ≤ start.toNat + 64 := by
    rw [UInt32.toNat_add]
    exact Nat.mod_le _ _
  have htaken : ∀ p : Nat → Bool, ∀ n, ((List.range' start.toNat n).takeWhile p).length ≤ n := by
    intro p n
    have hle := (List.takeWhile_prefix (l := List.range' start.toNat n) p).length_le
    rwa [List.length_range'] at hle
  rw [Session.chunks, List.length_map]
  apply (htaken _ _).trans
  rw [LittleEndian.toNat_minU32]
  omega

-- No request is worth more than one batch, whatever it asks for: where the end of its
-- window wraps around, there is nothing in it.
theorem chunks_of_request_le (ccfg : Coordinator.Config F) (session : Session) (w : Shared F)
    (req : AssetRequest) :
    (session.onAssetRequest ccfg w req).reaction.replies.countP isChunk ≤ 64 := by
  unfold Session.onAssetRequest
  cases req.hash with
  | none => simp [Session.nonFatal, isChunk]
  | some hash =>
      dsimp only
      cases ccfg.assets.bind fun store => store.find hash.address with
      | none => simp [isChunk]
      | some blob =>
          dsimp only
          by_cases hrange : (blob.length + kChunkBytes - 1) / kChunkBytes = 0 ∨
              0xFFFFFFFF < (blob.length + kChunkBytes - 1) / kChunkBytes
          · rw [if_pos hrange]
            simp [isChunk]
          · rw [if_neg hrange]
            by_cases hempty : UInt32.ofNat (min req.chunkTo.toNat
                ((blob.length + kChunkBytes - 1) / kChunkBytes)) ≤ req.chunkFrom
            · rw [if_pos hempty]
              simp [isChunk]
            · rw [if_neg hempty]
              exact List.countP_le_length.trans (length_chunks_le ..)

end

namespace TaskLoop

-- The first chunks are there, and the others come from the coordinator.
structure Midway (hash : Hash32) (blob : List UInt8) (j : Nat) (l : TaskLoop) (f : AssetFetch) :
    Prop where
  fetch : l.fetch = some f
  peer : l.peer = none
  kept : f.Kept
  address : f.address = hash.address
  expected : f.expectedBytes.toNat = blob.length
  missing : f.missing = Finset.Ico j (chunkTotal blob)
  received : f.received.toNat = j
  right : f.Untainted blob

-- The next chunk is in its place.
structure Placed (hash : Hash32) (blob : List UInt8) (j : Nat) (g : AssetFetch) : Prop where
  sized : g.Sized
  address : g.address = hash.address
  expected : g.expectedBytes.toNat = blob.length
  total : g.total = UInt32.ofNat (chunkTotal blob)
  missing : g.missing = Finset.Ico (j + 1) (chunkTotal blob)
  received : g.received.toNat = j + 1
  right : g.Untainted blob

-- The buffer that a chunk makes the worker hash, if it is the last one.
def hashed (cfg : Config) (l : TaskLoop) (now : Nat) (c : AssetChunk) : Option (List UInt8) :=
  match l.fetch, c.bytes with
  | some f, some bytes =>
      match f.take cfg now c.index c.total bytes with
      | .stored g => if g.received = g.total then some g.bytes else none
      | _ => none
  | _, _ => none

section

variable {cfg : Config} {hash : Hash32} {blob : List UInt8} {l : TaskLoop} {f g : AssetFetch}
  {now j : Nat}

-- Nothing is hashed but in FinishAssetFetch, and there it is the buffer.
theorem hashed_spec (cfg : Config) (l : TaskLoop) (now : Nat) (c : AssetChunk) :
    (∃ g, l.hashed cfg now c = some g.bytes ∧
      l.handleAssetChunk cfg now c = { l with fetch := some g }.finishAssetFetch cfg now) ∨
    (l.hashed cfg now c = none ∧ ∀ blake3Hex,
      l.handleAssetChunk { cfg with blake3Hex } now c = l.handleAssetChunk cfg now c) := by
  unfold hashed handleAssetChunk
  cases l.fetch with
  | none => exact .inr ⟨rfl, fun _ => rfl⟩
  | some f =>
      cases c.bytes with
      | none => exact .inr ⟨rfl, fun _ => rfl⟩
      | some bytes =>
          have hsame : ∀ blake3Hex, f.take { cfg with blake3Hex } now c.index c.total bytes =
              f.take cfg now c.index c.total bytes := fun _ => rfl
          simp only [hsame]
          cases f.take cfg now c.index c.total bytes with
          | refused why => exact .inr ⟨rfl, fun _ => rfl⟩
          | duplicate g => exact .inr ⟨rfl, fun _ => rfl⟩
          | stored g =>
              by_cases hall : g.received = g.total
              · simp only [if_pos hall]
                exact .inl ⟨g, rfl, rfl⟩
              · simp only [if_neg hall]
                exact .inr ⟨trivial, fun _ => trivial⟩

theorem Midway.of_same {l' : TaskLoop} (h : l.Midway hash blob j f) (hfetch : l'.fetch = l.fetch)
    (hpeer : l'.peer = l.peer) : l'.Midway hash blob j f :=
  ⟨hfetch.trans h.fetch, hpeer.trans h.peer, h.kept, h.address, h.expected, h.missing, h.received,
    h.right⟩

theorem Midway.takes (h : l.Midway hash blob j f) (hblob : Fetchable blob) (cfg : Config)
    (now : Nat) (hj : j < chunkTotal blob) :
    ∃ g, Placed hash blob j g ∧ f.take cfg now (UInt32.ofNat j) (UInt32.ofNat (chunkTotal blob))
      (Chunks.piece kChunkBytes blob j) = .stored g := by
  have hpos : 0 < f.expectedBytes.toNat := h.expected ▸ hblob.pos
  have hbound : f.expectedBytes.toNat ≤ kMaxAssetBytes := h.expected ▸ hblob.bound
  have hof := hblob.toNat_ofNat hj.le
  have hmem : j ∈ f.missing := by
    rw [h.missing, Finset.mem_Ico]
    exact ⟨Nat.le_refl j, hj⟩
  have hnew := (AssetFetch.mem_missing.mp hmem).2
  rcases h.kept.take_cases cfg now (UInt32.ofNat j) (UInt32.ofNat (chunkTotal blob))
    (Chunks.piece kChunkBytes blob j) with
    ⟨why, hrefused⟩ | ⟨g, hset, hindex, ⟨-, hheld⟩ | ⟨htake, -, hlen⟩⟩
  · have hfits : f.Fits (chunkOf hash blob j) (Chunks.piece kChunkBytes blob j) :=
      hblob.chunkOf_fits h.expected hj rfl
    exact absurd hrefused (h.kept.take_fits hpos hbound hfits why)
  · have hheld' : f.holds (UInt32.ofNat j).toNat = true := (hset.held _).symm.trans hheld
    rw [hof, hnew] at hheld'
    cases hheld'
  · have hst : Swarm.Stores f g (UInt32.ofNat j) (Chunks.piece kChunkBytes blob j) :=
      ⟨hset, hindex, by rw [hof]; exact hnew, hlen⟩
    refine ⟨_, ⟨hst.sized now, hset.address.trans h.address,
      (congrArg UInt64.toNat hset.expectedBytes).trans h.expected, ?_, ?_, ?_, ?_⟩, htake⟩
    · apply UInt32.toNat_inj.mp
      show g.total.toNat = _
      rw [← hset.sized.chunkCount_eq, hset.sameHeld.chunkCount,
        hblob.toNat_ofNat (Nat.le_refl _), AssetFetch.chunkCount, h.expected, chunkTotal]
    · have hmissing := hst.missing now
      rw [hof, h.missing] at hmissing
      refine hmissing.trans ?_
      ext i
      rw [Finset.mem_erase, Finset.mem_Ico, Finset.mem_Ico]
      omega
    · have hreceived := hst.received now
      rw [h.received] at hreceived
      exact hreceived
    · exact (hset.sameHeld.untainted h.right).store hset.sized hindex hlen (by rw [hof])

theorem Placed.all_iff (h : Placed hash blob j g) (hblob : Fetchable blob) :
    g.received = g.total ↔ j + 1 = chunkTotal blob := by
  rw [← UInt32.toNat_inj, h.received, h.total, hblob.toNat_ofNat (Nat.le_refl _)]

theorem Placed.batch_iff (h : Placed hash blob j g) :
    g.received % kAssetChunkRequestBatch = 0 ↔ (j + 1) % 64 = 0 := by
  rw [← UInt32.toNat_inj, UInt32.toNat_mod, h.received]
  rfl

theorem Placed.midway (h : Placed hash blob j g) (hf : l.fetch = some g) (hpeer : l.peer = none) :
    l.Midway hash blob (j + 1) g :=
  ⟨hf, hpeer, .inr h.sized, h.address, h.expected, h.missing, h.received, h.right⟩

theorem Placed.bytes_eq (h : Placed hash blob j g) (hblob : Fetchable blob)
    (hlast : j + 1 = chunkTotal blob) : g.bytes = blob :=
  h.sized.bytes_eq ((h.all_iff hblob).mpr hlast) h.right h.expected

-- The first that is missing is the one after the last that came in.
theorem Placed.firstMissing (h : Placed hash blob j g) (hmore : j + 1 < chunkTotal blob) :
    g.firstMissing = some (j + 1) := by
  have hnext : j + 1 ∈ g.missing := by
    rw [h.missing, Finset.mem_Ico]
    exact ⟨Nat.le_refl _, hmore⟩
  obtain ⟨m, hm, hmem, hleast⟩ := h.sized.firstMissing_some ⟨_, hnext⟩
  rw [h.missing, Finset.mem_Ico] at hmem
  have hle := hleast _ hnext
  have hsame : m = j + 1 := by omega
  rw [hm, hsame]

-- What becomes of the loop is a matter of how many chunks there are now.
theorem Midway.handles (h : l.Midway hash blob j f) (htake : f.take cfg now (UInt32.ofNat j)
    (UInt32.ofNat (chunkTotal blob)) (Chunks.piece kChunkBytes blob j) = .stored g) :
    l.handleAssetChunk cfg now (chunkOf hash blob j) =
        (if g.received = g.total then { l with fetch := some g }.finishAssetFetch cfg now
        else if g.received % kAssetChunkRequestBatch = 0 then
          { l with fetch := some g }.requestAssetChunks
        else { l with fetch := some g }) ∧
      l.hashed cfg now (chunkOf hash blob j) =
        if g.received = g.total then some g.bytes else none := by
  unfold handleAssetChunk hashed
  simp only [h.fetch, chunkOf, htake, and_self]

theorem Placed.requests (h : Placed hash blob j g) (hmore : j + 1 < chunkTotal blob)
    (hf : l.fetch = some g) :
    l.requestAssetChunks = l.send (.assetRequest (nextRequest hash blob (j + 1))) := by
  obtain ⟨hlen, hhash⟩ := hashOfHex_address hash
  rw [← h.address] at hlen hhash
  unfold requestAssetChunks
  simp only [hf, h.firstMissing hmore]
  rw [sendAssetRequest_eq l hlen hhash, h.total, nextRequest]

theorem Midway.goesOn (h : l.Midway hash blob j f) (hblob : Fetchable blob) (cfg : Config)
    (now : Nat) (hmore : j + 1 < chunkTotal blob) :
    ∃ g, (l.handleAssetChunk cfg now (chunkOf hash blob j)).Midway hash blob (j + 1) g ∧
      (l.handleAssetChunk cfg now (chunkOf hash blob j)).asked =
        l.asked ++ (if (j + 1) % 64 = 0 then [nextRequest hash blob (j + 1)] else []) ∧
      l.hashed cfg now (chunkOf hash blob j) = none := by
  obtain ⟨g, hg, htake⟩ := h.takes hblob cfg now (Nat.lt_of_succ_lt hmore)
  obtain ⟨hhandles, hhashed⟩ := h.handles htake
  have hnot : ¬ g.received = g.total := by
    rw [hg.all_iff hblob]
    omega
  rw [if_neg hnot] at hhandles hhashed
  rw [hhandles]
  by_cases hbatch : (j + 1) % 64 = 0
  · rw [if_pos (hg.batch_iff.mpr hbatch), if_pos hbatch, hg.requests hmore rfl]
    refine ⟨g, hg.midway rfl h.peer, ?_, hhashed⟩
    rw [asked_send]
    rfl
  · rw [if_neg fun hzero => hbatch (hg.batch_iff.mp hzero), if_neg hbatch]
    exact ⟨g, hg.midway rfl h.peer, (List.append_nil _).symm, hhashed⟩

-- The asset is there, if it is one.
structure Settled (cfg : Config) (hash : Hash32) (blob : List UInt8) (l l' : TaskLoop) :
    Prop where
  fetch : l'.fetch = none
  asked : l'.asked = l.asked
  resident : cfg.loadBvh blob = true →
    l'.residentAsset = hash.address ∧ l'.residentBytes = blob

theorem Midway.finishes (h : l.Midway hash blob j f) (hblob : Fetchable blob) (cfg : Config)
    (now : Nat) (hnamed : cfg.blake3Hex blob = hash.address) (hlast : j + 1 = chunkTotal blob) :
    Settled cfg hash blob l (l.handleAssetChunk cfg now (chunkOf hash blob j)) ∧
      l.hashed cfg now (chunkOf hash blob j) = some blob := by
  obtain ⟨g, hg, htake⟩ := h.takes hblob cfg now (by omega)
  obtain ⟨hhandles, hhashed⟩ := h.handles htake
  have hall : g.received = g.total := (hg.all_iff hblob).mpr hlast
  have hbytes := hg.bytes_eq hblob hlast
  have hgood : ¬ cfg.blake3Hex g.bytes ≠ g.address := by
    rw [hbytes, hg.address, hnamed]
    exact not_not.mpr rfl
  rw [if_pos hall] at hhandles hhashed
  refine ⟨?_, by rw [hhashed, hbytes]⟩
  rw [hhandles, finishAssetFetch]
  dsimp only
  rw [if_neg hgood, hbytes]
  cases hload : cfg.loadBvh blob with
  | false =>
      have habandoned := abandonAssetFetch_abandoned { l with fetch := some g }
      have hrejects : ({ l with fetch := some g } : TaskLoop).rejectBytesAndRetry now =
          { l with fetch := some g }.abandonAssetFetch := by
        simp [rejectBytesAndRetry, h.peer]
      rw [if_pos (show (!false) = true from rfl), hrejects]
      exact ⟨habandoned.fetch, habandoned.asked, fun htrue => by
        rw [hload] at htrue
        cases htrue⟩
  | true =>
      rw [if_neg (by simp)]
      exact ⟨releaseAll_fetch .., (releaseAll_outbox ..).1, fun _ =>
        ⟨(releaseAll_resident ..).1.trans hg.address, (releaseAll_resident ..).2⟩⟩

end

end TaskLoop

namespace Swarm

-- What is asked for from a batch on. At first the worker does not know how many there are.
def window (hash : Hash32) (blob : List UInt8) (j : Nat) : AssetRequest :=
  if j = 0 then ⟨some hash, 0, kAssetChunkRequestBatch⟩ else TaskLoop.nextRequest hash blob j

-- The end of the batch that a chunk is in.
def windowEnd (blob : List UInt8) (j : Nat) : Nat := min (chunkTotal blob) (64 * (j / 64 + 1))

section

variable {hash : Hash32} {blob : List UInt8} {j : Nat}

theorem window_bounds (hblob : Fetchable blob) (hash : Hash32) (hj : j < chunkTotal blob) :
    (window hash blob j).chunkFrom.toNat = j ∧
      min (window hash blob j).chunkTo.toNat (chunkTotal blob) = min (chunkTotal blob) (j + 64) := by
  have hsmall := hblob.total_le
  by_cases hzero : j = 0
  · subst hzero
    refine ⟨rfl, ?_⟩
    show min 64 (chunkTotal blob) = min (chunkTotal blob) (0 + 64)
    omega
  · have hof := hblob.toNat_ofNat hj.le
    have hbatch : (UInt32.ofNat j + kAssetChunkRequestBatch).toNat = j + 64 := by
      rw [UInt32.toNat_add, hof]
      apply Nat.mod_eq_of_lt
      show j + 64 < 2 ^ 32
      omega
    rw [window, if_neg hzero, TaskLoop.nextRequest]
    refine ⟨hof, ?_⟩
    rw [LittleEndian.toNat_minU32, hbatch, hblob.toNat_ofNat (Nat.le_refl _)]
    omega

theorem window_askable (hblob : Fetchable blob) (hash : Hash32) (hj : j < chunkTotal blob) :
    Askable hash blob (window hash blob j) := by
  obtain ⟨hfrom, hto⟩ := window_bounds hblob hash hj
  refine ⟨?_, by omega, by omega⟩
  rw [window]
  split <;> rfl

-- The answer is the batch.
theorem answerOf_window (hblob : Fetchable blob) (hash : Hash32) (hj : j < chunkTotal blob)
    (hstart : j % 64 = 0) :
    answerOf blob (window hash blob j) = List.range' j (windowEnd blob j - j) := by
  obtain ⟨hfrom, hto⟩ := window_bounds hblob hash hj
  have hend : windowEnd blob j = min (chunkTotal blob) (j + 64) := by
    rw [windowEnd]
    omega
  rw [answerOf, hfrom, hto, hend]
  congr 1
  omega

end

-- What is on the way: the request for a batch, or what is left of the answer.
inductive Owes (hash : Hash32) (blob : List UInt8) (j : Nat) (s : Swarm) : Prop where
  | asked (hstart : j % 64 = 0) (hreqs : s.requests = [window hash blob j]) (hreps : s.replies = [])
  | sent (hreqs : s.requests = [])
      (hreps : s.replies =
        (List.range' j (windowEnd blob j - j)).map (chunkReply hash blob))

section

variable {F : Type} [Double F]

-- The coordinator answers, and its answers come in. A poll is not too late, and what is
-- granted waits for the same asset.
def Undisturbed (hash : Hash32) (s : Swarm) (now : Nat) : SwarmEvent F → Prop
  | .answer .. => s.requests ≠ []
  | .deliver => s.replies ≠ []
  | .poll => ∀ f, s.loop.fetch = some f → now - f.lastProgress ≤ kAssetStallTimeout
  | .granted task _ => s.loop.fetch.isSome = true ∧ task.asset = hash.address
  | _ => False

-- What a step of a run asks for, what it brings to the worker and which buffer it makes
-- the worker hash.
def stepAsks (cfg : Config) (ccfg : Coordinator.Config F) (x : Swarm × Nat × SwarmEvent F) :
    List AssetRequest :=
  (x.1.next cfg ccfg x.2.1 x.2.2).loop.asked

def stepBrings (x : Swarm × Nat × SwarmEvent F) : Option Reply :=
  match x.2.2 with
  | .deliver => x.1.replies.head?
  | _ => none

def stepHashes (cfg : Config) (x : Swarm × Nat × SwarmEvent F) : Option (List UInt8) :=
  match x.2.2 with
  | .peer _ (.assetChunk c) => x.1.loop.hashed cfg x.2.1 c
  | .deliver =>
      match x.1.replies with
      | .assetChunk hash index total bytes :: _ =>
          x.1.loop.hashed cfg x.2.1 ⟨some hash, index, total, some bytes⟩
      | _ => none
  | _ => none

def stepTurns (x : Swarm × Nat × SwarmEvent F) : Bool :=
  match x.2.2 with
  | .answer .. | .deliver => true
  | _ => false

-- What was asked for since the run began, with what its first state had asked for.
def issued (cfg : Config) (ccfg : Coordinator.Config F) (first : Swarm)
    (past : List (Swarm × Nat × SwarmEvent F)) : List AssetRequest :=
  first.loop.asked ++ past.flatMap (stepAsks cfg ccfg)

-- How far a transfer is, by the record of its run.
structure Counts (cfg : Config) (ccfg : Coordinator.Config F) (hash : Hash32) (blob : List UInt8)
    (first s : Swarm) (past : List (Swarm × Nat × SwarmEvent F)) (batches j : Nat)
    (buffers : List (List UInt8)) : Prop where
  issued : (issued cfg ccfg first past).length = batches
  brought : past.filterMap stepBrings = (List.range j).map (chunkReply hash blob)
  hashed : past.filterMap (stepHashes cfg) = buffers
  turns : past.countP stepTurns + s.requests.length = batches + j

-- A transfer goes from batch to batch until all is there.
inductive Stage (cfg : Config) (ccfg : Coordinator.Config F) (hash : Hash32) (blob : List UInt8)
    (first s : Swarm) (past : List (Swarm × Nat × SwarmEvent F)) : Prop where
  | going {j : Nat} {f : AssetFetch} (hj : j < chunkTotal blob)
      (hloop : s.loop.Midway hash blob j f) (howes : Owes hash blob j s)
      (hcounts : Counts cfg ccfg hash blob first s past (j / 64 + 1) j [])
  | done (hfetch : s.loop.fetch = none) (hreqs : s.requests = []) (hreps : s.replies = [])
      (hresident : cfg.loadBvh blob = true →
        s.loop.residentAsset = hash.address ∧ s.loop.residentBytes = blob)
      (hcounts : Counts cfg ccfg hash blob first s past ((chunkTotal blob + 63) / 64)
        (chunkTotal blob) [blob])

variable {cfg : Config} {ccfg : Coordinator.Config F} {hash : Hash32} {blob : List UInt8}
  {first s s' : Swarm} {past : List (Swarm × Nat × SwarmEvent F)} {now : Nat}

theorem Counts.next {batches batches' j j' : Nat} {buffers buffers' : List (List UInt8)}
    {x : Swarm × Nat × SwarmEvent F} (h : Counts cfg ccfg hash blob first s past batches j buffers)
    (hasked : batches + (stepAsks cfg ccfg x).length = batches')
    (hbrought : (List.range j).map (chunkReply hash blob) ++ (stepBrings x).toList =
      (List.range j').map (chunkReply hash blob))
    (hhashed : buffers ++ (stepHashes cfg x).toList = buffers')
    (hturns : batches + j + (if stepTurns x = true then 1 else 0) + s'.requests.length =
      batches' + j' + s.requests.length) :
    Counts cfg ccfg hash blob first s' (past ++ [x]) batches' j' buffers' := by
  have hone : ∀ {β : Type} (p : Swarm × Nat × SwarmEvent F → Option β),
      [x].filterMap p = (p x).toList := by
    intro β p
    cases hp : p x <;> simp [hp]
  refine ⟨?_, ?_, ?_, ?_⟩
  · have hissued := h.issued
    simp only [Swarm.issued, List.length_append, List.flatMap_append, List.flatMap_cons,
      List.flatMap_nil, List.append_nil] at hissued ⊢
    omega
  · rw [List.filterMap_append, h.brought, hone, hbrought]
  · rw [List.filterMap_append, h.hashed, hone, hhashed]
  · have hold := h.turns
    rw [List.countP_append, List.countP_singleton]
    omega

-- The coordinator answers the one request there is.
theorem Stage.answered {j : Nat} {f : AssetFetch} (hblob : Fetchable blob)
    (hserves : Serves ccfg hash blob) (session : Session) (w : Shared F)
    (hj : j < chunkTotal blob) (hloop : s.loop.Midway hash blob j f) (howes : Owes hash blob j s)
    (hreq : s.requests ≠ []) (hcounts : Counts cfg ccfg hash blob first s past (j / 64 + 1) j []) :
    Stage cfg ccfg hash blob first (s.next cfg ccfg now (.answer session w))
      (past ++ [(s, now, .answer session w)]) := by
  cases howes with
  | sent hreqs _ => exact absurd hreqs hreq
  | asked hstart hreqs hreps =>
      have hnext : s.next cfg ccfg now (.answer session w) =
          { s with
            requests := []
            replies := (List.range' j (windowEnd blob j - j)).map
              (chunkReply hash blob) }.after s.loop.cleared := by
        have hanswer := replies_of_serves hblob hserves (window_askable hblob hash hj) session w
        have hbatch := answerOf_window hblob hash hj hstart
        rw [answerOf] at hbatch
        simp only [Swarm.next, hreqs, hanswer, hbatch, hreps, List.nil_append]
      have hnone : stepAsks cfg ccfg (s, now, .answer session w) = [] := by
        rw [stepAsks, hnext]
        rfl
      refine .going hj (f := f) ?_ (.sent ?_ ?_) (hcounts.next ?_ ?_ ?_ ?_)
      · rw [hnext]
        exact hloop.of_same rfl rfl
      · rw [hnext]
        rfl
      · rw [hnext]
        rfl
      · rw [hnone]
        rfl
      · exact List.append_nil _
      · rfl
      · rw [hnext, hreqs]
        rfl

theorem windowEnd_gt {j : Nat} (hj : j < chunkTotal blob) : j < windowEnd blob j := by
  rw [windowEnd]
  omega

-- The next chunk comes in.
theorem Stage.delivered {j : Nat} {f : AssetFetch} (hblob : Fetchable blob)
    (hnamed : cfg.blake3Hex blob = hash.address) (hj : j < chunkTotal blob)
    (hloop : s.loop.Midway hash blob j f) (howes : Owes hash blob j s) (hrep : s.replies ≠ [])
    (hcounts : Counts cfg ccfg hash blob first s past (j / 64 + 1) j []) :
    Stage cfg ccfg hash blob first (s.next cfg ccfg now .deliver)
      (past ++ [(s, now, .deliver)]) := by
  cases howes with
  | asked _ _ hreps => exact absurd hreps hrep
  | sent hreqs hreps =>
      have hend := windowEnd_gt hj
      have hsplit : windowEnd blob j - j = (windowEnd blob j - (j + 1)) + 1 := by omega
      rw [hsplit, List.range'_succ, List.map_cons] at hreps
      have hcleared : s.loop.cleared.Midway hash blob j f := hloop.of_same rfl rfl
      have hnext : s.next cfg ccfg now .deliver =
          { s with
            replies := (List.range' (j + 1) (windowEnd blob j - (j + 1))).map
              (chunkReply hash blob) }.after
            (s.loop.cleared.handleAssetChunk cfg now (chunkOf hash blob j)) := by
        simp only [Swarm.next, hreps]
        rfl
      have hbrings : stepBrings (s, now, (.deliver : SwarmEvent F)) =
          some (chunkReply hash blob j) := by
        simp only [stepBrings, hreps, List.head?_cons]
      have hhashes : stepHashes cfg (s, now, (.deliver : SwarmEvent F)) =
          s.loop.cleared.hashed cfg now (chunkOf hash blob j) := by
        simp only [stepHashes, hreps]
        rfl
      have hbrought : (List.range j).map (chunkReply hash blob) ++
          (stepBrings (s, now, (.deliver : SwarmEvent F))).toList =
            (List.range (j + 1)).map (chunkReply hash blob) := by
        rw [hbrings, List.range_succ, List.map_append]
        rfl
      have hasks : stepAsks cfg ccfg (s, now, .deliver) =
          (s.loop.cleared.handleAssetChunk cfg now (chunkOf hash blob j)).asked := by
        rw [stepAsks, hnext]
        rfl
      have hquiet : s.loop.cleared.asked = [] := rfl
      have hwaiting : (s.next cfg ccfg now .deliver).requests =
          (s.loop.cleared.handleAssetChunk cfg now (chunkOf hash blob j)).asked := by
        rw [hnext]
        show s.requests ++ _ = _
        rw [hreqs, List.nil_append]
      rcases Nat.lt_or_ge (j + 1) (chunkTotal blob) with hmore | hlast
      · obtain ⟨g, hmidway, hasked, hhashed⟩ := hcleared.goesOn hblob cfg now hmore
        rw [hquiet, List.nil_append] at hasked
        rw [hasked] at hasks hwaiting
        rw [hhashed] at hhashes
        refine .going hmore (f := g) (by rw [hnext]; exact hmidway) ?_ (hcounts.next ?_ hbrought ?_ ?_)
        · by_cases hbatch : (j + 1) % 64 = 0
          · refine .asked hbatch ?_ ?_
            · rw [hwaiting, if_pos hbatch, window, if_neg (Nat.succ_ne_zero j)]
            · have hnothing : windowEnd blob j - (j + 1) = 0 := by
                rw [windowEnd]
                omega
              rw [hnext, hnothing]
              rfl
          · refine .sent ?_ ?_
            · rw [hwaiting, if_neg hbatch]
            · have hsame : windowEnd blob (j + 1) = windowEnd blob j := by
                rw [windowEnd, windowEnd]
                omega
              rw [hnext, hsame]
              rfl
        · rw [hasks]
          split
          · rw [List.length_singleton]
            omega
          · rw [List.length_nil]
            omega
        · rw [hhashes]
          rfl
        · rw [hwaiting, hreqs]
          show _ + 1 + _ = _
          split
          · rw [List.length_singleton, List.length_nil]
            omega
          · rw [List.length_nil]
            omega
      · have hall : j + 1 = chunkTotal blob := by omega
        obtain ⟨hsettled, hhashed⟩ := hcleared.finishes hblob cfg now hnamed hall
        have hasked := hsettled.asked.trans hquiet
        rw [hasked] at hasks hwaiting
        rw [hhashed] at hhashes
        refine .done ?_ hwaiting ?_ ?_ (hcounts.next ?_ (hall ▸ hbrought) ?_ ?_)
        · rw [hnext]
          exact hsettled.fetch
        · have hnothing : windowEnd blob j - (j + 1) = 0 := by
            rw [windowEnd]
            omega
          rw [hnext, hnothing]
          rfl
        · rw [hnext]
          exact hsettled.resident
        · rw [hasks, List.length_nil]
          omega
        · rw [hhashes]
          rfl
        · rw [hwaiting, hreqs]
          show _ + 1 + _ = _
          omega

-- A step that leaves the fetch as it is, and what is on the way.
theorem Stage.rests (h : Stage cfg ccfg hash blob first s past) {e : SwarmEvent F} {l : TaskLoop}
    (hnext : s.next cfg ccfg now e = s.after l) (hfetch : l.fetch = s.loop.fetch)
    (hpeer : l.peer = s.loop.peer) (hasset : l.residentAsset = s.loop.residentAsset)
    (hbytes : l.residentBytes = s.loop.residentBytes) (hasked : l.asked = [])
    (hbrings : stepBrings (s, now, e) = none) (hhashes : stepHashes cfg (s, now, e) = none)
    (hturns : stepTurns (s, now, e) = false) :
    Stage cfg ccfg hash blob first (s.next cfg ccfg now e) (past ++ [(s, now, e)]) := by
  have hreqs : (s.next cfg ccfg now e).requests = s.requests := by
    rw [hnext]
    show s.requests ++ l.asked = _
    rw [hasked, List.append_nil]
  have hreps : (s.next cfg ccfg now e).replies = s.replies := by
    rw [hnext]
    rfl
  have hcount : ∀ {batches j buffers}, Counts cfg ccfg hash blob first s past batches j buffers →
      Counts cfg ccfg hash blob first (s.next cfg ccfg now e) (past ++ [(s, now, e)]) batches j
        buffers := by
    intro batches j buffers hcounts
    have hasks : stepAsks cfg ccfg (s, now, e) = [] := by
      rw [stepAsks, hnext]
      exact hasked
    refine hcounts.next ?_ ?_ ?_ ?_
    · rw [hasks]
      rfl
    · rw [hbrings]
      exact List.append_nil _
    · rw [hhashes]
      exact List.append_nil _
    · rw [hturns, hreqs]
      rfl
  cases h with
  | @going j f hj hloop howes hcounts =>
      refine .going hj (f := f) ?_ ?_ (hcount hcounts)
      · rw [hnext]
        exact hloop.of_same hfetch hpeer
      · cases howes with
        | asked hstart hreq hrep => exact .asked hstart (hreqs.trans hreq) (hreps.trans hrep)
        | sent hreq hrep => exact .sent (hreqs.trans hreq) (hreps.trans hrep)
  | done hnone hreq hrep hresident hcounts =>
      refine .done ?_ (hreqs.trans hreq) (hreps.trans hrep) ?_ (hcount hcounts)
      · rw [hnext]
        exact hfetch.trans hnone
      · intro hloads
        obtain ⟨hname, hblob⟩ := hresident hloads
        rw [hnext]
        exact ⟨hasset.trans hname, hbytes.trans hblob⟩

theorem pollFetch_rests {l : TaskLoop} (hpeer : l.fetch.isSome = true → l.peer = none)
    (hin : ∀ f, l.fetch = some f → now - f.lastProgress ≤ kAssetStallTimeout) :
    l.pollFetch now = l := by
  unfold TaskLoop.pollFetch
  cases hf : l.fetch with
  | none => simp [hf]
  | some f =>
      have hnone : l.peer = none := hpeer (by rw [hf]; rfl)
      have hlate : ¬ kAssetStallTimeout < now - f.lastProgress := Nat.not_lt.mpr (hin f hf)
      simp [hf, hnone, hlate]

-- A task for an asset that is fetched already.
theorem parkOnAsset_rests (now : Nat) {l : TaskLoop} {f : AssetFetch} (hf : l.fetch = some f)
    {task : PendingTask} (htask : f.address = task.asset) (len : UInt64) :
    ∃ l', l.parkOnAsset now task len = l' ∧ l'.fetch = l.fetch ∧ l'.peer = l.peer ∧
      l'.residentAsset = l.residentAsset ∧ l'.residentBytes = l.residentBytes ∧
      l'.asked = l.asked := by
  unfold TaskLoop.parkOnAsset
  by_cases hresident : task.asset = l.residentAsset
  · rw [if_pos hresident]
    exact ⟨_, rfl, rfl, rfl, rfl, rfl, rfl⟩
  · have hany : (l.fetch.any fun f => f.address = task.asset) = true := by
      simp [hf, htask]
    rw [if_neg hresident]
    dsimp only
    rw [if_pos hany]
    exact ⟨_, rfl, rfl, rfl, rfl, rfl, rfl⟩

theorem Stage.step (h : Stage cfg ccfg hash blob first s past) (hblob : Fetchable blob)
    (hserves : Serves ccfg hash blob) (hnamed : cfg.blake3Hex blob = hash.address)
    {e : SwarmEvent F} (he : Undisturbed hash s now e) :
    Stage cfg ccfg hash blob first (s.next cfg ccfg now e) (past ++ [(s, now, e)]) := by
  cases e with
  | peer | opened | peerList => exact he.elim
  | answer session w =>
      cases h with
      | going hj hloop howes hcounts =>
          exact Stage.answered hblob hserves session w hj hloop howes he hcounts
      | done _ hreqs => exact absurd hreqs he
  | deliver =>
      cases h with
      | going hj hloop howes hcounts =>
          exact Stage.delivered hblob hnamed hj hloop howes he hcounts
      | done _ _ hreps => exact absurd hreps he
  | poll =>
      have hsame : s.loop.cleared.pollFetch now = s.loop.cleared := by
        refine pollFetch_rests (fun hsome => ?_) he
        cases h with
        | going _ hloop => exact hloop.peer
        | done hnone =>
            have hsome' : s.loop.fetch.isSome = true := hsome
            rw [hnone] at hsome'
            cases hsome'
      have hnext : s.next cfg ccfg now .poll = s.after s.loop.cleared := by
        rw [← hsame]
        rfl
      exact h.rests hnext rfl rfl rfl rfl rfl rfl rfl rfl
  | granted task len =>
      obtain ⟨hsome, htask⟩ := he
      obtain ⟨f, hf⟩ := Option.isSome_iff_exists.mp hsome
      have haddress : f.address = task.asset := by
        cases h with
        | going _ hloop =>
            rw [hloop.fetch] at hf
            cases hf
            exact hloop.address.trans htask.symm
        | done hnone =>
            rw [hnone] at hf
            cases hf
      obtain ⟨l, hl, hfetch, hpeer, hasset, hbytes, hasked⟩ :=
        parkOnAsset_rests now (l := s.loop.cleared) hf haddress len
      exact h.rests (by rw [← hl]; rfl) hfetch hpeer hasset hbytes hasked rfl rfl rfl

-- A grant that makes the worker fetch the blob, with no peer to ask.
structure Begins (hash : Hash32) (blob : List UInt8) (l : TaskLoop) (task : PendingTask)
    (len : UInt64) : Prop where
  asset : task.asset = hash.address
  length : len.toNat = blob.length
  absent : l.residentAsset ≠ hash.address
  unfetched : ∀ f, l.fetch = some f → f.address ≠ hash.address
  alone : l.peerCandidates = []

theorem Begins.stage {l : TaskLoop} {task : PendingTask} {len : UInt64}
    (h : Begins hash blob l task len) (hblob : Fetchable blob) :
    Stage cfg ccfg hash blob (({ loop := l } : Swarm).next cfg ccfg now (.granted task len))
      (({ loop := l } : Swarm).next cfg ccfg now (.granted task len)) [] := by
  have hpos := hblob.total_pos
  obtain ⟨hlen, hhash⟩ := hashOfHex_address hash
  rw [← h.asset] at hlen hhash
  have hcold : ¬ task.asset = l.cleared.residentAsset := by
    rw [h.asset]
    exact Ne.symm h.absent
  have hany : ¬ (l.cleared.fetch.any fun f => f.address = task.asset) = true := by
    show ¬ (l.fetch.any fun f => f.address = task.asset) = true
    rw [h.asset]
    cases hf : l.fetch with
    | none => simp
    | some f =>
        have hother := h.unfetched f hf
        simp [hother]
  have hfell : TaskLoop.FellBack hash (freshFetch now task len) now
      { l.cleared with
        waitingOnAsset := l.waitingOnAsset ++ [task]
        fetch := some (freshFetch now task len)
        peerAttempt := 0
        peerAttemptsMade := 0
        peerConnected := false } (l.cleared.parkOnAsset now task len) := by
    unfold TaskLoop.parkOnAsset
    rw [if_neg hcold]
    dsimp only
    rw [if_neg hany]
    rcases TaskLoop.tryNextPeerOrFallBack_cases (f := freshFetch now task len) (l := { l.cleared with
        waitingOnAsset := l.waitingOnAsset ++ [task]
        fetch := some (freshFetch now task len)
        peerAttempt := 0
        peerAttemptsMade := 0
        peerConnected := false }) now rfl hlen hhash with ⟨-, hback⟩ | ⟨hnot, -⟩
    · exact hback
    · have hnobody : l.peerCandidates.length ≤ 0 := by
        rw [h.alone]
        exact Nat.le_refl 0
      exact absurd (.inr hnobody) hnot
  have hasked : (l.cleared.parkOnAsset now task len).asked = [window hash blob 0] := hfell.asked
  refine .going hpos (f := { freshFetch now task len with lastProgress := now }) ?_ ?_ ?_
  · refine ⟨hfell.fetch, hfell.peer, .fresh, h.asset, h.length, ?_, rfl, fun i hi => by cases hi⟩
    rw [← Finset.range_eq_Ico]
    exact freshFetch_missing h.length
  · exact .asked rfl hasked rfl
  · refine ⟨?_, rfl, rfl, ?_⟩
    · show ((l.cleared.parkOnAsset now task len).asked ++ []).length = 1
      rw [hasked]
      rfl
    · show 0 + ([] ++ (l.cleared.parkOnAsset now task len).asked).length = 1 + 0
      rw [hasked]
      rfl

-- A transfer that is over: a request for each batch, every chunk once, and the blob.
structure Whole (cfg : Config) (ccfg : Coordinator.Config F) (hash : Hash32) (blob : List UInt8)
    (first s : Swarm) (past : List (Swarm × Nat × SwarmEvent F)) : Prop where
  requests : (issued cfg ccfg first past).length = (chunkTotal blob + 63) / 64
  once : past.filterMap stepBrings = (List.range (chunkTotal blob)).map (chunkReply hash blob)
  hashed : past.filterMap (stepHashes cfg) = [blob]
  nothing : s.requests = [] ∧ s.replies = []
  resident : cfg.loadBvh blob = true →
    s.loop.residentAsset = hash.address ∧ s.loop.residentBytes = blob

-- On the way there are never too many, and it is never stuck: it is over when so many
-- answers and chunks came that no more can come.
structure RoundTrip (cfg : Config) (ccfg : Coordinator.Config F) (hash : Hash32)
    (blob : List UInt8) (first s : Swarm) (past : List (Swarm × Nat × SwarmEvent F)) : Prop where
  requests : (issued cfg ccfg first past).length ≤ (chunkTotal blob + 63) / 64
  inOrder : past.filterMap stepBrings <+:
    (List.range (chunkTotal blob)).map (chunkReply hash blob)
  turns : past.countP stepTurns ≤ chunkTotal blob + (chunkTotal blob + 63) / 64
  ended : past.countP stepTurns = chunkTotal blob + (chunkTotal blob + 63) / 64 ↔
    s.loop.fetch = none
  owed : s.loop.fetch ≠ none → s.requests ≠ [] ∨ s.replies ≠ []
  whole : s.loop.fetch = none → Whole cfg ccfg hash blob first s past

theorem Stage.roundTrip (h : Stage cfg ccfg hash blob first s past) :
    RoundTrip cfg ccfg hash blob first s past := by
  cases h with
  | @going j f hj hloop howes hcounts =>
      have hsome : s.loop.fetch ≠ none := by
        rw [hloop.fetch]
        exact Option.some_ne_none f
      have hturns := hcounts.turns
      refine ⟨?_, ?_, by omega, ?_, fun _ => ?_, fun hnone => absurd hnone hsome⟩
      · rw [hcounts.issued]
        omega
      · have hfirst : List.range j = (List.range (chunkTotal blob)).take j := by
          rw [List.take_range, Nat.min_eq_left hj.le]
        rw [hcounts.brought, hfirst]
        exact (List.take_prefix j _).map _
      · constructor
        · intro hall
          omega
        · exact fun hnone => absurd hnone hsome
      · cases howes with
        | asked _ hreqs =>
            left
            rw [hreqs]
            exact List.cons_ne_nil _ _
        | sent _ hreps =>
            right
            have hend := windowEnd_gt hj
            rw [hreps]
            simp only [ne_eq, List.map_eq_nil_iff, List.range'_eq_nil_iff]
            omega
  | done hnone hreqs hreps hresident hcounts =>
      have hturns := hcounts.turns
      rw [hreqs, List.length_nil] at hturns
      refine ⟨hcounts.issued.le, ?_, by omega, ⟨fun _ => hnone, fun _ => by omega⟩,
        fun hsome => absurd hnone hsome, fun _ => ?_⟩
      · rw [hcounts.brought]
      · exact ⟨hcounts.issued, hcounts.brought, hcounts.hashed, ⟨hreqs, hreps⟩, hresident⟩

-- Where nothing more is done than to answer and to bring the answers, it comes to its end.
theorem Stage.ends (h : Stage cfg ccfg hash blob first s past) (hblob : Fetchable blob)
    (hserves : Serves ccfg hash blob) (hnamed : cfg.blake3Hex blob = hash.address) :
    ∃ t, Reach (Recalling (Step cfg ccfg)) (fun t e => Undisturbed hash t.1 e.1 e.2) (s, past) t ∧
      t.1.loop.fetch = none := by
  obtain ⟨left, hleft⟩ := Nat.exists_eq_add_of_le h.roundTrip.turns
  induction left generalizing s past with
  | zero => exact ⟨(s, past), .refl _, h.roundTrip.ended.mp hleft.symm⟩
  | succ left ih =>
      have hsome : s.loop.fetch ≠ none := by
        intro hnone
        have hall := h.roundTrip.ended.mpr hnone
        omega
      have hgoes : ∃ e : SwarmEvent F, Undisturbed hash s 0 e ∧ stepTurns (s, 0, e) = true := by
        rcases h.roundTrip.owed hsome with hreq | hrep
        · exact ⟨.answer { connId := 0 } {}, hreq, rfl⟩
        · exact ⟨.deliver, hrep, rfl⟩
      obtain ⟨e, he, hturn⟩ := hgoes
      have hnext := h.step hblob hserves hnamed he
      have hfewer : chunkTotal blob + (chunkTotal blob + 63) / 64 =
          (past ++ [(s, 0, e)]).countP stepTurns + left := by
        rw [List.countP_append, List.countP_singleton, if_pos hturn]
        omega
      obtain ⟨t, hrun, hend⟩ := ih hnext hfewer
      have hstep : Recalling (Step cfg ccfg) (s, past) (0, e)
          (s.next cfg ccfg 0 e, past ++ [(s, 0, e)]) := ⟨rfl, rfl⟩
      exact ⟨t, .head he hstep hrun, hend⟩

-- Every transfer from the coordinator alone ends with each chunk there once, for as many
-- requests as there are batches, and what is hashed is the blob. And whatever a worker
-- asks for, the coordinator sends it no more than a batch.
theorem transfer_round_trip :
    (∀ (ccfg : Coordinator.Config F) (session : Session) (w : Shared F) (req : AssetRequest),
      (session.onAssetRequest ccfg w req).reaction.replies.countP isChunk ≤ 64) ∧
    ∀ (cfg : Config) (ccfg : Coordinator.Config F) (hash : Hash32) (blob : List UInt8),
      Fetchable blob → Serves ccfg hash blob → cfg.blake3Hex blob = hash.address →
      ∀ (l : TaskLoop) (task : PendingTask) (len : UInt64) (now : Nat),
        Begins hash blob l task len → ∀ first,
        Step cfg ccfg { loop := l } (now, .granted task len) first → ∀ s past,
        Reach (Recalling (Step cfg ccfg)) (fun t e => Undisturbed hash t.1 e.1 e.2) (first, [])
          (s, past) →
        RoundTrip cfg ccfg hash blob first s past ∧
          ∃ t, Reach (Recalling (Step cfg ccfg)) (fun t e => Undisturbed hash t.1 e.1 e.2)
            (s, past) t ∧ t.1.loop.fetch = none := by
  refine ⟨chunks_of_request_le, ?_⟩
  intro cfg ccfg hash blob hblob hserves hnamed l task len now hbegins first hfirst s past hrun
  rw [hfirst] at hrun ⊢
  have hstage := Recalling.invariant hrun (Stage cfg ccfg hash blob _)
    (hbegins.stage hblob) fun r past e r' _ he hstage hstep => by
      rw [hstep]
      exact hstage.step hblob hserves hnamed he
  exact ⟨hstage.roundTrip, hstage.ends hblob hserves hnamed⟩

end

def asksForZeros : Swarm :=
  ({ loop := {} } : Swarm).next knowsZeros holdsZeros 0 (.granted waitsForZeros 2113536)

-- The 129 chunks take three requests.
theorem transfer_round_trip_zeros :
    ∃ (s : Swarm) (past : List (Swarm × Nat × SwarmEvent Rat)),
      (issued knowsZeros holdsZeros asksForZeros past).length = 3 ∧
      past.filterMap (stepHashes knowsZeros) = [zeros] ∧ s.loop.fetch = none := by
  have hnamed : knowsZeros.blake3Hex zeros = nameOfZeros.address := by simp [knowsZeros]
  have hbegins : Begins nameOfZeros zeros {} waitsForZeros 2113536 :=
    ⟨rfl, zeros_length.symm, by decide, fun f hf => (by cases hf), rfl⟩
  have hround := (transfer_round_trip (F := Rat)).2 knowsZeros holdsZeros nameOfZeros zeros
    zeros_fetchable zeros_served hnamed {} waitsForZeros 2113536 0 hbegins asksForZeros rfl
  obtain ⟨-, ⟨s, past⟩, hrun, hend⟩ := hround _ [] (.refl _)
  have hwhole := (hround s past hrun).1.whole hend
  refine ⟨s, past, ?_, hwhole.hashed, hend⟩
  rw [hwhole.requests, zeros_total]

end Swarm

end P2pGpu.Worker
