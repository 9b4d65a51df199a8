import P2pGpu.Worker.Fetch.Completion

namespace P2pGpu.Worker

open P2pGpu.Protocol
open P2pGpu.Coordinator (AssetRequest Double Hash32 Reply Session Shared kChunkBytes)

-- An attacker's byte in the middle.
def flipMiddle (payload : List UInt8) : List UInt8 :=
  payload.modify (payload.length / 2) (· ^^^ 0xFF)

-- The worker's loop over the chunks, `n` of them from `i` on. It ends early where an
-- offset leaves the asset.
def serveChunks (sizeT : Nat) (corrupt : Bool) (bytes : List UInt8) (hash : Hash32)
    (total : UInt32) : Nat → UInt32 → List AssetMsg
  | 0, _ => []
  | n + 1, i =>
      match chunkOffset sizeT i with
      | none => []
      | some offset =>
          if bytes.length ≤ offset then []
          else
            let payload := (bytes.drop offset).take (min kChunkBytes (bytes.length - offset))
            let payload := if corrupt ∧ payload ≠ [] then flipMiddle payload else payload
            .assetChunk ⟨some hash, i, total, some payload⟩ ::
              serveChunks sizeT corrupt bytes hash total n (i + 1)

-- What a worker hands to its channel for a request.
def peerReplies (sizeT : Nat) (corrupt : Bool) (l : TaskLoop) (req : AssetRequest) :
    List AssetMsg :=
  match req.hash with
  | none => []
  | some hash =>
      if l.residentAsset = [] ∨ l.residentBytes = [] then []
      else if hash.address ≠ l.residentAsset then [.assetMiss (some hash)]
      else
        let total := (l.residentBytes.length + kChunkBytes - 1) / kChunkBytes
        let finish := UInt32.ofNat (min req.chunkTo.toNat total)
        if finish ≤ req.chunkFrom then []
        else
          let last := min finish (req.chunkFrom + TaskLoop.kMaxChunksPerPeerRequest)
          serveChunks sizeT corrupt l.residentBytes hash (UInt32.ofNat total)
            (last.toNat - req.chunkFrom.toNat) req.chunkFrom

-- The place, the number of chunks and the bytes, of a chunk on either way.
def AssetMsg.chunk : AssetMsg → Option (UInt32 × UInt32 × List UInt8)
  | .assetChunk c => c.bytes.map fun bytes => (c.index, c.total, bytes)
  | _ => none

def chunkOfReply : Reply → Option (UInt32 × UInt32 × List UInt8)
  | .assetChunk _ index total bytes => some (index, total, bytes)
  | _ => none

-- The chunks of an answer: from the first one that is asked for to the end of the range,
-- of the blob or of the batch.
def chunksFrom (blob : List UInt8) (req : AssetRequest) : List (UInt32 × UInt32 × List UInt8) :=
  (List.range' req.chunkFrom.toNat
    (min (min req.chunkTo.toNat (chunkTotal blob)) (req.chunkFrom.toNat + 64) -
      req.chunkFrom.toNat)).map fun i =>
    (UInt32.ofNat i, UInt32.ofNat (chunkTotal blob), Chunks.piece kChunkBytes blob i)

section

variable {sizeT : Nat} {blob : List UInt8} {hash : Hash32} {req : AssetRequest} {l : TaskLoop}

-- No offset leaves the asset before its last chunk.
theorem serveChunks_eq (hwide : 2 ^ 32 ≤ sizeT) (h : Fetchable blob) (total : UInt32) (n : Nat)
    (i : UInt32) (hn : i.toNat + n ≤ chunkTotal blob) :
    serveChunks sizeT false blob hash total n i =
      (List.range' i.toNat n).map fun i =>
        .assetChunk ⟨some hash, UInt32.ofNat i, total, some (Chunks.piece kChunkBytes blob i)⟩ := by
  have hsmall := h.total_le
  induction n generalizing i with
  | zero => rfl
  | succ n ih =>
      have hinside : i.toNat * kChunkBytes < blob.length := by
        rw [← Chunks.lt_count AssetFetch.kChunkBytes_pos]
        show i.toNat < chunkTotal blob
        omega
      have hoffset : chunkOffset sizeT i = some (i.toNat * kChunkBytes) := by
        have hroom : i.toNat ≤ (sizeT - 1) / kChunkBytes := by
          rw [Nat.le_div_iff_mul_le AssetFetch.kChunkBytes_pos]
          show i.toNat * 16384 ≤ sizeT - 1
          omega
        rw [chunkOffset, if_neg (Nat.not_lt.mpr hroom)]
      have hnext : (i + 1).toNat = i.toNat + 1 := by
        rw [UInt32.toNat_add]
        apply Nat.mod_eq_of_lt
        show i.toNat + 1 < 2 ^ 32
        omega
      have hpayload : (blob.drop (i.toNat * kChunkBytes)).take
          (min kChunkBytes (blob.length - i.toNat * kChunkBytes)) =
          Chunks.piece kChunkBytes blob i.toNat := by
        rw [Chunks.piece, ← List.length_drop, List.take_eq_take_iff]
        omega
      have hrest := ih (i + 1) (by omega)
      rw [hnext] at hrest
      rw [serveChunks, hoffset]
      dsimp only
      rw [if_neg (by omega), hpayload, hrest, List.range'_succ, List.map_cons, UInt32.ofNat_toNat]
      simp only [Bool.false_eq_true, false_and, if_false]

theorem resident_not_empty (h : Fetchable blob) (hasset : l.residentAsset = hash.address)
    (hbytes : l.residentBytes = blob) : ¬ (l.residentAsset = [] ∨ l.residentBytes = []) := by
  rintro (hnone | hnone)
  · rw [hasset] at hnone
    cases hnone
  · have hpos := h.pos
    rw [← hbytes, hnone] at hpos
    exact Nat.lt_irrefl 0 hpos

theorem toNat_batch (h : Fetchable blob) (hreq : Askable hash blob req) :
    (req.chunkFrom + TaskLoop.kMaxChunksPerPeerRequest).toNat = req.chunkFrom.toNat + 64 := by
  have hsmall := h.total_le
  have hin := hreq.from_lt
  rw [UInt32.toNat_add]
  apply Nat.mod_eq_of_lt
  show req.chunkFrom.toNat + 64 < 2 ^ 32
  omega

-- What the worker hands over for a request of its resident asset.
theorem peerReplies_resident (hwide : 2 ^ 32 ≤ sizeT) (h : Fetchable blob)
    (hasset : l.residentAsset = hash.address) (hbytes : l.residentBytes = blob)
    (hreq : Askable hash blob req) :
    peerReplies sizeT false l req = (List.range' req.chunkFrom.toNat
      (min (min req.chunkTo.toNat (chunkTotal blob)) (req.chunkFrom.toNat + 64) -
        req.chunkFrom.toNat)).map fun i =>
      .assetChunk (TaskLoop.peerChunk blob hash (chunkTotal blob) i) := by
  have hsmall := h.total_le
  have hlt := hreq.from_lt_to
  have hin := hreq.from_lt
  have hheld := resident_not_empty h hasset hbytes
  have hfinish : (UInt32.ofNat (min req.chunkTo.toNat (chunkTotal blob))).toNat =
      min req.chunkTo.toNat (chunkTotal blob) := h.toNat_ofNat (Nat.min_le_right _ _)
  have hsome : ¬ UInt32.ofNat (min req.chunkTo.toNat (chunkTotal blob)) ≤ req.chunkFrom := by
    rw [UInt32.le_iff_toNat_le, hfinish]
    omega
  have hbatch := toNat_batch h hreq
  have hlast : (min (UInt32.ofNat (min req.chunkTo.toNat (chunkTotal blob)))
      (req.chunkFrom + TaskLoop.kMaxChunksPerPeerRequest)).toNat =
      min (min req.chunkTo.toNat (chunkTotal blob)) (req.chunkFrom.toNat + 64) := by
    rw [LittleEndian.toNat_minU32, hfinish, hbatch]
  have hcount : (blob.length + kChunkBytes - 1) / kChunkBytes = chunkTotal blob := rfl
  unfold peerReplies
  rw [hreq.hash]
  dsimp only
  rw [if_neg hheld, hasset, if_neg (not_not.mpr rfl), hbytes, hcount, if_neg hsome, hlast,
    serveChunks_eq hwide h _ _ _ (by omega)]
  rfl

-- The worker's reaction is to hand these over one by one.
theorem servePeerAssetRequest_eq (hwide : 2 ^ 32 ≤ sizeT) (h : Fetchable blob)
    (hasset : l.residentAsset = hash.address) (hbytes : l.residentBytes = blob)
    (hreq : Askable hash blob req) (servingCurrent : Option WorkerId) :
    l.servePeerAssetRequest servingCurrent req =
      (peerReplies sizeT false l req).foldl (fun l m => l.sendToPeer servingCurrent m) l := by
  have hsmall := h.total_le
  have hlt := hreq.from_lt_to
  have hin := hreq.from_lt
  have hheld := resident_not_empty h hasset hbytes
  have hbatch := toNat_batch h hreq
  have hsome : ¬ min req.chunkTo.toNat (Chunks.count kChunkBytes blob.length) ≤
      req.chunkFrom.toNat := by
    show ¬ min req.chunkTo.toNat (chunkTotal blob) ≤ req.chunkFrom.toNat
    omega
  rw [peerReplies_resident hwide h hasset hbytes hreq, List.foldl_map]
  unfold TaskLoop.servePeerAssetRequest
  rw [hreq.hash]
  dsimp only
  rw [if_neg hheld, hasset, if_neg (not_not.mpr rfl), hbytes, if_neg hsome, hbatch]
  rfl

-- A fetch may go from one server to the other in its middle: asked for the same chunks,
-- they send the same.
theorem servers_agree {F : Type} [Double F] {ccfg : Coordinator.Config F}
    (hwide : 2 ^ 32 ≤ sizeT) (hbound : blob.length ≤ kMaxAssetBytes)
    (hserves : Serves ccfg hash blob) (hasset : l.residentAsset = hash.address)
    (hbytes : l.residentBytes = blob) (hhash : req.hash = some hash)
    (hrange : req.chunkFrom.toNat < min req.chunkTo.toNat (chunkTotal blob))
    (session : Session) (w : Shared F) :
    (session.onAssetRequest ccfg w req).reaction.replies.map chunkOfReply =
        (chunksFrom blob req).map some ∧
      (peerReplies sizeT false l req).map AssetMsg.chunk = (chunksFrom blob req).map some := by
  have hpos : 0 < blob.length := by
    have htotal : 0 < chunkTotal blob := by omega
    rw [chunkTotal, Chunks.lt_count AssetFetch.kChunkBytes_pos, Nat.zero_mul] at htotal
    exact htotal
  have hfetchable : Fetchable blob := ⟨hpos, hbound⟩
  have hreq : Askable hash blob req := ⟨hhash, by omega, by omega⟩
  constructor
  · rw [replies_of_serves hfetchable hserves hreq, chunksFrom, List.map_map, List.map_map]
    rfl
  · rw [peerReplies_resident hwide hfetchable hasset hbytes hreq, chunksFrom, List.map_map,
      List.map_map]
    rfl

end

def lastChunks : AssetRequest := ⟨some Swarm.nameOfZeros, 100, 200⟩

def zerosHolder : TaskLoop :=
  { residentAsset := Swarm.nameOfZeros.address, residentBytes := Swarm.zeros }

-- The last chunks of an asset of 129, from the one and from the other.
theorem servers_agree_zeros :
    ((({ connId := 0 } : Session).onAssetRequest Swarm.holdsZeros ({} : Shared Rat)
        lastChunks).reaction.replies.map chunkOfReply =
      (peerReplies 4294967296 false zerosHolder lastChunks).map AssetMsg.chunk) ∧
      (chunksFrom Swarm.zeros lastChunks).length = 29 := by
  have htotal := Swarm.zeros_total
  have hrange : lastChunks.chunkFrom.toNat <
      min lastChunks.chunkTo.toNat (chunkTotal Swarm.zeros) := by
    rw [htotal]
    decide
  have hasset : zerosHolder.residentAsset = Swarm.nameOfZeros.address := rfl
  have hbytes : zerosHolder.residentBytes = Swarm.zeros := rfl
  have hhash : lastChunks.hash = some Swarm.nameOfZeros := rfl
  have hwide : 2 ^ 32 ≤ 4294967296 := by decide
  obtain ⟨hcoordinator, hworker⟩ := servers_agree hwide Swarm.zeros_fetchable.bound
    Swarm.zeros_served hasset hbytes hhash hrange { connId := 0 } {}
  refine ⟨hcoordinator.trans hworker.symm, ?_⟩
  rw [chunksFrom, List.length_map, List.length_range', htotal]
  rfl

end P2pGpu.Worker
