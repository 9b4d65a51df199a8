import Mathlib.Data.List.TakeWhile
import P2pGpu.Coordinator.Session
import P2pGpu.Worker.Fetch.Moves

namespace P2pGpu.Worker

open P2pGpu.Protocol
open P2pGpu.Coordinator (AssetRequest AssetStore Double Hash32 Reply Session Shared kChunkBytes
  kMaxChunksPerRequest)

namespace TaskLoop

def cleared (l : TaskLoop) : TaskLoop := { l with outbox := [] }

-- A message of the coordinator. The others have no part in a fetch.
def onReply (cfg : Config) (l : TaskLoop) (now : Nat) : Reply → TaskLoop
  | .assetChunk hash index total bytes =>
      l.handleAssetChunk cfg now ⟨some hash, index, total, some bytes⟩
  | .assetMiss _ => l.handleAssetMiss now
  | _ => l

end TaskLoop

-- A worker that fetches, and what is on the way between it and its coordinator.
structure Swarm where
  loop : TaskLoop
  requests : List AssetRequest := []
  replies : List Reply := []

inductive SwarmEvent (F : Type) [Double F] where
  | peer (servingCurrent : Option WorkerId) (m : AssetMsg)
  -- the coordinator takes the first request, in any state it may be in
  | answer (session : Session) (w : Shared F)
  | deliver
  | poll
  | opened (isOpen : Bool)
  | granted (task : PendingTask) (inputBytes : UInt64)
  | peerList (peers : List WorkerId)

namespace Swarm

def after (s : Swarm) (l : TaskLoop) : Swarm :=
  { s with loop := l, requests := s.requests ++ l.asked }

section

variable {F : Type} [Double F]

def next (cfg : Config) (ccfg : Coordinator.Config F) (s : Swarm) (now : Nat) :
    SwarmEvent F → Swarm
  | .peer servingCurrent m => s.after (s.loop.cleared.onPeerBytes cfg now servingCurrent m)
  | .answer session w =>
      match s.requests with
      | [] => s.after s.loop.cleared
      | req :: rest =>
          { s with
            requests := rest
            replies := s.replies ++ (session.onAssetRequest ccfg w req).reaction.replies }.after
              s.loop.cleared
  | .deliver =>
      match s.replies with
      | [] => s.after s.loop.cleared
      | r :: rest => { s with replies := rest }.after (s.loop.cleared.onReply cfg now r)
  | .poll => s.after (s.loop.cleared.pollFetch now)
  | .opened isOpen => s.after (s.loop.cleared.onOpen isOpen)
  | .granted task inputBytes => s.after (s.loop.cleared.parkOnAsset now task inputBytes)
  | .peerList peers => s.after { s.loop.cleared with peerCandidates := peers.take 8 }

def Step (cfg : Config) (ccfg : Coordinator.Config F) (s : Swarm) (e : Nat × SwarmEvent F)
    (s' : Swarm) : Prop :=
  s' = s.next cfg ccfg e.1 e.2

end

end Swarm

def chunkTotal (blob : List UInt8) : Nat := Chunks.count kChunkBytes blob.length

-- A blob that may be an asset.
structure Fetchable (blob : List UInt8) : Prop where
  pos : 0 < blob.length
  bound : blob.length ≤ kMaxAssetBytes

-- The coordinator has the blob, or it has nothing under its name.
def Serves {F : Type} (ccfg : Coordinator.Config F) (hash : Hash32) (blob : List UInt8) : Prop :=
  ccfg.assets.bind (fun store => store.find hash.address) = some blob

def Lacks {F : Type} (ccfg : Coordinator.Config F) (hash : Hash32) : Prop :=
  ccfg.assets.bind (fun store => store.find hash.address) = none

section

variable {F : Type} [Double F] {ccfg : Coordinator.Config F} {hash : Hash32}
  {blob : List UInt8}

theorem Fetchable.total_pos (h : Fetchable blob) : 0 < chunkTotal blob := by
  rw [chunkTotal, Chunks.lt_count AssetFetch.kChunkBytes_pos, Nat.zero_mul]
  exact h.pos

theorem Fetchable.total_le (h : Fetchable blob) : chunkTotal blob ≤ 16384 := by
  have hbound : blob.length ≤ 268435456 := h.bound
  apply Nat.lt_succ_iff.mp
  rw [chunkTotal, Chunks.count, Nat.div_lt_iff_lt_mul AssetFetch.kChunkBytes_pos]
  show blob.length + 16384 - 1 < 16385 * 16384
  omega

theorem Fetchable.toNat_ofNat (h : Fetchable blob) {i : Nat} (hi : i ≤ chunkTotal blob) :
    (UInt32.ofNat i).toNat = i := by
  have hsmall := h.total_le
  rw [UInt32.toNat_ofNat']
  apply Nat.mod_eq_of_lt
  omega

-- A request that asks for a chunk there is.
structure Askable (hash : Hash32) (blob : List UInt8) (req : AssetRequest) : Prop where
  hash : req.hash = some hash
  from_lt_to : req.chunkFrom.toNat < req.chunkTo.toNat
  from_lt : req.chunkFrom.toNat < chunkTotal blob

-- The chunks that the answer to a request holds.
def answers (blob : List UInt8) (req : AssetRequest) (i : Nat) : Prop :=
  req.chunkFrom.toNat ≤ i ∧ i < req.chunkTo.toNat ∧ i < chunkTotal blob ∧
    i < req.chunkFrom.toNat + 64

instance (blob : List UInt8) (req : AssetRequest) : DecidablePred (answers blob req) :=
  fun _ => inferInstanceAs (Decidable (_ ∧ _))

-- The chunk as the coordinator sends it.
def chunkReply (hash : Hash32) (blob : List UInt8) (i : Nat) : Reply :=
  .assetChunk hash (UInt32.ofNat i) (UInt32.ofNat (chunkTotal blob))
    (Chunks.piece kChunkBytes blob i)

-- The answer is the run of chunks from the first that is asked for.
theorem replies_of_serves (h : Fetchable blob) (hserves : Serves ccfg hash blob)
    {req : AssetRequest} (hreq : Askable hash blob req) (session : Session) (w : Shared F) :
    (session.onAssetRequest ccfg w req).reaction.replies =
      (List.range' req.chunkFrom.toNat
        (min (min req.chunkTo.toNat (chunkTotal blob)) (req.chunkFrom.toNat + 64) -
          req.chunkFrom.toNat)).map (chunkReply hash blob) := by
  have hsmall := h.total_le
  have hpos := h.total_pos
  have hlt := hreq.from_lt_to
  have hin := hreq.from_lt
  have hcount : (blob.length + kChunkBytes - 1) / kChunkBytes = chunkTotal blob := rfl
  have hrange : ¬ (chunkTotal blob = 0 ∨ 0xFFFFFFFF < chunkTotal blob) := by omega
  have hfinish : (UInt32.ofNat (min req.chunkTo.toNat (chunkTotal blob))).toNat =
      min req.chunkTo.toNat (chunkTotal blob) := by
    rw [UInt32.toNat_ofNat']
    apply Nat.mod_eq_of_lt
    omega
  have hsome : ¬ UInt32.ofNat (min req.chunkTo.toNat (chunkTotal blob)) ≤ req.chunkFrom := by
    rw [UInt32.le_iff_toNat_le, hfinish]
    omega
  have hbatch : (req.chunkFrom + kMaxChunksPerRequest).toNat = req.chunkFrom.toNat + 64 := by
    rw [UInt32.toNat_add]
    apply Nat.mod_eq_of_lt
    show req.chunkFrom.toNat + 64 < 2 ^ 32
    omega
  have hmin : (min (UInt32.ofNat (min req.chunkTo.toNat (chunkTotal blob)))
      (req.chunkFrom + kMaxChunksPerRequest)).toNat =
      min (min req.chunkTo.toNat (chunkTotal blob)) (req.chunkFrom.toNat + 64) := by
    rw [LittleEndian.toNat_minU32, hfinish, hbatch]
  have hreplies : (session.onAssetRequest ccfg w req).reaction.replies =
      Session.chunks blob hash (UInt32.ofNat (chunkTotal blob)) req.chunkFrom
        (min (UInt32.ofNat (min req.chunkTo.toNat (chunkTotal blob)))
          (req.chunkFrom + kMaxChunksPerRequest)) := by
    unfold Session.onAssetRequest
    rw [hreq.hash]
    dsimp only
    rw [hserves]
    dsimp only
    rw [hcount, if_neg hrange, if_neg hsome]
  have hall : (List.range' req.chunkFrom.toNat
      (min (min req.chunkTo.toNat (chunkTotal blob)) (req.chunkFrom.toNat + 64) -
        req.chunkFrom.toNat)).takeWhile (fun i => decide (i * kChunkBytes < blob.length)) =
      List.range' req.chunkFrom.toNat
        (min (min req.chunkTo.toNat (chunkTotal blob)) (req.chunkFrom.toNat + 64) -
          req.chunkFrom.toNat) := by
    rw [List.takeWhile_eq_self_iff]
    intro i hi
    rw [List.mem_range'_1] at hi
    rw [decide_eq_true_eq, ← Chunks.lt_count AssetFetch.kChunkBytes_pos]
    show i < chunkTotal blob
    omega
  rw [hreplies, Session.chunks, hmin, hall]
  refine List.map_congr_left fun i hi => ?_
  rw [List.mem_range'_1] at hi
  rw [Session.chunkAt, chunkReply, h.toNat_ofNat (by omega)]
  rfl

theorem mem_replies (h : Fetchable blob) (hserves : Serves ccfg hash blob)
    {req : AssetRequest} (hreq : Askable hash blob req) (session : Session) (w : Shared F)
    (r : Reply) : r ∈ (session.onAssetRequest ccfg w req).reaction.replies ↔
      ∃ i, answers blob req i ∧ r = chunkReply hash blob i := by
  have hlt := hreq.from_lt_to
  have hin := hreq.from_lt
  rw [replies_of_serves h hserves hreq, List.mem_map]
  constructor
  · rintro ⟨i, hi, rfl⟩
    rw [List.mem_range'_1] at hi
    exact ⟨i, ⟨by omega, by omega, by omega, by omega⟩, rfl⟩
  · rintro ⟨i, ⟨hfrom, hto, htotal, hwindow⟩, rfl⟩
    refine ⟨i, ?_, rfl⟩
    rw [List.mem_range'_1]
    omega

theorem replies_of_lacks (hlacks : Lacks ccfg hash) {req : AssetRequest}
    (hreq : req.hash = some hash) (session : Session) (w : Shared F) :
    (session.onAssetRequest ccfg w req).reaction.replies = [.assetMiss hash] := by
  unfold Session.onAssetRequest
  rw [hreq]
  dsimp only
  rw [hlacks]

end

end P2pGpu.Worker
