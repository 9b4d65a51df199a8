import P2pGpu.Protocol.Chunk

namespace P2pGpu.Worker

open P2pGpu.Protocol
open P2pGpu.Coordinator (AssetRequest AssetSource Hash32 WireString kChunkBytes)

def kAssetChunkRequestBatch : UInt32 := 64
def kMaxPeerAttempts : Nat := 2

-- Milliseconds of a clock that does not go back.
def kAssetStallTimeout : Nat := 20000
def kPeerPhaseTimeout : Nat := 8000

-- The build of the worker, and the two functions that look at a whole asset.
structure Config where
  -- How many values a `size_t` has.
  sizeT : Nat
  wide : 2 ^ 32 ≤ sizeT
  blake3Hex : List UInt8 → WireString
  -- `LoadBvh` takes it.
  loadBvh : List UInt8 → Bool

structure AssetChunk where
  hash : Option Hash32
  index : UInt32
  total : UInt32
  bytes : Option (List UInt8)
deriving DecidableEq, Repr

-- A verified message of a data channel. It has one of the bodies.
inductive AssetMsg where
  | assetRequest (m : AssetRequest)
  | assetChunk (m : AssetChunk)
  | assetMiss (hash : Option Hash32)

-- One copy into the reassembly buffer.
structure Write where
  index : UInt32
  offset : Nat
  payload : List UInt8
deriving DecidableEq, Repr

structure AssetFetch where
  address : WireString
  bytes : List UInt8 := []
  haveChunk : List Bool := []
  total : UInt32 := 0
  -- Told by the coordinator with the grant.
  expectedBytes : UInt64 := 0
  received : UInt32 := 0
  lastProgress : Nat := 0
  -- Not in the source: what was copied since the buffer was last wiped.
  writes : List Write := []
deriving DecidableEq, Repr

namespace AssetFetch

-- What becomes of a chunk.
inductive Taken where
  | refused (why : String)
  | duplicate (f : AssetFetch)
  | stored (f : AssetFetch)
deriving DecidableEq, Repr

-- The first chunk sets the buffer up, by the length that the coordinator told.
def sized (f : AssetFetch) (claimed : UInt32) : Except String AssetFetch :=
  if f.total ≠ 0 then .ok f
  else if f.expectedBytes = 0 ∨ kMaxAssetBytes < f.expectedBytes.toNat then
    .error "no authoritative asset size, or it exceeds the limit"
  else
    let expectedChunks := Chunks.count kChunkBytes f.expectedBytes.toNat
    if expectedChunks = 0 ∨ 0xFFFFFFFF < expectedChunks then
      .error "asset chunk count is out of range"
    else if claimed ≠ UInt32.ofNat expectedChunks then
      .error "sender's chunk count disagrees with the coordinator"
    else .ok { f with
      total := UInt32.ofNat expectedChunks
      haveChunk := List.replicate expectedChunks false
      bytes := List.replicate f.expectedBytes.toNat 0 }

-- The one length that a chunk may have in its place.
def want (f : AssetFetch) (index : UInt32) : Nat :=
  if index + 1 = f.total then f.expectedBytes.toNat - (f.total - 1).toNat * kChunkBytes
  else kChunkBytes

def store (f : AssetFetch) (now : Nat) (index : UInt32) (offset : Nat) (bytes : List UInt8) :
    AssetFetch :=
  { f with
    bytes := Chunks.overwrite f.bytes offset bytes
    haveChunk := f.haveChunk.set index.toNat true
    received := f.received + 1
    lastProgress := now
    writes := f.writes ++ [⟨index, offset, bytes⟩] }

def take (cfg : Config) (now : Nat) (f : AssetFetch) (index total : UInt32)
    (bytes : List UInt8) : Taken :=
  match f.sized total with
  | .error why => .refused why
  | .ok f =>
      match checkAssetChunk cfg.sizeT index total f.total bytes.length with
      | .error _ => .refused "asset chunk failed invariant 10"
      | .ok _ =>
          match chunkOffset cfg.sizeT index with
          | none => .refused "asset chunk lands outside the reassembly buffer"
          | some offset =>
              if f.bytes.length < (offset + bytes.length) % cfg.sizeT then
                .refused "asset chunk lands outside the reassembly buffer"
              else if f.haveChunk.getD index.toNat false = true then .duplicate f
              else if bytes.length ≠ f.want index then
                .refused "chunk length disagrees with its position in the asset"
              else .stored (f.store now index offset bytes)

-- All that was received is forgotten, but not what the coordinator told.
def wiped (f : AssetFetch) (now : Nat) : AssetFetch :=
  { f with
    bytes := f.bytes.map fun _ => 0
    haveChunk := f.haveChunk.map fun _ => false
    received := 0
    lastProgress := now
    writes := [] }

def firstMissing (f : AssetFetch) : Option Nat :=
  (List.range f.total.toNat).find? fun i => !f.haveChunk.getD i false

end AssetFetch

structure PendingTask where
  id : TaskId
  asset : WireString := []
  job : JobId := Id.nil
  kernelId : String := ""
  params : List UInt8 := []
  startUnit : UInt64 := 0
  workUnits : UInt64 := 0
  outputBytes : UInt32 := 0
  workgroupSize : UInt32 := 64
  workgroupSizeY : UInt32 := 1
  -- Zero, but for a kernel whose units are no invocations.
  invocationsX : UInt32 := 0
  invocationsY : UInt32 := 1
deriving DecidableEq, Repr

structure PeerLink where
  target : WorkerId
  isOpen : Bool := false
deriving DecidableEq, Repr

-- Why a task is given back. The other reasons have no part in a fetch.
inductive ReleaseReason where
  | assetUnavailable
deriving DecidableEq, Repr

-- What the loop hands to its transports.
inductive Sent where
  | assetRequest (m : AssetRequest)
  | release (task : TaskId) (reason : ReleaseReason)
  | offer (target : WorkerId)
  | toPeer (target : WorkerId) (msg : AssetMsg)

-- What the loop keeps for the fetch of a bulk input.
structure TaskLoop where
  fetch : Option AssetFetch := none
  peer : Option PeerLink := none
  peerTarget : WorkerId := Id.nil
  peerCandidates : List WorkerId := []
  peerAttempt : Nat := 0
  peerAttemptsMade : UInt8 := 0
  peerConnected : Bool := false
  peerDeadline : Nat := 0
  serving : List PeerLink := []
  waitingOnAsset : List PendingTask := []
  held : List TaskId := []
  queue : List PendingTask := []
  residentAsset : WireString := []
  residentBytes : List UInt8 := []
  assetSource : AssetSource := .none
  assetsRejected : UInt32 := 0
  outbox : List Sent := []

-- Eight bytes of a lane from sixteen digits, the lowest byte first.
def nibble (c : UInt8) : Option UInt64 :=
  if 48 ≤ c ∧ c ≤ 57 then some (c - 48).toUInt64
  else if 97 ≤ c ∧ c ≤ 102 then some (c - 97 + 10).toUInt64
  else if 65 ≤ c ∧ c ≤ 70 then some (c - 65 + 10).toUInt64
  else none

def laneOfHex : List UInt8 → Nat → Option UInt64
  | hi :: lo :: rest, byte => do
      let high ← nibble hi
      let low ← nibble lo
      let above ← laneOfHex rest (byte + 1)
      return (high <<< 4 ||| low) <<< UInt64.ofNat (byte * 8) ||| above
  | _, _ => some 0

def hashOfHex (address : WireString) : Option Hash32 := do
  let a ← laneOfHex (address.take 16) 0
  let b ← laneOfHex ((address.drop 16).take 16) 0
  let c ← laneOfHex ((address.drop 32).take 16) 0
  let d ← laneOfHex (address.drop 48) 0
  return ⟨a, b, c, d⟩

-- The other reader of an address takes what is no digit as a zero, and no upper case.
def nib (c : UInt8) : UInt64 :=
  if 48 ≤ c ∧ c ≤ 57 then (c - 48).toUInt64
  else if 97 ≤ c ∧ c ≤ 102 then (c - 97 + 10).toUInt64
  else 0

def laneFromHex (hex : WireString) (lane : Nat) : UInt64 :=
  (List.range 8).foldl (fun v byte =>
    v ||| (nib (hex.getD (lane * 16 + byte * 2) 0) <<< 4 |||
      nib (hex.getD (lane * 16 + byte * 2 + 1) 0)) <<< UInt64.ofNat (byte * 8)) 0

def hashFromHex (hex : WireString) : Hash32 :=
  if hex.length = 64 then
    ⟨laneFromHex hex 0, laneFromHex hex 1, laneFromHex hex 2, laneFromHex hex 3⟩
  else ⟨0, 0, 0, 0⟩

namespace TaskLoop

def send (l : TaskLoop) (m : Sent) : TaskLoop := { l with outbox := l.outbox ++ [m] }

def sendRelease (l : TaskLoop) (task : TaskId) (reason : ReleaseReason) : TaskLoop :=
  { l.send (.release task reason) with held := l.held.filter (· ≠ task) }

-- An address that is no hash is not asked for.
def sendAssetRequest (l : TaskLoop) (address : WireString) (start finish : UInt32) : TaskLoop :=
  if address.length ≠ 64 then l
  else
    match hashOfHex address with
    | none => l
    | some hash => l.send (.assetRequest ⟨some hash, start, finish⟩)

-- The next run of chunks that are missing.
def requestAssetChunks (l : TaskLoop) : TaskLoop :=
  match l.fetch with
  | none => l
  | some f =>
      match f.firstMissing with
      | none => l
      | some i =>
          l.sendAssetRequest f.address (UInt32.ofNat i)
            (min f.total (UInt32.ofNat i + kAssetChunkRequestBatch))

def fallBackToCoordinator (l : TaskLoop) (now : Nat) : TaskLoop :=
  let l := { l with peer := none, peerTarget := Id.nil }
  match l.fetch with
  | none => l
  | some f =>
      { l with fetch := some { f with lastProgress := now } }.sendAssetRequest f.address 0
        kAssetChunkRequestBatch

def tryNextPeerOrFallBack (l : TaskLoop) (now : Nat) : TaskLoop :=
  match l.fetch with
  | none => l
  | some _ =>
      if kMaxPeerAttempts ≤ l.peerAttempt then l.fallBackToCoordinator now
      else
        match l.peerCandidates[l.peerAttempt]? with
        | none => l.fallBackToCoordinator now
        | some target =>
            { l with
              peerTarget := target
              peerAttempt := l.peerAttempt + 1
              peerAttemptsMade :=
                if l.peerAttemptsMade < 255 then l.peerAttemptsMade + 1 else l.peerAttemptsMade
              peerDeadline := now + kPeerPhaseTimeout
              peer := some { target } }.send (.offer target)

def releaseAll (l : TaskLoop) (tasks : List PendingTask) : TaskLoop :=
  tasks.foldl (fun l t => l.sendRelease t.id .assetUnavailable) l

def abandonAssetFetch (l : TaskLoop) : TaskLoop :=
  let l := { l with fetch := none, peer := none, peerTarget := Id.nil }
  { l.releaseAll l.waitingOnAsset with waitingOnAsset := [] }

-- Of a peer, another source is tried. The coordinator is the last one.
def rejectBytesAndRetry (l : TaskLoop) (now : Nat) : TaskLoop :=
  match l.fetch with
  | none => l
  | some f =>
      if l.peer.isNone then l.abandonAssetFetch
      else
        { l with
          assetsRejected := l.assetsRejected + 1
          fetch := some (f.wiped now) }.tryNextPeerOrFallBack now

-- Verified before it is parsed, and checked before it is used.
def finishAssetFetch (cfg : Config) (l : TaskLoop) (now : Nat) : TaskLoop :=
  match l.fetch with
  | none => l
  | some f =>
      if cfg.blake3Hex f.bytes ≠ f.address then l.rejectBytesAndRetry now
      else if !cfg.loadBvh f.bytes then l.rejectBytesAndRetry now
      else
        let l := { l with
          residentBytes := f.bytes
          assetSource := if l.peer.isSome then .peer else .coordinator
          residentAsset := f.address
          fetch := none
          peer := none
          peerTarget := Id.nil }
        { l.releaseAll (l.waitingOnAsset.filter fun t => t.asset ≠ l.residentAsset) with
          queue := l.queue ++ l.waitingOnAsset.filter fun t => t.asset = l.residentAsset
          waitingOnAsset := [] }

-- The same for a chunk of the coordinator and for one of a peer.
def handleAssetChunk (cfg : Config) (l : TaskLoop) (now : Nat) (c : AssetChunk) : TaskLoop :=
  match l.fetch, c.bytes with
  | some f, some bytes =>
      match f.take cfg now c.index c.total bytes with
      | .refused _ => l.abandonAssetFetch
      | .duplicate f => { l with fetch := some f }
      | .stored f =>
          let l := { l with fetch := some f }
          if f.received = f.total then l.finishAssetFetch cfg now
          else if f.received % kAssetChunkRequestBatch = 0 then l.requestAssetChunks
          else l
  | _, _ => l

def handleAssetMiss (l : TaskLoop) (now : Nat) : TaskLoop :=
  if l.peer.isSome then { l with peer := none }.tryNextPeerOrFallBack now
  else l.abandonAssetFetch

-- A reply goes back on the link that its request came on: one that is served, or
-- the worker's own.
def sendToPeer (l : TaskLoop) (servingCurrent : Option WorkerId) (msg : AssetMsg) : TaskLoop :=
  match servingCurrent with
  | some w =>
      if l.serving.any fun link => link.target = w ∧ link.isOpen then l.send (.toPeer w msg) else l
  | none =>
      match l.peer with
      | none => l
      | some link => if link.isOpen then l.send (.toPeer link.target msg) else l

def kMaxChunksPerPeerRequest : UInt32 := 64

def peerChunk (bytes : List UInt8) (hash : Hash32) (total i : Nat) : AssetChunk :=
  ⟨some hash, UInt32.ofNat i, UInt32.ofNat total, some (Chunks.piece kChunkBytes bytes i)⟩

-- Only what is held, and no more than one batch a request.
def servePeerAssetRequest (l : TaskLoop) (servingCurrent : Option WorkerId) (req : AssetRequest) :
    TaskLoop :=
  match req.hash with
  | none => l
  | some hash =>
      if l.residentAsset = [] ∨ l.residentBytes = [] then l
      else if hash.address ≠ l.residentAsset then
        l.sendToPeer servingCurrent (.assetMiss (some hash))
      else
        let total := Chunks.count kChunkBytes l.residentBytes.length
        let finish := min req.chunkTo.toNat total
        if finish ≤ req.chunkFrom.toNat then l
        else
          let finish := min finish (req.chunkFrom + kMaxChunksPerPeerRequest).toNat
          let indices := List.range' req.chunkFrom.toNat (finish - req.chunkFrom.toNat)
          indices.foldl (fun l' i => l'.sendToPeer servingCurrent
            (.assetChunk (peerChunk l.residentBytes hash total i))) l

def onPeerBytes (cfg : Config) (l : TaskLoop) (now : Nat) (servingCurrent : Option WorkerId) :
    AssetMsg → TaskLoop
  | .assetRequest m => l.servePeerAssetRequest servingCurrent m
  | .assetChunk m => l.handleAssetChunk cfg now m
  | .assetMiss _ => l.handleAssetMiss now

-- The worker's own channel opens, or it closes.
def onOpen (l : TaskLoop) (isOpen : Bool) : TaskLoop :=
  match l.peer with
  | none => l
  | some link =>
      let l := { l with
        peer := some { link with isOpen }
        peerConnected := l.peerConnected || isOpen }
      match l.fetch with
      | none => l
      | some f =>
          if !isOpen then l
          else
            l.sendToPeer none
              (.assetRequest ⟨some (hashFromHex f.address), 0, kAssetChunkRequestBatch⟩)

-- A granted task that names a bulk input waits for it, unless it is there.
def parkOnAsset (l : TaskLoop) (now : Nat) (task : PendingTask) (inputBytes : UInt64) : TaskLoop :=
  if task.asset = l.residentAsset then
    { l with
      assetSource := .cached
      held := l.held ++ [task.id]
      queue := l.queue ++ [task] }
  else
    let l := { l with waitingOnAsset := l.waitingOnAsset ++ [task] }
    if l.fetch.any fun f => f.address = task.asset then l
    else
      { l with
        fetch := some
          { address := task.asset, expectedBytes := inputBytes, lastProgress := now }
        peerAttempt := 0
        peerAttemptsMade := 0
        peerConnected := false }.tryNextPeerOrFallBack now

-- What a poll does for a fetch: the deadline of a peer, then that of the whole.
def pollFetch (l : TaskLoop) (now : Nat) : TaskLoop :=
  let l := if l.fetch.isSome ∧ l.peer.isSome ∧ l.peerDeadline < now then
      { l with peer := none }.tryNextPeerOrFallBack now
    else l
  match l.fetch with
  | none => l
  | some f => if kAssetStallTimeout < now - f.lastProgress then l.abandonAssetFetch else l

end TaskLoop

end P2pGpu.Worker
