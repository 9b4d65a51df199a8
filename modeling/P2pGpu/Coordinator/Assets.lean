import P2pGpu.Coordinator.Affinity
import P2pGpu.Data.Table

namespace P2pGpu.Coordinator

-- A string as it comes off the wire, by its bytes.
abbrev WireString : Type := List UInt8

-- Four lanes of a content hash.
structure Hash32 where
  a : UInt64
  b : UInt64
  c : UInt64
  d : UInt64
deriving DecidableEq, Repr

namespace AssetId

def kHex : List UInt8 := [48, 49, 50, 51, 52, 53, 54, 55, 56, 57, 97, 98, 99, 100, 101, 102]

def hexOfByte (v : UInt8) : WireString :=
  [kHex.getD (v >>> 4).toNat 0, kHex.getD (v &&& 0x0F).toNat 0]

def address (id : AssetId) : WireString := id.flatMap hexOfByte

-- The byte that is worth `256 ^ k` comes at place `k` of a lane.
def lane (id : AssetId) (i : Nat) : UInt64 :=
  (List.range 8).foldl
    (fun v k => v ||| (id.getD (i * 8 + k) 0).toUInt64 <<< UInt64.ofNat (k * 8)) 0

def toHash32 (id : AssetId) : Hash32 := ⟨id.lane 0, id.lane 1, id.lane 2, id.lane 3⟩

def nibble (c : UInt8) : UInt8 := if c ≤ 57 then c - 48 else c - 97 + 10

end AssetId

namespace Hash32

def laneBytes (v : UInt64) : List UInt8 :=
  (List.range 8).map fun k => (v >>> UInt64.ofNat (k * 8) &&& 0xFF).toUInt8

def address (h : Hash32) : WireString :=
  [h.a, h.b, h.c, h.d].flatMap fun v => (laneBytes v).flatMap AssetId.hexOfByte

end Hash32

-- Bulk inputs, each under its content address.
structure AssetStore where
  blobs : Table WireString (List UInt8) := ∅

namespace AssetStore

def isWellFormedAddress (hash : WireString) : Bool :=
  hash.length = 64 && hash.all fun c => (48 ≤ c && c ≤ 57) || (97 ≤ c && c ≤ 102)

def find (store : AssetStore) (hash : WireString) : Option (List UInt8) :=
  if isWellFormedAddress hash then store.blobs.lookup hash else none

end AssetStore

def kMaxAdvertisedAssets : Nat := 32

def parseAddress (hex : WireString) : Option AssetId :=
  if AssetStore.isWellFormedAddress hex then
    some ((List.range 32).map fun b =>
      AssetId.nibble (hex.getD (b * 2) 0) <<< 4 ||| AssetId.nibble (hex.getD (b * 2 + 1) 0))
  else none

-- What a worker says it holds. An entry that is malformed is dropped.
def adoptCachedAssets (advertised : Option (List WireString)) : List AssetId :=
  match advertised with
  | none => []
  | some entries => (entries.take kMaxAdvertisedAssets).filterMap parseAddress

end P2pGpu.Coordinator
