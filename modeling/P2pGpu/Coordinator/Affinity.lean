namespace P2pGpu.Coordinator

-- A bulk input, by the bytes of its content hash.
abbrev AssetId : Type := List UInt8

def hasAsset (cached : List AssetId) (want : AssetId) : Bool :=
  cached.any (· == want)

-- The first entry whose input is held, not the best one.
def preferCached (needs : List (Option AssetId)) (cached : List AssetId) : Option Nat :=
  if cached.isEmpty then none
  else needs.findIdx? fun need =>
    match need with
    | some want => hasAsset cached want
    | none => false

theorem preferCached_lt {needs : List (Option AssetId)} {cached : List AssetId} {i : Nat}
    (h : preferCached needs cached = some i) : i < needs.length := by
  unfold preferCached at h
  split at h
  · cases h
  · exact (List.findIdx?_eq_some_iff_getElem.mp h).choose

end P2pGpu.Coordinator
