import P2pGpu.Coordinator.Messages
import P2pGpu.Data.Chunks

namespace P2pGpu.Protocol

open P2pGpu.Coordinator (kChunkBytes)

def kMaxAssetBytes : Nat := 256 * 1024 * 1024

-- Where a chunk starts. `sizeT` is how many values a `size_t` has.
def chunkOffset (sizeT : Nat) (index : UInt32) : Option Nat :=
  if (sizeT - 1) / kChunkBytes < index.toNat then none else some (index.toNat * kChunkBytes)

-- The total is compared before the index is used for anything.
def checkAssetChunk (sizeT : Nat) (index total expectedChunks : UInt32) (chunkBytes : Nat) :
    Status :=
  if total ≠ expectedChunks then
    .error (makeError .malformedMessage "chunk total disagrees with expected count")
  else if total ≤ index then .error (makeError .malformedMessage "chunk index out of range")
  else if kChunkBytes < chunkBytes then
    .error (makeError .payloadTooLarge "chunk larger than kChunkBytes")
  else if chunkBytes < kChunkBytes ∧ index + 1 ≠ total then
    .error (makeError .malformedMessage "short chunk before the final index")
  else if chunkOffset sizeT index = none then
    .error (makeError .malformedMessage "chunk offset overflows")
  else .ok ()

theorem chunkOffset_eq {sizeT start : Nat} {index : UInt32} (h : chunkOffset sizeT index = some start) :
    start = index.toNat * kChunkBytes := by
  unfold chunkOffset at h
  split at h
  · cases h
  · exact (Option.some.inj h).symm

theorem checkAssetChunk_ok {sizeT chunkBytes : Nat} {index total expectedChunks : UInt32}
    (h : checkAssetChunk sizeT index total expectedChunks chunkBytes = .ok ()) :
    total = expectedChunks ∧ index < total ∧ chunkBytes ≤ kChunkBytes := by
  unfold checkAssetChunk at h
  by_cases htotal : total ≠ expectedChunks
  · rw [if_pos htotal] at h
    cases h
  · rw [if_neg htotal] at h
    by_cases hindex : total ≤ index
    · rw [if_pos hindex] at h
      cases h
    · rw [if_neg hindex] at h
      by_cases hlong : kChunkBytes < chunkBytes
      · rw [if_pos hlong] at h
        cases h
      · refine ⟨not_not.mp htotal, ?_, Nat.le_of_not_lt hlong⟩
        rw [UInt32.le_iff_toNat_le] at hindex
        rw [UInt32.lt_iff_toNat_lt]
        omega

end P2pGpu.Protocol
