import P2pGpu.Scene.Bvh.Valid

namespace P2pGpu.Scene

open P2pGpu.Protocol Checked

-- What lies at the start of a blob.
def headerIn (bytes : List UInt8) : BvhHeader :=
  Layout.ofWords (LittleEndian.readWords (bytes.take (byteSize BvhHeader)))

-- A blob whose header is in order and agrees with its length.
structure Framed (bytes : List UInt8) (h : BvhHeader) : Prop where
  header : byteSize BvhHeader ≤ bytes.length
  magic : h.magic = kBvhMagic
  version : h.version = kBvhVersion
  reserved : ∀ r ∈ h.reserved, r = 0
  nodes : 0 < h.nodeCount.toNat ∧ h.nodeCount.toNat ≤ kMaxBvhNodes.toNat
  prims : 0 < h.primCount.toNat ∧ h.primCount.toNat ≤ kMaxBvhPrims.toNat
  materials : 0 < h.materialCount.toNat ∧ h.materialCount.toNat ≤ kMaxBvhMaterials.toNat
  nodeOffset : h.nodeOffset.toNat = 64
  primOffset : h.primOffset.toNat = 64 + h.nodeCount.toNat * 32
  materialOffset : h.materialOffset.toNat = 64 + h.nodeCount.toNat * 32 + h.primCount.toNat * 64
  totalBytes : h.totalBytes.toNat =
    64 + h.nodeCount.toNat * 32 + h.primCount.toNat * 64 + h.materialCount.toNat * 32
  length : bytes.length = h.totalBytes.toNat

-- The records of a section.
def sectionOf (α : Type) [Layout α] (bytes : List UInt8) (start count : Nat) : List α :=
  ofBytes α count ((bytes.drop start).take (count * byteSize α))

section

variable {may : Prop} {bytes : List UInt8}

@[simp] theorem length_ofBytes (α : Type) [Layout α] (count : Nat) (bytes : List UInt8) :
    (ofBytes α count bytes).length = count := by
  simp [ofBytes]

theorem countOk_iff {c limit : UInt32} :
    (c = 0 ∨ limit < c) ↔ ¬ (0 < c.toNat ∧ c.toNat ≤ limit.toNat) := by
  rw [UInt32.lt_iff_toNat_lt, ← UInt32.toNat_inj, UInt32.toNat_zero]
  omega

theorem parse_meets (hmay : may ∨ Framed bytes (headerIn bytes)) :
    Meets may (parse bytes) fun out => Framed bytes (headerIn bytes) ∧ out = (headerIn bytes,
      sectionOf BvhNode bytes (headerIn bytes).nodeOffset.toNat (headerIn bytes).nodeCount.toNat,
      sectionOf BvhPrim bytes (headerIn bytes).primOffset.toNat (headerIn bytes).primCount.toNat,
      sectionOf BvhMaterial bytes (headerIn bytes).materialOffset.toNat
        (headerIn bytes).materialCount.toNat) := by
  unfold parse
  refine (Meets.refuseIf fun hbad => hmay.resolve_right fun hf => ?_).bind fun _ hheader => ?_
  · exact absurd hf.header (Nat.not_le.mpr hbad)
  rw [Nat.not_lt] at hheader
  refine (Meets.slice (by rw [Nat.zero_add]; exact hheader)).bind fun head hhead => ?_
  have hsame : (Layout.ofWords (LittleEndian.readWords head) : BvhHeader) = headerIn bytes := by
    rw [hhead, List.drop_zero]
    rfl
  dsimp only
  rw [hsame]
  generalize headerIn bytes = h at hmay ⊢
  refine (Meets.refuseIf fun hbad => hmay.resolve_right fun hf => hbad hf.magic).bind
    fun _ hmagic => ?_
  refine (Meets.refuseIf fun hbad => hmay.resolve_right fun hf => hbad hf.version).bind
    fun _ hversion => ?_
  refine (Meets.refuseIf fun hbad => hmay.resolve_right fun hf => ?_).bind fun _ hreserved => ?_
  · obtain ⟨r, hr, hne⟩ := hbad
    exact hne (hf.reserved r hr)
  rw [not_not] at hmagic hversion
  refine (Meets.refuseIf fun hbad => hmay.resolve_right fun hf => ?_).bind fun _ hnodes => ?_
  · exact countOk_iff.mp hbad hf.nodes
  refine (Meets.refuseIf fun hbad => hmay.resolve_right fun hf => ?_).bind fun _ hprims => ?_
  · exact countOk_iff.mp hbad hf.prims
  refine (Meets.refuseIf fun hbad => hmay.resolve_right fun hf => ?_).bind fun _ hmaterials => ?_
  · exact countOk_iff.mp hbad hf.materials
  rw [countOk_iff, not_not] at hnodes hprims hmaterials
  have hmaxNodes : kMaxBvhNodes.toNat = 8388608 := rfl
  have hmaxPrims : kMaxBvhPrims.toNat = 4194304 := rfl
  have hmaxMaterials : kMaxBvhMaterials.toNat = 65536 := rfl
  have hnodeSize : (UInt64.ofNat (byteSize BvhNode)).toNat = 32 := rfl
  have hprimSize : (UInt64.ofNat (byteSize BvhPrim)).toNat = 64 := rfl
  have hmaterialSize : (UInt64.ofNat (byteSize BvhMaterial)).toNat = 32 := rfl
  have hheaderSize : (UInt64.ofNat (byteSize BvhHeader)).toNat = 64 := rfl
  refine (Meets.mulU64 ?_).bind fun n64 hn64 => ?_
  · rw [UInt32.toNat_toUInt64, hnodeSize]
    omega
  refine (Meets.mulU64 ?_).bind fun p64 hp64 => ?_
  · rw [UInt32.toNat_toUInt64, hprimSize]
    omega
  refine (Meets.mulU64 ?_).bind fun m64 hm64 => ?_
  · rw [UInt32.toNat_toUInt64, hmaterialSize]
    omega
  rw [UInt32.toNat_toUInt64] at hn64 hp64 hm64
  rw [hnodeSize] at hn64
  rw [hprimSize] at hp64
  rw [hmaterialSize] at hm64
  refine (Meets.addU64 ?_).bind fun wantPrimOff hprimOff => ?_
  · rw [hheaderSize]
    omega
  rw [hheaderSize] at hprimOff
  refine (Meets.addU64 (by omega)).bind fun wantMatOff hmatOff => ?_
  refine (Meets.addU64 (by omega)).bind fun wantTotal htotal => ?_
  have hoffsets : (h.nodeOffset.toUInt64 ≠ UInt64.ofNat (byteSize BvhHeader) ∨
      h.primOffset.toUInt64 ≠ wantPrimOff ∨ h.materialOffset.toUInt64 ≠ wantMatOff ∨
      h.totalBytes.toUInt64 ≠ wantTotal) ↔
      ¬ (h.nodeOffset.toNat = 64 ∧ h.primOffset.toNat = wantPrimOff.toNat ∧
        h.materialOffset.toNat = wantMatOff.toNat ∧ h.totalBytes.toNat = wantTotal.toNat) := by
    simp only [ne_eq, ← UInt64.toNat_inj, UInt32.toNat_toUInt64, hheaderSize]
    omega
  refine (Meets.refuseIf fun hbad => hmay.resolve_right fun hf => ?_).bind fun _ hok => ?_
  · rw [hoffsets] at hbad
    refine hbad ⟨hf.nodeOffset, ?_, ?_, ?_⟩
    · rw [hf.primOffset, hprimOff, hn64]
    · rw [hf.materialOffset, hmatOff, hprimOff, hn64, hp64]
    · rw [hf.totalBytes, htotal, hmatOff, hprimOff, hn64, hp64, hm64]
  rw [hoffsets, not_not] at hok
  obtain ⟨hnodeOffset, hprimOffset, hmaterialOffset, htotalBytes⟩ := hok
  refine (Meets.refuseIf fun hbad => hmay.resolve_right fun hf => ?_).bind fun _ hlength => ?_
  · exact hbad (hf.length.trans htotalBytes)
  rw [not_not] at hlength
  refine (Meets.slice (by omega)).bind fun nodeBytes hnodeBytes => ?_
  refine (Meets.slice (by omega)).bind fun primBytes hprimBytes => ?_
  refine (Meets.slice (by omega)).bind fun materialBytes hmaterialBytes => ?_
  refine Meets.ok ⟨⟨hheader, hmagic, hversion, fun r hr => ?_, hnodes, hprims, hmaterials,
    hnodeOffset, ?_, ?_, ?_, hlength.trans htotalBytes.symm⟩, ?_⟩
  · by_contra hne
    exact hreserved ⟨r, hr, hne⟩
  · rw [hprimOffset, hprimOff, hn64]
  · rw [hmaterialOffset, hmatOff, hprimOff, hn64, hp64]
  · rw [htotalBytes, htotal, hmatOff, hprimOff, hn64, hp64, hm64]
  · rw [hnodeBytes, hprimBytes, hmaterialBytes, hn64, hp64, hm64]
    rfl

theorem loadBvh_meets (hmay : may ∨ (Framed bytes (headerIn bytes) ∧
      Valid (sectionOf BvhNode bytes (headerIn bytes).nodeOffset.toNat
          (headerIn bytes).nodeCount.toNat)
        (sectionOf BvhPrim bytes (headerIn bytes).primOffset.toNat (headerIn bytes).primCount.toNat)
        (sectionOf BvhMaterial bytes (headerIn bytes).materialOffset.toNat
          (headerIn bytes).materialCount.toNat))) :
    Meets may (loadBvh bytes) fun b => Framed bytes (headerIn bytes) ∧
      b.nodes = sectionOf BvhNode bytes (headerIn bytes).nodeOffset.toNat
        (headerIn bytes).nodeCount.toNat ∧
      b.prims = sectionOf BvhPrim bytes (headerIn bytes).primOffset.toNat
        (headerIn bytes).primCount.toNat ∧
      b.materials = sectionOf BvhMaterial bytes (headerIn bytes).materialOffset.toNat
        (headerIn bytes).materialCount.toNat ∧
      Valid b.nodes b.prims b.materials ∧ Measured b.nodes b.maxDepth b.maxLeafPrims := by
  unfold loadBvh
  refine (parse_meets (hmay.imp_right And.left)).bind fun out hout => ?_
  obtain ⟨hframed, rfl⟩ := hout
  have hcount := hframed.nodes
  refine (LoadBvh.validate_meets (h := headerIn bytes) ?_ ?_ ?_ ?_ ?_
    (hmay.imp_right And.right)).bind fun out hvalid => ?_
  · simp [sectionOf]
  · simp [sectionOf]
  · simp [sectionOf]
  · simpa [sectionOf] using hcount.1
  · simpa [sectionOf] using hcount.2
  · exact ⟨hframed, rfl, rfl, rfl, hvalid.1, hvalid.2⟩

theorem loadBvh_accepts (bytes : List UInt8) : Meets True (loadBvh bytes) fun b =>
    Valid b.nodes b.prims b.materials ∧ Measured b.nodes b.maxDepth b.maxLeafPrims :=
  (loadBvh_meets (.inl trivial)).mono fun _ h => ⟨h.2.2.2.2.1, h.2.2.2.2.2⟩

-- No bytes make the loader read outside of an array or compute an index that wraps, and
-- what it accepts is in range and a tree.
theorem loadBvh_sound (bytes : List UInt8) :
    loadBvh bytes ≠ .error .fault ∧ ∀ b, loadBvh bytes = .ok b →
      Valid b.nodes b.prims b.materials ∧
      (∀ j, 0 < j → j < b.nodes.length → ∃! i, i < b.nodes.length ∧ j ∈ kidsOf b.nodes i) ∧
      (∀ j < b.nodes.length, Relation.ReflTransGen (fun i k => k ∈ kidsOf b.nodes i) 0 j) ∧
      (∃ order, IndexTree.walk (kidsOf b.nodes) b.nodes.length [0] = some order ∧
        order.Perm (List.range b.nodes.length)) ∧
      Measured b.nodes b.maxDepth b.maxLeafPrims := by
  have hmeets := loadBvh_accepts bytes
  refine ⟨hmeets.no_fault, fun b hb => ?_⟩
  obtain ⟨hvalid, hmeasured⟩ := hmeets.of_ok hb
  have htree := hvalid.tree
  refine ⟨hvalid, fun j hpos hj => ?_, fun j hj => ?_, htree.walk_all, hmeasured⟩
  · obtain ⟨i, hi, hkid⟩ := htree.parent j hpos hj
    refine ⟨i, ⟨hi, hkid⟩, fun i' hother => ?_⟩
    exact htree.unique i' hother.1 i hi j hother.2 hkid
  · obtain ⟨d, hpath⟩ := htree.exists_pathTo hj
    exact hpath.reachable

-- One leaf with one sphere.
def oneLeaf : Bvh where
  nodes := [{ leftOrFirst := 0, countAndLeaf := kLeafFlag ||| 1 }]
  prims := [{ kind := kPrimSphere }]
  materials := [{ kind := MaterialKind.metal.toU32 }]
  maxDepth := 1
  maxLeafPrims := 1

def oneLeafBlob : List UInt8 :=
  toBytes [headerOf oneLeaf] ++ toBytes oneLeaf.nodes ++ toBytes oneLeaf.prims ++
    toBytes oneLeaf.materials

theorem loadBvh_sound_leaf : loadBvh oneLeafBlob ≠ .error .fault ∧
    loadBvh oneLeafBlob = .ok oneLeaf ∧ Valid oneLeaf.nodes oneLeaf.prims oneLeaf.materials ∧
    Measured oneLeaf.nodes 1 1 := by
  have hload : loadBvh oneLeafBlob = .ok oneLeaf := by decide +kernel
  obtain ⟨hsafe, haccept⟩ := loadBvh_sound oneLeafBlob
  obtain ⟨hvalid, -, -, -, hmeasured⟩ := haccept oneLeaf hload
  exact ⟨hsafe, hload, hvalid, hmeasured⟩

end

end P2pGpu.Scene
