import P2pGpu.Scene.Bvh.Load

namespace P2pGpu.Scene

open P2pGpu.Protocol Checked

-- Records that are read from memory as they were written there.
class LawfulLayout (α : Type) [Layout α] : Prop where
  length_words : ∀ a : α, (Layout.words a).length = Layout.width α
  ofWords_words : ∀ a : α, Layout.ofWords (Layout.words a) = a

instance : LawfulLayout BvhNode where
  length_words _ := rfl
  ofWords_words _ := rfl

instance : LawfulLayout BvhPrim where
  length_words _ := rfl
  ofWords_words _ := rfl

instance : LawfulLayout BvhMaterial where
  length_words _ := rfl
  ofWords_words _ := rfl

-- The counts that the loader takes.
structure Bvh.Fits (b : Bvh) : Prop where
  nodes : 0 < b.nodes.length ∧ b.nodes.length ≤ kMaxBvhNodes.toNat
  prims : 0 < b.prims.length ∧ b.prims.length ≤ kMaxBvhPrims.toNat
  materials : 0 < b.materials.length ∧ b.materials.length ≤ kMaxBvhMaterials.toNat

-- What a tree is written as.
def blobOf (b : Bvh) : List UInt8 :=
  toBytes [headerOf b] ++ (toBytes b.nodes ++ (toBytes b.prims ++ toBytes b.materials))

section

variable {α : Type} [Layout α] [LawfulLayout α] {b : Bvh}

theorem length_toBytes (xs : List α) : (toBytes xs).length = xs.length * byteSize α := by
  have hbytes := Chunks.length_flatMap_const LittleEndian.length_writeU32LE
    (xs.flatMap Layout.words)
  have hwords := Chunks.length_flatMap_const LawfulLayout.length_words xs
  rw [toBytes, hbytes, hwords, byteSize, Nat.mul_assoc]

theorem ofBytes_toBytes (xs : List α) : ofBytes α xs.length (toBytes xs) = xs := by
  rw [ofBytes, toBytes, LittleEndian.readWords_flatMap_write]
  apply List.ext_getElem
  · simp
  · intro i hi hi'
    have hpiece := Chunks.piece_flatMap (LawfulLayout.length_words (α := α)) hi'
    simp only [List.getElem_map, List.getElem_range]
    rw [hpiece, LawfulLayout.ofWords_words]

-- A section that is where its offset says.
theorem sectionOf_toBytes (before after : List UInt8) (xs : List α) :
    sectionOf α (before ++ (toBytes xs ++ after)) before.length xs.length = xs := by
  rw [sectionOf, List.drop_left, ← length_toBytes, List.take_left, ofBytes_toBytes]

@[simp] theorem length_header (b : Bvh) : (toBytes [headerOf b]).length = 64 := rfl

theorem headerIn_blobOf (b : Bvh) : headerIn (blobOf b) = headerOf b := by
  have hread : LittleEndian.readWords (toBytes [headerOf b]) = Layout.words (headerOf b) := by
    rw [toBytes, LittleEndian.readWords_flatMap_write]
    exact List.append_nil _
  have hhead : (blobOf b).take (byteSize BvhHeader) = toBytes [headerOf b] :=
    List.take_left' (length_header b)
  rw [headerIn, hhead, hread]
  rfl

theorem length_blobOf (b : Bvh) : (blobOf b).length =
    64 + b.nodes.length * 32 + b.prims.length * 64 + b.materials.length * 32 := by
  have hnodes : (toBytes b.nodes).length = b.nodes.length * 32 := length_toBytes b.nodes
  have hprims : (toBytes b.prims).length = b.prims.length * 64 := length_toBytes b.prims
  have hmaterials : (toBytes b.materials).length = b.materials.length * 32 :=
    length_toBytes b.materials
  rw [blobOf, List.length_append, List.length_append, List.length_append, length_header, hnodes,
    hprims, hmaterials]
  omega

-- No sum of the header wraps.
theorem headerOf_toNat (h : b.Fits) :
    (headerOf b).nodeCount.toNat = b.nodes.length ∧
      (headerOf b).primCount.toNat = b.prims.length ∧
      (headerOf b).materialCount.toNat = b.materials.length ∧
      (headerOf b).nodeOffset.toNat = 64 ∧
      (headerOf b).primOffset.toNat = 64 + b.nodes.length * 32 ∧
      (headerOf b).materialOffset.toNat = 64 + b.nodes.length * 32 + b.prims.length * 64 ∧
      (headerOf b).totalBytes.toNat =
        64 + b.nodes.length * 32 + b.prims.length * 64 + b.materials.length * 32 := by
  have hnodes : b.nodes.length ≤ 8388608 := h.nodes.2
  have hprims : b.prims.length ≤ 4194304 := h.prims.2
  have hmaterials : b.materials.length ≤ 65536 := h.materials.2
  have hnodeSize : byteSize BvhNode = 32 := rfl
  have hprimSize : byteSize BvhPrim = 64 := rfl
  have hmaterialSize : byteSize BvhMaterial = 32 := rfl
  have hheaderSize : byteSize BvhHeader = 64 := rfl
  simp only [headerOf, UInt32.toNat_add, UInt32.toNat_ofNat', hnodeSize, hprimSize, hmaterialSize,
    hheaderSize]
  refine ⟨?_, ?_, ?_, trivial, ?_, ?_, ?_⟩ <;> omega

theorem framed_blobOf (h : b.Fits) : Framed (blobOf b) (headerOf b) := by
  obtain ⟨hnodes, hprims, hmaterials, hnodeOff, hprimOff, hmaterialOff, htotal⟩ := headerOf_toNat h
  have hlength := length_blobOf b
  exact {
    header := by
      show 64 ≤ _
      omega
    magic := rfl
    version := rfl
    reserved := fun r hr => List.eq_of_mem_replicate hr
    nodes := by rw [hnodes]; exact h.nodes
    prims := by rw [hprims]; exact h.prims
    materials := by rw [hmaterials]; exact h.materials
    nodeOffset := hnodeOff
    primOffset := by rw [hnodes]; exact hprimOff
    materialOffset := by rw [hnodes, hprims]; exact hmaterialOff
    totalBytes := by rw [hnodes, hprims, hmaterials]; exact htotal
    length := hlength.trans htotal.symm }

theorem put_append (before rest src : List UInt8) (h : src.length ≤ rest.length) :
    put (before ++ rest) before.length src = .ok (before ++ src ++ rest.drop src.length) := by
  have hin : before.length + src.length ≤ (before ++ rest).length := by
    rw [List.length_append]
    omega
  rw [put, if_pos hin, Chunks.overwrite_append]

-- Each section is written behind the one before it.
theorem serializeBvh_eq (h : b.Fits) : serializeBvh b = .ok (blobOf b) := by
  obtain ⟨-, -, -, hnodeOff, hprimOff, hmaterialOff, htotal⟩ := headerOf_toNat h
  have hnodes : (toBytes b.nodes).length = b.nodes.length * 32 := length_toBytes b.nodes
  have hprims : (toBytes b.prims).length = b.prims.length * 64 := length_toBytes b.prims
  have hmaterials : (toBytes b.materials).length = b.materials.length * 32 :=
    length_toBytes b.materials
  have hheader := length_header b
  let zeros : List UInt8 := List.replicate (headerOf b).totalBytes.toNat 0
  have hzeros : zeros.length = 64 + b.nodes.length * 32 + b.prims.length * 64 +
      b.materials.length * 32 := List.length_replicate.trans htotal
  have h₁ := put_append [] zeros (toBytes [headerOf b]) (by omega)
  have h₂ := put_append (toBytes [headerOf b]) (zeros.drop 64) (toBytes b.nodes) (by
    rw [List.length_drop]
    omega)
  have h₃ := put_append (toBytes [headerOf b] ++ toBytes b.nodes)
    ((zeros.drop 64).drop (toBytes b.nodes).length) (toBytes b.prims) (by
      rw [List.length_drop, List.length_drop]
      omega)
  have h₄ := put_append (toBytes [headerOf b] ++ toBytes b.nodes ++ toBytes b.prims)
    (((zeros.drop 64).drop (toBytes b.nodes).length).drop (toBytes b.prims).length)
    (toBytes b.materials) (by
      rw [List.length_drop, List.length_drop, List.length_drop]
      omega)
  have hnone : ((((zeros.drop 64).drop (b.nodes.length * 32)).drop (b.prims.length * 64)).drop
      (toBytes b.materials).length) = [] := by
    apply List.drop_eq_nil_of_le
    rw [List.length_drop, List.length_drop, List.length_drop]
    omega
  rw [List.nil_append, List.nil_append, List.length_nil, hheader] at h₁
  rw [hheader] at h₂
  rw [List.length_append, hheader, hnodes] at h₃
  rw [List.length_append, List.length_append, hheader, hnodes, hprims, hnone, List.append_nil] at h₄
  unfold serializeBvh
  dsimp only
  rw [hnodeOff, hprimOff, hmaterialOff]
  show put zeros 0 _ >>= _ = _
  rw [h₁]
  show put _ 64 _ >>= _ = _
  rw [h₂]
  show put _ (64 + b.nodes.length * 32) _ >>= _ = _
  rw [hnodes, h₃]
  show put _ (64 + b.nodes.length * 32 + b.prims.length * 64) _ = _
  rw [hprims, h₄, blobOf, List.append_assoc, List.append_assoc]

theorem loadBvh_fits {bytes : List UInt8} (h : loadBvh bytes = .ok b) :
    b.Fits ∧ Valid b.nodes b.prims b.materials := by
  have hmeets : Meets True (loadBvh bytes) _ := loadBvh_meets (.inl trivial)
  obtain ⟨hframed, hnodes, hprims, hmaterials, hvalid, -⟩ := hmeets.of_ok h
  refine ⟨⟨?_, ?_, ?_⟩, hvalid⟩
  · rw [hnodes, sectionOf, length_ofBytes]
    exact hframed.nodes
  · rw [hprims, sectionOf, length_ofBytes]
    exact hframed.prims
  · rw [hmaterials, sectionOf, length_ofBytes]
    exact hframed.materials

-- What is written is accepted, and its arrays are read as they were.
theorem loadBvh_blobOf_arrays (h : b.Fits) (hvalid : Valid b.nodes b.prims b.materials) :
    ∃ b', loadBvh (blobOf b) = .ok b' ∧ b'.nodes = b.nodes ∧ b'.prims = b.prims ∧
      b'.materials = b.materials ∧ Measured b.nodes b'.maxDepth b'.maxLeafPrims := by
  obtain ⟨hnodes, hprims, hmaterials, hnodeOff, hprimOff, hmaterialOff, -⟩ := headerOf_toNat h
  have hlenNodes : (toBytes b.nodes).length = b.nodes.length * 32 := length_toBytes b.nodes
  have hlenPrims : (toBytes b.prims).length = b.prims.length * 64 := length_toBytes b.prims
  have hnodeSection : sectionOf BvhNode (blobOf b) (headerOf b).nodeOffset.toNat
      (headerOf b).nodeCount.toNat = b.nodes := by
    rw [hnodes, hnodeOff, ← length_header b]
    exact sectionOf_toBytes _ _ _
  have hprimSection : sectionOf BvhPrim (blobOf b) (headerOf b).primOffset.toNat
      (headerOf b).primCount.toNat = b.prims := by
    have hsection := sectionOf_toBytes (toBytes [headerOf b] ++ toBytes b.nodes)
      (toBytes b.materials) b.prims
    rw [List.length_append, length_header, hlenNodes, List.append_assoc] at hsection
    rw [hprims, hprimOff]
    exact hsection
  have hmaterialSection : sectionOf BvhMaterial (blobOf b) (headerOf b).materialOffset.toNat
      (headerOf b).materialCount.toNat = b.materials := by
    have hsection := sectionOf_toBytes (toBytes [headerOf b] ++ toBytes b.nodes ++ toBytes b.prims)
      [] b.materials
    rw [List.length_append, List.length_append, length_header, hlenNodes, hlenPrims,
      List.append_nil, List.append_assoc, List.append_assoc] at hsection
    rw [hmaterials, hmaterialOff]
    exact hsection
  have hmeets := loadBvh_meets (.inr (by
    rw [headerIn_blobOf, hnodeSection, hprimSection, hmaterialSection]
    exact ⟨framed_blobOf h, hvalid⟩) : False ∨ _)
  rw [headerIn_blobOf, hnodeSection, hprimSection, hmaterialSection] at hmeets
  obtain ⟨b', hload, -, hnodes', hprims', hmaterials', -, hmeasured'⟩ := hmeets.returns
  rw [hnodes'] at hmeasured'
  exact ⟨b', hload, hnodes', hprims', hmaterials', hmeasured'⟩

-- The depth and the largest leaf are found again where they were right.
theorem loadBvh_blobOf (h : b.Fits) (hvalid : Valid b.nodes b.prims b.materials)
    (hmeasured : Measured b.nodes b.maxDepth b.maxLeafPrims) : loadBvh (blobOf b) = .ok b := by
  obtain ⟨b', hload, hnodes, hprims, hmaterials, hmeasured'⟩ := loadBvh_blobOf_arrays h hvalid
  have hdepth : b'.maxDepth = b.maxDepth :=
    UInt32.toNat_inj.mp (hmeasured'.depth.unique hmeasured.depth)
  have hleaf : b'.maxLeafPrims = b.maxLeafPrims :=
    UInt32.toNat_inj.mp (hmeasured'.leaf.unique hmeasured.leaf)
  have hsame : b' = b := by
    cases b
    cases b'
    simp_all
  rw [hload, hsame]

end

end P2pGpu.Scene
