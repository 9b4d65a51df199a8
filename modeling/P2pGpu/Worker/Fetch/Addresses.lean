import P2pGpu.Worker.Fetch.Moves

namespace P2pGpu.Worker

open P2pGpu.LittleEndian
open P2pGpu.Coordinator (AssetId AssetRequest Hash32 WireString adoptCachedAssets parseAddress)
open P2pGpu.Coordinator.AssetId (hexOfByte kHex)
open P2pGpu.Coordinator.AssetStore (isWellFormedAddress)
open P2pGpu.Coordinator.Hash32 (laneBytes)

-- A digit of an address, in the one spelling that is emitted.
def isDigit (c : UInt8) : Bool := (48 ≤ c && c ≤ 57) || (97 ≤ c && c ≤ 102)

section

variable {id : AssetId} {hex : WireString} {i n : Nat}

-- The two digits of a byte, as each of the three readers takes them.
theorem digits_of_byte (b : UInt8) :
    (isDigit (kHex.getD (b >>> 4).toNat 0) = true ∧ isDigit (kHex.getD (b &&& 0x0F).toNat 0)) ∧
      (nib (kHex.getD (b >>> 4).toNat 0) <<< 4 ||| nib (kHex.getD (b &&& 0x0F).toNat 0)) =
        b.toUInt64 ∧
      (AssetId.nibble (kHex.getD (b >>> 4).toNat 0) <<< 4 |||
        AssetId.nibble (kHex.getD (b &&& 0x0F).toNat 0)) = b := by
  have hall : ∀ n : Fin 256,
      (isDigit (kHex.getD (UInt8.ofNat n >>> 4).toNat 0) = true ∧
        isDigit (kHex.getD (UInt8.ofNat n &&& 0x0F).toNat 0)) ∧
      (nib (kHex.getD (UInt8.ofNat n >>> 4).toNat 0) <<< 4 |||
        nib (kHex.getD (UInt8.ofNat n &&& 0x0F).toNat 0)) = (UInt8.ofNat n).toUInt64 ∧
      (AssetId.nibble (kHex.getD (UInt8.ofNat n >>> 4).toNat 0) <<< 4 |||
        AssetId.nibble (kHex.getD (UInt8.ofNat n &&& 0x0F).toNat 0)) = UInt8.ofNat n := by
    decide +kernel
  have hb := hall ⟨b.toNat, b.toNat_lt⟩
  rwa [UInt8.ofNat_toNat] at hb

theorem digit_eq {c : UInt8} (h : isDigit c = true) : ∃ n : Fin 16, c = kHex.getD n 0 := by
  have hall : ∀ n : Fin 256, isDigit (UInt8.ofNat n) = true →
      ∃ k : Fin 16, UInt8.ofNat n = kHex.getD k 0 := by
    decide +kernel
  have hc : UInt8.ofNat c.toNat = c := UInt8.ofNat_toNat
  have hdigit := hall ⟨c.toNat, c.toNat_lt⟩
  rw [hc] at hdigit
  exact hdigit h

-- Two digits are those of the byte that they are read as.
theorem hexOfByte_nibbles {c d : UInt8} (hc : isDigit c = true) (hd : isDigit d = true) :
    hexOfByte (AssetId.nibble c <<< 4 ||| AssetId.nibble d) = [c, d] := by
  obtain ⟨m, rfl⟩ := digit_eq hc
  obtain ⟨k, rfl⟩ := digit_eq hd
  revert m k
  decide +kernel

theorem length_address (id : AssetId) : id.address.length = id.length * 2 :=
  Chunks.length_flatMap_const (f := hexOfByte) (fun _ => rfl) id

theorem getD_eq {xs : List UInt8} (hn : n < xs.length) : xs.getD n 0 = xs[n] := by
  rw [List.getD_eq_getElem?_getD, List.getElem?_eq_getElem hn]
  rfl

-- The digits at an even place and after it are those of one byte.
theorem address_getD (hn : n < id.length) :
    id.address.getD (n * 2) 0 = kHex.getD (id.getD n 0 >>> 4).toNat 0 ∧
      id.address.getD (n * 2 + 1) 0 = kHex.getD (id.getD n 0 &&& 0x0F).toNat 0 := by
  have hpiece : Chunks.piece 2 id.address n = hexOfByte id[n] :=
    Chunks.piece_flatMap (f := hexOfByte) (fun _ => rfl) hn
  have hdigit : ∀ k < 2, id.address[n * 2 + k]? = (hexOfByte id[n])[k]? := by
    intro k hk
    rw [← hpiece, Chunks.getElem?_piece, if_pos hk]
  rw [getD_eq hn]
  constructor
  · show id.address[n * 2]?.getD 0 = _
    rw [show id.address[n * 2]? = _ from hdigit 0 (by decide)]
    rfl
  · show id.address[n * 2 + 1]?.getD 0 = _
    rw [hdigit 1 (by decide)]
    rfl

theorem wellFormed_address (h : id.length = 32) : isWellFormedAddress id.address = true := by
  have hdigits : id.address.all isDigit = true := by
    rw [AssetId.address, List.all_flatMap, List.all_eq_true]
    intro b _
    obtain ⟨⟨hhigh, hlow⟩, -, -⟩ := digits_of_byte b
    simp only [hexOfByte, List.all_cons, List.all_nil, Bool.and_true, hhigh, hlow]
  have hlength : id.address.length = 64 := by rw [length_address, h]
  rw [isWellFormedAddress, hlength]
  exact hdigits

-- The bytes of a lane in their place.
theorem lane_piece {b₀ b₁ b₂ b₃ b₄ b₅ b₆ b₇ : UInt8}
    (h : Chunks.piece 8 id i = [b₀, b₁, b₂, b₃, b₄, b₅, b₆, b₇]) :
    id.lane i = readU64LE b₀ b₁ b₂ b₃ b₄ b₅ b₆ b₇ := by
  have hbyte : ∀ k < 8, id.getD (i * 8 + k) 0 = (Chunks.piece 8 id i).getD k 0 := by
    intro k hk
    rw [List.getD_eq_getElem?_getD, List.getD_eq_getElem?_getD, Chunks.getElem?_piece, if_pos hk]
  have hlane : id.lane i = (List.range 8).foldl (fun v k =>
      v ||| ((Chunks.piece 8 id i).getD k 0).toUInt64 <<< UInt64.ofNat (k * 8)) 0 := by
    refine List.foldl_ext _ _ _ fun v k hk => ?_
    rw [hbyte k (List.mem_range.mp hk)]
  rw [hlane, h]
  show (0 : UInt64) ||| b₀.toUInt64 <<< 0 ||| b₁.toUInt64 <<< 8 ||| b₂.toUInt64 <<< 16 |||
    b₃.toUInt64 <<< 24 ||| b₄.toUInt64 <<< 32 ||| b₅.toUInt64 <<< 40 ||| b₆.toUInt64 <<< 48 |||
    b₇.toUInt64 <<< 56 = _
  rw [UInt64.shiftLeft_zero, UInt64.zero_or]
  rfl

theorem laneBytes_readU64LE (b₀ b₁ b₂ b₃ b₄ b₅ b₆ b₇ : UInt8) :
    laneBytes (readU64LE b₀ b₁ b₂ b₃ b₄ b₅ b₆ b₇) = [b₀, b₁, b₂, b₃, b₄, b₅, b₆, b₇] := by
  have h₀ := b₀.toNat_lt
  have h₁ := b₁.toNat_lt
  have h₂ := b₂.toNat_lt
  have h₃ := b₃.toNat_lt
  have h₄ := b₄.toNat_lt
  have h₅ := b₅.toNat_lt
  have h₆ := b₆.toNat_lt
  have h₇ := b₇.toNat_lt
  have hvalue := toNat_readU64LE b₀ b₁ b₂ b₃ b₄ b₅ b₆ b₇
  have hbyte : ∀ k < 8, ∀ b : UInt8,
      (readU64LE b₀ b₁ b₂ b₃ b₄ b₅ b₆ b₇).toNat / 2 ^ (k * 8) % 2 ^ 8 = b.toNat →
      byteU64 (readU64LE b₀ b₁ b₂ b₃ b₄ b₅ b₆ b₇) k = b := by
    intro k hk b hb
    exact UInt8.toNat_inj.mp ((toNat_byteU64 _ hk).trans hb)
  show [byteU64 _ 0, byteU64 _ 1, byteU64 _ 2, byteU64 _ 3, byteU64 _ 4, byteU64 _ 5,
    byteU64 _ 6, byteU64 _ 7] = _
  rw [hbyte 0 (by decide) b₀ (by omega), hbyte 1 (by decide) b₁ (by omega),
    hbyte 2 (by decide) b₂ (by omega), hbyte 3 (by decide) b₃ (by omega),
    hbyte 4 (by decide) b₄ (by omega), hbyte 5 (by decide) b₅ (by omega),
    hbyte 6 (by decide) b₆ (by omega), hbyte 7 (by decide) b₇ (by omega)]

theorem laneBytes_lane (h : id.length = 32) (hi : i < 4) :
    laneBytes (id.lane i) = Chunks.piece 8 id i := by
  have hlength : (Chunks.piece 8 id i).length = 8 := by
    rw [Chunks.length_piece]
    omega
  match hpiece : Chunks.piece 8 id i, hlength with
  | [b₀, b₁, b₂, b₃, b₄, b₅, b₆, b₇], _ => rw [lane_piece hpiece, laneBytes_readU64LE]

-- The lanes of a grant spell the name that the bytes spell.
theorem toHash32_address (h : id.length = 32) : id.toHash32.address = id.address := by
  have hpieces : (List.range 4).flatMap (Chunks.piece 8 id) = id :=
    Chunks.flatMap_piece (by omega)
  have hlanes : id.toHash32.address =
      ((List.range 4).flatMap fun i => laneBytes (id.lane i)).flatMap hexOfByte := by
    rw [List.flatMap_assoc]
    rfl
  rw [hlanes, AssetId.address]
  congr 1
  rw [← hpieces]
  refine List.flatMap_congr fun i hi => ?_
  rw [hpieces]
  exact laneBytes_lane h (List.mem_range.mp hi)

theorem laneFromHex_address (h : id.length = 32) (hi : i < 4) :
    laneFromHex id.address i = id.lane i := by
  refine List.foldl_ext _ _ _ fun v byte hbyte => ?_
  have hlt := List.mem_range.mp hbyte
  have hplace : i * 16 + byte * 2 = (i * 8 + byte) * 2 := by omega
  have hbound : i * 8 + byte < id.length := by omega
  obtain ⟨hhigh, hlow⟩ := address_getD hbound
  rw [hplace, hhigh, hlow, (digits_of_byte _).2.1]

theorem hashFromHex_address (h : id.length = 32) : hashFromHex id.address = id.toHash32 := by
  have hlength : id.address.length = 64 := by rw [length_address, h]
  rw [hashFromHex, if_pos hlength, laneFromHex_address h (by decide),
    laneFromHex_address h (by decide), laneFromHex_address h (by decide),
    laneFromHex_address h (by decide)]
  rfl

theorem sendAssetRequest_address (h : id.length = 32) (l : TaskLoop) (start finish : UInt32) :
    l.sendAssetRequest id.address start finish =
      l.send (.assetRequest ⟨some id.toHash32, start, finish⟩) := by
  have hlength : id.address.length = 64 := by rw [length_address, h]
  have hhash : hashOfHex id.address = some id.toHash32 := by
    rw [← toHash32_address h]
    exact (hashOfHex_address id.toHash32).2
  unfold TaskLoop.sendAssetRequest
  rw [if_neg (not_not.mpr hlength), hhash]

theorem parseAddress_address (h : id.length = 32) : parseAddress id.address = some id := by
  rw [parseAddress, if_pos (wellFormed_address h)]
  congr 1
  apply List.ext_getElem
  · rw [List.length_map, List.length_range, h]
  · intro n hn hn'
    obtain ⟨hhigh, hlow⟩ := address_getD hn'
    rw [List.getElem_map, List.getElem_range, hhigh, hlow, (digits_of_byte _).2.2, getD_eq hn']

-- A name that is well formed is the one of the bytes that it is read as.
theorem exists_address (h : isWellFormedAddress hex = true) :
    ∃ id : AssetId, id.length = 32 ∧ id.address = hex := by
  rw [isWellFormedAddress, Bool.and_eq_true, decide_eq_true_eq] at h
  obtain ⟨hlength, hall⟩ := h
  have hdigit : ∀ n < 64, isDigit (hex.getD n 0) = true := by
    intro n hn
    rw [getD_eq (by omega)]
    exact List.all_eq_true.mp hall _ (List.getElem_mem _)
  have hpair : ∀ b < 32, Chunks.piece 2 hex b = [hex.getD (b * 2) 0, hex.getD (b * 2 + 1) 0] := by
    intro b hb
    apply List.ext_getElem?
    intro k
    rw [Chunks.getElem?_piece]
    match k with
    | 0 => simp [List.getElem?_eq_getElem (show b * 2 < hex.length by omega)]
    | 1 => simp [List.getElem?_eq_getElem (show b * 2 + 1 < hex.length by omega)]
    | k + 2 => simp
  refine ⟨(List.range 32).map fun b =>
    AssetId.nibble (hex.getD (b * 2) 0) <<< 4 ||| AssetId.nibble (hex.getD (b * 2 + 1) 0), ?_, ?_⟩
  · rw [List.length_map, List.length_range]
  · have hpieces : (List.range 32).flatMap (Chunks.piece 2 hex) = hex :=
      Chunks.flatMap_piece (by omega)
    rw [AssetId.address, List.flatMap_map]
    refine Eq.trans (List.flatMap_congr fun b hb => ?_) hpieces
    have hlt := List.mem_range.mp hb
    rw [hpair b hlt, hexOfByte_nibbles (hdigit _ (by omega)) (hdigit _ (by omega))]

-- The names of assets are read back as they were written, by each of the readers, and
-- there are no other names that are well formed.
theorem addresses_round_trip :
    (∀ id : AssetId, id.length = 32 →
      id.toHash32.address = id.address ∧ isWellFormedAddress id.address = true ∧
      (∀ (l : TaskLoop) start finish, l.sendAssetRequest id.address start finish =
        l.send (.assetRequest ⟨some id.toHash32, start, finish⟩)) ∧
      hashFromHex id.address = id.toHash32 ∧ adoptCachedAssets (some [id.address]) = [id]) ∧
    (∀ hex, isWellFormedAddress hex = true → ∃ id : AssetId, id.length = 32 ∧
      adoptCachedAssets (some [hex]) = [id] ∧ id.address = hex ∧ id.toHash32.address = hex ∧
      (hashFromHex hex).address = hex ∧
      ∀ (l : TaskLoop) start finish, l.sendAssetRequest hex start finish =
        l.send (.assetRequest ⟨some id.toHash32, start, finish⟩)) := by
  have hadopts : ∀ id : AssetId, id.length = 32 → adoptCachedAssets (some [id.address]) = [id] := by
    intro id h
    have hparse := parseAddress_address h
    simp [adoptCachedAssets, Coordinator.kMaxAdvertisedAssets, hparse]
  constructor
  · intro id h
    exact ⟨toHash32_address h, wellFormed_address h, sendAssetRequest_address h,
      hashFromHex_address h, hadopts id h⟩
  · intro hex hwell
    obtain ⟨id, h, rfl⟩ := exists_address hwell
    refine ⟨id, h, hadopts id h, rfl, toHash32_address h, ?_, sendAssetRequest_address h⟩
    rw [hashFromHex_address h, toHash32_address h]

end

def countedId : AssetId := (List.range 32).map UInt8.ofNat

theorem addresses_round_trip_counted :
    countedId.toHash32.address = countedId.address ∧
      hashFromHex countedId.address = countedId.toHash32 ∧
      adoptCachedAssets (some [countedId.address]) = [countedId] := by
  obtain ⟨haddress, -, -, hhash, hadopted⟩ := addresses_round_trip.1 countedId rfl
  exact ⟨haddress, hhash, hadopted⟩

end P2pGpu.Worker
