import P2pGpu.Data.LittleEndian
import P2pGpu.Data.Reach
import P2pGpu.Worker.Fetch

namespace P2pGpu.Worker

open P2pGpu.Protocol
open P2pGpu.Coordinator (kChunkBytes)

namespace AssetFetch

-- Before its first chunk.
structure Unsized (f : AssetFetch) : Prop where
  total : f.total = 0
  haveChunk : f.haveChunk = []
  received : f.received = 0
  writes : f.writes = []

-- After it: what was copied, and nothing else, is what the buffer holds in its places.
structure Sized (f : AssetFetch) : Prop where
  pos : 0 < f.expectedBytes.toNat
  bound : f.expectedBytes.toNat ≤ kMaxAssetBytes
  total : f.total.toNat = Chunks.count kChunkBytes f.expectedBytes.toNat
  length : f.bytes.length = f.expectedBytes.toNat
  haveLength : f.haveChunk.length = f.total.toNat
  received : f.received.toNat = f.haveChunk.count true
  have_iff : ∀ i, f.haveChunk[i]? = some true ↔ ∃ w ∈ f.writes, w.index.toNat = i
  once : (f.writes.map Write.index).Nodup
  offset : ∀ w ∈ f.writes, w.offset = w.index.toNat * kChunkBytes
  placed : ∀ w ∈ f.writes, w.payload = Chunks.piece kChunkBytes f.bytes w.index.toNat

def Kept (f : AssetFetch) : Prop := f.Unsized ∨ f.Sized

-- What was taken for a chunk, and nothing where none was.
def accepted (f : AssetFetch) (i : Nat) : List UInt8 :=
  ((f.writes.find? fun w => w.index.toNat = i).map Write.payload).getD []

-- What a reassembly is good for.
structure Reassembled (f : AssetFetch) : Prop where
  inside : ∀ w ∈ f.writes, w.offset + w.payload.length ≤ f.bytes.length
  received : f.received.toNat = f.haveChunk.count true
  once : (f.writes.map Write.index).Nodup
  complete : f.total ≠ 0 → f.received = f.total →
    f.bytes.length = f.expectedBytes.toNat ∧
      f.bytes = (List.range f.total.toNat).flatMap f.accepted

section

variable {cfg : Config} {now : Nat} {f f' : AssetFetch} {index total : UInt32}
  {bytes : List UInt8}

theorem kChunkBytes_pos : 0 < kChunkBytes := by decide

theorem Sized.total_le (h : f.Sized) : f.total.toNat ≤ 16384 := by
  have hbound := h.bound
  rw [h.total, Chunks.count]
  apply Nat.lt_succ_iff.mp
  rw [Nat.div_lt_iff_lt_mul kChunkBytes_pos]
  have hpos := h.pos
  show f.expectedBytes.toNat + 16384 - 1 < 16385 * 16384
  have hmax : f.expectedBytes.toNat ≤ 268435456 := hbound
  omega

theorem Sized.start_lt (h : f.Sized) (hi : index < f.total) :
    index.toNat * kChunkBytes < f.bytes.length := by
  rw [UInt32.lt_iff_toNat_lt, h.total] at hi
  rw [h.length]
  exact (Chunks.lt_count kChunkBytes_pos).mp hi

-- The length that is wanted is that of the place.
theorem Sized.want_eq (h : f.Sized) (hi : index < f.total) :
    f.want index = (Chunks.piece kChunkBytes f.bytes index.toNat).length := by
  have hlt := h.start_lt hi
  have hcover := Chunks.count_le kChunkBytes_pos (n := f.expectedBytes.toNat)
  rw [← h.total] at hcover
  rw [UInt32.lt_iff_toNat_lt] at hi
  have hsmall := h.total_le
  have hnext : (index + 1).toNat = index.toNat + 1 := by
    rw [UInt32.toNat_add]
    apply Nat.mod_eq_of_lt
    show index.toNat + 1 < 2 ^ 32
    omega
  rw [want, Chunks.length_piece, h.length]
  rw [h.length] at hlt
  by_cases hfinal : index + 1 = f.total
  · have hlast : (f.total - 1).toNat = index.toNat := by
      rw [← hfinal, UInt32.add_sub_cancel]
    have hsucc : f.total.toNat = index.toNat + 1 := by
      rw [← hfinal, hnext]
    rw [hsucc, Nat.succ_mul] at hcover
    rw [if_pos hfinal, hlast]
    omega
  · have hmore : index.toNat + 1 < f.total.toNat := by
      have hne : index.toNat + 1 ≠ f.total.toNat := fun he =>
        hfinal (UInt32.toNat_inj.mp (hnext.trans he))
      omega
    rw [h.total] at hmore
    have hfull := (Chunks.lt_count kChunkBytes_pos).mp hmore
    rw [Nat.succ_mul] at hfull
    rw [if_neg hfinal]
    omega

theorem sized_total_ne {claimed : UInt32} (h : f.total ≠ 0) : f.sized claimed = .ok f := by
  rw [sized, if_pos h]

-- What the first chunk sets up.
theorem Unsized.sized_ok {claimed : UInt32} (hu : f.Unsized) (h : f.sized claimed = .ok f') :
    claimed = f'.total ∧ f'.Sized ∧ f'.address = f.address ∧
      f'.expectedBytes = f.expectedBytes ∧ f'.received = 0 := by
  unfold sized at h
  rw [if_neg (by rw [hu.total]; simp)] at h
  by_cases hsize : f.expectedBytes = 0 ∨ kMaxAssetBytes < f.expectedBytes.toNat
  · rw [if_pos hsize] at h
    cases h
  · rw [if_neg hsize] at h
    obtain ⟨hzero, hbig⟩ := not_or.mp hsize
    by_cases hrange : Chunks.count kChunkBytes f.expectedBytes.toNat = 0 ∨
        0xFFFFFFFF < Chunks.count kChunkBytes f.expectedBytes.toNat
    · simp only [if_pos hrange] at h
      cases h
    · simp only [if_neg hrange] at h
      by_cases hclaimed :
          claimed ≠ UInt32.ofNat (Chunks.count kChunkBytes f.expectedBytes.toNat)
      · rw [if_pos hclaimed] at h
        cases h
      · rw [if_neg hclaimed] at h
        cases h
        have hpos : 0 < f.expectedBytes.toNat :=
          LittleEndian.toNat_posU64 hzero
        have hcount : (UInt32.ofNat (Chunks.count kChunkBytes f.expectedBytes.toNat)).toNat =
            Chunks.count kChunkBytes f.expectedBytes.toNat := by
          rw [UInt32.toNat_ofNat']
          apply Nat.mod_eq_of_lt
          omega
        refine ⟨not_not.mp hclaimed, ?_, rfl, rfl, hu.received⟩
        exact {
          pos := hpos
          bound := Nat.le_of_not_lt hbig
          total := hcount
          length := List.length_replicate
          haveLength := by rw [List.length_replicate, hcount]
          received := by
            rw [hu.received]
            simp [List.count_replicate]
          have_iff := by
            intro i
            rw [hu.writes, List.getElem?_replicate]
            split <;> simp
          once := by
            rw [hu.writes]
            exact List.nodup_nil
          offset := by
            rw [hu.writes]
            simp
          placed := by
            rw [hu.writes]
            simp }

-- The fetch with its buffer set up, and otherwise as it was.
structure SetUp (f g : AssetFetch) : Prop where
  sized : g.Sized
  address : g.address = f.address
  expectedBytes : g.expectedBytes = f.expectedBytes
  received : g.received = f.received
  held : ∀ i, g.haveChunk.getD i false = f.haveChunk.getD i false
  piece : ∀ i, f.haveChunk.getD i false = true →
    Chunks.piece kChunkBytes g.bytes i = Chunks.piece kChunkBytes f.bytes i

theorem Sized.total_ne (h : f.Sized) : f.total ≠ 0 := by
  intro h0
  have hcover := Chunks.count_le kChunkBytes_pos (n := f.expectedBytes.toNat)
  have hpos := h.pos
  rw [← h.total, h0, UInt32.toNat_zero, Nat.zero_mul] at hcover
  omega

theorem Kept.setUp {claimed : UInt32} {g : AssetFetch} (hk : f.Kept)
    (h : f.sized claimed = .ok g) : f.SetUp g := by
  rcases hk with hu | hs
  · obtain ⟨-, hsized, haddress, hexpected, hreceived⟩ := hu.sized_ok h
    have hnone : ∀ i, g.haveChunk.getD i false = false := by
      intro i
      have hcount := hsized.received
      rw [hreceived, UInt32.toNat_zero, eq_comm, List.count_eq_zero] at hcount
      by_contra htrue
      rw [Bool.not_eq_false, List.getD_eq_getElem?_getD] at htrue
      cases hget : g.haveChunk[i]? with
      | none =>
          rw [hget] at htrue
          cases htrue
      | some b =>
          rw [hget, Option.getD_some] at htrue
          exact hcount (htrue ▸ List.mem_of_getElem? hget)
    refine ⟨hsized, haddress, hexpected, hreceived.trans hu.received.symm, ?_, ?_⟩
    · intro i
      rw [hnone, hu.haveChunk]
      rfl
    · intro i hi
      rw [hu.haveChunk] at hi
      cases hi
  · rw [sized_total_ne hs.total_ne] at h
    cases h
    exact ⟨hs, rfl, rfl, rfl, fun _ => rfl, fun _ _ => rfl⟩

-- What a chunk does to a fetch, case by case.
theorem Kept.take_cases (hk : f.Kept) (cfg : Config) (now : Nat) (index total : UInt32)
    (bytes : List UInt8) :
    (∃ why, f.take cfg now index total bytes = .refused why) ∨
      ∃ g, f.SetUp g ∧ index < g.total ∧
        ((f.take cfg now index total bytes = .duplicate g ∧
            g.haveChunk.getD index.toNat false = true) ∨
          (f.take cfg now index total bytes =
              .stored (g.store now index (index.toNat * kChunkBytes) bytes) ∧
            g.haveChunk.getD index.toNat false = false ∧ bytes.length = g.want index)) := by
  unfold take
  cases hsized : f.sized total with
  | error why => exact .inl ⟨why, rfl⟩
  | ok g =>
      have hset := hk.setUp hsized
      dsimp only
      cases hcheck : checkAssetChunk cfg.sizeT index total g.total bytes.length with
      | error e => exact .inl ⟨_, rfl⟩
      | ok u =>
          obtain ⟨htotal, hindex, hlong⟩ := checkAssetChunk_ok hcheck
          dsimp only
          cases hoffset : chunkOffset cfg.sizeT index with
          | none => exact .inl ⟨_, rfl⟩
          | some offset =>
              dsimp only
              rw [chunkOffset_eq hoffset]
              by_cases hinside :
                  g.bytes.length < (index.toNat * kChunkBytes + bytes.length) % cfg.sizeT
              · rw [if_pos hinside]
                exact .inl ⟨_, rfl⟩
              · rw [if_neg hinside]
                by_cases hhave : g.haveChunk.getD index.toNat false = true
                · rw [if_pos hhave]
                  exact .inr ⟨g, hset, htotal ▸ hindex, .inl ⟨rfl, hhave⟩⟩
                · rw [if_neg hhave]
                  by_cases hwant : bytes.length ≠ g.want index
                  · rw [if_pos hwant]
                    exact .inl ⟨_, rfl⟩
                  · rw [if_neg hwant]
                    exact .inr ⟨g, hset, htotal ▸ hindex,
                      .inr ⟨rfl, Bool.eq_false_of_not_eq_true hhave, not_not.mp hwant⟩⟩

-- A chunk that is new keeps the buffer in order.
theorem Sized.store (h : f.Sized) (hi : index < f.total)
    (hnew : f.haveChunk.getD index.toNat false = false) (hlen : bytes.length = f.want index) :
    (f.store now index (index.toNat * kChunkBytes) bytes).Sized := by
  have hpiece := hlen.trans (h.want_eq hi)
  have hstart := h.start_lt hi
  have hin : index.toNat * kChunkBytes + bytes.length ≤ f.bytes.length := by
    rw [hpiece, Chunks.length_piece]
    omega
  have hwidth : bytes.length ≤ kChunkBytes := by
    rw [hpiece, Chunks.length_piece]
    exact Nat.min_le_left _ _
  have hslot : index.toNat < f.haveChunk.length := by
    rw [h.haveLength]
    exact UInt32.lt_iff_toNat_lt.mp hi
  have hfalse : f.haveChunk[index.toNat] = false := by
    rw [List.getD_eq_getElem?_getD, List.getElem?_eq_getElem hslot, Option.getD_some] at hnew
    exact hnew
  have hother : ∀ w ∈ f.writes, w.index ≠ index := by
    intro w hw he
    have htrue := (h.have_iff w.index.toNat).mpr ⟨w, hw, rfl⟩
    rw [he, List.getElem?_eq_getElem hslot, hfalse] at htrue
    cases htrue
  have hcount : (f.haveChunk.set index.toNat true).count true = f.haveChunk.count true + 1 := by
    rw [List.count_set hslot, hfalse]
    simp
  have hroom : f.haveChunk.count true + 1 ≤ f.total.toNat := by
    rw [← hcount, ← h.haveLength, ← List.length_set (i := index.toNat) (a := true)]
    exact List.count_le_length
  have hsmall := h.total_le
  refine ⟨h.pos, h.bound, h.total, ?_, ?_, ?_, ?_, ?_, ?_, ?_⟩
  · exact (Chunks.length_overwrite hin).trans h.length
  · exact (List.length_set ..).trans h.haveLength
  · show (f.received + 1).toNat = _
    rw [UInt32.toNat_add, h.received]
    show _ % 2 ^ 32 = (f.haveChunk.set index.toNat true).count true
    rw [hcount]
    apply Nat.mod_eq_of_lt
    show f.haveChunk.count true + 1 < 2 ^ 32
    omega
  · intro i
    show (f.haveChunk.set index.toNat true)[i]? = some true ↔
      ∃ w ∈ f.writes ++ [⟨index, index.toNat * kChunkBytes, bytes⟩], w.index.toNat = i
    by_cases hi' : index.toNat = i
    · subst hi'
      rw [List.getElem?_set_self hslot]
      simp
    · rw [List.getElem?_set_ne hi', h.have_iff]
      constructor
      · rintro ⟨w, hw, he⟩
        exact ⟨w, List.mem_append_left _ hw, he⟩
      · rintro ⟨w, hw, he⟩
        rcases List.mem_append.mp hw with hw | hw
        · exact ⟨w, hw, he⟩
        · rw [List.mem_singleton.mp hw] at he
          exact absurd he hi'
  · show ((f.writes ++ [Write.mk index (index.toNat * kChunkBytes) bytes]).map Write.index).Nodup
    rw [List.map_append, List.nodup_append]
    refine ⟨h.once, List.nodup_singleton _, ?_⟩
    intro i hi₁ j hj he
    obtain ⟨w, hw, rfl⟩ := List.mem_map.mp hi₁
    rw [List.map_singleton, List.mem_singleton] at hj
    exact hother w hw (he.trans hj)
  · intro w hw
    rcases List.mem_append.mp hw with hw | hw
    · exact h.offset w hw
    · rw [List.mem_singleton.mp hw]
  · intro w hw
    rcases List.mem_append.mp hw with hw | hw
    · have hne : w.index.toNat ≠ index.toNat := fun he =>
        hother w hw (UInt32.toNat_inj.mp he)
      exact (h.placed w hw).trans (Chunks.piece_overwrite_ne hwidth hin hne).symm
    · rw [List.mem_singleton.mp hw]
      exact (Chunks.piece_overwrite_self hpiece hin).symm

theorem Sized.wiped (h : f.Sized) (now : Nat) : (f.wiped now).Sized := by
  refine ⟨h.pos, h.bound, h.total, ?_, ?_, ?_, ?_, List.nodup_nil, ?_, ?_⟩
  · exact (List.length_map _).trans h.length
  · exact (List.length_map _).trans h.haveLength
  · show (0 : UInt32).toNat = (f.haveChunk.map fun _ => false).count true
    rw [eq_comm, UInt32.toNat_zero, List.count_eq_zero]
    simp
  · intro i
    show (f.haveChunk.map fun _ => false)[i]? = some true ↔ ∃ w ∈ ([] : List Write), _
    rw [List.getElem?_map]
    cases f.haveChunk[i]? <;> simp
  · intro w hw
    cases hw
  · intro w hw
    cases hw

theorem Kept.wiped (h : f.Kept) (now : Nat) : (f.wiped now).Kept := by
  rcases h with hu | hs
  · refine .inl ⟨hu.total, ?_, rfl, rfl⟩
    show f.haveChunk.map _ = []
    rw [hu.haveChunk]
    rfl
  · exact .inr (hs.wiped now)

theorem Kept.progressed (h : f.Kept) (now : Nat) : { f with lastProgress := now }.Kept := by
  rcases h with hu | hs
  · exact .inl ⟨hu.total, hu.haveChunk, hu.received, hu.writes⟩
  · exact .inr ⟨hs.pos, hs.bound, hs.total, hs.length, hs.haveLength, hs.received, hs.have_iff,
      hs.once, hs.offset, hs.placed⟩

theorem Kept.fresh {address : P2pGpu.Coordinator.WireString} {expectedBytes : UInt64} {now : Nat} :
    Kept { address, expectedBytes, lastProgress := now } :=
  .inl ⟨rfl, rfl, rfl, rfl⟩

-- With all of its chunks there, what was accepted makes up the buffer.
theorem Sized.complete (h : f.Sized) (hall : f.received = f.total) :
    f.bytes = (List.range f.total.toNat).flatMap f.accepted := by
  have hcover := Chunks.count_le kChunkBytes_pos (n := f.expectedBytes.toNat)
  rw [← h.total, ← h.length] at hcover
  have hfull : f.haveChunk.count true = f.haveChunk.length := by
    rw [← h.received, hall, h.haveLength]
  have htrue : ∀ i < f.total.toNat, f.haveChunk[i]? = some true := by
    intro i hi
    rw [← h.haveLength] at hi
    rw [List.getElem?_eq_getElem hi, List.count_eq_length.mp hfull _ (List.getElem_mem hi)]
  rw [← Chunks.flatMap_piece hcover]
  refine (List.flatMap_congr fun i hi => ?_).symm
  obtain ⟨w, hw, he⟩ := (h.have_iff i).mp (htrue i (List.mem_range.mp hi))
  cases hfind : f.writes.find? fun w => w.index.toNat = i with
  | none =>
      rw [List.find?_eq_none] at hfind
      exact absurd (decide_eq_true he) (hfind w hw)
  | some v =>
      have hv : v.index.toNat = i := by simpa using List.find?_some hfind
      rw [accepted, hfind, Option.map_some, Option.getD_some,
        h.placed v (List.mem_of_find?_eq_some hfind), hv]

theorem Kept.reassembled (h : f.Kept) : f.Reassembled := by
  rcases h with hu | hs
  · refine ⟨?_, ?_, ?_, fun hne _ => absurd hu.total hne⟩
    · rw [hu.writes]
      simp
    · rw [hu.received, hu.haveChunk]
      rfl
    · rw [hu.writes]
      exact List.nodup_nil
  · refine ⟨fun w hw => ?_, hs.received, hs.once, fun _ hall => ⟨hs.length, hs.complete hall⟩⟩
    have hi : w.index < f.total := by
      have htrue := (hs.have_iff w.index.toNat).mpr ⟨w, hw, rfl⟩
      have hslot := (List.getElem?_eq_some_iff.mp htrue).1
      rw [hs.haveLength] at hslot
      exact UInt32.lt_iff_toNat_lt.mpr hslot
    have hstart := hs.start_lt hi
    rw [hs.offset w hw, hs.placed w hw, Chunks.length_piece]
    omega

end

end AssetFetch

namespace Sent

def Asks (m : Sent) : Prop := ∃ req, m = .assetRequest req

def ToPeer (m : Sent) : Prop := ∃ target msg, m = .toPeer target msg

end Sent

namespace TaskLoop

-- It sends messages of one kind, and does nothing else.
def Tells (l : TaskLoop) (kind : Sent → Prop) (l' : TaskLoop) : Prop :=
  ∃ ms, (∀ m ∈ ms, kind m) ∧ l' = { l with outbox := l.outbox ++ ms }

section

variable {cfg : Config} {now : Nat} {l l' l'' : TaskLoop} {f : AssetFetch} {kind : Sent → Prop}

theorem Tells.refl (l : TaskLoop) (kind : Sent → Prop) : l.Tells kind l :=
  ⟨[], by simp, by simp⟩

theorem Tells.trans (h : l.Tells kind l') (h' : l'.Tells kind l'') : l.Tells kind l'' := by
  obtain ⟨ms, hms, rfl⟩ := h
  obtain ⟨ms', hms', rfl⟩ := h'
  refine ⟨ms ++ ms', fun m hm => ?_, by simp⟩
  rcases List.mem_append.mp hm with hold | hnew
  · exact hms m hold
  · exact hms' m hnew

theorem Tells.fetch (h : l.Tells kind l') : l'.fetch = l.fetch := by
  obtain ⟨ms, -, rfl⟩ := h
  rfl

theorem Tells.peer (h : l.Tells kind l') : l'.peer = l.peer := by
  obtain ⟨ms, -, rfl⟩ := h
  rfl

theorem Tells.assetSource (h : l.Tells kind l') : l'.assetSource = l.assetSource := by
  obtain ⟨ms, -, rfl⟩ := h
  rfl

theorem send_tells (l : TaskLoop) {m : Sent} (h : kind m) : l.Tells kind (l.send m) :=
  ⟨[m], by simpa using h, rfl⟩

theorem sendAssetRequest_tells (l : TaskLoop) (address : Coordinator.WireString)
    (start finish : UInt32) : l.Tells Sent.Asks (l.sendAssetRequest address start finish) := by
  unfold sendAssetRequest
  split
  · exact .refl ..
  · split
    · exact .refl ..
    · exact send_tells l ⟨_, rfl⟩

theorem requestAssetChunks_tells (l : TaskLoop) : l.Tells Sent.Asks l.requestAssetChunks := by
  unfold requestAssetChunks
  split
  · exact .refl ..
  · split
    · exact .refl ..
    · exact sendAssetRequest_tells ..

theorem sendToPeer_tells (l : TaskLoop) (servingCurrent : Option WorkerId) (m : AssetMsg) :
    l.Tells Sent.ToPeer (l.sendToPeer servingCurrent m) := by
  unfold sendToPeer
  cases servingCurrent with
  | some w =>
      dsimp only
      split
      · exact send_tells l ⟨_, _, rfl⟩
      · exact .refl ..
  | none =>
      dsimp only
      split
      · exact .refl ..
      · split
        · exact send_tells l ⟨_, _, rfl⟩
        · exact .refl ..

theorem servePeerAssetRequest_tells (l : TaskLoop) (servingCurrent : Option WorkerId)
    (req : Coordinator.AssetRequest) :
    l.Tells Sent.ToPeer (l.servePeerAssetRequest servingCurrent req) := by
  have hfold : ∀ (is : List Nat) (msg : Nat → AssetMsg) (l : TaskLoop),
      l.Tells Sent.ToPeer (is.foldl (fun l i => l.sendToPeer servingCurrent (msg i)) l) := by
    intro is msg
    induction is with
    | nil => exact fun l => .refl ..
    | cons i is ih => exact fun l => (sendToPeer_tells l servingCurrent (msg i)).trans (ih _)
  unfold servePeerAssetRequest
  split
  · exact .refl ..
  · split
    · exact .refl ..
    · split
      · exact sendToPeer_tells ..
      · dsimp only
        split
        · exact .refl ..
        · exact hfold ..

@[simp] theorem send_fetch (l : TaskLoop) (m : Sent) : (l.send m).fetch = l.fetch := rfl

@[simp] theorem sendAssetRequest_fetch (l : TaskLoop) (address : Coordinator.WireString)
    (start finish : UInt32) : (l.sendAssetRequest address start finish).fetch = l.fetch :=
  (sendAssetRequest_tells l address start finish).fetch

@[simp] theorem releaseAll_fetch (l : TaskLoop) (tasks : List PendingTask) :
    (l.releaseAll tasks).fetch = l.fetch := by
  unfold releaseAll
  induction tasks generalizing l with
  | nil => rfl
  | cons t tasks ih =>
      rw [List.foldl_cons, ih]
      rfl

@[simp] theorem sendToPeer_fetch (l : TaskLoop) (servingCurrent : Option WorkerId) (m : AssetMsg) :
    (l.sendToPeer servingCurrent m).fetch = l.fetch :=
  (sendToPeer_tells l servingCurrent m).fetch

@[simp] theorem requestAssetChunks_fetch (l : TaskLoop) :
    l.requestAssetChunks.fetch = l.fetch := (requestAssetChunks_tells l).fetch

@[simp] theorem abandonAssetFetch_fetch (l : TaskLoop) : l.abandonAssetFetch.fetch = none := by
  show (releaseAll _ _).fetch = none
  rw [releaseAll_fetch]

theorem fallBackToCoordinator_fetch (l : TaskLoop) (now : Nat) :
    (l.fallBackToCoordinator now).fetch = l.fetch.map fun f => { f with lastProgress := now } := by
  unfold fallBackToCoordinator
  cases l.fetch with
  | none => simp
  | some f => simp

theorem tryNextPeerOrFallBack_fetch (l : TaskLoop) (now : Nat) :
    (l.tryNextPeerOrFallBack now).fetch = l.fetch ∨
      (l.tryNextPeerOrFallBack now).fetch = l.fetch.map fun f => { f with lastProgress := now } := by
  have hback := fallBackToCoordinator_fetch l now
  unfold tryNextPeerOrFallBack
  cases h : l.fetch with
  | none => exact .inl h
  | some f =>
      rw [h] at hback
      dsimp only
      split
      · exact .inr hback
      · split
        · exact .inr hback
        · exact .inl rfl

theorem rejectBytesAndRetry_fetch (l : TaskLoop) (now : Nat) :
    (l.rejectBytesAndRetry now).fetch = none ∨
      ∃ f, l.fetch = some f ∧ (l.rejectBytesAndRetry now).fetch = some (f.wiped now) := by
  unfold rejectBytesAndRetry
  cases h : l.fetch with
  | none => exact .inl h
  | some f =>
      dsimp only
      split
      · exact .inl (abandonAssetFetch_fetch l)
      · refine .inr ⟨f, rfl, ?_⟩
        rcases tryNextPeerOrFallBack_fetch { l with
          assetsRejected := l.assetsRejected + 1
          fetch := some (f.wiped now) } now with hsame | hback
        · exact hsame
        · exact hback

theorem finishAssetFetch_fetch (cfg : Config) (l : TaskLoop) (now : Nat) :
    (l.finishAssetFetch cfg now).fetch = none ∨
      ∃ f, l.fetch = some f ∧ (l.finishAssetFetch cfg now).fetch = some (f.wiped now) := by
  have hreject := rejectBytesAndRetry_fetch l now
  unfold finishAssetFetch
  cases h : l.fetch with
  | none => exact .inl h
  | some f =>
      rw [h] at hreject
      dsimp only
      split
      · exact hreject
      · split
        · exact hreject
        · left
          show (releaseAll _ _).fetch = none
          rw [releaseAll_fetch]

-- The fetch of a loop, if there is one, is in order.
def Orderly (l : TaskLoop) : Prop := ∀ f, l.fetch = some f → f.Kept

theorem Orderly.of_eq {l' : TaskLoop} (h : l.Orderly) (he : l'.fetch = l.fetch) : l'.Orderly := by
  intro f hf
  rw [he] at hf
  exact h f hf

theorem Orderly.of_none {l' : TaskLoop} (he : l'.fetch = none) : l'.Orderly := by
  intro f hf
  rw [he] at hf
  cases hf

theorem Orderly.of_progress {l' : TaskLoop} (h : l.Orderly)
    (he : l'.fetch = l.fetch.map fun f => { f with lastProgress := now }) : l'.Orderly := by
  intro f hf
  rw [he, Option.map_eq_some_iff] at hf
  obtain ⟨g, hg, rfl⟩ := hf
  exact (h g hg).progressed now

theorem Orderly.of_wiped {l' : TaskLoop} (h : l.Orderly)
    (he : l'.fetch = none ∨ ∃ f, l.fetch = some f ∧ l'.fetch = some (f.wiped now)) :
    l'.Orderly := by
  rcases he with he | ⟨f, hf, he⟩
  · exact .of_none he
  · intro g hg
    rw [he] at hg
    cases hg
    exact (h f hf).wiped now

theorem Orderly.tryNext (h : l.Orderly) : (l.tryNextPeerOrFallBack now).Orderly := by
  rcases tryNextPeerOrFallBack_fetch l now with he | he
  · exact h.of_eq he
  · exact h.of_progress he

theorem Orderly.handleAssetChunk (h : l.Orderly) (c : AssetChunk) :
    (l.handleAssetChunk cfg now c).Orderly := by
  unfold TaskLoop.handleAssetChunk
  cases hf : l.fetch with
  | none => exact h
  | some f =>
      cases c.bytes with
      | none => exact h
      | some bytes =>
          dsimp only
          rcases (h f hf).take_cases cfg now c.index c.total bytes with
            ⟨why, htake⟩ | ⟨g, hset, hindex, ⟨htake, -⟩ | ⟨htake, hnew, hlen⟩⟩
          · rw [htake]
            exact .of_none (abandonAssetFetch_fetch l)
          · rw [htake]
            intro f' hf'
            cases hf'
            exact .inr hset.sized
          · rw [htake]
            have hstored : Orderly { l with
                fetch := some (g.store now c.index (c.index.toNat * kChunkBytes) bytes) } := by
              intro f' hf'
              cases hf'
              exact .inr (hset.sized.store hindex hnew hlen)
            dsimp only
            split
            · exact hstored.of_wiped (finishAssetFetch_fetch cfg _ now)
            · split
              · exact hstored.of_eq (requestAssetChunks_fetch _)
              · exact hstored

theorem Orderly.handleAssetMiss (h : l.Orderly) : (l.handleAssetMiss now).Orderly := by
  unfold TaskLoop.handleAssetMiss
  split
  · exact Orderly.tryNext (l := { l with peer := none }) h
  · exact .of_none (abandonAssetFetch_fetch l)

theorem Orderly.onPeerBytes (h : l.Orderly) (servingCurrent : Option WorkerId) (m : AssetMsg) :
    (l.onPeerBytes cfg now servingCurrent m).Orderly := by
  cases m with
  | assetRequest m => exact h.of_eq (servePeerAssetRequest_tells l servingCurrent m).fetch
  | assetChunk m => exact h.handleAssetChunk m
  | assetMiss => exact h.handleAssetMiss

theorem onOpen_fetch (l : TaskLoop) (isOpen : Bool) : (l.onOpen isOpen).fetch = l.fetch := by
  unfold onOpen
  cases l.peer with
  | none => rfl
  | some link =>
      dsimp only
      split
      · rfl
      · split
        · rfl
        · exact sendToPeer_fetch ..

theorem Orderly.pollFetch (h : l.Orderly) : (l.pollFetch now).Orderly := by
  unfold TaskLoop.pollFetch
  have hfirst : Orderly (if l.fetch.isSome ∧ l.peer.isSome ∧ l.peerDeadline < now then
      { l with peer := none }.tryNextPeerOrFallBack now else l) := by
    split
    · exact Orderly.tryNext (l := { l with peer := none }) h
    · exact h
  dsimp only
  split
  · exact hfirst
  · split
    · exact .of_none (abandonAssetFetch_fetch _)
    · exact hfirst

theorem Orderly.parkOnAsset (h : l.Orderly) (task : PendingTask) (inputBytes : UInt64) :
    (l.parkOnAsset now task inputBytes).Orderly := by
  unfold TaskLoop.parkOnAsset
  split
  · exact h
  · dsimp only
    split
    · exact h
    · refine Orderly.tryNext ?_
      intro f hf
      cases hf
      exact .fresh

end

-- What comes to a fetch: chunks from the coordinator and messages of the data
-- channels, and what the loop does on its own.
inductive FetchEvent where
  | coordinatorChunk (c : AssetChunk)
  | coordinatorMiss
  | peer (servingCurrent : Option WorkerId) (m : AssetMsg)
  | opened (isOpen : Bool)
  | grant (task : PendingTask) (inputBytes : UInt64)
  | peerList (peers : List WorkerId)
  | poll

def onFetchEvent (cfg : Config) (l : TaskLoop) (now : Nat) : FetchEvent → TaskLoop
  | .coordinatorChunk c => l.handleAssetChunk cfg now c
  | .coordinatorMiss => l.handleAssetMiss now
  | .peer servingCurrent m => l.onPeerBytes cfg now servingCurrent m
  | .opened isOpen => l.onOpen isOpen
  | .grant task inputBytes => l.parkOnAsset now task inputBytes
  | .peerList peers => { l with peerCandidates := peers.take 8 }
  | .poll => l.pollFetch now

def FetchStep (cfg : Config) (l : TaskLoop) (e : Nat × FetchEvent) (l' : TaskLoop) : Prop :=
  l' = l.onFetchEvent cfg e.1 e.2

theorem Orderly.step {cfg : Config} {l l' : TaskLoop} {e : Nat × FetchEvent} (h : l.Orderly)
    (hstep : FetchStep cfg l e l') : l'.Orderly := by
  obtain ⟨now, e⟩ := e
  rw [hstep]
  cases e with
  | coordinatorChunk c => exact h.handleAssetChunk c
  | coordinatorMiss => exact h.handleAssetMiss
  | peer servingCurrent m => exact h.onPeerBytes servingCurrent m
  | opened isOpen => exact h.of_eq (onOpen_fetch l isOpen)
  | grant task inputBytes => exact h.parkOnAsset task inputBytes
  | peerList peers => exact h
  | poll => exact h.pollFetch

-- From a fresh fetch on, whatever comes and from wherever: the buffer is in order,
-- and it is so just after each copy, where the count may have reached the total.
theorem reassembly_safe (cfg : Config) (l₀ l : TaskLoop) (address : Coordinator.WireString)
    (expectedBytes : UInt64) (started : Nat) (f : AssetFetch)
    (hstart : l₀.fetch = some { address, expectedBytes, lastProgress := started })
    (h : Reach (FetchStep cfg) (fun _ _ => True) l₀ l) (hf : l.fetch = some f) : f.Reassembled ∧ ∀ now index total bytes f',
      f.take cfg now index total bytes = .stored f' → f'.Reassembled := by
  have hkept : l.Orderly := by
    refine h.invariant Orderly ?_ fun _ _ _ ho _ hstep => ho.step hstep
    intro f' hf'
    rw [hstart] at hf'
    cases hf'
    exact .fresh
  refine ⟨(hkept f hf).reassembled, fun now index total bytes f' htake => ?_⟩
  rcases (hkept f hf).take_cases cfg now index total bytes with
    ⟨why, hother⟩ | ⟨g, hset, hindex, ⟨hother, -⟩ | ⟨hother, hnew, hlen⟩⟩
  · rw [hother] at htake
    cases htake
  · rw [hother] at htake
    cases htake
  · rw [hother] at htake
    cases htake
    exact (AssetFetch.Kept.reassembled (.inr (hset.sized.store hindex hnew hlen)))

-- Three bytes in one chunk, on a build with the least `size_t`.
def shortConfig : Config where
  sizeT := 4294967296
  wide := by decide
  blake3Hex := fun _ => []
  loadBvh := fun _ => false

def shortFetch : AssetFetch := { address := [], expectedBytes := 3 }

def storedAll : AssetFetch.Taken → Bool
  | .stored f => f.received = f.total
  | .refused _ | .duplicate _ => false

theorem reassembly_safe_short :
    ∃ f', shortFetch.take shortConfig 7 0 1 [1, 2, 3] = .stored f' ∧ f'.received = f'.total ∧
      f'.Reassembled := by
  have hall : storedAll (shortFetch.take shortConfig 7 0 1 [1, 2, 3]) = true := by decide +kernel
  have hsafe := reassembly_safe shortConfig { fetch := some shortFetch }
    { fetch := some shortFetch } [] 3 0 shortFetch rfl (Reach.refl _) rfl
  cases htake : shortFetch.take shortConfig 7 0 1 [1, 2, 3] with
  | stored f' =>
      rw [htake] at hall
      exact ⟨f', rfl, of_decide_eq_true hall, hsafe.2 7 0 1 [1, 2, 3] f' htake⟩
  | refused why =>
      rw [htake] at hall
      cases hall
  | duplicate f' =>
      rw [htake] at hall
      cases hall

end TaskLoop

end P2pGpu.Worker
