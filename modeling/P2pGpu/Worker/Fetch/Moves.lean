import Mathlib.Data.Finset.Card
import Mathlib.Data.Finset.Range
import P2pGpu.Data.LittleEndian
import P2pGpu.Worker.Fetch.Reassembly

namespace P2pGpu.Worker

open P2pGpu.Protocol
open P2pGpu.Coordinator (AssetRequest Hash32 kChunkBytes)

section

open P2pGpu.LittleEndian

theorem nibbles_of_byte (b : UInt8) :
    ∃ high low, (Coordinator.AssetId.hexOfByte b).map nibble = [some high, some low] ∧
      (high <<< 4 ||| low) = b.toUInt64 := by
  have hall : ∀ n : Fin 256, ∃ pair : Fin 16 × Fin 16,
      (Coordinator.AssetId.hexOfByte (UInt8.ofNat n)).map nibble =
          [some (UInt64.ofNat pair.1), some (UInt64.ofNat pair.2)] ∧
        (UInt64.ofNat pair.1 <<< 4 ||| UInt64.ofNat pair.2) = (UInt8.ofNat n).toUInt64 := by
    intro n
    refine ⟨(⟨n / 16, by omega⟩, ⟨n % 16, by omega⟩), ?_⟩
    revert n
    decide +kernel
  obtain ⟨pair, hdigits, hvalue⟩ := hall ⟨b.toNat, b.toNat_lt⟩
  have hb : UInt8.ofNat b.toNat = b := UInt8.ofNat_toNat
  rw [hb] at hdigits hvalue
  exact ⟨_, _, hdigits, hvalue⟩

theorem laneOfHex_cons (b : UInt8) (rest : List UInt8) (k : Nat) :
    laneOfHex (Coordinator.AssetId.hexOfByte b ++ rest) k =
      (laneOfHex rest (k + 1)).map fun above =>
        b.toUInt64 <<< UInt64.ofNat (k * 8) ||| above := by
  obtain ⟨high, low, hdigits, hvalue⟩ := nibbles_of_byte b
  simp only [Coordinator.AssetId.hexOfByte, List.map_cons, List.map_nil, List.cons.injEq,
    and_true] at hdigits
  simp only [Coordinator.AssetId.hexOfByte, List.cons_append, List.nil_append, laneOfHex,
    hdigits.1, hdigits.2, ← hvalue]
  cases laneOfHex rest (k + 1) <;> rfl

-- A lane that was written in digits is read back.
theorem laneOfHex_laneBytes (v : UInt64) :
    laneOfHex ((Coordinator.Hash32.laneBytes v).flatMap Coordinator.AssetId.hexOfByte) 0 =
      some v := by
  have hbytes : Coordinator.Hash32.laneBytes v =
      [byteU64 v 0, byteU64 v 1, byteU64 v 2, byteU64 v 3, byteU64 v 4, byteU64 v 5, byteU64 v 6,
        byteU64 v 7] := rfl
  rw [hbytes]
  simp only [List.flatMap_cons, List.flatMap_nil, laneOfHex_cons]
  show some _ = some v
  congr 1
  have hfirst : (byteU64 v 0).toUInt64 <<< UInt64.ofNat (0 * 8) = (byteU64 v 0).toUInt64 :=
    UInt64.shiftLeft_zero
  refine Eq.trans ?_ (readU64LE_bytes v)
  rw [readU64LE, hfirst]
  simp only [UInt64.or_assoc]
  rw [UInt64.or_zero]
  rfl

-- The name of an asset is read back as the hash that it was made of.
theorem hashOfHex_address (hash : Hash32) :
    hash.address.length = 64 ∧ hashOfHex hash.address = some hash := by
  have hlane : ∀ v : UInt64,
      ((Coordinator.Hash32.laneBytes v).flatMap Coordinator.AssetId.hexOfByte).length = 16 :=
    fun _ => rfl
  have hsplit : hash.address =
      (Coordinator.Hash32.laneBytes hash.a).flatMap Coordinator.AssetId.hexOfByte ++
        ((Coordinator.Hash32.laneBytes hash.b).flatMap Coordinator.AssetId.hexOfByte ++
          ((Coordinator.Hash32.laneBytes hash.c).flatMap Coordinator.AssetId.hexOfByte ++
            (Coordinator.Hash32.laneBytes hash.d).flatMap Coordinator.AssetId.hexOfByte)) := by
    simp [Coordinator.Hash32.address]
  refine ⟨rfl, ?_⟩
  have ha := laneOfHex_laneBytes hash.a
  have hb := laneOfHex_laneBytes hash.b
  have hc := laneOfHex_laneBytes hash.c
  have hd := laneOfHex_laneBytes hash.d
  rw [hashOfHex, hsplit]
  show (do
    let a ← laneOfHex ((Coordinator.Hash32.laneBytes hash.a).flatMap
      Coordinator.AssetId.hexOfByte) 0
    let b ← laneOfHex ((Coordinator.Hash32.laneBytes hash.b).flatMap
      Coordinator.AssetId.hexOfByte) 0
    let c ← laneOfHex ((Coordinator.Hash32.laneBytes hash.c).flatMap
      Coordinator.AssetId.hexOfByte) 0
    let d ← laneOfHex ((Coordinator.Hash32.laneBytes hash.d).flatMap
      Coordinator.AssetId.hexOfByte) 0
    return (⟨a, b, c, d⟩ : Hash32)) = some hash
  rw [ha, hb, hc, hd]
  rfl

end

namespace AssetFetch

def holds (f : AssetFetch) (i : Nat) : Bool := f.haveChunk.getD i false

def chunkCount (f : AssetFetch) : Nat := Chunks.count kChunkBytes f.expectedBytes.toNat

def missing (f : AssetFetch) : Finset Nat :=
  (Finset.range f.chunkCount).filter fun i => f.holds i = false

-- What it was told and what it holds stay; its clock or its buffer may be set up.
structure SameHeld (f g : AssetFetch) : Prop where
  kept : f.Kept → g.Kept
  address : g.address = f.address
  expectedBytes : g.expectedBytes = f.expectedBytes
  received : g.received = f.received
  held : ∀ i, g.holds i = f.holds i
  piece : ∀ i, f.holds i = true →
    Chunks.piece kChunkBytes g.bytes i = Chunks.piece kChunkBytes f.bytes i

section

variable {f g : AssetFetch} {now : Nat} {index : UInt32} {bytes : List UInt8} {i : Nat}

theorem mem_missing : i ∈ f.missing ↔ i < f.chunkCount ∧ f.holds i = false := by
  rw [missing, Finset.mem_filter, Finset.mem_range]

theorem SameHeld.refl (f : AssetFetch) : f.SameHeld f :=
  ⟨id, rfl, rfl, rfl, fun _ => rfl, fun _ _ => rfl⟩

theorem SameHeld.progressed (f : AssetFetch) (now : Nat) :
    f.SameHeld { f with lastProgress := now } :=
  ⟨fun h => h.progressed now, rfl, rfl, rfl, fun _ => rfl, fun _ _ => rfl⟩

theorem SetUp.sameHeld (h : f.SetUp g) : f.SameHeld g :=
  ⟨fun _ => .inr h.sized, h.address, h.expectedBytes, h.received, h.held, h.piece⟩

theorem SameHeld.chunkCount (h : f.SameHeld g) : g.chunkCount = f.chunkCount := by
  rw [AssetFetch.chunkCount, AssetFetch.chunkCount, h.expectedBytes]

theorem SameHeld.missing (h : f.SameHeld g) : g.missing = f.missing := by
  ext i
  rw [mem_missing, mem_missing, h.chunkCount, h.held]

theorem Sized.chunkCount_eq (h : f.Sized) : f.chunkCount = f.total.toNat := h.total.symm

theorem Sized.holds_store (h : f.Sized) (hi : index < f.total) (i offset : Nat) :
    (f.store now index offset bytes).holds i = (decide (i = index.toNat) || f.holds i) := by
  have hslot : index.toNat < f.haveChunk.length := by
    rw [h.haveLength]
    exact UInt32.lt_iff_toNat_lt.mp hi
  show (f.haveChunk.set index.toNat true).getD i false = _
  rw [List.getD_eq_getElem?_getD]
  by_cases he : i = index.toNat
  · subst he
    rw [List.getElem?_set_self hslot]
    simp
  · rw [List.getElem?_set_ne (Ne.symm he), ← List.getD_eq_getElem?_getD]
    simp [he, holds]

theorem Sized.missing_store (h : f.Sized) (hi : index < f.total) (offset : Nat) :
    (f.store now index offset bytes).missing = f.missing.erase index.toNat := by
  ext i
  rw [mem_missing, Finset.mem_erase, mem_missing, h.holds_store hi]
  show i < f.chunkCount ∧ _ ↔ _
  rw [Bool.or_eq_false_iff, decide_eq_false_iff_not]
  tauto

theorem Sized.mem_missing_of_new (h : f.Sized) (hi : index < f.total)
    (hnew : f.holds index.toNat = false) : index.toNat ∈ f.missing := by
  rw [mem_missing, h.chunkCount_eq]
  exact ⟨UInt32.lt_iff_toNat_lt.mp hi, hnew⟩

theorem Sized.received_store (h : f.Sized) (hi : index < f.total)
    (hnew : f.holds index.toNat = false) (hlen : bytes.length = f.want index) :
    (f.store now index (index.toNat * kChunkBytes) bytes).received.toNat =
      f.received.toNat + 1 := by
  have hstored : (f.store now index (index.toNat * kChunkBytes) bytes).Sized :=
    h.store hi hnew hlen
  have hle : f.received.toNat ≤ f.total.toNat := by
    rw [h.received, ← h.haveLength]
    exact List.count_le_length
  have hsmall := h.total_le
  show (f.received + 1).toNat = _
  rw [UInt32.toNat_add]
  apply Nat.mod_eq_of_lt
  show f.received.toNat + 1 < 2 ^ 32
  omega

-- With nothing missing, the count is the total.
theorem Sized.received_of_missing (h : f.Sized) (hnone : f.missing = ∅) :
    f.received = f.total := by
  have hall : ∀ b ∈ f.haveChunk, true = b := by
    intro b hb
    obtain ⟨i, hi, rfl⟩ := List.getElem_of_mem hb
    by_contra hne
    have hfalse : f.haveChunk[i] = false := by
      cases hb' : f.haveChunk[i] with
      | true => exact absurd hb'.symm hne
      | false => rfl
    have hmem : i ∈ f.missing := by
      rw [mem_missing, h.chunkCount_eq, ← h.haveLength, holds, List.getD_eq_getElem?_getD,
        List.getElem?_eq_getElem hi]
      exact ⟨hi, hfalse⟩
    rw [hnone] at hmem
    exact absurd hmem (Finset.notMem_empty i)
  apply UInt32.toNat_inj.mp
  rw [h.received, ← h.haveLength]
  exact List.count_eq_length.mpr hall

theorem Sized.holds_of_complete (h : f.Sized) (hall : f.received = f.total)
    (hi : i < f.total.toNat) : f.holds i = true := by
  have hfull : f.haveChunk.count true = f.haveChunk.length := by
    rw [← h.received, hall, h.haveLength]
  rw [← h.haveLength] at hi
  rw [holds, List.getD_eq_getElem?_getD, List.getElem?_eq_getElem hi]
  exact (List.count_eq_length.mp hfull _ (List.getElem_mem hi)).symm

-- The first of what is missing.
theorem Sized.firstMissing_some (h : f.Sized) (hne : f.missing.Nonempty) :
    ∃ i, f.firstMissing = some i ∧ i ∈ f.missing ∧ ∀ j ∈ f.missing, i ≤ j := by
  cases hfind : f.firstMissing with
  | none =>
      obtain ⟨j, hj⟩ := hne
      rw [mem_missing, h.chunkCount_eq] at hj
      have hnot := List.find?_eq_none.mp hfind j (List.mem_range.mpr hj.1)
      rw [Bool.not_eq_true', ← Bool.not_eq_true, not_not] at hnot
      have hheld : f.holds j = true := hnot
      rw [hj.2] at hheld
      cases hheld
  | some i =>
      obtain ⟨hp, as, bs, hsplit, hbefore⟩ := List.find?_eq_some_iff_append.mp hfind
      have hi : i < f.total.toNat := List.mem_range.mp (List.mem_of_find?_eq_some hfind)
      have hfalse : f.holds i = false := by simpa [holds] using hp
      refine ⟨i, rfl, mem_missing.mpr ⟨h.chunkCount_eq.symm ▸ hi, hfalse⟩, ?_⟩
      intro j hj
      rw [mem_missing, h.chunkCount_eq] at hj
      by_contra hlt
      -- An earlier index stands before the first one that was found.
      have hlen : as.length = i := by
        have hget := congrArg (fun l => l[as.length]?) hsplit
        simp only [List.getElem?_append_right (Nat.le_refl _), Nat.sub_self,
          List.getElem?_cons_zero] at hget
        have hlt' := (List.getElem?_eq_some_iff.mp hget).1
        rw [List.getElem?_range (by simpa using hlt')] at hget
        exact Option.some.inj hget
      have hmem : j ∈ as := by
        have hget := congrArg (fun l => l[j]?) hsplit
        have hj' : j < as.length := by omega
        simp only [List.getElem?_append_left hj', List.getElem?_range hj.1] at hget
        exact List.mem_of_getElem? hget.symm
      have hheld := hbefore j hmem
      rw [Bool.not_not] at hheld
      have hheld' : f.holds j = true := hheld
      rw [hj.2] at hheld'
      cases hheld'

end

end AssetFetch

namespace Sent

def request : Sent → Option AssetRequest
  | .assetRequest m => some m
  | _ => none

def released : Sent → Option TaskId
  | .release task _ => some task
  | _ => none

theorem Asks.unreleased {m : Sent} (h : m.Asks) : m.released = none := by
  obtain ⟨req, rfl⟩ := h
  rfl

theorem ToPeer.unreleased {m : Sent} (h : m.ToPeer) : m.released = none := by
  obtain ⟨target, msg, rfl⟩ := h
  rfl

theorem ToPeer.unasked {m : Sent} (h : m.ToPeer) : m.request = none := by
  obtain ⟨target, msg, rfl⟩ := h
  rfl

end Sent

namespace TaskLoop

-- What the coordinator is asked for, and what it is given back.
def asked (l : TaskLoop) : List AssetRequest := l.outbox.filterMap Sent.request

def released (l : TaskLoop) : List TaskId := l.outbox.filterMap Sent.released

-- There is no peer left to try.
def FallsBack (l : TaskLoop) : Prop :=
  kMaxPeerAttempts ≤ l.peerAttempt ∨ l.peerCandidates.length ≤ l.peerAttempt

-- Nobody stops waiting, and nothing is given back.
structure Patient (l l' : TaskLoop) : Prop where
  waiting : l'.waitingOnAsset = l.waitingOnAsset
  released : l'.released = l.released

section

variable {cfg : Config} {now : Nat} {l l' l'' : TaskLoop} {f : AssetFetch} {hash : Hash32}
  {kind : Sent → Prop}

theorem Patient.refl (l : TaskLoop) : l.Patient l := ⟨rfl, rfl⟩

theorem Patient.trans (h : l.Patient l') (h' : l'.Patient l'') :
    l.Patient l'' :=
  ⟨h'.waiting.trans h.waiting, h'.released.trans h.released⟩

theorem asked_send (l : TaskLoop) (m : Sent) :
    (l.send m).asked = l.asked ++ m.request.toList := by
  rw [asked, asked, send, List.filterMap_append]
  cases h : m.request <;> simp [h]

theorem Tells.patient (h : l.Tells kind l') (hkind : ∀ m, kind m → m.released = none) :
    l.Patient l' := by
  obtain ⟨ms, hms, rfl⟩ := h
  refine ⟨rfl, ?_⟩
  rw [released, released, List.filterMap_append,
    List.filterMap_eq_nil_iff.mpr fun m hm => hkind m (hms m hm), List.append_nil]

theorem Tells.asked (h : l.Tells kind l') (hkind : ∀ m, kind m → m.request = none) :
    l'.asked = l.asked := by
  obtain ⟨ms, hms, rfl⟩ := h
  rw [TaskLoop.asked, TaskLoop.asked, List.filterMap_append,
    List.filterMap_eq_nil_iff.mpr fun m hm => hkind m (hms m hm), List.append_nil]

theorem send_patient (l : TaskLoop) {m : Sent} (h : m.released = none) : l.Patient (l.send m) := by
  refine ⟨rfl, ?_⟩
  rw [released, released, send, List.filterMap_append]
  simp [h]

-- What asks for chunks of an asset that has a hash for its name.
theorem sendAssetRequest_eq (l : TaskLoop) {address : Coordinator.WireString}
    (hlen : address.length = 64) (hhash : hashOfHex address = some hash) (start finish : UInt32) :
    l.sendAssetRequest address start finish =
      l.send (.assetRequest ⟨some hash, start, finish⟩) := by
  rw [sendAssetRequest, if_neg (by rw [hlen]; simp), hhash]

-- What falling back leaves.
structure FellBack (hash : Hash32) (f : AssetFetch) (now : Nat) (l l' : TaskLoop) : Prop where
  fetch : l'.fetch = some { f with lastProgress := now }
  peer : l'.peer = none
  asked : l'.asked = l.asked ++ [⟨some hash, 0, kAssetChunkRequestBatch⟩]
  patient : l.Patient l'

-- What trying the next peer leaves.
structure TriesPeer (f : AssetFetch) (l l' : TaskLoop) : Prop where
  fetch : l'.fetch = some f
  peer : l'.peer.isSome = true
  asked : l'.asked = l.asked
  patient : l.Patient l'

theorem fallBackToCoordinator_fellBack (hf : l.fetch = some f) (hlen : f.address.length = 64)
    (hhash : hashOfHex f.address = some hash) :
    FellBack hash f now l (l.fallBackToCoordinator now) := by
  have heq : l.fallBackToCoordinator now = { l with
      peer := none
      peerTarget := Id.nil
      fetch := some { f with lastProgress := now } }.send
        (.assetRequest ⟨some hash, 0, kAssetChunkRequestBatch⟩) := by
    unfold fallBackToCoordinator
    simp only [hf]
    exact sendAssetRequest_eq _ hlen hhash 0 _
  rw [heq]
  refine ⟨rfl, rfl, ?_, ?_⟩
  · rw [asked_send]
    rfl
  · exact (Patient.mk rfl rfl : l.Patient { l with
      peer := none
      peerTarget := Id.nil
      fetch := some { f with lastProgress := now } }).trans (send_patient _ rfl)

theorem tryNextPeerOrFallBack_cases (now : Nat) (hf : l.fetch = some f)
    (hlen : f.address.length = 64) (hhash : hashOfHex f.address = some hash) :
    (l.FallsBack ∧ FellBack hash f now l (l.tryNextPeerOrFallBack now)) ∨
      (¬ l.FallsBack ∧ TriesPeer f l (l.tryNextPeerOrFallBack now)) := by
  have hback : FellBack hash f now l (l.fallBackToCoordinator now) :=
    fallBackToCoordinator_fellBack hf hlen hhash
  unfold tryNextPeerOrFallBack
  simp only [hf]
  by_cases hmax : kMaxPeerAttempts ≤ l.peerAttempt
  · rw [if_pos hmax]
    exact .inl ⟨.inl hmax, hback⟩
  · rw [if_neg hmax]
    cases htarget : l.peerCandidates[l.peerAttempt]? with
    | none =>
        rw [List.getElem?_eq_none_iff] at htarget
        exact .inl ⟨.inr htarget, hback⟩
    | some target =>
        have hlt := (List.getElem?_eq_some_iff.mp htarget).1
        refine .inr ⟨?_, rfl, rfl, ?_, ?_⟩
        · rintro (h | h)
          · exact hmax h
          · exact absurd hlt (Nat.not_lt.mpr h)
        · rw [asked_send]
          simp only [Sent.request, Option.toList_none, List.append_nil]
          rfl
        · exact ⟨rfl, (send_patient _ rfl).released⟩

theorem releaseAll_outbox (l : TaskLoop) (tasks : List PendingTask) :
    (l.releaseAll tasks).asked = l.asked ∧
      (l.releaseAll tasks).released = l.released ++ tasks.map PendingTask.id := by
  unfold releaseAll
  induction tasks generalizing l with
  | nil => exact ⟨rfl, by simp⟩
  | cons t tasks ih =>
      obtain ⟨hasked, hreleased⟩ := ih (l.sendRelease t.id .assetUnavailable)
      have hasked' : (l.sendRelease t.id .assetUnavailable).asked = l.asked := by
        show (l.send _).asked = _
        rw [asked_send]
        simp [Sent.request]
      have hreleased' : (l.sendRelease t.id .assetUnavailable).released =
          l.released ++ [t.id] := by
        show (l.outbox ++ [Sent.release t.id .assetUnavailable]).filterMap Sent.released = _
        rw [List.filterMap_append]
        rfl
      rw [List.foldl_cons, hasked, hreleased, hasked', hreleased']
      simp

-- The fetch is given up, and all that waited for it.
structure Abandoned (l l' : TaskLoop) : Prop where
  fetch : l'.fetch = none
  waiting : l'.waitingOnAsset = []
  asked : l'.asked = l.asked
  resident : l'.residentAsset = l.residentAsset

theorem releaseAll_resident (l : TaskLoop) (tasks : List PendingTask) :
    (l.releaseAll tasks).residentAsset = l.residentAsset ∧
      (l.releaseAll tasks).residentBytes = l.residentBytes := by
  unfold releaseAll
  induction tasks generalizing l with
  | nil => exact ⟨rfl, rfl⟩
  | cons t tasks ih =>
      rw [List.foldl_cons]
      exact ih (l.sendRelease t.id .assetUnavailable)

theorem abandonAssetFetch_abandoned (l : TaskLoop) : l.Abandoned l.abandonAssetFetch where
  fetch := abandonAssetFetch_fetch l
  waiting := rfl
  asked := (releaseAll_outbox _ _).1
  resident := (releaseAll_resident _ _).1

-- The asset is there, and all that waited for it may run.
structure Finished (f : AssetFetch) (l l' : TaskLoop) : Prop where
  fetch : l'.fetch = none
  waiting : l'.waitingOnAsset = []
  asked : l'.asked = l.asked
  released : l'.released = l.released
  resident : l'.residentAsset = f.address
  bytes : l'.residentBytes = f.bytes

-- What becomes of a fetch that has all of its chunks.
theorem finishAssetFetch_cases (cfg : Config) (now : Nat) (hf : l.fetch = some f)
    (hsame : ∀ t ∈ l.waitingOnAsset, t.asset = f.address) (hlen : f.address.length = 64)
    (hhash : hashOfHex f.address = some hash) :
    (cfg.blake3Hex f.bytes = f.address ∧ cfg.loadBvh f.bytes = true ∧
        Finished f l (l.finishAssetFetch cfg now)) ∨
      ((cfg.blake3Hex f.bytes ≠ f.address ∨ cfg.loadBvh f.bytes = false) ∧
        ((l.peer = none ∧ l.Abandoned (l.finishAssetFetch cfg now)) ∨
          (l.peer.isSome = true ∧ ((l.FallsBack ∧
              FellBack hash (f.wiped now) now l (l.finishAssetFetch cfg now)) ∨
            (¬ l.FallsBack ∧ TriesPeer (f.wiped now) l (l.finishAssetFetch cfg now)))))) := by
  have hreject : ((l.peer = none ∧ l.Abandoned (l.rejectBytesAndRetry now)) ∨
      (l.peer.isSome = true ∧ ((l.FallsBack ∧
          FellBack hash (f.wiped now) now l (l.rejectBytesAndRetry now)) ∨
        (¬ l.FallsBack ∧ TriesPeer (f.wiped now) l (l.rejectBytesAndRetry now))))) := by
    unfold rejectBytesAndRetry
    simp only [hf]
    cases hpeer : l.peer with
    | none => exact .inl ⟨rfl, abandonAssetFetch_abandoned l⟩
    | some link =>
        refine .inr ⟨rfl, ?_⟩
        have hnext := tryNextPeerOrFallBack_cases (l := { l with
          assetsRejected := l.assetsRejected + 1
          fetch := some (f.wiped now) }) now rfl hlen hhash
        rcases hnext with ⟨hback, hfell⟩ | ⟨hnot, htries⟩
        · exact .inl ⟨hback, ⟨hfell.fetch, hfell.peer, hfell.asked,
            ⟨hfell.patient.waiting, hfell.patient.released⟩⟩⟩
        · exact .inr ⟨hnot, ⟨htries.fetch, htries.peer, htries.asked,
            ⟨htries.patient.waiting, htries.patient.released⟩⟩⟩
  unfold finishAssetFetch
  simp only [hf]
  by_cases haddress : cfg.blake3Hex f.bytes ≠ f.address
  · rw [if_pos haddress]
    exact .inr ⟨.inl haddress, hreject⟩
  · rw [if_neg haddress]
    cases hload : cfg.loadBvh f.bytes with
    | false => exact .inr ⟨.inr rfl, hreject⟩
    | true =>
        refine .inl ⟨not_not.mp haddress, rfl, ?_⟩
        have hnone : (l.waitingOnAsset.filter fun t => t.asset ≠ f.address) = [] := by
          rw [List.filter_eq_nil_iff]
          intro t ht
          simp [hsame t ht]
        exact ⟨releaseAll_fetch _ _, rfl, (releaseAll_outbox _ _).1, by
          show (releaseAll _ _).released = _
          rw [(releaseAll_outbox _ _).2, hnone]
          simp [released], (releaseAll_resident _ _).1, (releaseAll_resident _ _).2⟩

-- What a chunk leaves, case by case.
inductive TakesChunk (cfg : Config) (hash : Hash32) (now : Nat) (f : AssetFetch) (c : AssetChunk)
    (l l' : TaskLoop) : Prop where
  | ignored (hbytes : c.bytes = none) (hsame : l' = l)
  | refused {bytes : List UInt8} {why : String} (hbytes : c.bytes = some bytes)
      (htake : f.take cfg now c.index c.total bytes = .refused why) (h : l.Abandoned l')
  | duplicate {g : AssetFetch} (hset : f.SetUp g) (hindex : c.index < g.total)
      (hheld : f.holds c.index.toNat = true) (h : l' = { l with fetch := some g })
  | stored {g : AssetFetch} {bytes : List UInt8} (hbytes : c.bytes = some bytes)
      (hset : f.SetUp g) (hindex : c.index < g.total) (hnew : f.holds c.index.toNat = false)
      (hlen : bytes.length = g.want c.index)
      (hmore : (g.store now c.index (c.index.toNat * kChunkBytes) bytes).received ≠ g.total)
      (hbatch : (f.received.toNat + 1) % 64 ≠ 0)
      (h : l' = { l with
        fetch := some (g.store now c.index (c.index.toNat * kChunkBytes) bytes) })
  | asks {g : AssetFetch} {bytes : List UInt8} {i : Nat} (hbytes : c.bytes = some bytes)
      (hset : f.SetUp g) (hindex : c.index < g.total) (hnew : f.holds c.index.toNat = false)
      (hlen : bytes.length = g.want c.index)
      (hmore : (g.store now c.index (c.index.toNat * kChunkBytes) bytes).received ≠ g.total)
      (hbatch : (f.received.toNat + 1) % 64 = 0)
      (hfirst : (g.store now c.index (c.index.toNat * kChunkBytes) bytes).firstMissing = some i)
      (hfetch : l'.fetch =
        some (g.store now c.index (c.index.toNat * kChunkBytes) bytes))
      (hpeer : l'.peer = l.peer) (hpatient : l.Patient l')
      (hasked : l'.asked = l.asked ++ [⟨some hash, UInt32.ofNat i,
        min g.total (UInt32.ofNat i + kAssetChunkRequestBatch)⟩])
  | finished {g : AssetFetch} {bytes : List UInt8} (hbytes : c.bytes = some bytes)
      (hset : f.SetUp g) (hindex : c.index < g.total) (hnew : f.holds c.index.toNat = false)
      (hlen : bytes.length = g.want c.index)
      (hall : (g.store now c.index (c.index.toNat * kChunkBytes) bytes).received = g.total)
      (h : Finished (g.store now c.index (c.index.toNat * kChunkBytes) bytes) l l')
  | rejected {g : AssetFetch} {bytes : List UInt8} (hbytes : c.bytes = some bytes)
      (hset : f.SetUp g) (hindex : c.index < g.total) (hnew : f.holds c.index.toNat = false)
      (hlen : bytes.length = g.want c.index)
      (hall : (g.store now c.index (c.index.toNat * kChunkBytes) bytes).received = g.total)
      (hbad : cfg.blake3Hex (g.store now c.index (c.index.toNat * kChunkBytes) bytes).bytes ≠
          f.address ∨
        cfg.loadBvh (g.store now c.index (c.index.toNat * kChunkBytes) bytes).bytes = false)
      (h : (l.peer = none ∧ l.Abandoned l') ∨
        (l.peer.isSome = true ∧ ((l.FallsBack ∧ FellBack hash
            ((g.store now c.index (c.index.toNat * kChunkBytes) bytes).wiped now) now l l') ∨
          (¬ l.FallsBack ∧ TriesPeer
            ((g.store now c.index (c.index.toNat * kChunkBytes) bytes).wiped now) l l'))))

theorem handleAssetChunk_takes (cfg : Config) (now : Nat) (c : AssetChunk)
    (hf : l.fetch = some f) (hk : f.Kept) (hsame : ∀ t ∈ l.waitingOnAsset, t.asset = f.address)
    (hlen : f.address.length = 64) (hhash : hashOfHex f.address = some hash) :
    TakesChunk cfg hash now f c l (l.handleAssetChunk cfg now c) := by
  unfold handleAssetChunk
  rw [hf]
  cases hbytes : c.bytes with
  | none => exact .ignored hbytes rfl
  | some bytes =>
      dsimp only
      rcases hk.take_cases cfg now c.index c.total bytes with
        ⟨why, htake⟩ | ⟨g, hset, hindex, ⟨htake, hheld⟩ | ⟨htake, hnew, hwant⟩⟩
      · rw [htake]
        exact .refused hbytes htake (abandonAssetFetch_abandoned l)
      · rw [htake]
        exact .duplicate hset hindex ((hset.held _).symm.trans hheld) rfl
      · rw [htake]
        dsimp only
        have hnew' : f.holds c.index.toNat = false := (hset.held _).symm.trans hnew
        have hstored : (g.store now c.index (c.index.toNat * kChunkBytes) bytes).Sized :=
          hset.sized.store hindex hnew hwant
        have hreceived : (g.store now c.index (c.index.toNat * kChunkBytes) bytes).received.toNat =
            g.received.toNat + 1 := hset.sized.received_store hindex hnew hwant
        rw [hset.received] at hreceived
        have hbatch : (g.store now c.index (c.index.toNat * kChunkBytes) bytes).received %
            kAssetChunkRequestBatch = 0 ↔ (f.received.toNat + 1) % 64 = 0 := by
          rw [← hreceived, ← UInt32.toNat_inj, UInt32.toNat_mod]
          rfl
        have htotal : (g.store now c.index (c.index.toNat * kChunkBytes) bytes).total =
            g.total := rfl
        rw [htotal]
        by_cases hall : (g.store now c.index (c.index.toNat * kChunkBytes) bytes).received =
            g.total
        · rw [if_pos hall]
          have hfinish := finishAssetFetch_cases (l := { l with
            fetch := some (g.store now c.index (c.index.toNat * kChunkBytes) bytes) })
            cfg now rfl (by
              intro t ht
              rw [hsame t ht]
              exact hset.address.symm) (by
              show g.address.length = 64
              rw [hset.address, hlen]) (by
              show hashOfHex g.address = some hash
              rw [hset.address, hhash])
          have haddress : (g.store now c.index (c.index.toNat * kChunkBytes) bytes).address =
              f.address := hset.address
          rw [haddress] at hfinish
          rcases hfinish with ⟨-, -, hdone⟩ | ⟨hbad, hrest⟩
          · exact .finished hbytes hset hindex hnew' hwant hall
              ⟨hdone.fetch, hdone.waiting, hdone.asked, hdone.released, hdone.resident, hdone.bytes⟩
          · refine .rejected hbytes hset hindex hnew' hwant hall hbad ?_
            rcases hrest with ⟨hpeer, hab⟩ | ⟨hpeer, ⟨hback, hfell⟩ | ⟨hback, htries⟩⟩
            · exact .inl ⟨hpeer, ⟨hab.fetch, hab.waiting, hab.asked, hab.resident⟩⟩
            · exact .inr ⟨hpeer, .inl ⟨hback, ⟨hfell.fetch, hfell.peer, hfell.asked,
                ⟨hfell.patient.waiting, hfell.patient.released⟩⟩⟩⟩
            · exact .inr ⟨hpeer, .inr ⟨hback, ⟨htries.fetch, htries.peer, htries.asked,
                ⟨htries.patient.waiting, htries.patient.released⟩⟩⟩⟩
        · have hlack : (g.store now c.index (c.index.toNat * kChunkBytes) bytes).missing.Nonempty := by
            by_contra hnone
            exact hall (hstored.received_of_missing (Finset.not_nonempty_iff_eq_empty.mp hnone))
          rw [if_neg hall]
          by_cases hzero : (f.received.toNat + 1) % 64 = 0
          · rw [if_pos (hbatch.mpr hzero)]
            obtain ⟨i, hfirst, -⟩ := hstored.firstMissing_some hlack
            have hrequest : requestAssetChunks { l with
                fetch := some (g.store now c.index (c.index.toNat * kChunkBytes) bytes) } =
                send { l with
                  fetch := some (g.store now c.index (c.index.toNat * kChunkBytes) bytes) }
                  (.assetRequest ⟨some hash, UInt32.ofNat i,
                    min g.total (UInt32.ofNat i + kAssetChunkRequestBatch)⟩) := by
              unfold requestAssetChunks
              simp only [hfirst]
              exact sendAssetRequest_eq _ (by
                show g.address.length = 64
                rw [hset.address, hlen]) (by
                show hashOfHex g.address = some hash
                rw [hset.address, hhash]) _ _
            rw [hrequest]
            refine .asks hbytes hset hindex hnew' hwant hall hzero hfirst rfl rfl ?_ ?_
            · exact ⟨rfl, (send_patient _ rfl).released⟩
            · rw [asked_send]
              rfl
          · rw [if_neg fun h => hzero (hbatch.mp h)]
            exact .stored hbytes hset hindex hnew' hwant hall hzero rfl

end

end TaskLoop

end P2pGpu.Worker
