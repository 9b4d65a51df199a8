import P2pGpu.Worker.Fetch.Swarm

namespace P2pGpu.Worker

open P2pGpu.Protocol
open P2pGpu.Coordinator (AssetRequest Double Hash32 Reply Session Shared kChunkBytes)

-- Of the chunks that are missing, enough are asked for to take the count to its next
-- multiple of the batch, where the worker asks again. Or all of them are asked for.
def Fed (missing : Finset Nat) (received : Nat) (asked : Nat → Prop) [DecidablePred asked] : Prop :=
  (∀ i ∈ missing, asked i) ∨ 64 ≤ received % 64 + (missing.filter asked).card

namespace Fed

variable {missing other : Finset Nat} {received i : Nat} {asked asked' : Nat → Prop}
  [DecidablePred asked] [DecidablePred asked']

theorem mono (h : Fed missing received asked) (hmono : ∀ i ∈ missing, asked i → asked' i) :
    Fed missing received asked' := by
  rcases h with hall | hmany
  · exact .inl fun i hi => hmono i hi (hall i hi)
  · right
    have hsub : missing.filter asked ⊆ missing.filter asked' := by
      intro i hi
      obtain ⟨hmem, hasked⟩ := Finset.mem_filter.mp hi
      exact Finset.mem_filter.mpr ⟨hmem, hmono i hmem hasked⟩
    exact hmany.trans (Nat.add_le_add_left (Finset.card_le_card hsub) _)

-- One more chunk comes in, and the count does not reach a multiple with it.
theorem erase (h : Fed missing received asked) (hbatch : (received + 1) % 64 ≠ 0) :
    Fed (missing.erase i) (received + 1) asked := by
  rcases h with hall | hmany
  · exact .inl fun j hj => hall j (Finset.mem_of_mem_erase hj)
  · right
    have hone : (missing.filter asked).card ≤ ((missing.erase i).filter asked).card + 1 := by
      have hfilter : (missing.erase i).filter asked = (missing.filter asked).erase i :=
        Finset.filter_erase ..
      have hcard : (missing.filter asked).card - 1 ≤ ((missing.filter asked).erase i).card :=
        Finset.pred_card_le_card_erase
      rw [hfilter]
      omega
    omega

-- A whole batch is asked for of an asset of which nothing is held.
theorem of_none {n : Nat} (hall : ∀ i < n, i < 64 → asked i) (hzero : received = 0) :
    Fed (Finset.range n) received asked := by
  by_cases hn : n ≤ 64
  · exact .inl fun i hi => hall i (Finset.mem_range.mp hi) (by
      have := Finset.mem_range.mp hi
      omega)
  · right
    have hsub : Finset.range 64 ⊆ (Finset.range n).filter asked := by
      intro i hi
      have hlt := Finset.mem_range.mp hi
      exact Finset.mem_filter.mpr ⟨Finset.mem_range.mpr (by omega), hall i (by omega) hlt⟩
    have hcard := Finset.card_le_card hsub
    rw [Finset.card_range] at hcard
    omega

-- Where nothing is asked for, something was missing that nobody will send.
theorem not_of_nothing (hne : missing.Nonempty) (hnone : ∀ i, ¬ asked i) :
    ¬ Fed missing received asked := by
  rintro (hall | hmany)
  · obtain ⟨i, hi⟩ := hne
    exact hnone i (hall i hi)
  · have hempty : missing.filter asked = ∅ := by
      rw [Finset.filter_eq_empty_iff]
      exact fun i _ => hnone i
    rw [hempty, Finset.card_empty] at hmany
    omega

end Fed

namespace AssetFetch

-- Every chunk that is held is the blob's own.
def Untainted (f : AssetFetch) (blob : List UInt8) : Prop :=
  ∀ i, f.holds i = true →
    Chunks.piece kChunkBytes f.bytes i = Chunks.piece kChunkBytes blob i

section

variable {f g : AssetFetch} {blob bytes : List UInt8} {now : Nat} {index : UInt32}

theorem SameHeld.untainted (h : f.SameHeld g) (hu : f.Untainted blob) : g.Untainted blob := by
  intro i hi
  rw [h.held] at hi
  exact (h.piece i hi).trans (hu i hi)

theorem Untainted.store (h : f.Untainted blob) (hs : f.Sized) (hi : index < f.total)
    (hlen : bytes.length = f.want index)
    (hright : bytes = Chunks.piece kChunkBytes blob index.toNat) :
    (f.store now index (index.toNat * kChunkBytes) bytes).Untainted blob := by
  have hpiece := hlen.trans (hs.want_eq hi)
  have hstart := hs.start_lt hi
  have hin : index.toNat * kChunkBytes + bytes.length ≤ f.bytes.length := by
    rw [hpiece, Chunks.length_piece]
    omega
  have hwidth : bytes.length ≤ kChunkBytes := by
    rw [hpiece, Chunks.length_piece]
    exact Nat.min_le_left _ _
  intro i hheld
  show Chunks.piece kChunkBytes (Chunks.overwrite f.bytes _ bytes) i = _
  rw [hs.holds_store hi, Bool.or_eq_true, decide_eq_true_eq] at hheld
  by_cases he : i = index.toNat
  · subst he
    rw [Chunks.piece_overwrite_self hpiece hin, hright]
  · rw [Chunks.piece_overwrite_ne hwidth hin he]
    exact h i (hheld.resolve_left he)

theorem holds_wiped (f : AssetFetch) (now i : Nat) : (f.wiped now).holds i = false := by
  show (f.haveChunk.map fun _ => false).getD i false = false
  rw [List.getD_eq_getElem?_getD, List.getElem?_map]
  cases f.haveChunk[i]? <;> rfl

theorem Untainted.wiped (f : AssetFetch) (now : Nat) (blob : List UInt8) :
    (f.wiped now).Untainted blob := by
  intro i hi
  rw [holds_wiped] at hi
  cases hi

theorem missing_wiped (f : AssetFetch) (now : Nat) :
    (f.wiped now).missing = Finset.range f.chunkCount := by
  ext i
  rw [mem_missing, holds_wiped, Finset.mem_range]
  show i < f.chunkCount ∧ _ ↔ _
  simp

-- With all chunks there, and all of them right, the buffer is the blob.
theorem Sized.bytes_eq (h : f.Sized) (hall : f.received = f.total) (hu : f.Untainted blob)
    (hlen : f.expectedBytes.toNat = blob.length) : f.bytes = blob := by
  have hcover := Chunks.count_le kChunkBytes_pos (n := f.expectedBytes.toNat)
  rw [← h.total] at hcover
  have hf : f.bytes.length ≤ f.total.toNat * kChunkBytes := by
    rw [h.length]
    exact hcover
  have hblob : blob.length ≤ f.total.toNat * kChunkBytes := by
    rw [← hlen]
    exact hcover
  rw [← Chunks.flatMap_piece hf, ← Chunks.flatMap_piece hblob]
  refine List.flatMap_congr fun i hi => ?_
  exact hu i (h.holds_of_complete hall (List.mem_range.mp hi))

end

end AssetFetch

def carries (r : Reply) (i : Nat) : Prop :=
  match r with
  | .assetChunk _ index _ _ => index.toNat = i
  | _ => False

instance (r : Reply) : DecidablePred (carries r) := fun i => by
  cases r <;> unfold carries <;> infer_instance

namespace Swarm

-- A chunk that is asked for, or on its way.
def Outstanding (blob : List UInt8) (s : Swarm) (i : Nat) : Prop :=
  (∃ req ∈ s.requests, answers blob req i) ∨ ∃ r ∈ s.replies, carries r i

instance (blob : List UInt8) (s : Swarm) : DecidablePred (s.Outstanding blob) :=
  fun _ => inferInstanceAs (Decidable (_ ∨ _))

section

variable {F : Type}

-- What holds of a fetch as long as it lasts. Without a peer, its source is the
-- coordinator, and what it holds is right and what it lacks is asked for. With peers
-- that are honest, what it holds is always right.
structure Going (honest : Prop) (ccfg : Coordinator.Config F) (hash : Hash32) (blob : List UInt8) (s : Swarm)
    (f : AssetFetch) : Prop where
  kept : f.Kept
  address : f.address = hash.address
  expected : f.expectedBytes.toNat = blob.length
  lacking : f.missing.Nonempty
  right : s.loop.peer = none ∨ honest → f.Untainted blob
  fed : s.loop.peer = none → Serves ccfg hash blob →
    Fed f.missing f.received.toNat (s.Outstanding blob)
  awaited : s.loop.peer = none → Lacks ccfg hash → s.requests ≠ [] ∨ s.replies ≠ []

structure Sound (honest : Prop) (ccfg : Coordinator.Config F) (hash : Hash32) (blob : List UInt8) (s : Swarm) :
    Prop where
  idle : s.loop.fetch = none → s.loop.waitingOnAsset = []
  parked : ∀ f, s.loop.fetch = some f → ∀ t ∈ s.loop.waitingOnAsset, t.asset = hash.address
  going : ∀ f, s.loop.fetch = some f → Going honest ccfg hash blob s f
  requests : ∀ req ∈ s.requests, Askable hash blob req
  replies : ∀ r ∈ s.replies,
    (Serves ccfg hash blob ∧ ∃ i < chunkTotal blob, r = chunkReply hash blob i) ∨
      (Lacks ccfg hash ∧ r = .assetMiss hash)

variable {honest : Prop} {cfg : Config} {ccfg : Coordinator.Config F} {hash : Hash32}
  {blob : List UInt8} {s s₀ : Swarm} {l' : TaskLoop} {f g : AssetFetch} {now : Nat}

theorem Going.chunkCount (h : Going honest ccfg hash blob s f) : f.chunkCount = chunkTotal blob := by
  rw [AssetFetch.chunkCount, chunkTotal, h.expected]

theorem Outstanding.after {i : Nat} (h : s₀.Outstanding blob i) (l : TaskLoop) :
    (s₀.after l).Outstanding blob i := by
  rcases h with ⟨req, hreq, hi⟩ | hr
  · exact .inl ⟨req, List.mem_append_left _ hreq, hi⟩
  · exact .inr hr

theorem outstanding_of_asked {i : Nat} {l : TaskLoop} {req : AssetRequest} (h : req ∈ l.asked)
    (hi : answers blob req i) : (s₀.after l).Outstanding blob i :=
  .inl ⟨req, List.mem_append_right _ h, hi⟩

-- Without a peer the coordinator always owes an answer, or there is one on its way.
theorem Sound.owed (h : Sound honest ccfg hash blob s)
    (hcoord : Serves ccfg hash blob ∨ Lacks ccfg hash) (hf : s.loop.fetch = some f)
    (hpeer : s.loop.peer = none) : s.requests ≠ [] ∨ s.replies ≠ [] := by
  have hgoing := h.going f hf
  rcases hcoord with hserves | hlacks
  · by_contra hnothing
    rw [not_or, not_not, not_not] at hnothing
    refine Fed.not_of_nothing hgoing.lacking (fun i ho => ?_) (hgoing.fed hpeer hserves)
    rcases ho with ⟨req, hreq, -⟩ | ⟨r, hr, -⟩
    · rw [hnothing.1] at hreq
      cases hreq
    · rw [hnothing.2] at hr
      cases hr
  · exact hgoing.awaited hpeer hlacks

-- What a step may take from the two lines: at most what it handed to the loop.
structure Consumes (s s₀ : Swarm) : Prop where
  requests : s₀.requests = s.requests
  replies : ∀ r ∈ s₀.replies, r ∈ s.replies

theorem Consumes.refl (s : Swarm) : Consumes s s := ⟨rfl, fun _ h => h⟩

-- The fetch is over.
theorem Sound.ended (h : Sound honest ccfg hash blob s) (hc : Consumes s s₀) (hfetch : l'.fetch = none)
    (hwaiting : l'.waitingOnAsset = []) (hasked : l'.asked = []) :
    Sound honest ccfg hash blob (s₀.after l') where
  idle _ := hwaiting
  parked f hf := by
    have hf' : l'.fetch = some f := hf
    rw [hfetch] at hf'
    cases hf'
  going f hf := by
    have hf' : l'.fetch = some f := hf
    rw [hfetch] at hf'
    cases hf'
  requests req hreq := by
    have hreq' : req ∈ s₀.requests ++ l'.asked := hreq
    rw [hasked, List.append_nil, hc.requests] at hreq'
    exact h.requests req hreq'
  replies r hr := h.replies r (hc.replies r hr)

-- The fetch goes on, and what it asks for is there.
theorem Sound.carried (h : Sound honest ccfg hash blob s) (hc : Consumes s s₀)
    (hfetch : l'.fetch = some g) (hparked : ∀ t ∈ l'.waitingOnAsset, t.asset = hash.address)
    (hasked : ∀ req ∈ l'.asked, Askable hash blob req)
    (hgoing : Going honest ccfg hash blob (s₀.after l') g) :
    Sound honest ccfg hash blob (s₀.after l') where
  idle hnone := by
    have hnone' : l'.fetch = none := hnone
    rw [hfetch] at hnone'
    cases hnone'
  parked _ _ := hparked
  going f' hf' := by
    have hf'' : l'.fetch = some f' := hf'
    rw [hfetch] at hf''
    cases hf''
    exact hgoing
  requests req hreq := by
    have hreq' : req ∈ s₀.requests ++ l'.asked := hreq
    rcases List.mem_append.mp hreq' with hold | hnew
    · rw [hc.requests] at hold
      exact h.requests req hold
    · exact hasked req hnew
  replies r hr := h.replies r (hc.replies r hr)

-- A step that leaves what is held as it is.
theorem Going.rests (h : Going honest ccfg hash blob s f) (hheld : f.SameHeld g)
    (hpeer : l'.peer = none → s.loop.peer = none)
    (hout : ∀ i ∈ f.missing, s.Outstanding blob i → s₀.Outstanding blob i)
    (hawaited : l'.peer = none → Lacks ccfg hash → s₀.requests ≠ [] ∨ s₀.replies ≠ []) :
    Going honest ccfg hash blob (s₀.after l') g where
  kept := hheld.kept h.kept
  address := hheld.address.trans h.address
  expected := (congrArg UInt64.toNat hheld.expectedBytes).trans h.expected
  lacking := by
    rw [hheld.missing]
    exact h.lacking
  right hwhen := hheld.untainted (h.right (hwhen.imp_left hpeer))
  fed hnone hserves := by
    rw [hheld.missing, hheld.received]
    exact (h.fed (hpeer hnone) hserves).mono fun i hi hi' => (hout i hi hi').after l'
  awaited hnone hlacks := by
    rcases hawaited hnone hlacks with hreq | hrep
    · left
      show s₀.requests ++ l'.asked ≠ []
      exact fun he => hreq (List.append_eq_nil_iff.mp he).1
    · exact .inr hrep

-- Another peer is tried.
theorem Going.tries (h : Going honest ccfg hash blob s f) (hheld : f.SameHeld g)
    (hpeer : l'.peer.isSome = true) : Going honest ccfg hash blob (s₀.after l') g := by
  have hsome : l'.peer ≠ none := Option.isSome_iff_ne_none.mp hpeer
  exact {
    kept := hheld.kept h.kept
    address := hheld.address.trans h.address
    expected := (congrArg UInt64.toNat hheld.expectedBytes).trans h.expected
    lacking := by
      rw [hheld.missing]
      exact h.lacking
    right := fun hwhen => hheld.untainted (h.right (hwhen.imp_left fun hnone => absurd hnone hsome))
    fed := fun hnone => absurd hnone hsome
    awaited := fun hnone => absurd hnone hsome }

-- The request that goes out where the worker falls back.
theorem askable_first (hgrant : Fetchable blob) :
    Askable hash blob ⟨some hash, 0, kAssetChunkRequestBatch⟩ :=
  ⟨rfl, by show 0 < 64; decide, hgrant.total_pos⟩

theorem answers_first (hash : Hash32) {i : Nat} (hi : i < chunkTotal blob) (h64 : i < 64) :
    answers blob ⟨some hash, 0, kAssetChunkRequestBatch⟩ i :=
  ⟨Nat.zero_le i, h64, hi, by show i < 0 + 64; omega⟩

-- The worker falls back with what it holds.
theorem Going.fellBack (h : Going honest ccfg hash blob s f) (hheld : f.SameHeld g)
    (hasked : l'.asked = [⟨some hash, 0, kAssetChunkRequestBatch⟩]) (hright : f.Untainted blob)
    (hfed : Serves ccfg hash blob → Fed f.missing f.received.toNat fun i =>
      s₀.Outstanding blob i ∨ i < 64) : Going honest ccfg hash blob (s₀.after l') g where
  kept := hheld.kept h.kept
  address := hheld.address.trans h.address
  expected := (congrArg UInt64.toNat hheld.expectedBytes).trans h.expected
  lacking := by
    rw [hheld.missing]
    exact h.lacking
  right _ := hheld.untainted hright
  fed _ hserves := by
    rw [hheld.missing, hheld.received]
    refine (hfed hserves).mono fun i hi hi' => ?_
    rcases hi' with hout | h64
    · exact hout.after l'
    · have hlt := (AssetFetch.mem_missing.mp hi).1
      rw [h.chunkCount] at hlt
      exact outstanding_of_asked (by rw [hasked]; exact List.mem_singleton_self _)
        (answers_first hash hlt h64)
  awaited _ _ := by
    left
    show s₀.requests ++ l'.asked ≠ []
    rw [hasked]
    simp

-- All was wiped.
theorem Going.wiped (h : Going honest ccfg hash blob s f) (hgrant : Fetchable blob)
    (hg : g.Sized) (haddress : g.address = f.address) (hexpected : g.expectedBytes = f.expectedBytes)
    (hpeer : l'.peer = none → l'.asked = [⟨some hash, 0, kAssetChunkRequestBatch⟩]) :
    Going honest ccfg hash blob (s₀.after l') (g.wiped now) := by
  have hcount : g.chunkCount = chunkTotal blob := by
    rw [AssetFetch.chunkCount, hexpected, chunkTotal, h.expected]
  exact {
    kept := .inr (hg.wiped now)
    address := haddress.trans h.address
    expected := (congrArg UInt64.toNat hexpected).trans h.expected
    lacking := by
      rw [AssetFetch.missing_wiped, hcount]
      exact ⟨0, Finset.mem_range.mpr hgrant.total_pos⟩
    right := fun _ => .wiped g now blob
    fed := fun hnone _ => by
      rw [AssetFetch.missing_wiped, hcount]
      refine Fed.of_none (fun i hi h64 => ?_) rfl
      exact outstanding_of_asked (by rw [hpeer hnone]; exact List.mem_singleton_self _)
        (answers_first hash hi h64)
    awaited := fun hnone _ => by
      left
      show s₀.requests ++ l'.asked ≠ []
      rw [hpeer hnone]
      simp }

-- The chunk with this index is new to the fetch, and it fits.
structure Stores (f g : AssetFetch) (index : UInt32) (bytes : List UInt8) : Prop where
  setUp : f.SetUp g
  inside : index < g.total
  isNew : f.holds index.toNat = false
  length : bytes.length = g.want index

def stored (g : AssetFetch) (now : Nat) (index : UInt32) (bytes : List UInt8) : AssetFetch :=
  g.store now index (index.toNat * kChunkBytes) bytes

theorem Stores.isNew' {index : UInt32} {bytes : List UInt8} (h : Stores f g index bytes) :
    g.holds index.toNat = false := (h.setUp.held _).trans h.isNew

theorem Stores.sized {index : UInt32} {bytes : List UInt8} (h : Stores f g index bytes) (now : Nat) :
    (stored g now index bytes).Sized := h.setUp.sized.store h.inside h.isNew' h.length

theorem Stores.missing {index : UInt32} {bytes : List UInt8} (h : Stores f g index bytes) (now : Nat) :
    (stored g now index bytes).missing = f.missing.erase index.toNat := by
  rw [stored, h.setUp.sized.missing_store h.inside, h.setUp.sameHeld.missing]

theorem Stores.received {index : UInt32} {bytes : List UInt8} (h : Stores f g index bytes) (now : Nat) :
    (stored g now index bytes).received.toNat = f.received.toNat + 1 := by
  rw [stored, h.setUp.sized.received_store h.inside h.isNew' h.length, h.setUp.received]

theorem Stores.mem_missing {index : UInt32} {bytes : List UInt8} (h : Stores f g index bytes) :
    index.toNat ∈ f.missing := by
  rw [← h.setUp.sameHeld.missing]
  exact h.setUp.sized.mem_missing_of_new h.inside h.isNew'

theorem Stores.lacking {index : UInt32} {bytes : List UInt8} (h : Stores f g index bytes)
    (hmore : (stored g now index bytes).received ≠ g.total) :
    (stored g now index bytes).missing.Nonempty := by
  by_contra hnone
  exact hmore ((h.sized now).received_of_missing (Finset.not_nonempty_iff_eq_empty.mp hnone))

-- With it nothing is missing any more.
theorem Stores.last {index : UInt32} {bytes : List UInt8} (h : Stores f g index bytes)
    (hall : (stored g now index bytes).received = g.total) : f.missing = {index.toNat} := by
  have hnone : (stored g now index bytes).missing = ∅ := by
    rw [Finset.eq_empty_iff_forall_notMem]
    intro i hi
    obtain ⟨hlt, hfalse⟩ := AssetFetch.mem_missing.mp hi
    rw [(h.sized now).chunkCount_eq] at hlt
    rw [(h.sized now).holds_of_complete hall hlt] at hfalse
    cases hfalse
  rw [h.missing, Finset.erase_eq_empty_iff] at hnone
  rcases hnone with hempty | hone
  · have hmem := h.mem_missing
    rw [hempty] at hmem
    exact absurd hmem (Finset.notMem_empty _)
  · exact hone

-- A chunk came in that is new, and more are to come.
theorem Going.stored {index : UInt32} {bytes : List UInt8} (h : Going honest ccfg hash blob s f)
    (hst : Stores f g index bytes) (hmore : (stored g now index bytes).received ≠ g.total)
    (hpeer : l'.peer = s.loop.peer)
    (hright : s.loop.peer = none ∨ honest → bytes = Chunks.piece kChunkBytes blob index.toNat)
    (hfed : s.loop.peer = none → Serves ccfg hash blob →
      Fed (f.missing.erase index.toNat) (f.received.toNat + 1) ((s₀.after l').Outstanding blob))
    (hawaited : s.loop.peer = none → Lacks ccfg hash → s₀.requests ≠ [] ∨ s₀.replies ≠ []) :
    Going honest ccfg hash blob (s₀.after l') (Swarm.stored g now index bytes) where
  kept := .inr (hst.sized _)
  address := hst.setUp.address.trans h.address
  expected := (congrArg UInt64.toNat hst.setUp.expectedBytes).trans h.expected
  lacking := hst.lacking hmore
  right hwhen := by
    have hwhen' := hwhen.imp_left hpeer.symm.trans
    have hu := hst.setUp.sameHeld.untainted (h.right hwhen')
    exact hu.store hst.setUp.sized hst.inside hst.length (hright hwhen')
  fed hnone hserves := by
    rw [hst.missing, hst.received]
    exact hfed (hpeer.symm.trans hnone) hserves
  awaited hnone hlacks := by
    rcases hawaited (hpeer.symm.trans hnone) hlacks with hreq | hrep
    · left
      show s₀.requests ++ l'.asked ≠ []
      exact fun he => hreq (List.append_eq_nil_iff.mp he).1
    · exact .inr hrep

-- The next run of missing chunks, and what its answer holds.
theorem Stores.request {index : UInt32} {bytes : List UInt8} {i : Nat}
    (h : Stores f g index bytes) (hg : Going honest ccfg hash blob s f)
    (hgrant : Fetchable blob) (hi : i ∈ f.missing.erase index.toNat) :
    Askable hash blob ⟨some hash, UInt32.ofNat i,
        min g.total (UInt32.ofNat i + kAssetChunkRequestBatch)⟩ ∧
      ∀ j ∈ f.missing, i ≤ j → j < i + 64 → answers blob ⟨some hash, UInt32.ofNat i,
        min g.total (UInt32.ofNat i + kAssetChunkRequestBatch)⟩ j := by
  have hsmall := hgrant.total_le
  have htotal : g.total.toNat = chunkTotal blob := by
    rw [← h.setUp.sized.chunkCount_eq, h.setUp.sameHeld.chunkCount, hg.chunkCount]
  have hlt : i < chunkTotal blob := by
    have hmem := (AssetFetch.mem_missing.mp (Finset.mem_of_mem_erase hi)).1
    rw [hg.chunkCount] at hmem
    exact hmem
  have hof : (UInt32.ofNat i).toNat = i := by
    rw [UInt32.toNat_ofNat']
    apply Nat.mod_eq_of_lt
    omega
  have hbatch : (UInt32.ofNat i + kAssetChunkRequestBatch).toNat = i + 64 := by
    rw [UInt32.toNat_add, hof]
    apply Nat.mod_eq_of_lt
    show i + 64 < 2 ^ 32
    omega
  have hfinish : (min g.total (UInt32.ofNat i + kAssetChunkRequestBatch)).toNat =
      min (chunkTotal blob) (i + 64) := by
    rw [LittleEndian.toNat_minU32, htotal, hbatch]
  refine ⟨⟨rfl, ?_, ?_⟩, fun j hj hlo hhi => ⟨?_, ?_, ?_, ?_⟩⟩
  · show (UInt32.ofNat i).toNat < _
    rw [hof, hfinish]
    omega
  · show (UInt32.ofNat i).toNat < _
    rw [hof]
    exact hlt
  · show (UInt32.ofNat i).toNat ≤ j
    rw [hof]
    exact hlo
  · have hj' := (AssetFetch.mem_missing.mp hj).1
    rw [hg.chunkCount] at hj'
    show j < (min g.total (UInt32.ofNat i + kAssetChunkRequestBatch)).toNat
    rw [hfinish]
    omega
  · have hj' := (AssetFetch.mem_missing.mp hj).1
    rw [hg.chunkCount] at hj'
    exact hj'
  · show j < (UInt32.ofNat i).toNat + 64
    rw [hof]
    exact hhi

end

end Swarm

end P2pGpu.Worker
