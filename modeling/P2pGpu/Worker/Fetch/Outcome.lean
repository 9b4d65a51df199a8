import P2pGpu.Worker.Fetch.Supply

namespace P2pGpu.Worker

open P2pGpu.Protocol
open P2pGpu.Coordinator (AssetRequest Double Hash32 Reply Session Shared kChunkBytes)

namespace AssetFetch

-- The bytes that there are of the asset at a place.
def placeLength (f : AssetFetch) (i : Nat) : Nat :=
  min kChunkBytes (f.expectedBytes.toNat - i * kChunkBytes)

-- A chunk that has its place in the asset. One that is held may be short at the end.
structure Fits (f : AssetFetch) (c : AssetChunk) (bytes : List UInt8) : Prop where
  total : c.total.toNat = f.chunkCount
  index : c.index < c.total
  length : bytes.length = f.placeLength c.index.toNat ∨
    (f.holds c.index.toNat = true ∧ c.index + 1 = c.total ∧
      bytes.length ≤ f.placeLength c.index.toNat)

section

variable {cfg : Config} {f : AssetFetch} {c : AssetChunk} {bytes : List UInt8} {now : Nat}

theorem Kept.sized_exists (hk : f.Kept) (hpos : 0 < f.expectedBytes.toNat)
    (hbound : f.expectedBytes.toNat ≤ kMaxAssetBytes) {claimed : UInt32}
    (htotal : claimed.toNat = f.chunkCount) : ∃ g, f.sized claimed = .ok g := by
  rcases hk with hu | hs
  · have hzero : ¬ (f.expectedBytes = 0 ∨ kMaxAssetBytes < f.expectedBytes.toNat) := by
      rintro (h | h)
      · rw [h] at hpos
        exact Nat.lt_irrefl 0 hpos
      · omega
    have hclaimed := claimed.toNat_lt
    have hcount : 0 < f.chunkCount := by
      rw [chunkCount, Chunks.lt_count kChunkBytes_pos, Nat.zero_mul]
      exact hpos
    have hrange : ¬ (f.chunkCount = 0 ∨ 0xFFFFFFFF < f.chunkCount) := by omega
    have hsame : ¬ claimed ≠ UInt32.ofNat f.chunkCount := by
      rw [not_not, ← htotal, UInt32.ofNat_toNat]
    refine ⟨{ f with
      total := UInt32.ofNat f.chunkCount
      haveChunk := List.replicate f.chunkCount false
      bytes := List.replicate f.expectedBytes.toNat 0 }, ?_⟩
    rw [sized, if_neg (by rw [hu.total]; simp), if_neg hzero]
    show (if f.chunkCount = 0 ∨ 0xFFFFFFFF < f.chunkCount then
        Except.error "asset chunk count is out of range"
      else if claimed ≠ UInt32.ofNat f.chunkCount then
        Except.error "sender's chunk count disagrees with the coordinator"
      else Except.ok { f with
        total := UInt32.ofNat f.chunkCount
        haveChunk := List.replicate f.chunkCount false
        bytes := List.replicate f.expectedBytes.toNat 0 }) = _
    rw [if_neg hrange, if_neg hsame]
  · exact ⟨f, sized_total_ne hs.total_ne⟩

-- A chunk that fits is not refused.
theorem Kept.take_fits (hk : f.Kept) (hpos : 0 < f.expectedBytes.toNat)
    (hbound : f.expectedBytes.toNat ≤ kMaxAssetBytes) (hfits : f.Fits c bytes) (why : String) :
    f.take cfg now c.index c.total bytes ≠ .refused why := by
  obtain ⟨g, hsized⟩ := hk.sized_exists hpos hbound hfits.total
  have hset := hk.setUp hsized
  have hindex := hfits.index
  have htotal : c.total = g.total := by
    apply UInt32.toNat_inj.mp
    rw [← hset.sized.chunkCount_eq, hset.sameHeld.chunkCount, hfits.total]
  rw [htotal] at hindex
  have hsmall := hset.sized.total_le
  have hlt := UInt32.lt_iff_toNat_lt.mp hindex
  have hstart := hset.sized.start_lt hindex
  have hplace : f.placeLength c.index.toNat =
      (Chunks.piece kChunkBytes g.bytes c.index.toNat).length := by
    rw [Chunks.length_piece, hset.sized.length, hset.expectedBytes]
    rfl
  have hle : bytes.length ≤ f.placeLength c.index.toNat := by
    rcases hfits.length with h | ⟨-, -, h⟩
    · exact h.le
    · exact h
  have hwidth : bytes.length ≤ kChunkBytes := hle.trans (Nat.min_le_left _ _)
  have hshort : ¬ (bytes.length < kChunkBytes ∧ c.index + 1 ≠ g.total) := by
    rintro ⟨hless, hnot⟩
    rcases hfits.length with h | ⟨-, hlast, -⟩
    · -- Only the last place is shorter than a chunk.
      have hwant := hset.sized.want_eq hindex
      rw [want, if_neg hnot] at hwant
      omega
    · exact hnot (htotal ▸ hlast)
  have hoffset : chunkOffset cfg.sizeT c.index = some (c.index.toNat * kChunkBytes) := by
    have hwide := cfg.wide
    rw [chunkOffset, if_neg]
    rw [Nat.not_lt, Nat.le_div_iff_mul_le kChunkBytes_pos]
    show c.index.toNat * 16384 ≤ cfg.sizeT - 1
    omega
  have hcheck : checkAssetChunk cfg.sizeT c.index g.total g.total bytes.length = .ok () := by
    rw [checkAssetChunk, if_neg (not_not.mpr rfl), if_neg, if_neg (Nat.not_lt.mpr hwidth),
      if_neg hshort, if_neg (by rw [hoffset]; simp)]
    rw [UInt32.le_iff_toNat_le]
    omega
  have hin : c.index.toNat * kChunkBytes + bytes.length ≤ g.bytes.length := by
    rw [hplace, Chunks.length_piece] at hle
    omega
  have hbuffer : g.bytes.length ≤ 268435456 := by
    rw [hset.sized.length]
    exact hset.sized.bound
  have hinside : ¬ g.bytes.length < (c.index.toNat * kChunkBytes + bytes.length) % cfg.sizeT := by
    have hwide := cfg.wide
    rw [Nat.mod_eq_of_lt (by omega)]
    omega
  unfold take
  rw [hsized]
  dsimp only
  rw [htotal, hcheck]
  dsimp only
  rw [hoffset]
  dsimp only
  rw [if_neg hinside]
  by_cases hhave : g.haveChunk.getD c.index.toNat false = true
  · rw [if_pos hhave]
    exact fun he => by cases he
  · rw [if_neg hhave]
    have hlen : ¬ bytes.length ≠ g.want c.index := by
      rw [not_not, hset.sized.want_eq hindex, ← hplace]
      rcases hfits.length with h | ⟨hheld, -, -⟩
      · exact h
      · exact absurd ((hset.held _).trans hheld) hhave
    rw [if_neg hlen]
    exact fun he => by cases he

end

end AssetFetch

-- The chunk with this index, as it should be.
def chunkOf (hash : Hash32) (blob : List UInt8) (i : Nat) : AssetChunk :=
  ⟨some hash, UInt32.ofNat i, UInt32.ofNat (chunkTotal blob),
    some (Chunks.piece kChunkBytes blob i)⟩

theorem Fetchable.chunkOf_fits {hash : Hash32} {blob bytes : List UInt8} {f : AssetFetch} {i : Nat}
    (hblob : Fetchable blob) (hexpected : f.expectedBytes.toNat = blob.length)
    (hi : i < chunkTotal blob) (hbytes : (chunkOf hash blob i).bytes = some bytes) :
    f.Fits (chunkOf hash blob i) bytes := by
  have hof := hblob.toNat_ofNat hi.le
  have htotal := hblob.toNat_ofNat (Nat.le_refl (chunkTotal blob))
  cases hbytes
  refine ⟨?_, ?_, .inl ?_⟩
  · show (UInt32.ofNat (chunkTotal blob)).toNat = _
    rw [htotal, AssetFetch.chunkCount, hexpected, chunkTotal]
  · show UInt32.ofNat i < UInt32.ofNat (chunkTotal blob)
    rw [UInt32.lt_iff_toNat_lt, hof, htotal]
    exact hi
  · show (Chunks.piece kChunkBytes blob i).length = f.placeLength (UInt32.ofNat i).toNat
    rw [hof, Chunks.length_piece, AssetFetch.placeLength, hexpected]

namespace TaskLoop

-- Nothing of the fetch is touched, but the worker may talk to its peers.
structure Quiet (l l' : TaskLoop) : Prop where
  fetch : l'.fetch = l.fetch
  peer : l'.peer = none → l.peer = none
  patient : l.Patient l'
  asked : l'.asked = l.asked

section

variable {l l' l'' : TaskLoop}

theorem Quiet.refl (l : TaskLoop) : l.Quiet l := ⟨rfl, id, .refl l, rfl⟩

theorem Quiet.trans (h : l.Quiet l') (h' : l'.Quiet l'') : l.Quiet l'' :=
  ⟨h'.fetch.trans h.fetch, fun hnone => h.peer (h'.peer hnone), h.patient.trans h'.patient,
    h'.asked.trans h.asked⟩

-- It talks to its peers, and asks the coordinator nothing.
theorem Tells.quiet (h : l.Tells Sent.ToPeer l') : l.Quiet l' where
  fetch := h.fetch
  peer hnone := h.peer ▸ hnone
  patient := h.patient fun _ hm => hm.unreleased
  asked := h.asked fun _ hm => hm.unasked

theorem onOpen_quiet (l : TaskLoop) (isOpen : Bool) : l.Quiet (l.onOpen isOpen) := by
  unfold onOpen
  cases hpeer : l.peer with
  | none => exact .refl l
  | some link =>
      have hset : l.Quiet { l with
          peer := some { link with isOpen }
          peerConnected := l.peerConnected || isOpen } :=
        ⟨rfl, (fun hnone => by cases hnone), ⟨rfl, rfl⟩, rfl⟩
      dsimp only
      split
      · exact hset
      · split
        · exact hset
        · exact hset.trans (sendToPeer_tells _ _ _).quiet

end

end TaskLoop

namespace Swarm

section

variable {F : Type} {honest : Prop} {cfg : Config} {ccfg : Coordinator.Config F}
  {hash : Hash32} {blob : List UInt8} {s s₀ : Swarm} {l' : TaskLoop} {f g : AssetFetch} {now : Nat}

-- The fetch is given up, or a task is given back.
def GivesUp (s s' : Swarm) : Prop :=
  (∃ f, s.loop.fetch = some f ∧ s'.loop.fetch = none ∧ s'.loop.residentAsset ≠ f.address) ∨
    s'.loop.released ≠ []

theorem cleared_outbox (l : TaskLoop) : l.cleared.asked = [] ∧ l.cleared.released = [] :=
  ⟨rfl, rfl⟩

-- What a step comes to: the invariant, and a reason where the fetch is given up.
def Comes (honest : Prop) (ccfg : Coordinator.Config F) (hash : Hash32) (blob : List UInt8) (s s' : Swarm)
    (why : Prop) : Prop :=
  Sound honest ccfg hash blob s' ∧ (s.GivesUp s' → why)

-- Nothing is fetched, and a step does not change that.
theorem Sound.idles {why : Prop} (h : Sound honest ccfg hash blob s) (hc : Consumes s s₀)
    (hf : s.loop.fetch = none) (hfetch : l'.fetch = none)
    (hpatient : s.loop.cleared.Patient l') (hasked : l'.asked = []) :
    Comes honest ccfg hash blob s (s₀.after l') why := by
  have hwaiting : l'.waitingOnAsset = [] := hpatient.waiting.trans (h.idle hf)
  refine ⟨h.ended hc hfetch hwaiting hasked, ?_⟩
  rintro (⟨f, hsome, -⟩ | hreleased)
  · rw [hf] at hsome
    cases hsome
  · exact absurd hpatient.released hreleased

-- The fetch goes on.
theorem Sound.proceeds {why : Prop} (h : Sound honest ccfg hash blob s) (hc : Consumes s s₀)
    (hf : s.loop.fetch = some f) (hfetch : l'.fetch = some g)
    (hpatient : s.loop.cleared.Patient l') (hasked : ∀ req ∈ l'.asked, Askable hash blob req)
    (hgoing : Going honest ccfg hash blob (s₀.after l') g) :
    Comes honest ccfg hash blob s (s₀.after l') why := by
  have hparked : ∀ t ∈ l'.waitingOnAsset, t.asset = hash.address := by
    rw [hpatient.waiting]
    exact h.parked f hf
  refine ⟨h.carried hc hfetch hparked hasked hgoing, ?_⟩
  rintro (⟨f', -, hnone, -⟩ | hreleased)
  · have hnone' : l'.fetch = none := hnone
    rw [hfetch] at hnone'
    cases hnone'
  · exact absurd hpatient.released hreleased

-- The fetch is given up for a reason.
theorem Sound.abandons {why : Prop} (h : Sound honest ccfg hash blob s) (hc : Consumes s s₀)
    (hab : s.loop.cleared.Abandoned l') (hwhy : why) :
    Comes honest ccfg hash blob s (s₀.after l') why :=
  ⟨h.ended hc hab.fetch hab.waiting hab.asked, fun _ => hwhy⟩

-- The peer is let go, for the next one or for the coordinator.
theorem Sound.turns {why : Prop} (h : Sound honest ccfg hash blob s) (hblob : Fetchable blob)
    (hc : Consumes s s₀) (hf : s.loop.fetch = some f)
    (hright : s.loop.FallsBack → honest ∨ f.Untainted blob)
    (hfed : s.loop.FallsBack → Serves ccfg hash blob →
      Fed f.missing f.received.toNat fun i => s₀.Outstanding blob i ∨ i < 64) :
    Comes honest ccfg hash blob s
      (s₀.after ({ s.loop.cleared with peer := none }.tryNextPeerOrFallBack now)) why := by
  have hgoing := h.going f hf
  obtain ⟨hlen, hhash⟩ := hashOfHex_address hash
  rw [← hgoing.address] at hlen hhash
  have hcases := TaskLoop.tryNextPeerOrFallBack_cases
    (l := { s.loop.cleared with peer := none }) now hf hlen hhash
  rcases hcases with ⟨hback, hfell⟩ | ⟨-, htries⟩
  · refine h.proceeds hc hf hfell.fetch ⟨hfell.patient.waiting, hfell.patient.released⟩ ?_ ?_
    · intro req hreq
      rw [hfell.asked] at hreq
      rw [List.mem_singleton.mp hreq]
      exact askable_first hblob
    · have huntainted := (hright hback).elim (fun hh => hgoing.right (.inr hh)) id
      exact hgoing.fellBack (.progressed f now) hfell.asked huntainted (hfed hback)
  · refine h.proceeds hc hf htries.fetch ⟨htries.patient.waiting, htries.patient.released⟩ ?_ ?_
    · intro req hreq
      rw [htries.asked] at hreq
      cases hreq
    · exact hgoing.tries (.refl f) htries.peer

-- A chunk that fits: nothing is given up for it, unless all chunks are right and the
-- whole does not pass.
theorem Sound.takes (h : Sound honest ccfg hash blob s) (hblob : Fetchable blob)
    (hc : Consumes s s₀) (hf : s.loop.fetch = some f) {c : AssetChunk}
    (htakes : TaskLoop.TakesChunk cfg hash now f c s.loop.cleared l')
    (hfits : ∀ bytes, c.bytes = some bytes → f.Fits c bytes)
    (hright : ∀ bytes, c.bytes = some bytes → s.loop.peer = none ∨ honest → c.index.toNat ∈ f.missing →
      bytes = Chunks.piece kChunkBytes blob c.index.toNat)
    (hout : ∀ i ∈ f.missing, c.bytes = none ∨ i ≠ c.index.toNat → s.Outstanding blob i →
      s₀.Outstanding blob i)
    (hagain : s.loop.peer = none → Serves ccfg hash blob → c.index.toNat ∈ f.missing →
      (f.received.toNat + 1) % 64 = 0 → ∀ m ∈ f.missing.erase c.index.toNat,
        (∀ j ∈ f.missing.erase c.index.toNat, m ≤ j) →
          Fed (f.missing.erase c.index.toNat) (f.received.toNat + 1)
            fun j => s.Outstanding blob j ∨ (m ≤ j ∧ j < m + 64))
    (hawaited : s.loop.peer = none → Lacks ccfg hash → s₀.requests ≠ [] ∨ s₀.replies ≠ []) :
    Comes honest ccfg hash blob s (s₀.after l') (s.loop.peer = none ∧ f.missing = {c.index.toNat} ∧
      (cfg.blake3Hex blob ≠ hash.address ∨ cfg.loadBvh blob = false)) := by
  have hgoing := h.going f hf
  have hpos : 0 < f.expectedBytes.toNat := hgoing.expected ▸ hblob.pos
  have hbound : f.expectedBytes.toNat ≤ kMaxAssetBytes := hgoing.expected ▸ hblob.bound
  have hf' : s.loop.cleared.fetch = some f := hf
  have hnone : ∀ req ∈ s.loop.cleared.asked, Askable hash blob req := fun req hreq => by
    rw [(cleared_outbox s.loop).1] at hreq
    cases hreq
  have hne : ∀ {i}, i ∈ f.missing.erase c.index.toNat → i ≠ c.index.toNat := Finset.ne_of_mem_erase
  cases htakes with
  | ignored hbytes hsame =>
      subst hsame
      exact h.proceeds hc hf hf' (.refl _) hnone
        (hgoing.rests (.refl f) id (fun i hi => hout i hi (.inl hbytes)) hawaited)
  | refused hbytes htake hab =>
      exact absurd htake (hgoing.kept.take_fits hpos hbound (hfits _ hbytes) _)
  | @duplicate g hset hindex hheld hl =>
      subst hl
      have hg : { s.loop.cleared with fetch := some g }.fetch = some g := rfl
      refine h.proceeds hc hf hg ⟨rfl, rfl⟩ hnone ?_
      refine hgoing.rests hset.sameHeld id (fun i hi => hout i hi (.inr ?_)) hawaited
      rintro rfl
      have hfalse := (AssetFetch.mem_missing.mp hi).2
      rw [hheld] at hfalse
      cases hfalse
  | @stored g bytes hbytes hset hindex hnew hlen hmore hbatch hl =>
      subst hl
      have hst : Stores f g c.index bytes := ⟨hset, hindex, hnew, hlen⟩
      have hg : { s.loop.cleared with fetch := some (stored g now c.index bytes) }.fetch =
          some (stored g now c.index bytes) := rfl
      refine h.proceeds hc hf hg ⟨rfl, rfl⟩ hnone ?_
      refine hgoing.stored hst hmore rfl (fun hpeer => hright bytes hbytes hpeer hst.mem_missing)
        (fun hpeer hserves => ?_) hawaited
      exact ((hgoing.fed hpeer hserves).erase hbatch).mono fun i hi ho =>
        (hout i (Finset.mem_of_mem_erase hi) (.inr (hne hi)) ho).after _
  | @asks g bytes i hbytes hset hindex hnew hlen hmore hbatch hfirst hfetch hpeer hpatient hasked =>
      have hst : Stores f g c.index bytes := ⟨hset, hindex, hnew, hlen⟩
      obtain ⟨m, hm, hmem, hleast⟩ := (hst.sized now).firstMissing_some (hst.lacking hmore)
      have him : i = m := Option.some.inj (hfirst.symm.trans hm)
      subst him
      rw [hst.missing] at hmem hleast
      obtain ⟨haskable, hanswers⟩ := hst.request hgoing hblob hmem
      have hown : l'.asked = [⟨some hash, UInt32.ofNat i,
          min g.total (UInt32.ofNat i + kAssetChunkRequestBatch)⟩] := hasked
      refine h.proceeds hc hf hfetch hpatient (fun req hreq => ?_) ?_
      · rw [hown] at hreq
        rw [List.mem_singleton.mp hreq]
        exact haskable
      · refine hgoing.stored hst hmore hpeer
          (fun hp => hright bytes hbytes hp hst.mem_missing) (fun hp hserves => ?_) hawaited
        refine (hagain hp hserves hst.mem_missing hbatch i hmem hleast).mono fun j hj ho => ?_
        have hjm := Finset.mem_of_mem_erase hj
        rcases ho with ho | ⟨hlo, hhi⟩
        · exact (hout j hjm (.inr (hne hj)) ho).after _
        · exact outstanding_of_asked (by rw [hown]; exact List.mem_singleton_self _)
            (hanswers j hjm hlo hhi)
  | @finished g bytes hbytes hset hindex hnew hlen hall hdone =>
      have hasked : l'.asked = [] := hdone.asked
      refine ⟨h.ended hc hdone.fetch hdone.waiting hasked, ?_⟩
      rintro (⟨f', hsome, -, hresident⟩ | hreleased)
      · rw [hf] at hsome
        cases hsome
        exact absurd (hdone.resident.trans hset.address) hresident
      · exact absurd hdone.released hreleased
  | @rejected g bytes hbytes hset hindex hnew hlen hall hbad hrest =>
      have hst : Stores f g c.index bytes := ⟨hset, hindex, hnew, hlen⟩
      rcases hrest with ⟨hpeer, hab⟩ | ⟨hpeer, hturn⟩
      · -- All that it holds is right, so it is the blob that does not pass.
        have hpeer' : s.loop.peer = none := hpeer
        have huntainted := hset.sameHeld.untainted (hgoing.right (.inl hpeer'))
        have hbytes' := (hst.sized now).bytes_eq hall
          (huntainted.store hset.sized hindex hlen (hright bytes hbytes (.inl hpeer') hst.mem_missing))
          ((congrArg UInt64.toNat hset.expectedBytes).trans hgoing.expected)
        have hwhole : (g.store now c.index (c.index.toNat * kChunkBytes) bytes).bytes = blob :=
          hbytes'
        rw [hwhole, hgoing.address] at hbad
        exact h.abandons hc hab ⟨hpeer', hst.last hall, hbad⟩
      · have hexpected : (stored g now c.index bytes).expectedBytes = f.expectedBytes :=
          hset.expectedBytes
        have haddress : (stored g now c.index bytes).address = f.address := hset.address
        rcases hturn with ⟨-, hfell⟩ | ⟨-, htries⟩
        · refine h.proceeds hc hf hfell.fetch hfell.patient (fun req hreq => ?_) ?_
          · rw [hfell.asked] at hreq
            rw [List.mem_singleton.mp hreq]
            exact askable_first hblob
          · exact hgoing.wiped hblob (hst.sized _) haddress hexpected fun _ => hfell.asked
        · refine h.proceeds hc hf htries.fetch htries.patient (fun req hreq => ?_) ?_
          · rw [htries.asked] at hreq
            exact hnone req hreq
          · refine hgoing.wiped hblob (hst.sized _) haddress hexpected fun hp => ?_
            have hsome := htries.peer
            rw [hp] at hsome
            cases hsome

theorem not_lacks (hserves : Serves ccfg hash blob) : ¬ Lacks ccfg hash := by
  intro hlacks
  rw [Serves, hlacks] at hserves
  cases hserves

-- A step of the worker that leaves its fetch alone.
theorem Sound.rests {why : Prop} (h : Sound honest ccfg hash blob s) (hq : s.loop.cleared.Quiet l') :
    Comes honest ccfg hash blob s (s.after l') why := by
  cases hf : s.loop.fetch with
  | none => exact h.idles (.refl s) hf (hq.fetch.trans hf) hq.patient hq.asked
  | some f =>
      refine h.proceeds (.refl s) hf (hq.fetch.trans hf) hq.patient (fun req hreq => ?_) ?_
      · rw [hq.asked] at hreq
        cases hreq
      · exact (h.going f hf).rests (.refl f) hq.peer (fun _ _ ho => ho)
          fun hnone hlacks => (h.going f hf).awaited (hq.peer hnone) hlacks

-- What comes to a worker that fetches nothing changes nothing.
theorem handleAssetChunk_none (hf : s.loop.fetch = none) (c : AssetChunk) :
    s.loop.cleared.handleAssetChunk cfg now c = s.loop.cleared := by
  have hf' : s.loop.cleared.fetch = none := hf
  unfold TaskLoop.handleAssetChunk
  rw [hf']

theorem Sound.misses_none {why : Prop} (h : Sound honest ccfg hash blob s) (hc : Consumes s s₀)
    (hf : s.loop.fetch = none) :
    Comes honest ccfg hash blob s (s₀.after (s.loop.cleared.handleAssetMiss now)) why := by
  unfold TaskLoop.handleAssetMiss
  split
  · have hstays : { s.loop.cleared with peer := none }.tryNextPeerOrFallBack now =
        { s.loop.cleared with peer := none } := by
      have hf' : s.loop.cleared.fetch = none := hf
      unfold TaskLoop.tryNextPeerOrFallBack
      simp only [hf']
    rw [hstays]
    exact h.idles hc hf hf ⟨rfl, rfl⟩ rfl
  · have hwaiting : s.loop.cleared.waitingOnAsset = [] := h.idle hf
    have hab := TaskLoop.abandonAssetFetch_abandoned s.loop.cleared
    refine h.idles hc hf hab.fetch ⟨hab.waiting.trans hwaiting.symm, ?_⟩ hab.asked
    unfold TaskLoop.abandonAssetFetch
    show (TaskLoop.releaseAll _ _).released = _
    rw [(TaskLoop.releaseAll_outbox _ _).2]
    show _ ++ s.loop.cleared.waitingOnAsset.map _ = _
    rw [hwaiting]
    exact List.append_nil _

def freshFetch (now : Nat) (task : PendingTask) (inputBytes : UInt64) : AssetFetch :=
  { address := task.asset, expectedBytes := inputBytes, lastProgress := now }

theorem freshFetch_missing {task : PendingTask} {inputBytes : UInt64}
    (hbytes : inputBytes.toNat = blob.length) :
    (freshFetch now task inputBytes).missing = Finset.range (chunkTotal blob) := by
  ext i
  rw [AssetFetch.mem_missing, Finset.mem_range, AssetFetch.chunkCount, chunkTotal]
  show i < Chunks.count kChunkBytes inputBytes.toNat ∧ ([] : List Bool).getD i false = false ↔ _
  rw [hbytes]
  simp

-- A fetch that starts, whatever its source will be.
theorem Going.fresh (hblob : Fetchable blob) {task : PendingTask} {inputBytes : UInt64}
    (htask : task.asset = hash.address) (hbytes : inputBytes.toNat = blob.length)
    (hpeer : s.loop.peer ≠ none) : Going honest ccfg hash blob s (freshFetch now task inputBytes) where
  kept := .fresh
  address := htask
  expected := hbytes
  lacking := by
    rw [freshFetch_missing hbytes]
    exact ⟨0, Finset.mem_range.mpr hblob.total_pos⟩
  right _ i hi := by cases hi
  fed hnone := absurd hnone hpeer
  awaited hnone := absurd hnone hpeer

-- It starts where nothing was fetched.
theorem Sound.begins {why : Prop} (h : Sound honest ccfg hash blob s) (hblob : Fetchable blob)
    (hf : s.loop.fetch = none) {task : PendingTask} {inputBytes : UInt64}
    (htask : task.asset = hash.address) (hbytes : inputBytes.toNat = blob.length)
    {l₁ : TaskLoop} (hl : l₁.fetch = some (freshFetch now task inputBytes))
    (hparked : ∀ t ∈ l₁.waitingOnAsset, t.asset = hash.address) (hout : l₁.outbox = []) :
    Comes honest ccfg hash blob s (s.after (l₁.tryNextPeerOrFallBack now)) why := by
  have hfresh : Going honest ccfg hash blob { s with loop := { s.loop with
      peer := some { target := Id.nil } } } (freshFetch now task inputBytes) :=
    .fresh hblob htask hbytes (fun hnone => by cases hnone)
  have hasked : l₁.asked = [] := by
    rw [TaskLoop.asked, hout]
    rfl
  have hreleased : l₁.released = [] := by
    rw [TaskLoop.released, hout]
    rfl
  have hquiet : ∀ {s'}, s'.loop.released = l₁.released → s.GivesUp s' → why := by
    rintro s' hsame (⟨f, hsome, -⟩ | hgiven)
    · rw [hf] at hsome
      cases hsome
    · exact absurd (hsame.trans hreleased) hgiven
  obtain ⟨hlen, hhash⟩ := hashOfHex_address hash
  rw [← htask] at hlen hhash
  rcases TaskLoop.tryNextPeerOrFallBack_cases now hl hlen hhash with ⟨-, hfell⟩ | ⟨-, htries⟩
  · have hone := hfell.asked
    rw [hasked, List.nil_append] at hone
    refine ⟨h.carried (.refl s) hfell.fetch ?_ (fun req hreq => ?_) ?_,
      hquiet hfell.patient.released⟩
    · rw [hfell.patient.waiting]
      exact hparked
    · rw [hone] at hreq
      rw [List.mem_singleton.mp hreq]
      exact askable_first hblob
    · refine hfresh.fellBack (.progressed _ now) hone (fun i hi => by cases hi) ?_
      intro _
      rw [freshFetch_missing hbytes]
      exact Fed.of_none (fun i _ h64 => .inr h64) rfl
  · refine ⟨h.carried (.refl s) htries.fetch ?_ (fun req hreq => ?_) ?_,
      hquiet htries.patient.released⟩
    · rw [htries.patient.waiting]
      exact hparked
    · rw [htries.asked, hasked] at hreq
      cases hreq
    · exact hfresh.tries (.refl _) htries.peer

-- A grant: the task waits with the others, or it starts the fetch.
theorem Sound.grants (h : Sound honest ccfg hash blob s) (hblob : Fetchable blob) {task : PendingTask}
    {inputBytes : UInt64} (htask : task.asset = hash.address)
    (hbytes : inputBytes.toNat = blob.length) {why : Prop} :
    Comes honest ccfg hash blob s (s.after (s.loop.cleared.parkOnAsset now task inputBytes)) why := by
  unfold TaskLoop.parkOnAsset
  by_cases hresident : task.asset = s.loop.cleared.residentAsset
  · rw [if_pos hresident]
    exact h.rests ⟨rfl, id, ⟨rfl, rfl⟩, rfl⟩
  · rw [if_neg hresident]
    have hparked : ∀ t ∈ s.loop.waitingOnAsset ++ [task], t.asset = hash.address := by
      intro t ht
      rcases List.mem_append.mp ht with hold | hnew
      · cases hf : s.loop.fetch with
        | none =>
            rw [h.idle hf] at hold
            cases hold
        | some f => exact h.parked f hf t hold
      · rw [List.mem_singleton.mp hnew]
        exact htask
    cases hf : s.loop.fetch with
    | some f =>
        have hgoing := h.going f hf
        have hf' : s.loop.cleared.fetch = some f := hf
        have hany : (s.loop.cleared.fetch.any fun f => f.address = task.asset) = true := by
          rw [hf', Option.any_some, decide_eq_true_eq, hgoing.address, htask]
        dsimp only
        rw [if_pos hany]
        refine ⟨h.carried (.refl s) hf hparked (fun req hreq => by cases hreq) ?_, ?_⟩
        · exact hgoing.rests (.refl f) id (fun _ _ ho => ho) hgoing.awaited
        · rintro (⟨f', -, hnone, -⟩ | hreleased)
          · have hnone' : s.loop.fetch = none := hnone
            rw [hf] at hnone'
            cases hnone'
          · exact absurd rfl hreleased
    | none =>
        have hf' : s.loop.cleared.fetch = none := hf
        have hany : ¬ (s.loop.cleared.fetch.any fun f => f.address = task.asset) = true := by
          rw [hf']
          simp
        dsimp only
        rw [if_neg hany]
        exact h.begins hblob hf htask hbytes rfl hparked rfl

theorem Sound.idle_start {l : TaskLoop} (hidle : l.fetch = none) (hnone : l.waitingOnAsset = []) :
    Sound honest ccfg hash blob { loop := l } where
  idle _ := hnone
  parked f hf := by
    have hf' : l.fetch = some f := hf
    rw [hidle] at hf'
    cases hf'
  going f hf := by
    have hf' : l.fetch = some f := hf
    rw [hidle] at hf'
    cases hf'
  requests _ hreq := by cases hreq
  replies _ hr := by cases hr

end

end Swarm

end P2pGpu.Worker
