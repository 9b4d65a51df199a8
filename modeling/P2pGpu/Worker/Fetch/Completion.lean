import P2pGpu.Worker.Fetch.Blame

namespace P2pGpu.Worker

open P2pGpu.Protocol
open P2pGpu.Coordinator (AssetRequest Double Hash32 Reply Session Shared kChunkBytes)

namespace TaskLoop

-- The loop fetches this, and all that wait, wait for it.
structure Holding (hash : Hash32) (blob : List UInt8) (l : TaskLoop) (f : AssetFetch) : Prop where
  fetch : l.fetch = some f
  kept : f.Kept
  address : f.address = hash.address
  expected : f.expectedBytes.toNat = blob.length
  parked : ∀ t ∈ l.waitingOnAsset, t.asset = hash.address

-- What is asked for from the first that is missing.
def nextRequest (hash : Hash32) (blob : List UInt8) (m : Nat) : AssetRequest :=
  ⟨some hash, UInt32.ofNat m,
    min (UInt32.ofNat (chunkTotal blob)) (UInt32.ofNat m + kAssetChunkRequestBatch)⟩

-- What a right chunk does that is not the last one.
structure TakesRight (hash : Hash32) (blob : List UInt8) (i : Nat) (f g : AssetFetch)
    (l l' : TaskLoop) : Prop where
  holding : l'.Holding hash blob g
  peer : l'.peer = l.peer
  missing : g.missing = f.missing.erase i
  received : g.received.toNat = f.received.toNat + if i ∈ f.missing then 1 else 0
  quiet : ¬ (i ∈ f.missing ∧ (f.received.toNat + 1) % 64 = 0) → l' = { l with fetch := some g }
  asks : i ∈ f.missing → (f.received.toNat + 1) % 64 = 0 →
    ∃ m ∈ f.missing.erase i, (∀ j ∈ f.missing.erase i, m ≤ j) ∧
      l'.asked = l.asked ++ [nextRequest hash blob m]

section

variable {cfg : Config} {hash : Hash32} {blob : List UInt8} {l : TaskLoop} {f : AssetFetch}
  {now i : Nat}

theorem Holding.takesChunk (h : l.Holding hash blob f) (cfg : Config) (now : Nat)
    (c : AssetChunk) : TakesChunk cfg hash now f c l (l.handleAssetChunk cfg now c) := by
  obtain ⟨hlen, hhash⟩ := hashOfHex_address hash
  rw [← h.address] at hlen hhash
  exact handleAssetChunk_takes cfg now c h.fetch h.kept
    (fun t ht => (h.parked t ht).trans h.address.symm) hlen hhash

theorem Holding.takesRight (h : l.Holding hash blob f) (hblob : Fetchable blob) (cfg : Config)
    (now : Nat) (hi : i < chunkTotal blob) (hmore : (f.missing.erase i).Nonempty) :
    ∃ g, TakesRight hash blob i f g l (l.handleAssetChunk cfg now (chunkOf hash blob i)) := by
  have hpos : 0 < f.expectedBytes.toNat := h.expected ▸ hblob.pos
  have hbound : f.expectedBytes.toNat ≤ kMaxAssetBytes := h.expected ▸ hblob.bound
  have hof : (chunkOf hash blob i).index.toNat = i := hblob.toNat_ofNat hi.le
  have hlast : f.missing ≠ {i} := by
    intro he
    rw [he, Finset.erase_singleton] at hmore
    exact Finset.not_nonempty_empty hmore
  have hset : ∀ {g}, f.SetUp g → Holding hash blob { l with fetch := some g } g := fun hs =>
    ⟨rfl, .inr hs.sized, hs.address.trans h.address,
      (congrArg UInt64.toNat hs.expectedBytes).trans h.expected, h.parked⟩
  have htakes := h.takesChunk cfg now (chunkOf hash blob i)
  revert htakes
  generalize l.handleAssetChunk cfg now (chunkOf hash blob i) = l'
  intro htakes
  cases htakes with
  | ignored hbytes => cases hbytes
  | refused hbytes htake =>
      exact absurd htake (h.kept.take_fits hpos hbound (hblob.chunkOf_fits h.expected hi hbytes) _)
  | @duplicate g hs hindex hheld hl =>
      subst hl
      rw [hof] at hheld
      have hnot : i ∉ f.missing := by
        intro hmem
        rw [(AssetFetch.mem_missing.mp hmem).2] at hheld
        cases hheld
      refine ⟨g, hset hs, rfl, ?_, ?_, fun _ => rfl, fun hmem => absurd hmem hnot⟩
      · rw [hs.sameHeld.missing, Finset.erase_eq_of_notMem hnot]
      · rw [if_neg hnot, hs.received, Nat.add_zero]
  | @stored g bytes hbytes hs hindex hnew hlen hmore' hbatch hl =>
      subst hl
      have hst : Swarm.Stores f g (chunkOf hash blob i).index bytes := ⟨hs, hindex, hnew, hlen⟩
      have hmem := hst.mem_missing
      have hmissing := hst.missing now
      have hreceived := hst.received now
      rw [hof] at hmem hmissing
      refine ⟨_, ⟨rfl, .inr (hst.sized now), (hset hs).address, (hset hs).expected,
        h.parked⟩, rfl, hmissing, ?_, fun _ => rfl, fun _ hzero => absurd hzero hbatch⟩
      rw [if_pos hmem]
      exact hreceived
  | @asks g bytes m hbytes hs hindex hnew hlen hmore' hbatch hfirst hfetch hpeer hpatient hasked =>
      have hst : Swarm.Stores f g (chunkOf hash blob i).index bytes := ⟨hs, hindex, hnew, hlen⟩
      obtain ⟨m', hm', hm'mem, hleast⟩ := (hst.sized now).firstMissing_some
        (hst.lacking hmore')
      have hmm : m = m' := Option.some.inj (hfirst.symm.trans hm')
      subst hmm
      have hmem := hst.mem_missing
      have hmissing := hst.missing now
      have hreceived := hst.received now
      rw [hof] at hmem hmissing
      rw [hmissing] at hm'mem hleast
      have htotal : g.total = UInt32.ofNat (chunkTotal blob) := by
        apply UInt32.toNat_inj.mp
        rw [← hs.sized.chunkCount_eq, hs.sameHeld.chunkCount,
          hblob.toNat_ofNat (Nat.le_refl _), AssetFetch.chunkCount, h.expected, chunkTotal]
      refine ⟨_, ⟨hfetch, .inr (hst.sized now), (hset hs).address, (hset hs).expected, ?_⟩,
        hpeer, hmissing, ?_, fun hnot => absurd ⟨hmem, hbatch⟩ hnot, fun _ _ => ?_⟩
      · rw [hpatient.waiting]
        exact h.parked
      · rw [if_pos hmem]
        exact hreceived
      · refine ⟨m, hm'mem, hleast, ?_⟩
        rw [hasked, nextRequest, htotal]
  | @finished g bytes hbytes hs hindex hnew hlen hall =>
      have hst : Swarm.Stores f g (chunkOf hash blob i).index bytes := ⟨hs, hindex, hnew, hlen⟩
      have honly := hst.last hall
      rw [hof] at honly
      exact absurd honly hlast
  | @rejected g bytes hbytes hs hindex hnew hlen hall =>
      have hst : Swarm.Stores f g (chunkOf hash blob i).index bytes := ⟨hs, hindex, hnew, hlen⟩
      have honly := hst.last hall
      rw [hof] at honly
      exact absurd honly hlast

end

end TaskLoop

namespace Swarm

section

variable {F : Type} [Double F] {cfg : Config} {ccfg : Coordinator.Config F} {hash : Hash32}
  {blob : List UInt8} {s : Swarm} {f : AssetFetch} {now : Nat}

-- The peers send right chunks, before the fallback, and nobody is late.
structure Proper (hash : Hash32) (blob : List UInt8) (s : Swarm) (now : Nat)
    (e : SwarmEvent F) : Prop where
  means : Means hash blob e
  decent : Decent True blob s now e
  before : ∀ servingCurrent c, e = .peer servingCurrent (.assetChunk c) →
    s.loop.peer.isSome = true

-- After the fallback.
structure Fallen (hash : Hash32) (blob : List UInt8) (s : Swarm) (f : AssetFetch) : Prop where
  holding : s.loop.Holding hash blob f
  peer : s.loop.peer = none

theorem Fallen.proper (h : Fallen hash blob s f) {e : SwarmEvent F} (he : Calm e)
    (hmeans : Means hash blob e) : Proper hash blob s now e :=
  ⟨hmeans, .of_calm he h.peer, fun servingCurrent c hpeer => by
    subst hpeer
    exact he.elim⟩

theorem Fallen.cleared (h : Fallen hash blob s f) : s.loop.cleared.Holding hash blob f :=
  ⟨h.holding.fetch, h.holding.kept, h.holding.address, h.holding.expected, h.holding.parked⟩

theorem Fallen.delivers (h : Fallen hash blob s f) (hblob : Fetchable blob) (cfg : Config)
    (ccfg : Coordinator.Config F) (now : Nat) {i : Nat} (hi : i < chunkTotal blob)
    (hmore : (f.missing.erase i).Nonempty) {rest : List Reply}
    (hreplies : s.replies = chunkReply hash blob i :: rest) :
    ∃ s' g, Step cfg ccfg s (now, .deliver) s' ∧ Fallen hash blob s' g ∧
      TaskLoop.TakesRight hash blob i f g s.loop.cleared s'.loop ∧ s'.replies = rest ∧
      s'.requests = s.requests ++ s'.loop.asked := by
  obtain ⟨g, hright⟩ := h.cleared.takesRight hblob cfg now hi hmore
  refine ⟨{ s with replies := rest }.after
    (s.loop.cleared.handleAssetChunk cfg now (chunkOf hash blob i)), g, ?_, ⟨hright.holding, ?_⟩,
    hright, rfl, rfl⟩
  · show _ = next cfg ccfg s now .deliver
    simp only [next, hreplies]
    rfl
  · exact hright.peer.trans h.peer

-- Answers that come in, with which the count reaches no multiple of the batch.
theorem Fallen.drains (hblob : Fetchable blob) (cfg : Config) (ccfg : Coordinator.Config F)
    (now : Nat) {is : List Nat} {rest : List Reply} (his : ∀ i ∈ is, i < chunkTotal blob)
    (h : Fallen hash blob s f) (hreplies : s.replies = is.map (chunkReply hash blob) ++ rest)
    (hroom : f.received.toNat % 64 + (f.missing.filter (· ∈ is)).card < 64)
    (hmore : (f.missing.filter (· ∉ is)).Nonempty) :
    ∃ s' g, Reach (Step cfg ccfg) (fun s e => Proper hash blob s e.1 e.2) s s' ∧
      Fallen hash blob s' g ∧ g.missing = f.missing.filter (· ∉ is) ∧
      g.received.toNat = f.received.toNat + (f.missing.filter (· ∈ is)).card ∧
      s'.replies = rest ∧ s'.requests = s.requests := by
  induction is generalizing s f with
  | nil =>
      refine ⟨s, f, .refl s, h, ?_, ?_, hreplies, rfl⟩
      · simp
      · simp
  | cons i is ih =>
      have hkeep : (f.missing.erase i).filter (· ∉ is) = f.missing.filter (· ∉ i :: is) := by
        ext j
        simp only [Finset.mem_filter, Finset.mem_erase, List.mem_cons]
        tauto
      have hcount : (f.missing.filter (· ∈ i :: is)).card =
          (if i ∈ f.missing then 1 else 0) + ((f.missing.erase i).filter (· ∈ is)).card := by
        by_cases hmem : i ∈ f.missing
        · have hsplit : f.missing.filter (· ∈ i :: is) =
              insert i ((f.missing.erase i).filter (· ∈ is)) := by
            ext j
            simp only [Finset.mem_filter, Finset.mem_insert, Finset.mem_erase, List.mem_cons]
            by_cases hj : j = i
            · simp [hj, hmem]
            · simp [hj]
          rw [hsplit, Finset.card_insert_of_notMem (by simp), if_pos hmem, Nat.add_comm]
        · rw [Finset.erase_eq_of_notMem hmem, if_neg hmem, Nat.zero_add]
          congr 1
          ext j
          simp only [Finset.mem_filter, List.mem_cons, and_congr_right_iff]
          intro hj
          constructor
          · rintro (rfl | hin)
            · exact absurd hj hmem
            · exact hin
          · exact .inr
      have hnext : (f.missing.erase i).Nonempty := by
        rw [← hkeep] at hmore
        exact hmore.mono (Finset.filter_subset _ _)
      obtain ⟨s₁, g₁, hstep, hfallen, hright, hrest, hreqs⟩ := h.delivers hblob cfg ccfg now
        (his i List.mem_cons_self) hnext hreplies
      have hquiet : s₁.loop.asked = [] := by
        rw [hright.quiet]
        · exact (cleared_outbox s.loop).1
        · rintro ⟨hmem, hzero⟩
          rw [hcount, if_pos hmem] at hroom
          omega
      rw [hquiet, List.append_nil] at hreqs
      rw [hcount] at hroom
      have hreceived := hright.received
      have hroom' : g₁.received.toNat % 64 + (g₁.missing.filter (· ∈ is)).card < 64 := by
        rw [hright.missing]
        split at hreceived <;> rename_i hmem
        · rw [if_pos hmem] at hroom
          omega
        · rw [if_neg hmem] at hroom
          omega
      have hmore' : (g₁.missing.filter (· ∉ is)).Nonempty := by
        rw [hright.missing, hkeep]
        exact hmore
      obtain ⟨s', g, hrun, hfallen', hmissing, hgot, hrep, hreq⟩ := ih
        (fun j hj => his j (List.mem_cons_of_mem _ hj)) hfallen hrest hroom' hmore'
      have hproper : Proper hash blob s now (.deliver : SwarmEvent F) := h.proper trivial trivial
      refine ⟨s', g, .head hproper hstep hrun, hfallen', ?_, ?_, hrep, hreq.trans hreqs⟩
      · rw [hmissing, hright.missing, hkeep]
      · rw [hgot, hreceived, hright.missing, hcount]
        omega

theorem carries_chunkReply (hblob : Fetchable blob) {is : List Nat}
    (his : ∀ i ∈ is, i < chunkTotal blob) (i : Nat) :
    (∃ r ∈ is.map (chunkReply hash blob), carries r i) ↔ i ∈ is := by
  constructor
  · rintro ⟨r, hr, hi⟩
    obtain ⟨j, hj, rfl⟩ := List.mem_map.mp hr
    have hsame : (UInt32.ofNat j).toNat = i := hi
    rw [hblob.toNat_ofNat (his j hj).le] at hsame
    exact hsame ▸ hj
  · intro hi
    exact ⟨_, List.mem_map_of_mem hi, hblob.toNat_ofNat (his i hi).le⟩

-- The indices of the chunks that a request is answered with.
def answerOf (blob : List UInt8) (req : AssetRequest) : List Nat :=
  List.range' req.chunkFrom.toNat
    (min (min req.chunkTo.toNat (chunkTotal blob)) (req.chunkFrom.toNat + 64) -
      req.chunkFrom.toNat)

theorem mem_answerOf {req : AssetRequest} (hreq : Askable hash blob req) (i : Nat) :
    i ∈ answerOf blob req ↔ answers blob req i := by
  have hfrom := hreq.from_lt
  rw [answerOf, List.mem_range'_1, answers]
  omega

theorem Fallen.answers_next (h : Fallen hash blob s f) (hblob : Fetchable blob)
    (hserves : Serves ccfg hash blob) (cfg : Config) (now : Nat) {req : AssetRequest}
    {rest : List AssetRequest} (hreqs : s.requests = req :: rest)
    (hreq : Askable hash blob req) :
    ∃ s', Step cfg ccfg s (now, .answer { connId := 0 } {}) s' ∧ Fallen hash blob s' f ∧
      s'.requests = rest ∧
      s'.replies = s.replies ++ (answerOf blob req).map (chunkReply hash blob) := by
  refine ⟨{ s with
    requests := rest
    replies := s.replies ++ (answerOf blob req).map (chunkReply hash blob) }.after s.loop.cleared,
    ?_, ⟨h.cleared, h.peer⟩, List.append_nil rest, rfl⟩
  show _ = next cfg ccfg s now (.answer { connId := 0 } {})
  simp only [next, hreqs, replies_of_serves hblob hserves hreq]
  rfl

-- Answers to all that is asked for.
theorem Fallen.answered (hblob : Fetchable blob) (hserves : Serves ccfg hash blob) (cfg : Config)
    (now : Nat) (h : Fallen hash blob s f) {reqs : List AssetRequest} (hreqs : s.requests = reqs)
    (hask : ∀ req ∈ reqs, Askable hash blob req) {is : List Nat}
    (his : ∀ i ∈ is, i < chunkTotal blob) (hreplies : s.replies = is.map (chunkReply hash blob)) :
    ∃ (s' : Swarm) (is' : List Nat),
      Reach (Step cfg ccfg) (fun s e => Proper hash blob s e.1 e.2) s s' ∧
      Fallen hash blob s' f ∧ s'.requests = [] ∧ (∀ i ∈ is', i < chunkTotal blob) ∧
      s'.replies = is'.map (chunkReply hash blob) ∧ ∀ i, i ∈ is' ↔ s.Outstanding blob i := by
  induction reqs generalizing s is with
  | nil =>
      refine ⟨s, is, .refl s, h, hreqs, his, hreplies, fun i => ?_⟩
      rw [Outstanding, hreqs, hreplies, carries_chunkReply hblob his]
      simp
  | cons req rest ih =>
      have hreq := hask req List.mem_cons_self
      have hall : ∀ i ∈ is ++ answerOf blob req, i < chunkTotal blob := by
        intro i hi
        rcases List.mem_append.mp hi with hold | hnew
        · exact his i hold
        · exact ((mem_answerOf hreq i).mp hnew).2.2.1
      obtain ⟨s₁, hstep, hfallen, hrest, hreps⟩ := h.answers_next hblob hserves cfg now hreqs hreq
      rw [hreplies, ← List.map_append] at hreps
      obtain ⟨s', is', hrun, hfallen', hnone, his', hrep, hout⟩ := ih hfallen hrest
        (fun r hr => hask r (List.mem_cons_of_mem _ hr)) hall hreps
      have hproper : Proper hash blob s now (.answer { connId := 0 } {} : SwarmEvent F) :=
        h.proper trivial trivial
      refine ⟨s', is', .head hproper hstep hrun, hfallen', hnone, his', hrep, fun i => ?_⟩
      rw [hout, Outstanding, Outstanding, hrest, hreqs, hreplies, carries_chunkReply hblob his]
      have hcarried : (∃ r ∈ s₁.replies, carries r i) ↔ i ∈ is ++ answerOf blob req := by
        rw [hreps]
        exact carries_chunkReply hblob hall i
      have hasked : (∃ r ∈ req :: rest, answers blob r i) ↔
          answers blob req i ∨ ∃ r ∈ rest, answers blob r i := by simp
      rw [hcarried, List.mem_append, mem_answerOf hreq, hasked, or_comm (b := ∃ r ∈ rest, _), or_assoc,
        or_comm (a := i ∈ is)]

-- Where less is asked for than takes the count to a multiple of the batch, and it is
-- not all, the coordinator answers everything and nothing more happens.
theorem Fallen.starves (hblob : Fetchable blob) (hserves : Serves ccfg hash blob) (cfg : Config)
    (now : Nat) (h : Fallen hash blob s f) (hask : ∀ req ∈ s.requests, Askable hash blob req)
    {is : List Nat} (his : ∀ i ∈ is, i < chunkTotal blob)
    (hreplies : s.replies = is.map (chunkReply hash blob))
    (hstarved : ¬ Fed f.missing f.received.toNat (s.Outstanding blob)) :
    ∃ s' g, Reach (Step cfg ccfg) (fun s e => Proper hash blob s e.1 e.2) s s' ∧
      Fallen hash blob s' g ∧ g.missing.Nonempty ∧ s'.requests = [] ∧ s'.replies = [] := by
  rw [Fed, not_or] at hstarved
  obtain ⟨hsome, hfew⟩ := hstarved
  obtain ⟨s₁, is₁, hrun₁, hfallen₁, hreqs₁, his₁, hrep₁, hout⟩ :=
    h.answered hblob hserves cfg now rfl hask his hreplies
  have hsame : f.missing.filter (· ∈ is₁) = f.missing.filter (s.Outstanding blob) :=
    Finset.filter_congr fun i _ => hout i
  have hroom : f.received.toNat % 64 + (f.missing.filter (· ∈ is₁)).card < 64 := by
    rw [hsame]
    omega
  have hmore : (f.missing.filter (· ∉ is₁)).Nonempty := by
    obtain ⟨i, hnot⟩ := not_forall.mp hsome
    obtain ⟨hi, hnot⟩ := Classical.not_imp.mp hnot
    exact ⟨i, Finset.mem_filter.mpr ⟨hi, fun hin => hnot ((hout i).mp hin)⟩⟩
  obtain ⟨s', g, hrun', hfallen', hmissing, -, hrep', hreqs'⟩ := hfallen₁.drains hblob cfg ccfg now
    his₁ (hrep₁.trans (List.append_nil _).symm) hroom hmore
  refine ⟨s', g, hrun₁.trans hrun', hfallen', ?_, hreqs'.trans hreqs₁, hrep'⟩
  rw [hmissing]
  exact hmore

-- A peer sends a right chunk.
theorem hears_right (h : s.loop.Holding hash blob f) (hblob : Fetchable blob) (cfg : Config)
    (ccfg : Coordinator.Config F) (now : Nat) {i : Nat} (hi : i < chunkTotal blob)
    (hmore : (f.missing.erase i).Nonempty) :
    ∃ s' g, Step cfg ccfg s (now, .peer none (.assetChunk (chunkOf hash blob i))) s' ∧
      TaskLoop.TakesRight hash blob i f g s.loop.cleared s'.loop ∧
      s'.requests = s.requests ++ s'.loop.asked ∧ s'.replies = s.replies := by
  have hcleared : s.loop.cleared.Holding hash blob f :=
    ⟨h.fetch, h.kept, h.address, h.expected, h.parked⟩
  obtain ⟨g, hright⟩ := hcleared.takesRight hblob cfg now hi hmore
  exact ⟨s.after (s.loop.cleared.handleAssetChunk cfg now (chunkOf hash blob i)), g, rfl, hright,
    rfl, rfl⟩

theorem Proper.of_right (h : s.loop.Holding hash blob f) (hblob : Fetchable blob)
    (hpeer : s.loop.peer.isSome = true) {i : Nat} (hi : i < chunkTotal blob) :
    Proper hash blob s now
      (.peer none (.assetChunk (chunkOf hash blob i)) : SwarmEvent F) where
  means := trivial
  decent :=
    { fits := fun _ c f' bytes he hf hbytes => by
        cases he
        rw [h.fetch] at hf
        cases hf
        exact hblob.chunkOf_fits h.expected hi hbytes
      right := fun _ c f' bytes he _ hbytes _ _ => by
        cases he
        cases hbytes
        show _ = Chunks.piece kChunkBytes blob (UInt32.ofNat i).toNat
        rw [hblob.toNat_ofNat hi.le]
      miss := fun _ _ he => by cases he
      untainted := fun _ _ _ => .inl trivial
      prompt := fun _ he => by cases he }
  before _ _ _ := hpeer

theorem Proper.of_miss (hpeer : s.loop.peer.isSome = true) :
    Proper hash blob s now (.peer none (.assetMiss none) : SwarmEvent F) where
  means := trivial
  decent :=
    { fits := fun _ _ _ _ he => by cases he
      right := fun _ _ _ _ he => by cases he
      miss := fun _ _ _ _ => hpeer
      untainted := fun _ _ _ => .inl trivial
      prompt := fun _ he => by cases he }
  before _ _ _ := hpeer

-- The last peer says no.
theorem falls_back (h : s.loop.Holding hash blob f) (hpeer : s.loop.peer.isSome = true)
    (hback : s.loop.FallsBack) (cfg : Config) (ccfg : Coordinator.Config F) (now : Nat) :
    ∃ s', Step cfg ccfg s (now, .peer none (.assetMiss none)) s' ∧
      Fallen hash blob s' { f with lastProgress := now } ∧
      s'.requests = s.requests ++ [⟨some hash, 0, kAssetChunkRequestBatch⟩] ∧
      s'.replies = s.replies := by
  obtain ⟨hlen, hhash⟩ := hashOfHex_address hash
  rw [← h.address] at hlen hhash
  have hpeer' : s.loop.cleared.peer.isSome = true := hpeer
  have hturn : s.loop.cleared.handleAssetMiss now =
      { s.loop.cleared with peer := none }.tryNextPeerOrFallBack now := by
    rw [TaskLoop.handleAssetMiss, if_pos hpeer']
  refine ⟨s.after (s.loop.cleared.handleAssetMiss now), rfl, ?_⟩
  rw [hturn]
  rcases TaskLoop.tryNextPeerOrFallBack_cases (l := { s.loop.cleared with peer := none })
    now h.fetch hlen hhash with ⟨-, hfell⟩ | ⟨hnot, -⟩
  · refine ⟨⟨⟨hfell.fetch, h.kept.progressed now, h.address, h.expected, ?_⟩, hfell.peer⟩, ?_, rfl⟩
    · intro t ht
      have ht' : t ∈ s.loop.waitingOnAsset := by
        have hwaiting := hfell.patient.waiting
        exact hwaiting ▸ ht
      exact h.parked t ht'
    · show s.requests ++ _ = _
      rw [hfell.asked]
      rfl
  · exact absurd hback hnot

-- With enough asked for at the fallback and after it, the fetch is never stuck: an
-- answer is owed as long as chunks are missing. It ends with the asset there.
theorem fetch_never_stuck (cfg : Config) (ccfg : Coordinator.Config F) (hash : Hash32)
    (blob : List UInt8) (hblob : Fetchable blob) (hserves : Serves ccfg hash blob) (l : TaskLoop)
    (hidle : l.fetch = none) (hnone : l.waitingOnAsset = []) (s : Swarm)
    (hrun : Reach (Step cfg ccfg) (fun s e => Fair True ccfg hash blob s e.1 e.2)
      { loop := l } s) :
    (∀ f, s.loop.fetch = some f → s.loop.peer = none → s.requests ≠ [] ∨ s.replies ≠ []) ∧
      (cfg.blake3Hex blob = hash.address → cfg.loadBvh blob = true → ∀ now e s',
        Fair True ccfg hash blob s now e →
        (∀ f, e = .poll → s.loop.fetch = some f → now - f.lastProgress ≤ kAssetStallTimeout) →
        Step cfg ccfg s (now, e) s' → ¬ s.GivesUp s') := by
  have hsound := Sound.run hblob (.inl hserves) hidle hnone hrun
  refine ⟨fun f hf hpeer => hsound.owed (.inl hserves) hf hpeer, ?_⟩
  intro hnamed hloads now e s' hfair htime hstep hgives
  have hcause := (hsound.step hblob (.inl hserves) hfair hstep).2 hgives
  cases hcause with
  | missed hmiss =>
      unfold missArrives at hmiss
      split at hmiss
      · rename_i hreplies
        rcases hsound.replies _ (hreplies ▸ List.mem_cons_self) with ⟨-, i, -, hr⟩ | ⟨hlacks, -⟩
        · cases hr
        · exact not_lacks hserves hlacks
      · cases hmiss
  | unsound _ _ _ _ hbad =>
      rcases hbad with hwrong | hwrong
      · exact hwrong hnamed
      · rw [hloads] at hwrong
        cases hwrong
  | stalled hf hlate => exact absurd (htime _ rfl hf) (Nat.not_le.mpr hlate)

end

def asksHolder : Swarm :=
  ({ loop := {} } : Swarm).next knowsThree holdsThree 0 (.granted waits 3)

theorem fetch_never_stuck_three :
    asksHolder.loop.fetch.isSome = true ∧ asksHolder.loop.peer = none ∧
      (asksHolder.requests ≠ [] ∨ asksHolder.replies ≠ []) := by
  have hserves : holdsThree.assets.bind (fun store => store.find nameOfThree.address) =
      some threeBytes := by decide +kernel
  have hgrant : Fair True holdsThree nameOfThree threeBytes { loop := {} } 0
      (.granted waits 3) :=
    ⟨⟨rfl, rfl⟩, .of_calm trivial rfl, fun _ =>
      ⟨fun _ _ hback => hback.elim, fun _ _ _ _ hbrings => by cases hbrings⟩⟩
  have hsome : asksHolder.loop.fetch.isSome = true := by decide +kernel
  have hpeer : asksHolder.loop.peer = none := by decide +kernel
  obtain ⟨f, hf⟩ := Option.isSome_iff_exists.mp hsome
  have hnever := fetch_never_stuck knowsThree holdsThree nameOfThree threeBytes
    ⟨by decide, by decide⟩ hserves {} rfl rfl asksHolder
    (Reach.single (l := (0, .granted waits 3)) hgrant rfl)
  exact ⟨hsome, hpeer, hnever.1 f hf hpeer⟩

-- Zeros for 129 chunks, and their name.
def zeros : List UInt8 := List.replicate 2113536 0

def nameOfZeros : Hash32 :=
  ⟨5644577749733865624, 12387489051852654041, 1232998106211839609, 13087476016143778140⟩

def knowsZeros : Config where
  sizeT := TaskLoop.shortConfig.sizeT
  wide := TaskLoop.shortConfig.wide
  blake3Hex := fun bytes => if bytes = zeros then nameOfZeros.address else []
  loadBvh := fun _ => false

def holdsZeros : Coordinator.Config Rat where
  kernels := Coordinator.manifest
  assets := some ⟨(∅ : Table _ _).emplace nameOfZeros.address zeros⟩
  blake3 := fun _ => 0

def waitsForZeros : PendingTask := { id := ⟨0, 9⟩, asset := nameOfZeros.address }

theorem zeros_length : zeros.length = 2113536 := List.length_replicate

theorem zeros_fetchable : Fetchable zeros := by
  constructor
  · rw [zeros_length]
    decide
  · rw [zeros_length]
    decide

theorem zeros_total : chunkTotal zeros = 129 := by
  rw [chunkTotal, zeros_length]
  rfl

theorem zeros_served : Serves holdsZeros nameOfZeros zeros := by
  have haddress : Coordinator.AssetStore.isWellFormedAddress nameOfZeros.address = true := by
    decide +kernel
  show Coordinator.AssetStore.find _ _ = some zeros
  rw [Coordinator.AssetStore.find, if_pos haddress, Table.lookup_emplace _ _ _ _ rfl, if_pos rfl]

def startsZeros : Swarm :=
  ({ loop := knowsPeer } : Swarm).next knowsZeros holdsZeros 0 (.granted waitsForZeros 2113536)

theorem startsZeros_holding : startsZeros.loop.Holding nameOfZeros zeros
    (freshFetch 0 waitsForZeros 2113536) where
  fetch := rfl
  kept := .fresh
  address := rfl
  expected := zeros_length.symm
  parked t ht := by
    have ht' : t ∈ [waitsForZeros] := ht
    rw [List.mem_singleton.mp ht']
    rfl

theorem zeros_fallen :
    ∃ (s : Swarm) (f : AssetFetch), Reach (Step knowsZeros holdsZeros)
        (fun s e => Proper nameOfZeros zeros s e.1 e.2) { loop := knowsPeer } s ∧
      Fallen nameOfZeros zeros s f ∧ f.missing = (Finset.range 129).erase 100 ∧
      f.received.toNat = 1 ∧ s.requests = [⟨some nameOfZeros, 0, kAssetChunkRequestBatch⟩] ∧
      s.replies = [] := by
  have hblob := zeros_fetchable
  have htotal := zeros_total
  have hpeer₀ : startsZeros.loop.peer.isSome = true := rfl
  -- A peer sends the chunk 100.
  have hstart : (freshFetch 0 waitsForZeros 2113536).missing = Finset.range (chunkTotal zeros) :=
    freshFetch_missing zeros_length.symm
  rw [htotal] at hstart
  obtain ⟨s₁, f₁, hstep₁, hright, hreqs₁, hreps₁⟩ := hears_right startsZeros_holding hblob
    knowsZeros holdsZeros 1 (i := 100) (by rw [htotal]; decide) (by
      rw [hstart]
      exact ⟨0, Finset.mem_erase.mpr ⟨by decide, Finset.mem_range.mpr (by omega)⟩⟩)
  have hmissing₁ := hright.missing
  have hreceived₁ := hright.received
  rw [hstart] at hmissing₁ hreceived₁
  rw [if_pos (Finset.mem_range.mpr (by omega))] at hreceived₁
  have hloop₁ := hright.quiet (by
    rintro ⟨-, hzero⟩
    cases hzero)
  have hnothing : s₁.loop.asked = [] := by
    rw [hloop₁]
    rfl
  rw [hnothing] at hreqs₁
  -- It has no more.
  have hpeer₁ : s₁.loop.peer.isSome = true := hright.peer ▸ hpeer₀
  have hback₁ : s₁.loop.FallsBack := by
    rw [hloop₁]
    right
    exact Nat.le_refl 1
  obtain ⟨s₂, hstep₂, hfallen₂, hreqs₂, hreps₂⟩ := falls_back hright.holding hpeer₁ hback₁
    knowsZeros holdsZeros 2
  have hgrant : Proper nameOfZeros zeros { loop := knowsPeer } 0
      (.granted waitsForZeros 2113536 : SwarmEvent Rat) :=
    ⟨⟨rfl, zeros_length.symm⟩, .of_calm trivial rfl, fun _ _ he => by cases he⟩
  have hchunk : Proper nameOfZeros zeros startsZeros 1
      (.peer none (.assetChunk (chunkOf nameOfZeros zeros 100)) : SwarmEvent Rat) :=
    .of_right startsZeros_holding hblob hpeer₀ (by rw [htotal]; decide)
  have hmiss : Proper nameOfZeros zeros s₁ 2 (.peer none (.assetMiss none) : SwarmEvent Rat) :=
    .of_miss hpeer₁
  have hstart₀ : Step knowsZeros holdsZeros { loop := knowsPeer }
      (0, .granted waitsForZeros 2113536) startsZeros := rfl
  refine ⟨s₂, { f₁ with lastProgress := 2 }, ?_, hfallen₂, ?_, hreceived₁, ?_, ?_⟩
  · exact .head hgrant hstart₀ (.head hchunk hstep₁ (.head hmiss hstep₂ (.refl _)))
  · exact (AssetFetch.SameHeld.progressed f₁ 2).missing.trans hmissing₁
  · rw [hreqs₂, hreqs₁]
    rfl
  · rw [hreps₂, hreps₁]
    rfl

theorem zeros_asked_again :
    ∃ (s : Swarm) (f : AssetFetch), Reach (Step knowsZeros holdsZeros)
        (fun s e => Proper nameOfZeros zeros s e.1 e.2) { loop := knowsPeer } s ∧
      Fallen nameOfZeros zeros s f ∧ (∀ i, i ∈ f.missing ↔ 63 ≤ i ∧ i < 129 ∧ i ≠ 100) ∧
      f.received.toNat = 64 ∧ s.requests = [⟨some nameOfZeros, 63, 127⟩] ∧
      s.replies = [63].map (chunkReply nameOfZeros zeros) := by
  have hblob := zeros_fetchable
  have htotal := zeros_total
  obtain ⟨s₂, f₂, hrun₂, hfallen₂, hmissing₂, hreceived₂, hone, hempty⟩ := zeros_fallen
  -- The coordinator answers with the first 64, and 62 of them come in.
  obtain ⟨s₃, hstep₃, hfallen₃, hreqs₃, hreps₃⟩ := hfallen₂.answers_next hblob zeros_served
    knowsZeros 3 hone (askable_first hblob)
  have hfirst : answerOf zeros ⟨some nameOfZeros, 0, kAssetChunkRequestBatch⟩ =
      List.range 62 ++ [62, 63] := by
    rw [answerOf, htotal]
    decide
  rw [hempty, hfirst, List.map_append, List.nil_append] at hreps₃
  have hin : ((Finset.range 129).erase 100).filter (· ∈ List.range 62) = Finset.range 62 := by
    ext i
    simp only [Finset.mem_filter, Finset.mem_erase, Finset.mem_range, List.mem_range]
    omega
  have hlow : ∀ i ∈ List.range 62, i < chunkTotal zeros := by
    intro i hi
    rw [List.mem_range] at hi
    omega
  obtain ⟨s₄, f₄, hrun₄, hfallen₄, hmissing₄, hreceived₄, hreps₄, hreqs₄⟩ :=
    hfallen₃.drains hblob knowsZeros holdsZeros 4 hlow hreps₃
      (by rw [hmissing₂, hin, hreceived₂, Finset.card_range]; decide)
      (by
        rw [hmissing₂]
        exact ⟨62, by simp⟩)
  rw [hmissing₂, hin, hreceived₂, Finset.card_range] at hreceived₄
  have hmem₄ : ∀ i, i ∈ f₄.missing ↔ 62 ≤ i ∧ i < 129 ∧ i ≠ 100 := by
    intro i
    rw [hmissing₄, hmissing₂]
    simp only [Finset.mem_filter, Finset.mem_erase, Finset.mem_range, List.mem_range]
    omega
  -- With the next one 64 are there, and the worker asks again, for one too few.
  have hmem₅ : ∀ i, i ∈ f₄.missing.erase 62 ↔ 63 ≤ i ∧ i < 129 ∧ i ≠ 100 := by
    intro i
    rw [Finset.mem_erase, hmem₄]
    omega
  obtain ⟨s₅, f₅, hstep₅, hfallen₅, hright₅, hreps₅, hreqs₅⟩ := hfallen₄.delivers hblob
    knowsZeros holdsZeros 5 (i := 62) (by omega) ⟨63, (hmem₅ 63).mpr (by omega)⟩ hreps₄
  have hin₄ : 62 ∈ f₄.missing := (hmem₄ 62).mpr (by omega)
  have hreceived₅ := hright₅.received
  rw [if_pos hin₄, hreceived₄] at hreceived₅
  obtain ⟨m, hm, hleast, hasked⟩ := hright₅.asks hin₄ (by rw [hreceived₄])
  have hm63 : m = 63 := by
    have hlo := ((hmem₅ m).mp hm).1
    have hhi := hleast 63 ((hmem₅ 63).mpr (by omega))
    omega
  subst hm63
  have hagain : s₅.requests = [TaskLoop.nextRequest nameOfZeros zeros 63] := by
    rw [hreqs₅, hreqs₄, hreqs₃, hasked]
    rfl
  have hnext : TaskLoop.nextRequest nameOfZeros zeros 63 = ⟨some nameOfZeros, 63, 127⟩ := by
    rw [TaskLoop.nextRequest, htotal]
    rfl
  have hanswer : Proper nameOfZeros zeros s₂ 3 (.answer { connId := 0 } {} : SwarmEvent Rat) :=
    hfallen₂.proper trivial trivial
  have hdeliver : Proper nameOfZeros zeros s₄ 5 (.deliver : SwarmEvent Rat) :=
    hfallen₄.proper trivial trivial
  refine ⟨s₅, f₅, ?_, hfallen₅, ?_, hreceived₅, hagain.trans (by rw [hnext]), hreps₅⟩
  · exact hrun₂.trans (.head hanswer hstep₃ (hrun₄.trans (.head hdeliver hstep₅ (.refl _))))
  · rw [hright₅.missing]
    exact hmem₅

-- The chunk 100 comes from a peer, and then it has no more. The coordinator sends the
-- first 64. With the 63rd of them 64 are there, and the next 64 are asked for, but one
-- of these is on its way and one is there. So the count gets to 127, and two are missing.
theorem fetch_stuck :
    ∃ (s : Swarm) (f : AssetFetch), Serves holdsZeros nameOfZeros zeros ∧
      Reach (Step knowsZeros holdsZeros) (fun s e => Proper nameOfZeros zeros s e.1 e.2)
        { loop := knowsPeer } s ∧
      s.loop.fetch = some f ∧ f.missing.Nonempty ∧ s.loop.peer = none ∧ s.requests = [] ∧
      s.replies = [] := by
  have hblob := zeros_fetchable
  have htotal := zeros_total
  obtain ⟨s₅, f₅, hrun₅, hfallen₅, hmem₅, hreceived₅, hagain, hlast⟩ := zeros_asked_again
  have hask : Askable nameOfZeros zeros ⟨some nameOfZeros, 63, 127⟩ :=
    ⟨rfl, by show 63 < 127; decide, by rw [htotal]; show 63 < 129; decide⟩
  have hout : ∀ i, s₅.Outstanding zeros i → 63 ≤ i ∧ i < 127 := by
    rintro i (⟨req, hreq, hi⟩ | hcarried)
    · rw [hagain] at hreq
      rw [List.mem_singleton.mp hreq] at hi
      exact ⟨hi.1, hi.2.1⟩
    · rw [hlast, carries_chunkReply hblob (by simp [htotal])] at hcarried
      rw [List.mem_singleton.mp hcarried]
      decide
  have hstarved : ¬ Fed f₅.missing f₅.received.toNat (s₅.Outstanding zeros) := by
    rw [hreceived₅]
    rintro (hall | hmany)
    · have hasked127 := hout 127 (hall 127 ((hmem₅ 127).mpr (by omega)))
      omega
    · have hsub : f₅.missing.filter (s₅.Outstanding zeros) ⊆ (Finset.Ico 63 127).erase 100 := by
        intro i hi
        obtain ⟨hmem, ho⟩ := Finset.mem_filter.mp hi
        have hne := ((hmem₅ i).mp hmem).2.2
        exact Finset.mem_erase.mpr ⟨hne, Finset.mem_Ico.mpr (hout i ho)⟩
      have hcard := Finset.card_le_card hsub
      rw [Finset.card_erase_of_mem (Finset.mem_Ico.mpr (by omega)), Nat.card_Ico] at hcard
      omega
  obtain ⟨s, f, hrun, hfallen, hmore, hreqs, hreps⟩ := hfallen₅.starves hblob zeros_served
    knowsZeros 6 (by
      rw [hagain]
      intro req hreq
      rw [List.mem_singleton.mp hreq]
      exact hask) (by simp [htotal]) hlast hstarved
  exact ⟨s, f, zeros_served, hrun₅.trans hrun, hfallen.holding.fetch, hmore, hfallen.peer, hreqs,
    hreps⟩

end Swarm

end P2pGpu.Worker
