import P2pGpu.Worker.Fetch.Outcome

namespace P2pGpu.Worker

open P2pGpu.Protocol
open P2pGpu.Coordinator (AssetRequest Double Hash32 Reply Session Shared kChunkBytes)

namespace Swarm

section

variable {F : Type} [Double F] {honest : Prop} {cfg : Config} {ccfg : Coordinator.Config F}
  {hash : Hash32} {blob : List UInt8} {s s' : Swarm} {now : Nat}

-- The index of the chunk that a step brings, if it brings one.
def bringsChunk (s : Swarm) : SwarmEvent F → Option Nat
  | .peer _ (.assetChunk c) => some c.index.toNat
  | .deliver =>
      match s.replies with
      | .assetChunk _ index _ _ :: _ => some index.toNat
      | _ => none
  | _ => none

def missArrives (s : Swarm) : Bool :=
  match s.replies with
  | .assetMiss _ :: _ => true
  | _ => false

-- A step that gives up the last peer for the coordinator.
def FallingBack (s : Swarm) (now : Nat) : SwarmEvent F → Prop
  | .peer _ (.assetMiss _) => s.loop.peer.isSome = true ∧ s.loop.FallsBack
  | .deliver => s.missArrives = true ∧ s.loop.peer.isSome = true ∧ s.loop.FallsBack
  | .poll => s.loop.peer.isSome = true ∧ s.loop.peerDeadline < now ∧ s.loop.FallsBack
  | _ => False

-- Where the worker falls back, and where it asks again for what is missing, it asks
-- for enough.
structure Feeds (blob : List UInt8) (s : Swarm) (now : Nat) (e : SwarmEvent F) : Prop where
  first : ∀ f, s.loop.fetch = some f → s.FallingBack now e →
    Fed f.missing f.received.toNat fun i => s.Outstanding blob i ∨ i < 64
  again : ∀ f i, s.loop.fetch = some f → s.loop.peer = none → s.bringsChunk e = some i →
    i ∈ f.missing → (f.received.toNat + 1) % 64 = 0 →
      ∀ m ∈ f.missing.erase i, (∀ j ∈ f.missing.erase i, m ≤ j) →
        Fed (f.missing.erase i) (f.received.toNat + 1)
          fun j => s.Outstanding blob j ∨ (m ≤ j ∧ j < m + 64)

-- What a peer may do without harm: chunks that fit, and right ones where there is no
-- peer to blame; a miss while there is a peer; and silence no longer than a peer has.
-- Honest peers send right ones always.
structure Decent (honest : Prop) (blob : List UInt8) (s : Swarm) (now : Nat)
    (e : SwarmEvent F) : Prop where
  fits : ∀ servingCurrent c f bytes, e = .peer servingCurrent (.assetChunk c) →
    s.loop.fetch = some f → c.bytes = some bytes → f.Fits c bytes
  right : ∀ servingCurrent c f bytes, e = .peer servingCurrent (.assetChunk c) →
    s.loop.fetch = some f → c.bytes = some bytes → s.loop.peer = none ∨ honest →
      c.index.toNat ∈ f.missing → bytes = Chunks.piece kChunkBytes blob c.index.toNat
  miss : ∀ servingCurrent h, e = .peer servingCurrent (.assetMiss h) → s.loop.fetch ≠ none →
    s.loop.peer.isSome = true
  untainted : ∀ f, s.loop.fetch = some f → s.FallingBack now e → honest ∨ f.Untainted blob
  prompt : ∀ f, e = .poll → s.loop.fetch = some f → s.loop.peer.isSome = true →
    now - f.lastProgress ≤ kAssetStallTimeout ∨ s.FallingBack now e

-- A grant that the coordinator means names the blob and tells its length.
def Means (hash : Hash32) (blob : List UInt8) : SwarmEvent F → Prop
  | .granted task inputBytes => task.asset = hash.address ∧ inputBytes.toNat = blob.length
  | _ => True

-- What the coordinator has to answer for: it has not got the asset, its asset came in
-- and does not pass, or nothing came for as long as may be while it still owed an answer.
inductive Cause (cfg : Config) (hash : Hash32) (blob : List UInt8) (s : Swarm) (now : Nat) :
    SwarmEvent F → Prop where
  | missed (h : s.missArrives = true) : Cause cfg hash blob s now .deliver
  | unsound {e : SwarmEvent F} {f : AssetFetch} {i : Nat} (hf : s.loop.fetch = some f)
      (hpeer : s.loop.peer = none) (hlast : s.bringsChunk e = some i) (honly : f.missing = {i})
      (hbad : cfg.blake3Hex blob ≠ hash.address ∨ cfg.loadBvh blob = false) :
      Cause cfg hash blob s now e
  | stalled {f : AssetFetch} (hf : s.loop.fetch = some f)
      (h : kAssetStallTimeout < now - f.lastProgress) (hpeer : s.loop.peer = none)
      (howed : s.requests ≠ [] ∨ s.replies ≠ []) : Cause cfg hash blob s now .poll

-- The coordinator answers the first request, whatever it was at.
theorem Sound.answered (h : Sound honest ccfg hash blob s) (hblob : Fetchable blob)
    (hcoord : Serves ccfg hash blob ∨ Lacks ccfg hash) {req : AssetRequest}
    {rest : List AssetRequest} (hreqs : s.requests = req :: rest) (session : Session)
    (w : Shared F) : Sound honest ccfg hash blob { s with
      requests := rest
      replies := s.replies ++ (session.onAssetRequest ccfg w req).reaction.replies } := by
  have hreq : Askable hash blob req := h.requests req (hreqs ▸ List.mem_cons_self)
  refine ⟨h.idle, h.parked, fun f hf => ?_, fun r hr => ?_, fun r hr => ?_⟩
  · have hgoing := h.going f hf
    refine ⟨hgoing.kept, hgoing.address, hgoing.expected, hgoing.lacking, hgoing.right,
      fun hnone hserves => (hgoing.fed hnone hserves).mono fun i _ ho => ?_, fun hnone hlacks => ?_⟩
    · rcases ho with ⟨req', hreq', hi⟩ | ⟨r, hr, hi⟩
      · rw [hreqs] at hreq'
        rcases List.mem_cons.mp hreq' with rfl | hrest
        · -- What was asked for is on its way now.
          refine .inr ⟨chunkReply hash blob i, List.mem_append_right _ ?_, ?_⟩
          · exact (mem_replies hblob hserves hreq session w _).mpr ⟨i, hi, rfl⟩
          · have hsmall := hblob.total_le
            have hlt := hi.2.2.1
            show (UInt32.ofNat i).toNat = i
            rw [UInt32.toNat_ofNat']
            apply Nat.mod_eq_of_lt
            omega
        · exact .inl ⟨req', hrest, hi⟩
      · exact .inr ⟨r, List.mem_append_left _ hr, hi⟩
    · right
      show s.replies ++ _ ≠ []
      rw [replies_of_lacks hlacks hreq.hash]
      simp
  · exact h.requests r (hreqs ▸ List.mem_cons_of_mem _ hr)
  · rcases List.mem_append.mp hr with hold | hnew
    · exact h.replies r hold
    · rcases hcoord with hserves | hlacks
      · obtain ⟨i, hi, rfl⟩ := (mem_replies hblob hserves hreq session w r).mp hnew
        exact .inl ⟨hserves, i, hi.2.2.1, rfl⟩
      · rw [replies_of_lacks hlacks hreq.hash] at hnew
        exact .inr ⟨hlacks, List.mem_singleton.mp hnew⟩

-- The message of a peer.
theorem Sound.hears (h : Sound honest ccfg hash blob s) (hblob : Fetchable blob)
    {servingCurrent : Option WorkerId} {m : AssetMsg}
    (hd : Decent honest blob s now (.peer servingCurrent m : SwarmEvent F))
    (hfeeds : Serves ccfg hash blob → Feeds blob s now (.peer servingCurrent m : SwarmEvent F)) :
    Comes honest ccfg hash blob s (s.after (s.loop.cleared.onPeerBytes cfg now servingCurrent m))
      (Cause cfg hash blob s now (.peer servingCurrent m : SwarmEvent F)) := by
  cases m with
  | assetRequest req => exact h.rests (TaskLoop.servePeerAssetRequest_tells ..).quiet
  | assetChunk c =>
      cases hf : s.loop.fetch with
      | none =>
          have hsame : s.loop.cleared.handleAssetChunk cfg now c = s.loop.cleared :=
            handleAssetChunk_none hf c
          show Comes honest ccfg hash blob s (s.after (s.loop.cleared.handleAssetChunk cfg now c)) _
          rw [hsame]
          exact h.rests (.refl _)
      | some f =>
          have hgoing := h.going f hf
          obtain ⟨hlen, hhash⟩ := hashOfHex_address hash
          rw [← hgoing.address] at hlen hhash
          have htakes := TaskLoop.handleAssetChunk_takes (l := s.loop.cleared) cfg now c hf
            hgoing.kept (fun t ht => (h.parked f hf t ht).trans hgoing.address.symm) hlen hhash
          have hcomes := h.takes hblob (.refl s) hf htakes
            (fun bytes hbytes => hd.fits servingCurrent c f bytes rfl hf hbytes)
            (fun bytes hbytes => hd.right servingCurrent c f bytes rfl hf hbytes)
            (fun _ _ _ ho => ho)
            (fun hpeer hserves => (hfeeds hserves).again f _ hf hpeer rfl)
            hgoing.awaited
          refine ⟨hcomes.1, fun hgives => ?_⟩
          obtain ⟨hpeer, honly, hbad⟩ := hcomes.2 hgives
          exact .unsound hf hpeer rfl honly hbad
  | assetMiss missed =>
      cases hf : s.loop.fetch with
      | none => exact h.misses_none (.refl s) hf
      | some f =>
          have hpeer := hd.miss servingCurrent missed rfl (by rw [hf]; simp)
          have hpeer' : s.loop.cleared.peer.isSome = true := hpeer
          have hturn : s.loop.cleared.handleAssetMiss now =
              { s.loop.cleared with peer := none }.tryNextPeerOrFallBack now := by
            rw [TaskLoop.handleAssetMiss, if_pos hpeer']
          show Comes honest ccfg hash blob s (s.after (s.loop.cleared.handleAssetMiss now)) _
          rw [hturn]
          exact h.turns hblob (.refl s) hf (fun hback => hd.untainted f hf ⟨hpeer, hback⟩)
            fun hback hserves => (hfeeds hserves).first f hf ⟨hpeer, hback⟩

-- An answer of the coordinator.
theorem Sound.receives (h : Sound honest ccfg hash blob s) (hblob : Fetchable blob)
    (hd : Decent honest blob s now (.deliver : SwarmEvent F))
    (hfeeds : Serves ccfg hash blob → Feeds blob s now (.deliver : SwarmEvent F)) {r : Reply}
    {rest : List Reply} (hreplies : s.replies = r :: rest) :
    Comes honest ccfg hash blob s ({ s with replies := rest }.after (s.loop.cleared.onReply cfg now r))
      (Cause cfg hash blob s now (.deliver : SwarmEvent F)) := by
  have hc : Consumes s { s with replies := rest } :=
    ⟨rfl, fun r hr => hreplies ▸ List.mem_cons_of_mem _ hr⟩
  rcases h.replies r (hreplies ▸ List.mem_cons_self) with ⟨hserves, i, hi, rfl⟩ | ⟨hlacks, rfl⟩
  · have hof := hblob.toNat_ofNat hi.le
    have hbrings : s.bringsChunk (.deliver : SwarmEvent F) = some i := by
      unfold bringsChunk
      rw [hreplies]
      show some (UInt32.ofNat i).toNat = some i
      rw [hof]
    show Comes honest ccfg hash blob s
      ({ s with replies := rest }.after (s.loop.cleared.handleAssetChunk cfg now
        (chunkOf hash blob i))) _
    cases hf : s.loop.fetch with
    | none =>
        rw [handleAssetChunk_none hf]
        exact h.idles hc hf hf (.refl _) rfl
    | some f =>
        have hgoing := h.going f hf
        obtain ⟨hlen, hhash⟩ := hashOfHex_address hash
        rw [← hgoing.address] at hlen hhash
        have htakes := TaskLoop.handleAssetChunk_takes (l := s.loop.cleared) cfg now
          (chunkOf hash blob i) hf hgoing.kept
          (fun t ht => (h.parked f hf t ht).trans hgoing.address.symm) hlen hhash
        have hcomes := h.takes hblob hc hf htakes ?_ ?_ ?_ ?_ ?_
        · refine ⟨hcomes.1, fun hgives => ?_⟩
          obtain ⟨hpeer, honly, hbad⟩ := hcomes.2 hgives
          exact .unsound hf hpeer hbrings (hof ▸ honly) hbad
        · exact fun bytes hbytes => hblob.chunkOf_fits hgoing.expected hi hbytes
        · intro bytes hbytes _ _
          cases hbytes
          show _ = Chunks.piece kChunkBytes blob (UInt32.ofNat i).toNat
          rw [hof]
        · rintro j - (hnone | hne) ho
          · cases hnone
          · rcases ho with hreq | ⟨r, hr, hj⟩
            · exact .inl hreq
            · rw [hreplies] at hr
              rcases List.mem_cons.mp hr with rfl | hrest
              · exact absurd hj.symm hne
              · exact .inr ⟨r, hrest, hj⟩
        · intro hpeer _
          have hsame : (chunkOf hash blob i).index.toNat = i := hof
          rw [hsame]
          exact (hfeeds hserves).again f i hf hpeer hbrings
        · exact fun _ hlacks => absurd hlacks (not_lacks hserves)
  · have hmiss : s.missArrives = true := by
      unfold missArrives
      rw [hreplies]
    show Comes honest ccfg hash blob s
      ({ s with replies := rest }.after (s.loop.cleared.handleAssetMiss now)) _
    cases hf : s.loop.fetch with
    | none => exact h.misses_none hc hf
    | some f =>
        cases hpeer : s.loop.cleared.peer with
        | none =>
            rw [TaskLoop.handleAssetMiss, if_neg (by rw [hpeer]; simp)]
            exact h.abandons hc (TaskLoop.abandonAssetFetch_abandoned _) (.missed hmiss)
        | some link =>
            have hsome : s.loop.peer.isSome = true := by
              have hpeer' : s.loop.peer = some link := hpeer
              rw [hpeer']
              rfl
            rw [TaskLoop.handleAssetMiss, if_pos (by rw [hpeer]; rfl)]
            exact h.turns hblob hc hf
              (fun hback => hd.untainted f hf ⟨hmiss, hsome, hback⟩)
              fun _ hserves => absurd hlacks (not_lacks hserves)

theorem Sound.polls (h : Sound honest ccfg hash blob s) (hblob : Fetchable blob)
    (hcoord : Serves ccfg hash blob ∨ Lacks ccfg hash)
    (hd : Decent honest blob s now (.poll : SwarmEvent F))
    (hfeeds : Serves ccfg hash blob → Feeds blob s now (.poll : SwarmEvent F)) :
    Comes honest ccfg hash blob s (s.after (s.loop.cleared.pollFetch now))
      (Cause cfg hash blob s now (.poll : SwarmEvent F)) := by
  cases hf : s.loop.fetch with
  | none =>
      have hsame : s.loop.cleared.pollFetch now = s.loop.cleared := by
        have hf' : s.loop.cleared.fetch = none := hf
        unfold TaskLoop.pollFetch
        simp [hf']
      rw [hsame]
      exact h.rests (.refl _)
  | some f =>
      have hf' : s.loop.cleared.fetch = some f := hf
      by_cases hturn : s.loop.peer.isSome = true ∧ s.loop.peerDeadline < now
      · have hgoing := h.going f hf
        obtain ⟨hlen, hhash⟩ := hashOfHex_address hash
        rw [← hgoing.address] at hlen hhash
        have hcases := TaskLoop.tryNextPeerOrFallBack_cases
          (l := { s.loop.cleared with peer := none }) now hf hlen hhash
        -- The clock of the fetch has not run out after it.
        have hin : ∀ g, ({ s.loop.cleared with peer := none }.tryNextPeerOrFallBack now).fetch =
            some g → ¬ kAssetStallTimeout < now - g.lastProgress := by
          intro g hg
          rcases hcases with ⟨-, hfell⟩ | ⟨hnot, htries⟩
          · rw [hfell.fetch] at hg
            cases hg
            show ¬ kAssetStallTimeout < now - now
            rw [Nat.sub_self]
            exact Nat.not_lt_zero _
          · rw [htries.fetch] at hg
            cases hg
            rcases hd.prompt f rfl hf hturn.1 with hle | hback
            · exact Nat.not_lt.mpr hle
            · exact absurd hback.2.2 hnot
        have hsame : s.loop.cleared.pollFetch now =
            { s.loop.cleared with peer := none }.tryNextPeerOrFallBack now := by
          have hcond : s.loop.cleared.fetch.isSome = true ∧ s.loop.cleared.peer.isSome = true ∧
              s.loop.cleared.peerDeadline < now := ⟨by rw [hf']; rfl, hturn⟩
          unfold TaskLoop.pollFetch
          simp only [if_pos hcond]
          cases hg : ({ s.loop.cleared with peer := none }.tryNextPeerOrFallBack now).fetch with
          | none => rfl
          | some g =>
              dsimp only
              rw [if_neg (hin g hg)]
        rw [hsame]
        exact h.turns hblob (.refl s) hf
          (fun hback => hd.untainted f hf ⟨hturn.1, hturn.2, hback⟩)
          fun hback hserves => (hfeeds hserves).first f hf ⟨hturn.1, hturn.2, hback⟩
      · have hsame : s.loop.cleared.pollFetch now =
            if kAssetStallTimeout < now - f.lastProgress then s.loop.cleared.abandonAssetFetch
            else s.loop.cleared := by
          have hcond : ¬ (s.loop.cleared.fetch.isSome = true ∧
              s.loop.cleared.peer.isSome = true ∧ s.loop.cleared.peerDeadline < now) :=
            fun hall => hturn hall.2
          unfold TaskLoop.pollFetch
          simp only [if_neg hcond]
          rw [hf']
        rw [hsame]
        by_cases hstall : kAssetStallTimeout < now - f.lastProgress
        · rw [if_pos hstall]
          have hnone : s.loop.peer = none := by
            by_contra hpeer
            rcases hd.prompt f rfl hf (Option.isSome_iff_ne_none.mpr hpeer) with hle | hback
            · exact absurd hstall (Nat.not_lt.mpr hle)
            · exact hturn ⟨hback.1, hback.2.1⟩
          exact h.abandons (.refl s) (TaskLoop.abandonAssetFetch_abandoned _)
            (.stalled hf hstall hnone (h.owed hcoord hf hnone))
        · rw [if_neg hstall]
          exact h.rests (.refl _)

-- What is asked of a step: a grant means the blob, the peers are decent, and where the
-- coordinator serves the blob, enough of it is asked for.
structure Fair (honest : Prop) (ccfg : Coordinator.Config F) (hash : Hash32)
    (blob : List UInt8) (s : Swarm) (now : Nat) (e : SwarmEvent F) : Prop where
  means : Means hash blob e
  decent : Decent honest blob s now e
  feeds : Serves ccfg hash blob → Feeds blob s now e

theorem Sound.step (h : Sound honest ccfg hash blob s) (hblob : Fetchable blob)
    (hcoord : Serves ccfg hash blob ∨ Lacks ccfg hash) {e : SwarmEvent F}
    (hfair : Fair honest ccfg hash blob s now e) (hstep : Step cfg ccfg s (now, e) s') :
    Comes honest ccfg hash blob s s' (Cause cfg hash blob s now e) := by
  have hd := hfair.decent
  have hfeeds := hfair.feeds
  rw [hstep]
  cases e with
  | peer servingCurrent m => exact h.hears hblob hd hfeeds
  | answer session w =>
      cases hreqs : s.requests with
      | nil =>
          simp only [next, hreqs]
          exact h.rests (.refl _)
      | cons req rest =>
          simp only [next, hreqs]
          exact (h.answered hblob hcoord hreqs session w).rests (.refl _)
  | deliver =>
      cases hreplies : s.replies with
      | nil =>
          simp only [next, hreplies]
          exact h.rests (.refl _)
      | cons r rest =>
          simp only [next, hreplies]
          exact h.receives hblob hd hfeeds hreplies
  | poll => exact h.polls hblob hcoord hd hfeeds
  | opened isOpen => exact h.rests (TaskLoop.onOpen_quiet ..)
  | granted task inputBytes => exact h.grants hblob hfair.means.1 hfair.means.2
  | peerList peers => exact h.rests ⟨rfl, id, ⟨rfl, rfl⟩, rfl⟩

theorem Sound.run {l : TaskLoop} (hblob : Fetchable blob)
    (hcoord : Serves ccfg hash blob ∨ Lacks ccfg hash) (hidle : l.fetch = none)
    (hnone : l.waitingOnAsset = [])
    (hrun : Reach (Step cfg ccfg) (fun s e => Fair honest ccfg hash blob s e.1 e.2) { loop := l } s) :
    Sound honest ccfg hash blob s :=
  hrun.invariant (Sound honest ccfg hash blob) (idle_start hidle hnone)
    fun _ _ _ hs hfair hstep => (hs.step hblob hcoord hfair hstep).1

-- What comes from neither a peer nor the clock.
def Calm : SwarmEvent F → Prop
  | .peer .. | .poll => False
  | _ => True

theorem Decent.of_calm {e : SwarmEvent F} (he : Calm e) (hpeer : s.loop.peer = none) :
    Decent honest blob s now e where
  fits servingCurrent c _ _ hpeer := by
    subst hpeer
    exact he.elim
  right servingCurrent c _ _ hpeer := by
    subst hpeer
    exact he.elim
  miss servingCurrent h hpeer := by
    subst hpeer
    exact he.elim
  untainted f _ hback := by
    cases e with
    | deliver =>
        have hsome := hback.2.1
        rw [hpeer] at hsome
        cases hsome
    | peer => exact he.elim
    | poll => exact he.elim
    | answer | opened | granted | peerList => exact hback.elim
  prompt f hpoll := by
    subst hpoll
    exact he.elim

-- A fetch is given up, and a task given back, for what the coordinator did only.
theorem given_up_by_coordinator (cfg : Config) (ccfg : Coordinator.Config F) (hash : Hash32)
    (blob : List UInt8) (hblob : Fetchable blob)
    (hcoord : Serves ccfg hash blob ∨ Lacks ccfg hash) (l : TaskLoop) (hidle : l.fetch = none)
    (hnone : l.waitingOnAsset = []) (s s' : Swarm) (now : Nat) (e : SwarmEvent F)
    (hrun : Reach (Step cfg ccfg) (fun s e => Fair False ccfg hash blob s e.1 e.2)
      { loop := l } s)
    (hfair : Fair False ccfg hash blob s now e) (hstep : Step cfg ccfg s (now, e) s')
    (hgives : s.GivesUp s') : Cause cfg hash blob s now e :=
  ((Sound.run hblob hcoord hidle hnone hrun).step hblob hcoord hfair hstep).2 hgives

end

-- Three bytes, and their name.
def threeBytes : List UInt8 := [1, 2, 3]

def nameOfThree : Hash32 :=
  ⟨4322169154010118065, 1389313096317931632, 1073763923141237682, 4856368992143014603⟩

def knowsThree : Config where
  sizeT := TaskLoop.shortConfig.sizeT
  wide := TaskLoop.shortConfig.wide
  blake3Hex := fun bytes => if bytes = threeBytes then nameOfThree.address else []
  loadBvh := fun _ => false

def waits : PendingTask := { id := ⟨0, 9⟩, asset := nameOfThree.address }

-- The coordinator has not got the bytes.
def holdsNothing : Coordinator.Config Rat where
  kernels := Coordinator.manifest
  blake3 := fun _ => 0

def asksForThree : Swarm :=
  ({ loop := {} } : Swarm).next knowsThree holdsNothing 0 (.granted waits 3)

def hearsOfMiss : Swarm := asksForThree.next knowsThree holdsNothing 1 (.answer { connId := 0 } {})

theorem given_up_by_coordinator_miss :
    Cause knowsThree nameOfThree threeBytes hearsOfMiss 2 (.deliver : SwarmEvent Rat) := by
  have hlacks : Lacks holdsNothing nameOfThree := rfl
  have hfair : ∀ s now e, s.loop.peer = none → Calm e → Means nameOfThree threeBytes e →
      Fair False holdsNothing nameOfThree threeBytes s now e := fun s now e hpeer hcalm hmeans =>
    ⟨hmeans, .of_calm hcalm hpeer, fun hserves => absurd hlacks (not_lacks hserves)⟩
  have hrun : Reach (Step knowsThree holdsNothing)
      (fun s e => Fair False holdsNothing nameOfThree threeBytes s e.1 e.2) { loop := {} }
      hearsOfMiss := by
    have hgrant := hfair { loop := {} } 0 (.granted waits 3) rfl trivial ⟨rfl, rfl⟩
    have hanswer := hfair asksForThree 1 (.answer { connId := 0 } {}) rfl trivial trivial
    exact (Reach.single (l := (0, .granted waits 3)) hgrant rfl).tail
      (l := (1, .answer { connId := 0 } {})) hanswer rfl
  have hgives : hearsOfMiss.GivesUp
      (hearsOfMiss.next knowsThree holdsNothing 2 (.deliver : SwarmEvent Rat)) := by
    right
    decide +kernel
  exact given_up_by_coordinator knowsThree holdsNothing nameOfThree threeBytes
    ⟨by decide, by decide⟩ (.inr hlacks) {} rfl rfl hearsOfMiss _ 2 .deliver hrun
    (hfair hearsOfMiss 2 .deliver (by decide +kernel) trivial trivial) rfl hgives

-- The coordinator has them.
def holdsThree : Coordinator.Config Rat where
  kernels := Coordinator.manifest
  assets := some ⟨(∅ : Table _ _).emplace nameOfThree.address threeBytes⟩
  blake3 := fun _ => 0

def knowsPeer : TaskLoop := { peerCandidates := [⟨0, 7⟩] }

def asksPeer : Swarm :=
  ({ loop := knowsPeer } : Swarm).next knowsThree holdsThree 0 (.granted waits 3)

-- One chunk, of which there is no such in the asset.
def strayChunk : SwarmEvent Rat :=
  .peer none (.assetChunk ⟨some nameOfThree, 5, 6, some [0]⟩)

-- A peer's one chunk, and the task is given back. The coordinator was not asked.
theorem stray_chunk_gives_up :
    Serves holdsThree nameOfThree threeBytes ∧
      Reach (Step knowsThree holdsThree) (fun _ e => Means nameOfThree threeBytes e.2)
        { loop := knowsPeer } asksPeer ∧
      Step knowsThree holdsThree asksPeer (1, strayChunk)
        (asksPeer.next knowsThree holdsThree 1 strayChunk) ∧
      asksPeer.GivesUp (asksPeer.next knowsThree holdsThree 1 strayChunk) ∧
      (asksPeer.next knowsThree holdsThree 1 strayChunk).loop.released = [waits.id] ∧
      ¬ Cause knowsThree nameOfThree threeBytes asksPeer 1 strayChunk := by
  have hreleased : (asksPeer.next knowsThree holdsThree 1 strayChunk).loop.released =
      [waits.id] := by decide +kernel
  have hserves : holdsThree.assets.bind (fun store => store.find nameOfThree.address) =
      some threeBytes := by decide +kernel
  refine ⟨hserves, Reach.single (l := (0, .granted waits 3)) ⟨rfl, rfl⟩ rfl, rfl,
    .inr (by rw [hreleased]; simp), hreleased, ?_⟩
  intro hcause
  cases hcause with
  | unsound _ hpeer =>
      have hsome : asksPeer.loop.peer.isSome = true := by decide +kernel
      rw [hpeer] at hsome
      cases hsome

end Swarm

end P2pGpu.Worker
