import Mathlib.Algebra.BigOperators.Group.List.Basic
import Mathlib.Algebra.GroupWithZero.Nat
import Mathlib.Data.List.MinMax
import P2pGpu.Data.Table

namespace P2pGpu.Worker

structure Entry where
  bytes : List UInt8
  insertedAt : Nat
deriving DecidableEq

-- Sizes are those of vectors that are in memory together, so that no sum of them wraps.
structure AssetCache where
  maxBytes : Nat
  resident : Nat := 0
  rejected : UInt32 := 0
  tick : Nat := 0
  entries : Table String Entry := ∅

abbrev Slot : Type := Sigma fun _ : String => Entry

-- No two of the entries were inserted at one time, so that their order says nothing.
def oldest (l : List Slot) : Option Slot := l.argmin fun e => e.2.insertedAt

namespace AssetCache

def new (maxBytes : Nat) : AssetCache where
  maxBytes := maxBytes

def clear (c : AssetCache) : AssetCache := { c with entries := ∅, resident := 0 }

def evict (c : AssetCache) (e : Slot) : AssetCache :=
  { c with resident := c.resident - e.2.bytes.length, entries := c.entries.erase e.1 }

theorem length_evict_lt {c : AssetCache} {e : Slot} (h : oldest c.entries.entries = some e) :
    (c.evict e).entries.entries.length < c.entries.entries.length := by
  have hmem : e.1 ∈ c.entries.entries.keys := List.mem_keys_of_mem (List.argmin_mem h)
  obtain ⟨b, before, after, -, hall, hleft⟩ := List.exists_of_kerase hmem
  show (List.kerase e.1 c.entries.entries).length < _
  rw [hleft, hall, List.length_append, List.length_append]
  exact Nat.lt_succ_self _

def evictUntilRoomFor (c : AssetCache) (incoming : Nat) : AssetCache :=
  if c.maxBytes < c.resident + incoming then
    match h : oldest c.entries.entries with
    | none => c
    | some e =>
        have := length_evict_lt h
        (c.evict e).evictUntilRoomFor incoming
  else c
termination_by c.entries.entries.length

-- What the fetcher answers stands with the call. Where there is none it answers nothing.
def get (blake3Hex : List UInt8 → String) (c : AssetCache) (address : String)
    (fetched : Option (List UInt8)) : Option (List UInt8) × AssetCache :=
  match c.entries.lookup address with
  | some e => (some e.bytes, c)
  | none =>
      match fetched with
      | none => (none, c)
      | some bytes =>
          if blake3Hex bytes ≠ address then (none, { c with rejected := c.rejected + 1 })
          -- More than the whole budget: nothing that is given up makes room for it.
          else if c.maxBytes < bytes.length then (none, c)
          else
            let c := c.evictUntilRoomFor bytes.length
            let entry : Entry := ⟨bytes, c.tick⟩
            let entries := c.entries.emplace address entry
            let stored := (entries.lookup address).getD entry
            (some stored.bytes,
              { c with entries, tick := c.tick + 1, resident := c.resident + stored.bytes.length })

inductive Event where
  | get (address : String) (fetched : Option (List UInt8))
  | clear

def apply (blake3Hex : List UInt8 → String) (c : AssetCache) : Event → AssetCache
  | .get address fetched => (c.get blake3Hex address fetched).2
  | .clear => c.clear

def run (blake3Hex : List UInt8 → String) (maxBytes : Nat) (events : List Event) : AssetCache :=
  events.foldl (apply blake3Hex) (new maxBytes)

def size (l : List Slot) : Nat := (l.map fun e => e.2.bytes.length).sum

-- The entries from the oldest one on.
structure Aged (c : AssetCache) (queue : List Slot) : Prop where
  perm : c.entries.entries.Perm queue
  ordered : queue.Pairwise fun e f => e.2.insertedAt < f.2.insertedAt

section

variable {c : AssetCache} {e : Slot} {queue : List Slot}

theorem Aged.oldest_eq (h : Aged c (e :: queue)) : oldest c.entries.entries = some e := by
  have hmem : e ∈ c.entries.entries := h.perm.mem_iff.mpr List.mem_cons_self
  cases hleast : oldest c.entries.entries with
  | none =>
      rw [List.argmin_eq_none.mp hleast] at hmem
      exact absurd hmem List.not_mem_nil
  | some f =>
      have hle : f.2.insertedAt ≤ e.2.insertedAt :=
        List.le_of_mem_argmin (f := fun e : Slot => e.2.insertedAt) hmem hleast
      rcases List.mem_cons.mp (h.perm.mem_iff.mp (List.argmin_mem hleast)) with heq | hlater
      · rw [heq]
      · have hlt := (List.pairwise_cons.mp h.ordered).1 f hlater
        omega

theorem Aged.evict (h : Aged c (e :: queue)) : Aged (c.evict e) queue := by
  refine ⟨?_, (List.pairwise_cons.mp h.ordered).2⟩
  have herase := List.Perm.kerase (a := e.1) c.entries.nodupKeys h.perm
  rw [List.kerase_cons_eq rfl] at herase
  exact herase

end

-- The oldest `k` entries are given up, and with one less there would be no room.
structure Evicts (c c' : AssetCache) (queue : List Slot) (incoming k : Nat) : Prop where
  aged : Aged c' (queue.drop k)
  resident : c'.resident = size (queue.drop k)
  needed : ∀ j < k, c.maxBytes < size (queue.drop j) + incoming
  room : queue.drop k = [] ∨ size (queue.drop k) + incoming ≤ c.maxBytes
  maxBytes : c'.maxBytes = c.maxBytes
  rejected : c'.rejected = c.rejected
  tick : c'.tick = c.tick

theorem evictUntilRoomFor_spec {c : AssetCache} {queue : List Slot} (h : Aged c queue)
    (hresident : c.resident = size queue) (incoming : Nat) :
    ∃ k, Evicts c (c.evictUntilRoomFor incoming) queue incoming k := by
  induction queue generalizing c with
  | nil =>
      have hnone : oldest c.entries.entries = none :=
        List.argmin_eq_none.mpr (List.perm_nil.mp h.perm)
      have hstays : c.evictUntilRoomFor incoming = c := by
        unfold evictUntilRoomFor
        split
        · split
          · rfl
          · rename_i e he
            rw [hnone] at he
            cases he
        · rfl
      rw [hstays]
      exact ⟨0, h, hresident, fun j hj => absurd hj (Nat.not_lt_zero j), .inl rfl, rfl, rfl, rfl⟩
  | cons e rest ih =>
      by_cases hfull : c.maxBytes < c.resident + incoming
      · have hturn : c.evictUntilRoomFor incoming = (c.evict e).evictUntilRoomFor incoming := by
          rw [evictUntilRoomFor, if_pos hfull]
          split
          · rename_i hnone
            rw [h.oldest_eq] at hnone
            cases hnone
          · rename_i f hf
            rw [h.oldest_eq] at hf
            cases hf
            rfl
        have hrest : (c.evict e).resident = size rest := by
          show c.resident - e.2.bytes.length = size rest
          rw [hresident]
          exact Nat.add_sub_cancel_left _ _
        obtain ⟨k, hk⟩ := ih h.evict hrest
        rw [hturn]
        refine ⟨k + 1, hk.aged, hk.resident, fun j hj => ?_, hk.room, hk.maxBytes, hk.rejected,
          hk.tick⟩
        cases j with
        | zero => exact hresident ▸ hfull
        | succ j => exact hk.needed j (Nat.lt_of_succ_lt_succ hj)
      · have hstays : c.evictUntilRoomFor incoming = c := by
          rw [evictUntilRoomFor, if_neg hfull]
        rw [hstays]
        refine ⟨0, h, hresident, fun j hj => absurd hj (Nat.not_lt_zero j), .inr ?_, rfl, rfl, rfl⟩
        show size (e :: rest) + incoming ≤ c.maxBytes
        omega

-- What holds of the cache between two calls.
structure Sound (blake3Hex : List UInt8 → String) (c : AssetCache) : Prop where
  verified : ∀ address e, c.entries.lookup address = some e → blake3Hex e.bytes = address
  resident : c.resident = size c.entries.entries
  bounded : c.resident ≤ c.maxBytes
  aged : ∃ queue, Aged c queue
  past : ∀ e ∈ c.entries.entries, e.2.insertedAt < c.tick

theorem size_perm {l l' : List Slot} (h : l.Perm l') : size l = size l' :=
  (List.Perm.map (fun e : Slot => e.2.bytes.length) h).sum_eq

theorem sound_empty {blake3Hex : List UInt8 → String} {c : AssetCache} (hentries : c.entries = ∅)
    (hresident : c.resident = 0) : Sound blake3Hex c := by
  refine ⟨fun address e h => ?_, ?_, ?_, ⟨[], ?_, List.Pairwise.nil⟩, fun e he => ?_⟩
  · rw [hentries] at h
    cases h
  · rw [hentries]
    exact hresident
  · rw [hresident]
    exact Nat.zero_le c.maxBytes
  · rw [hentries]
    exact List.Perm.refl []
  · rw [hentries] at he
    exact absurd he List.not_mem_nil

theorem Evicts.subset {c c' : AssetCache} {queue : List Slot} {incoming k : Nat}
    (hk : Evicts c c' queue incoming k) (h : Aged c queue) :
    c'.entries.entries ⊆ c.entries.entries := by
  intro e he
  have hdrop := hk.aged.perm.mem_iff.mp he
  exact h.perm.mem_iff.mpr (List.drop_subset k queue hdrop)

section

variable {c c' : AssetCache} {queue : List Slot} {incoming k : Nat} {address : String}

theorem Evicts.lookup_some (hk : Evicts c c' queue incoming k) (h : Aged c queue) {e : Entry}
    (he : c'.entries.lookup address = some e) : c.entries.lookup address = some e :=
  Table.mem_entries_iff.mp (hk.subset h (Table.mem_entries_iff.mpr he))

theorem Evicts.lookup_none (hk : Evicts c c' queue incoming k) (h : Aged c queue)
    (habsent : c.entries.lookup address = none) : c'.entries.lookup address = none := by
  rw [Option.eq_none_iff_forall_ne_some]
  intro e he
  rw [hk.lookup_some h he] at habsent
  cases habsent

end

def put (c : AssetCache) (address : String) (bytes : List UInt8) : AssetCache :=
  { c with
    entries := c.entries.emplace address ⟨bytes, c.tick⟩
    tick := c.tick + 1
    resident := c.resident + bytes.length }

-- A call that stores the bytes it fetched. The oldest entries go, and one less of them would
-- have left no room.
structure Stores (c c' : AssetCache) (address : String) (bytes : List UInt8) : Prop where
  evicted : ∃ queue k, Aged c queue ∧
    (∀ j < k, c.maxBytes < size (queue.drop j) + bytes.length) ∧
    Aged c' (queue.drop k ++ [⟨address, ⟨bytes, c.tick⟩⟩])
  rejected : c'.rejected = c.rejected

-- The fetch gave bytes, they hash to the address and the whole budget holds them.
def Admits (blake3Hex : List UInt8 → String) (c : AssetCache) (address : String) :
    Option (List UInt8) → Prop
  | none => False
  | some bytes => blake3Hex bytes = address ∧ bytes.length ≤ c.maxBytes

section

variable {blake3Hex : List UInt8 → String} {c : AssetCache} {address : String}

theorem get_hit {e : Entry} (h : c.entries.lookup address = some e)
    (fetched : Option (List UInt8)) :
    c.get blake3Hex address fetched = (some e.bytes, c) := by
  unfold get
  rw [h]

theorem get_refused (habsent : c.entries.lookup address = none) {fetched : Option (List UInt8)}
    (h : ¬c.Admits blake3Hex address fetched) :
    ∃ rejected, c.get blake3Hex address fetched = (none, { c with rejected }) := by
  unfold get
  rw [habsent]
  cases fetched with
  | none => exact ⟨c.rejected, rfl⟩
  | some bytes =>
      by_cases hhash : blake3Hex bytes = address
      · have hbig : c.maxBytes < bytes.length := by
          by_contra hfits
          exact h ⟨hhash, Nat.le_of_not_lt hfits⟩
        refine ⟨c.rejected, ?_⟩
        simp only [hhash, ne_eq, not_true_eq_false, if_false, hbig, if_true]
      · refine ⟨c.rejected + 1, ?_⟩
        simp only [hhash, ne_eq, not_false_eq_true, if_true]

-- The entry goes in next to those that are left, and it is the youngest of them.
theorem Evicts.put {roomy : AssetCache} {queue : List Slot} {bytes : List UInt8} {k : Nat}
    (hk : Evicts c roomy queue bytes.length k) (h : Sound blake3Hex c) (haged : Aged c queue)
    (habsent : c.entries.lookup address = none) :
    Aged (roomy.put address bytes) (queue.drop k ++ [⟨address, ⟨bytes, c.tick⟩⟩]) := by
  refine ⟨?_, List.pairwise_append.mpr ⟨hk.aged.ordered, List.pairwise_singleton _ _, ?_⟩⟩
  · have hback := List.perm_append_singleton (⟨address, ⟨bytes, c.tick⟩⟩ : Slot) (queue.drop k)
    show (roomy.entries.emplace address ⟨bytes, roomy.tick⟩).entries.Perm _
    rw [Table.entries_emplace (hk.lookup_none haged habsent), hk.tick]
    exact ((List.perm_cons _).mpr hk.aged.perm).trans hback.symm
  · intro e he f hf
    rw [List.mem_singleton.mp hf]
    exact h.past e (hk.subset haged (hk.aged.perm.mem_iff.mpr he))

theorem Evicts.sound_put {roomy : AssetCache} {queue : List Slot} {bytes : List UInt8} {k : Nat}
    (hk : Evicts c roomy queue bytes.length k) (h : Sound blake3Hex c) (haged : Aged c queue)
    (habsent : c.entries.lookup address = none) (hhash : blake3Hex bytes = address)
    (hfits : bytes.length ≤ c.maxBytes) : Sound blake3Hex (roomy.put address bytes) := by
  have hput := hk.put h haged habsent
  have hsize : size (queue.drop k ++ [⟨address, ⟨bytes, c.tick⟩⟩]) =
      size (queue.drop k) + bytes.length := by
    simp only [size, List.map_append, List.map_cons, List.map_nil, List.sum_append,
      List.sum_singleton]
  refine ⟨fun i e hi => ?_, ?_, ?_, ⟨_, hput⟩, fun e he => ?_⟩
  · have hlookup := Table.lookup_emplace roomy.entries address i ⟨bytes, roomy.tick⟩
      (hk.lookup_none haged habsent)
    rw [show (roomy.put address bytes).entries.lookup i = _ from hlookup] at hi
    split at hi
    · rename_i heq
      cases hi
      rw [heq]
      exact hhash
    · exact h.verified i e (hk.lookup_some haged hi)
  · show roomy.resident + bytes.length = _
    rw [size_perm hput.perm, hsize, hk.resident]
  · show roomy.resident + bytes.length ≤ roomy.maxBytes
    rw [hk.resident, hk.maxBytes]
    rcases hk.room with hempty | hroom
    · rw [hempty]
      simpa [size] using hfits
    · exact hroom
  · show e.2.insertedAt < roomy.tick + 1
    rw [hk.tick]
    rcases List.mem_append.mp (hput.perm.mem_iff.mp he) with hold | hnew
    · have := h.past e (hk.subset haged (hk.aged.perm.mem_iff.mpr hold))
      omega
    · rw [List.mem_singleton.mp hnew]
      exact Nat.lt_succ_self c.tick

theorem get_eq_put (habsent : c.entries.lookup address = none) {bytes : List UInt8}
    (hhash : blake3Hex bytes = address) (hfits : bytes.length ≤ c.maxBytes)
    (hroomy : (c.evictUntilRoomFor bytes.length).entries.lookup address = none) :
    c.get blake3Hex address (some bytes) =
      (some bytes, (c.evictUntilRoomFor bytes.length).put address bytes) := by
  have hstored := Table.lookup_emplace (c.evictUntilRoomFor bytes.length).entries address address
    ⟨bytes, (c.evictUntilRoomFor bytes.length).tick⟩ hroomy
  rw [if_pos rfl] at hstored
  unfold get
  rw [habsent]
  simp only [hhash, ne_eq, not_true_eq_false, if_false, Nat.not_lt.mpr hfits, hstored,
    Option.getD_some]
  rfl

theorem get_stores (h : Sound blake3Hex c) (habsent : c.entries.lookup address = none)
    {bytes : List UInt8} (hhash : blake3Hex bytes = address) (hfits : bytes.length ≤ c.maxBytes) :
    ∃ c', c.get blake3Hex address (some bytes) = (some bytes, c') ∧ Stores c c' address bytes ∧
      Sound blake3Hex c' ∧ c'.maxBytes = c.maxBytes := by
  obtain ⟨queue, haged⟩ := h.aged
  have hresident : c.resident = size queue := h.resident.trans (size_perm haged.perm)
  obtain ⟨k, hk⟩ := evictUntilRoomFor_spec haged hresident bytes.length
  refine ⟨(c.evictUntilRoomFor bytes.length).put address bytes, ?_, ?_, ?_, hk.maxBytes⟩
  · exact get_eq_put habsent hhash hfits (hk.lookup_none haged habsent)
  · exact ⟨⟨queue, k, haged, hk.needed, hk.put h haged habsent⟩, hk.rejected⟩
  · exact hk.sound_put h haged habsent hhash hfits

-- A call that gives nothing back leaves what is kept as it is.
structure Unchanged (c c' : AssetCache) : Prop where
  entries : c'.entries = c.entries
  resident : c'.resident = c.resident
  tick : c'.tick = c.tick
  maxBytes : c'.maxBytes = c.maxBytes

theorem Sound.unchanged {c' : AssetCache} (h : Sound blake3Hex c) (hc : Unchanged c c') :
    Sound blake3Hex c' := by
  obtain ⟨queue, haged⟩ := h.aged
  refine ⟨?_, ?_, ?_, ⟨queue, ?_, haged.ordered⟩, ?_⟩
  · rw [hc.entries]
    exact h.verified
  · rw [hc.entries, hc.resident]
    exact h.resident
  · rw [hc.resident, hc.maxBytes]
    exact h.bounded
  · rw [hc.entries]
    exact haged.perm
  · rw [hc.entries, hc.tick]
    exact h.past

theorem sound_get (h : Sound blake3Hex c) (address : String) (fetched : Option (List UInt8)) :
    Sound blake3Hex (c.get blake3Hex address fetched).2 ∧
      (c.get blake3Hex address fetched).2.maxBytes = c.maxBytes := by
  cases hlookup : c.entries.lookup address with
  | some e =>
      rw [get_hit hlookup]
      exact ⟨h, rfl⟩
  | none =>
      by_cases hadmits : c.Admits blake3Hex address fetched
      · cases fetched with
        | none => exact absurd hadmits id
        | some bytes =>
            obtain ⟨c', hget, -, hsound, hmax⟩ := get_stores h hlookup hadmits.1 hadmits.2
            rw [hget]
            exact ⟨hsound, hmax⟩
      · obtain ⟨rejected, hget⟩ := get_refused hlookup hadmits
        rw [hget]
        exact ⟨h.unchanged ⟨rfl, rfl, rfl, rfl⟩, rfl⟩

theorem sound_apply (h : Sound blake3Hex c) (event : Event) :
    Sound blake3Hex (apply blake3Hex c event) ∧
      (apply blake3Hex c event).maxBytes = c.maxBytes := by
  cases event with
  | get address fetched => exact sound_get h address fetched
  | clear => exact ⟨sound_empty rfl rfl, rfl⟩

theorem sound_foldl (h : Sound blake3Hex c) (events : List Event) :
    Sound blake3Hex (events.foldl (apply blake3Hex) c) ∧
      (events.foldl (apply blake3Hex) c).maxBytes = c.maxBytes := by
  induction events generalizing c with
  | nil => exact ⟨h, rfl⟩
  | cons event events ih =>
      obtain ⟨hsound, hmax⟩ := sound_apply h event
      obtain ⟨hrest, hkeeps⟩ := ih hsound
      exact ⟨hrest, hkeeps.trans hmax⟩

-- What one call of `get` does, whatever the fetch answers.
structure Answers (blake3Hex : List UInt8 → String) (c : AssetCache) (address : String)
    (fetched : Option (List UInt8)) (found : Option (List UInt8)) (c' : AssetCache) : Prop where
  verified : ∀ bytes, found = some bytes → blake3Hex bytes = address
  hit : ∀ e, c.entries.lookup address = some e → found = some e.bytes ∧ c' = c
  refused : c.entries.lookup address = none → ¬c.Admits blake3Hex address fetched →
    found = none ∧ Unchanged c c'
  stored : c.entries.lookup address = none → c.Admits blake3Hex address fetched →
    ∃ bytes, fetched = some bytes ∧ found = some bytes ∧ Stores c c' address bytes

theorem Sound.answers (h : Sound blake3Hex c) (address : String)
    (fetched : Option (List UInt8)) :
    Answers blake3Hex c address fetched (c.get blake3Hex address fetched).1
      (c.get blake3Hex address fetched).2 := by
  cases hlookup : c.entries.lookup address with
  | some e =>
      rw [get_hit hlookup]
      refine ⟨fun bytes hbytes => ?_, fun f hf => ?_, fun hnone => ?_, fun hnone => ?_⟩
      · rw [← Option.some.inj hbytes]
        exact h.verified address e hlookup
      · rw [hlookup] at hf
        rw [Option.some.inj hf]
        exact ⟨rfl, rfl⟩
      · rw [hlookup] at hnone
        cases hnone
      · rw [hlookup] at hnone
        cases hnone
  | none =>
      by_cases hadmits : c.Admits blake3Hex address fetched
      · cases fetched with
        | none => exact absurd hadmits id
        | some bytes =>
            obtain ⟨c', hget, hstores, -, -⟩ := get_stores h hlookup hadmits.1 hadmits.2
            rw [hget]
            refine ⟨fun found hfound => ?_, fun e he => ?_, fun _ hnot => absurd hadmits hnot,
              fun _ _ => ⟨bytes, rfl, rfl, hstores⟩⟩
            · rw [← Option.some.inj hfound]
              exact hadmits.1
            · rw [hlookup] at he
              cases he
      · obtain ⟨rejected, hget⟩ := get_refused hlookup hadmits
        rw [hget]
        refine ⟨fun found hfound => ?_, fun e he => ?_, fun _ _ => ⟨rfl, rfl, rfl, rfl, rfl⟩,
          fun _ hyes => absurd hyes hadmits⟩
        · cases hfound
        · rw [hlookup] at he
          cases he

end

-- Between any two calls every entry stands under the hash of its bytes and the count is right,
-- and so it is with whatever the next call is answered.
theorem cache_integrity (blake3Hex : List UInt8 → String) (maxBytes : Nat) (events : List Event)
    (address : String) (fetched : Option (List UInt8)) :
    let c := run blake3Hex maxBytes events
    let answer := c.get blake3Hex address fetched
    (∀ key e, c.entries.lookup key = some e → blake3Hex e.bytes = key) ∧
      c.resident = size c.entries.entries ∧ c.resident ≤ maxBytes ∧ c.maxBytes = maxBytes ∧
      Answers blake3Hex c address fetched answer.1 answer.2 := by
  intro c answer
  obtain ⟨hsound, hmax⟩ :=
    sound_foldl (sound_empty rfl rfl : Sound blake3Hex (new maxBytes)) events
  exact ⟨hsound.verified, hsound.resident, hsound.bounded.trans_eq hmax, hmax,
    hsound.answers address fetched⟩

end AssetCache

end P2pGpu.Worker
