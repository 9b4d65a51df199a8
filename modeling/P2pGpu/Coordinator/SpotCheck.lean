import P2pGpu.Coordinator.Double
import P2pGpu.Data.Table
import P2pGpu.Protocol.Ids

namespace P2pGpu.Coordinator

open P2pGpu.Protocol

structure SpotCheckConfig (F : Type) [Double F] where
  rateUnproven : F := 0.10
  rateTrusted : F := 0.02
  provenAt : F := 0.90

-- A range with the checksum of the answer that was accepted for it.
structure Known where
  startUnit : UInt64
  unitCount : UInt64
  checksum : UInt64
deriving DecidableEq, Repr

-- Known answers, the oldest first, and the probes that are under way.
structure SpotCheckPool (F : Type) [Double F] where
  cfg : SpotCheckConfig F := {}
  known : List Known := []
  issued : Table TaskId UInt64 := ∅

namespace SpotCheckPool

def kMaxKnown : Nat := 256

variable {F : Type} [Double F]

def remember (pool : SpotCheckPool F) (startUnit unitCount checksum : UInt64) :
    SpotCheckPool F :=
  if unitCount = 0 then pool
  else if pool.known.any fun k => k.startUnit == startUnit && k.unitCount == unitCount then pool
  else
    let kept := if kMaxKnown ≤ pool.known.length then pool.known.tail else pool.known
    { pool with known := kept ++ [⟨startUnit, unitCount, checksum⟩] }

-- Trusted workers are tested less often, and never never.
def maybe (pool : SpotCheckPool F) (workerScore roll : F) (indexRoll : UInt64) : Option Known :=
  if pool.known = [] then none
  else
    let rate := if pool.cfg.provenAt ≤ workerScore then pool.cfg.rateTrusted
      else pool.cfg.rateUnproven
    if rate ≤ roll then none
    else pool.known[indexRoll.toNat % pool.known.length]?

def markIssued (pool : SpotCheckPool F) (task : TaskId) (expectedChecksum : UInt64) :
    SpotCheckPool F :=
  { pool with issued := pool.issued.insert task expectedChecksum }

def expectedFor (pool : SpotCheckPool F) (task : TaskId) : Option UInt64 :=
  pool.issued.lookup task

def forget (pool : SpotCheckPool F) (task : TaskId) : SpotCheckPool F :=
  { pool with issued := pool.issued.erase task }

section

variable (pool : SpotCheckPool F) (task i : TaskId) (startUnit unitCount checksum : UInt64)

@[simp] theorem expectedFor_markIssued :
    (pool.markIssued task checksum).expectedFor i =
      if i = task then some checksum else pool.expectedFor i :=
  Table.lookup_insert_eq pool.issued task i checksum

@[simp] theorem expectedFor_forget :
    (pool.forget task).expectedFor i = if i = task then none else pool.expectedFor i := by
  unfold expectedFor forget
  by_cases hi : i = task
  · rw [if_pos hi, hi]
    exact AList.lookup_erase _ _
  · rw [if_neg hi]
    exact AList.lookup_erase_ne hi

@[simp] theorem expectedFor_remember :
    (pool.remember startUnit unitCount checksum).expectedFor i = pool.expectedFor i := by
  unfold remember
  split
  · rfl
  · split <;> rfl

@[simp] theorem known_forget : (pool.forget task).known = pool.known := rfl

theorem forget_of_none (h : pool.expectedFor task = none) : pool.forget task = pool := by
  have hkey : task ∉ pool.issued.keys := fun hmem =>
    AList.lookup_eq_none.mp h (AList.mem_keys.mpr hmem)
  have hsame : pool.issued.erase task = pool.issued := by
    apply AList.ext
    exact List.kerase_of_notMem_keys hkey
  unfold forget
  rw [hsame]

end

variable {pool : SpotCheckPool F} {k : Known}

-- Nothing is asked for again that was not remembered.
theorem maybe_mem {workerScore roll : F} {indexRoll : UInt64}
    (h : pool.maybe workerScore roll indexRoll = some k) : k ∈ pool.known := by
  unfold maybe at h
  by_cases hnone : pool.known = []
  · rw [if_pos hnone] at h
    cases h
  · rw [if_neg hnone] at h
    dsimp only at h
    generalize (if pool.cfg.provenAt ≤ workerScore then pool.cfg.rateTrusted
      else pool.cfg.rateUnproven) = rate at h
    by_cases hrate : rate ≤ roll
    · rw [if_pos hrate] at h
      cases h
    · rw [if_neg hrate] at h
      exact List.mem_of_getElem? h

theorem mem_remember {startUnit unitCount checksum : UInt64}
    (h : k ∈ (pool.remember startUnit unitCount checksum).known) :
    k ∈ pool.known ∨ k = ⟨startUnit, unitCount, checksum⟩ := by
  unfold remember at h
  split at h
  · exact .inl h
  · split at h
    · exact .inl h
    · rcases List.mem_append.mp h with hkept | hnew
      · refine .inl ?_
        split at hkept
        · exact List.mem_of_mem_tail hkept
        · exact hkept
      · exact .inr (List.mem_singleton.mp hnew)

end SpotCheckPool

end P2pGpu.Coordinator
