namespace P2pGpu.Protocol

inductive IdTag where
  | worker
  | task
  | job
deriving DecidableEq, Repr

-- One layout for every identifier. The tag keeps a worker out of the place of
-- a task.
structure Id (tag : IdTag) where
  hi : Nat
  lo : Nat
deriving DecidableEq, Repr

namespace Id

variable {tag : IdTag}

-- Nil stands for an absent identifier and is never minted.
def nil : Id tag := ⟨0, 0⟩

instance : Inhabited (Id tag) := ⟨nil⟩

instance : LawfulBEq (Id tag) := inferInstance

def isNil (id : Id tag) : Bool := id = nil

theorem mk_zero_inj {n k : Nat} : (⟨0, n⟩ : Id tag) = ⟨0, k⟩ ↔ n = k := by
  constructor
  · intro h
    injection h
  · intro h
    rw [h]

theorem mk_zero_ne_nil {n : Nat} (h : 0 < n) : (⟨0, n⟩ : Id tag) ≠ nil := by
  intro he
  have := mk_zero_inj.mp he
  omega

end Id

abbrev WorkerId : Type := Id .worker
abbrev TaskId : Type := Id .task
abbrev JobId : Type := Id .job

end P2pGpu.Protocol
