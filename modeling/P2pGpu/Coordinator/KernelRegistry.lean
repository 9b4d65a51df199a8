import Mathlib.Data.List.Basic

namespace P2pGpu.Coordinator

-- How two results of a kernel may be compared.
inductive Determinism where
  | exact
  | tolerant
  | statistical
deriving DecidableEq, Repr

structure KernelSpec where
  id : String
  entryPoint : String := ""
  workgroupSize : UInt32 × UInt32 × UInt32 := (1, 1, 1)
  determinism : Determinism := .statistical
  -- Of type `float`, by their bits.
  relEps : UInt32 := 0
  absEps : UInt32 := 0
  outputBytes : UInt32 := 0
  paramLayout : String := ""
  accumulates : Bool := false
  minIterations : UInt64 := 0
  flopPerUnit : UInt64 := 0
  r5MinUnits : UInt64 := 0
deriving DecidableEq, Repr

-- One entry a kernel, in the order of the identifiers.
structure KernelRegistry where
  kernels : List KernelSpec
  sorted : kernels.Pairwise fun a b => a.id < b.id

namespace KernelRegistry

def find (r : KernelRegistry) (id : String) : Option KernelSpec :=
  r.kernels.find? fun spec => spec.id = id

theorem find_id {r : KernelRegistry} {id : String} {spec : KernelSpec}
    (h : r.find id = some spec) : spec.id = id := by
  simpa using List.find?_some h

end KernelRegistry

-- Two kernels of the manifest.
def bruteSearch : KernelSpec where
  id := "brute_search_v1"
  entryPoint := "main"
  workgroupSize := (256, 1, 1)
  determinism := .exact
  outputBytes := 32
  paramLayout := "BruteSearchParams"
  flopPerUnit := 80
  r5MinUnits := 400000

def pathTrace : KernelSpec where
  id := "pathtrace_tile_v1"
  entryPoint := "main"
  workgroupSize := (8, 8, 1)
  determinism := .statistical
  outputBytes := 65536
  paramLayout := "PathTraceParams"
  accumulates := true
  minIterations := 32768
  flopPerUnit := 20480000
  r5MinUnits := 7143

def manifest : KernelRegistry := ⟨[bruteSearch, pathTrace], by decide +kernel⟩

end P2pGpu.Coordinator
