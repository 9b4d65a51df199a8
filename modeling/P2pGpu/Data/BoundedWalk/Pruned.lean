import P2pGpu.Data.BoundedWalk

namespace P2pGpu.IndexTree

variable {n cap : Nat} {kids : Nat → List Nat} {log : List (Nat × Bool)} {P : Nat → Prop} {j : Nat}

-- A walk that found room for all is done with every node: with those that it popped and that
-- passed, and with all that lies under the ones that did not.
theorem Walked.settles (ht : IndexTree n kids) (h : Walked cap kids log [])
    (hroom : ∀ i < n, kids i ≠ [] → Roomy cap kids i) (hpass : ∀ i, (i, true) ∈ log → P i)
    (hfail : ∀ i, (i, false) ∈ log → ∀ j, Relation.ReflTransGen (fun i j => j ∈ kids i) i j → P j)
    (hj : j < n) : P j := by
  have htrail := h.trail ht
  -- A node was popped, or it lies under one that failed.
  have hseen : j ∈ log.map Prod.fst ∨ ∃ i, (i, false) ∈ log ∧
      Relation.ReflTransGen (fun i j => j ∈ kids i) i j := by
    obtain ⟨d, hd⟩ := ht.exists_pathTo hj
    clear hj
    induction hd with
    | root => exact .inl (by simpa using htrail.root)
    | @kid i j d hd hkid ih =>
        rcases ih with hpopped | ⟨i', hi', hunder⟩
        · obtain ⟨e, he, rfl⟩ := List.mem_map.mp hpopped
          obtain ⟨i, r⟩ := e
          cases r with
          | true =>
              have hmem := htrail.closed i he (hroom i (hd.lt ht) (List.ne_nil_of_mem hkid)) j hkid
              exact .inl (by simpa using hmem)
          | false => exact .inr ⟨i, he, .single hkid⟩
        · exact .inr ⟨i', hi', hunder.tail hkid⟩
  rcases hseen with hpopped | ⟨i, hi, hunder⟩
  · obtain ⟨e, he, rfl⟩ := List.mem_map.mp hpopped
    obtain ⟨i, r⟩ := e
    cases r with
    | true => exact hpass i he
    | false => exact hfail i he i .refl
  · exact hfail i hi j hunder

end P2pGpu.IndexTree
