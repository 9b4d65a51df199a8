import P2pGpu.Scene.Bvh

namespace P2pGpu.Scene

open P2pGpu.Protocol

set_option linter.dupNamespace false

-- Values of type `float`, by their bits. Nothing is known of what is computed with them.
class Single where
  add : UInt32 → UInt32 → UInt32
  sub : UInt32 → UInt32 → UInt32
  mul : UInt32 → UInt32 → UInt32
  div : UInt32 → UInt32 → UInt32
  lt : UInt32 → UInt32 → Bool
  le : UInt32 → UInt32 → Bool
  ofU32 : UInt32 → UInt32
  toInt : UInt32 → Int
  -- What a stream of the classic locale reads, where it reads all of a text.
  ofText : List Char → Option UInt32

namespace Single

def zero : UInt32 := 0
def half : UInt32 := 0x3F000000
def one : UInt32 := 0x3F800000
def two : UInt32 := 0x40000000
def four : UInt32 := 0x40800000
def forty : UInt32 := 0x42200000

end Single

structure Camera where
  origin : Vec3 := ⟨Single.zero, Single.one, Single.four⟩
  target : Vec3 := {}
  up : Vec3 := ⟨Single.zero, Single.one, Single.zero⟩
  vfovDeg : UInt32 := Single.forty
deriving DecidableEq, Repr

structure Material where
  kind : MaterialKind := .lambertian
  albedo : Vec3 := ⟨Single.half, Single.half, Single.half⟩
  fuzz : UInt32 := Single.zero
deriving DecidableEq, Repr

structure Sphere where
  center : Vec3 := {}
  radius : UInt32 := Single.one
  material : UInt32 := 0
deriving DecidableEq, Repr

structure Triangle where
  a : Vec3 := {}
  b : Vec3 := {}
  c : Vec3 := {}
  material : UInt32 := 0
deriving DecidableEq, Repr

structure Scene where
  camera : Camera := {}
  materials : List Material := []
  spheres : List Sphere := []
  triangles : List Triangle := []
deriving DecidableEq, Repr

def Scene.primitiveCount (s : Scene) : Nat := s.spheres.length + s.triangles.length

namespace ParseScene

abbrev Token : Type := List Char

def blank (c : Char) : Bool := c = ' ' || c = '\t' || c = '\r' || c = '\n'

def trim (s : List Char) : List Char :=
  ((((s.takeWhile (· ≠ '#')).dropWhile blank).reverse).dropWhile blank).reverse

-- Runs of characters that are no separators. What is kept is the run that is open.
def tokensFrom (run : Token) : List Char → List Token
  | [] => if run = [] then [] else [run]
  | c :: rest =>
      if c = ' ' || c = '\t' then
        if run = [] then tokensFrom [] rest else run :: tokensFrom [] rest
      else tokensFrom (run ++ [c]) rest

def tokens (line : List Char) : List Token := tokensFrom [] line

-- Digits and nothing else, of a number that fits.
def parseU32 (tok : Token) : Option UInt32 :=
  let value := tok.foldl (fun n c => n * 10 + (c.toNat - '0'.toNat)) 0
  if tok ≠ [] ∧ tok.all Char.isDigit ∧ value < 2 ^ 32 then some (UInt32.ofNat value) else none

-- The materials come with their own indices.
structure Partial where
  scene : Scene := {}
  materials : List (UInt32 × Material) := []
  seenVersion : Bool := false
deriving DecidableEq, Repr

-- An error, and the line that goes with it where there is one.
abbrev Fails (α : Type) : Type := Except (Option Nat × Error) α

def failAt {α : Type} (line : Nat) (message : String) : Fails α :=
  .error (some line, makeError .internal message)

def failure {α : Type} (message : String) : Fails α := .error (none, makeError .internal message)

section

variable [Single]

def parseVec : List Token → Option Vec3
  | x :: y :: z :: _ => do
      return ⟨← Single.ofText x, ← Single.ofText y, ← Single.ofText z⟩
  | _ => none

def cameraKey (cam : Camera) (key : Token) (rest : List Token) : Option (Camera × List Token) :=
  if key = "origin".toList then
    (parseVec rest).map fun v => ({ cam with origin := v }, rest.drop 3)
  else if key = "target".toList then
    (parseVec rest).map fun v => ({ cam with target := v }, rest.drop 3)
  else if key = "up".toList then
    (parseVec rest).map fun v => ({ cam with up := v }, rest.drop 3)
  else if key = "vfov_deg".toList then
    (rest.head?.bind Single.ofText).map fun f => ({ cam with vfovDeg := f }, rest.drop 1)
  else none

-- A key takes at least itself, so there are no more turns than tokens.
def parseCamera : Nat → Camera → List Token → Option Camera
  | _, cam, [] => some cam
  | 0, _, _ :: _ => none
  | fuel + 1, cam, key :: rest =>
      match cameraKey cam key rest with
      | some (cam, rest) => parseCamera fuel cam rest
      | none => none

def parseMaterial (line : Nat) (toks : List Token) : Fails (UInt32 × Material) :=
  match toks with
  | _ :: indexTok :: what :: x :: y :: z :: rest =>
      match parseU32 indexTok with
      | none => failAt line "scene: malformed material directive"
      | some index =>
          match parseVec [x, y, z] with
          | none => failAt line "scene: bad albedo"
          | some albedo =>
              if what = "lambertian".toList then .ok (index, { kind := .lambertian, albedo })
              else if what = "metal".toList then
                match rest.head?.bind Single.ofText with
                | some fuzz => .ok (index, { kind := .metal, albedo, fuzz })
                | none => failAt line "scene: metal material needs a fuzz value"
              else if what = "emissive".toList then .ok (index, { kind := .emissive, albedo })
              else failAt line "scene: unknown material kind"
  | _ => failAt line "scene: malformed material directive"

def parseSphere (line : Nat) (toks : List Token) : Fails Sphere :=
  let read : Option Sphere :=
    match toks with
    | [_, x, y, z, r, m] => do
        return { center := ← parseVec [x, y, z], radius := ← Single.ofText r, material := ← parseU32 m }
    | _ => none
  match read with
  | none => failAt line "scene: malformed sphere directive"
  | some s =>
      if Single.lt Single.zero s.radius then .ok s
      else failAt line "scene: sphere radius must be positive"

def parseTriangle (line : Nat) (toks : List Token) : Fails Triangle :=
  let read : Option Triangle :=
    match toks with
    | [_, a₀, a₁, a₂, b₀, b₁, b₂, c₀, c₁, c₂, m] => do
        return {
          a := ← parseVec [a₀, a₁, a₂]
          b := ← parseVec [b₀, b₁, b₂]
          c := ← parseVec [c₀, c₁, c₂]
          material := ← parseU32 m }
    | _ => none
  match read with
  | none => failAt line "scene: malformed tri directive"
  | some t => .ok t

-- One line that is not empty, by its first token.
def directive (p : Partial) (line : Nat) (kind : Token) (toks : List Token) : Fails Partial :=
  if p.seenVersion = false ∧ kind ≠ "version".toList then
    failAt line ("scene: first directive must be `version` — a future format must be rejected, "
      ++ "not misread")
  else if kind = "version".toList then
    match toks with
    | [_, v] =>
        match parseU32 v with
        | none => failAt line "scene: malformed version directive"
        | some v =>
            if v ≠ 1 then failAt line "scene: unsupported version (this parser is v1)"
            else .ok { p with seenVersion := true }
    | _ => failAt line "scene: malformed version directive"
  else if kind = "camera".toList then
    match parseCamera toks.length {} (toks.drop 1) with
    | none => failAt line "scene: bad camera key"
    | some camera => .ok { p with scene := { p.scene with camera } }
  else if kind = "material".toList then do
    let m ← parseMaterial line toks
    return { p with materials := p.materials ++ [m] }
  else if kind = "sphere".toList then do
    let s ← parseSphere line toks
    return { p with scene := { p.scene with spheres := p.scene.spheres ++ [s] } }
  else if kind = "tri".toList then do
    let t ← parseTriangle line toks
    return { p with scene := { p.scene with triangles := p.scene.triangles ++ [t] } }
  else failAt line "scene: unknown directive"

-- A line, with the number of the lines before it.
def parseLine (state : Partial × Nat) (raw : List Char) : Fails (Partial × Nat) :=
  let line := state.2 + 1
  match tokens (trim raw) with
  | [] => .ok (state.1, line)
  | kind :: rest => do
      let p ← directive state.1 line kind (kind :: rest)
      return (p, line)

-- A material that was given, at its index in the dense table.
def defined (materials : List (UInt32 × Material)) (size : Nat) : List Bool :=
  materials.foldl (fun table e => table.set e.1.toNat true) (List.replicate size false)

-- Explicit indices become a dense table.
def compact (scene : Scene) (materials : List (UInt32 × Material)) (line : Nat) : Fails Scene :=
  let highest := materials.foldl (fun h e => max h e.1.toNat) 0
  if materials = [] then failure "scene declares no materials"
  else
    let table := materials.foldl (fun table e => table.set e.1.toNat e.2)
      (List.replicate (highest + 1) {})
    let defined := defined materials (highest + 1)
    let definedOk (m : UInt32) : Bool := m.toNat < table.length && defined.getD m.toNat false
    if ∃ s ∈ scene.spheres, definedOk s.material = false then
      failAt line "scene: sphere references an undefined material"
    else if ∃ t ∈ scene.triangles, definedOk t.material = false then
      failAt line "scene: tri references an undefined material"
    else if scene.primitiveCount = 0 then failure "scene has no primitives"
    else .ok { scene with materials := table }

end

-- A last line that is empty is none.
def linesFrom (run : List Char) : List Char → List (List Char)
  | [] => if run = [] then [] else [run]
  | c :: rest => if c = '\n' then run :: linesFrom [] rest else linesFrom (run ++ [c]) rest

end ParseScene

open ParseScene

-- A scene whose primitives have their materials.
structure Scene.Ready (s : Scene) : Prop where
  sphere : ∀ p ∈ s.spheres, p.material.toNat < s.materials.length
  triangle : ∀ t ∈ s.triangles, t.material.toNat < s.materials.length
  material : 0 < s.materials.length
  primitive : 0 < s.primitiveCount

theorem compact_ready {scene out : Scene} {materials : List (UInt32 × Material)} {line : Nat}
    (h : compact scene materials line = .ok out) : out.Ready := by
  unfold compact at h
  dsimp only at h
  split at h
  · cases h
  · split at h
    · cases h
    · rename_i hspheres
      split at h
      · cases h
      · rename_i htriangles
        split at h
        · cases h
        · rename_i hsome
          cases h
          -- The table has an entry for the highest index at least.
          have hlength : ∀ (ms : List (UInt32 × Material)) (table : List Material),
              (ms.foldl (fun table e => table.set e.1.toNat e.2) table).length = table.length := by
            intro ms
            induction ms with
            | nil => exact fun _ => rfl
            | cons m ms ih => exact fun table => (ih _).trans List.length_set
          simp only [not_exists, not_and, Bool.not_eq_false, Bool.and_eq_true,
            decide_eq_true_eq] at hspheres htriangles
          refine ⟨fun p hp => (hspheres p hp).1, fun t ht => (htriangles t ht).1, ?_,
            Nat.pos_of_ne_zero hsome⟩
          rw [hlength, List.length_replicate]
          exact Nat.succ_pos _

section

variable [Single]

def parseScene (text : List Char) : Fails Scene := do
  let (p, line) ← (linesFrom [] text).foldlM parseLine ({}, 0)
  if p.seenVersion = false then failure "scene has no `version` directive"
  else compact p.scene p.materials line

theorem parseScene_ready {text : List Char} {scene : Scene} (h : parseScene text = .ok scene) :
    scene.Ready := by
  unfold parseScene at h
  cases hlines : (linesFrom [] text).foldlM parseLine ({}, 0) with
  | error e =>
      rw [hlines] at h
      cases h
  | ok state =>
      rw [hlines] at h
      change (if state.1.seenVersion = false then _ else _) = _ at h
      split at h
      · cases h
      · exact compact_ready h

end

end P2pGpu.Scene
