import Mathlib
import Relief.Proofs.Format.Saved
import Relief.Proofs.Outcome

/-!
What an exported scene holds: views that fill the words behind the description without gaps, numbers that
lead from each node to the parts of its own surface, and in these parts the surface itself.
-/
namespace Relief.Format.Glb

open Relief.Number

/-! ### The parts of a scene -/

def Primitive.accessors (p : Primitive) : List Nat :=
  [p.position, p.normal] ++ p.color.toList ++ [p.indices]

/-- A surface as part number `k` of a scene. -/
structure Shows (s : Scene) (chunk : List UInt8) (mode : Color.Mode) (k : Nat) (surface : Surface)
    (p : Primitive) (base : Color Float) : Prop where
  parsed : Color.ofText surface.color = .ok base
  node : s.nodes[k]? = some ⟨k, if surface.expression.isEmpty then none else some surface.expression⟩
  mesh : s.meshes[k]? = some p
  name : p.name = "equation_" ++ toString surface.id ∧ s.materials[k]? = some p.name
  material : p.material = k
  positions : s.elements? chunk p.position = some ⟨.float32,
    surface.mesh.vertices.toList.map fun v => [single v.x, single v.z, single (-v.y)]⟩
  normals : s.elements? chunk p.normal = some ⟨.float32,
    surface.mesh.vertexNormals.toList.map fun v => singleVec (upright v)⟩
  colors : p.color.map (s.elements? chunk) = (surface.mesh.colors mode base).map fun cs =>
    some ⟨.float32, cs.toList.map fun c => [single c.red, single c.green, single c.blue]⟩
  colored : p.color = none ↔ mode = .solid
  indices : s.elements? chunk p.indices = some ⟨.word32,
    surface.mesh.triangles.flatMap fun t => t.indices.map fun i => [UInt32.ofNat i]⟩
  counts : ∀ a ∈ p.accessors, ∃ accessor, s.accessors[a]? = some accessor ∧
    (s.elements? chunk a).map (·.rows.length) = some accessor.count
  bounds : ∃ accessor low high, s.accessors[p.position]? = some accessor ∧
    accessor.bounds = some (low, high) ∧ Positioned surface.mesh low high

/-! ### Bodies -/

theorem mapM_eq_ok {ε α β : Type} {f : α → Except ε β} {as : List α} {bs : List β}
    (h : as.mapM f = .ok bs) : List.Forall₂ (fun a b => f a = .ok b) as bs := by
  induction as generalizing bs with
  | nil =>
    cases h
    exact .nil
  | cons a as ih =>
    rw [List.mapM_cons, bind_eq_ok_iff] at h
    obtain ⟨b, hb, h⟩ := h
    obtain ⟨bs', hbs, h⟩ := bind_eq_ok_iff.1 h
    cases h
    exact .cons hb (ih hbs)

variable {mode : Color.Mode} {bodies : List Body} {k : Nat} {b : Body} {s : Surface}

end Relief.Format.Glb
