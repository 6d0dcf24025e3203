import ResponseShapes.Declaration.Module
import ResponseShapes.Proofs.Entries

/-! # The declarations of a shape, without the registry

Which declarations a shape needs does not depend on the names that were claimed before: the registry only records. So
the declarations are given by plain recursion over the shape (`fieldParts`, `fieldsParts`, `shapeBlocks`), and running
the emission adds to the registry one claim for each of them, in their order (`ofShape_run`,
`membersDeclarations_run`). A registry without collisions has seen no name twice. -/

namespace ResponseShapes

/-! ### Claims -/

namespace Registry

variable {r : Registry} {name owner : String}

/-- The registry after the names were claimed, each by its owner. -/
def claimAll (r : Registry) (claims : List (String × String)) : Registry :=
  claims.foldl (fun r c => r.claim c.1 c.2) r

@[simp] theorem claimAll_nil : r.claimAll [] = r := rfl

@[simp] theorem claimAll_cons (c : String × String) (claims : List (String × String)) :
    r.claimAll (c :: claims) = (r.claim c.1 c.2).claimAll claims := rfl

theorem claimAll_append (claims more : List (String × String)) :
    r.claimAll (claims ++ more) = (r.claimAll claims).claimAll more :=
  List.foldl_append

theorem keys_claim_subset : r.owners.keys ⊆ (r.claim name owner).owners.keys := by
  unfold claim
  split
  · rw [Entries.keys, Entries.keys, List.map_append]
    exact List.subset_append_left _ _
  · exact List.Subset.refl _

theorem mem_keys_claim : name ∈ (r.claim name owner).owners.keys := by
  unfold claim
  split
  · simp [Entries.keys]
  · rename_i first hfirst
    exact List.mem_map_of_mem (f := (·.1)) (Entries.mem_of_get? hfirst)

theorem collisions_of_claim (h : (r.claim name owner).collisions = []) :
    r.collisions = [] ∧ name ∉ r.owners.keys := by
  unfold claim at h
  split at h
  · rename_i hnone
    exact ⟨h, Entries.get?_eq_none_iff.mp hnone⟩
  · exact absurd h (List.append_ne_nil_of_right_ne_nil _ (List.cons_ne_nil _ _))

/-- Claims without a collision claim no name twice, and none that was claimed before. -/
theorem nodup_of_claimAll {claims : List (String × String)} (h : (r.claimAll claims).collisions = []) :
    r.collisions = [] ∧ (claims.map (·.1)).Nodup ∧ ∀ c ∈ claims, c.1 ∉ r.owners.keys := by
  induction claims generalizing r with
  | nil => exact ⟨h, List.nodup_nil, fun _ hc => nomatch hc⟩
  | cons c claims ih =>
    obtain ⟨hclaim, hnodup, hfresh⟩ := ih h
    obtain ⟨hnone, hnew⟩ := collisions_of_claim hclaim
    refine ⟨hnone, ?_, ?_⟩
    · rw [List.map_cons, List.nodup_cons]
      refine ⟨fun hmem => ?_, hnodup⟩
      obtain ⟨c', hc', heq⟩ := List.mem_map.mp hmem
      exact hfresh c' hc' (heq ▸ mem_keys_claim)
    · intro c' hc'
      rcases List.mem_cons.mp hc' with rfl | hc'
      · exact hnew
      · exact fun hold => hfresh c' hc' (keys_claim_subset hold)

end Registry

/-! ### Declarations -/

namespace Declaration

mutual

/-- The declarations that a field needs, and the property for it. -/
def fieldParts (parent field : String) : Shape → List Declaration × Property
  | .object fields =>
    let child := Naming.child parent field
    let inner := fieldsParts child fields
    (inner.1 ++ [record child inner.2], { name := field, type := .reference child false })
  | .array (.object fields) =>
    let child := Naming.item (Naming.child parent field)
    let inner := fieldsParts child fields
    (inner.1 ++ [record child inner.2], { name := field, type := .reference child true })
  | shape => ([], { name := field, type := .plain shape })
termination_by structural shape => shape

/-- The declarations that a named field needs, and the property for it. -/
def namedFieldParts (parent : String) : String × Shape → List Declaration × Property
  | (field, shape) => fieldParts parent field shape
termination_by structural f => f

/-- The declarations that fields need, and the properties for them. -/
def fieldsParts (parent : String) : List (String × Shape) → List Declaration × List Property
  | [] => ([], [])
  | f :: rest =>
    let head := namedFieldParts parent f
    let tail := fieldsParts parent rest
    (head.1 ++ tail.1, head.2 :: tail.2)
termination_by structural fields => fields

end

/-- The declarations of a shape under a name. -/
def shapeBlocks (name : String) : Shape → List Declaration
  | .object fields => (fieldsParts name fields).1 ++ [record name (fieldsParts name fields).2]
  | .array element => shapeBlocks (Naming.item name) element ++ [list name (Naming.item name)]
  | shape => [value name shape]

/-- The claims for declarations of one owner. -/
def claims (owner : String) (ds : List Declaration) : List (String × String) :=
  ds.map fun d => (d.name, owner)

theorem claims_append (owner : String) (ds es : List Declaration) :
    claims owner (ds ++ es) = claims owner ds ++ claims owner es :=
  List.map_append

/-- Closing a record behind what its fields need claims the fields' declarations and then the record. -/
theorem bind_close_run {owner : String} (name : String) {fields : StateM Registry (List Declaration × List Property)}
    {inner : List Declaration × List Property} {r : Registry}
    (h : fields.run r = (inner, r.claimAll (claims owner inner.1))) :
    (fields >>= close owner name).run r = (inner.1 ++ [record name inner.2],
      r.claimAll (claims owner (inner.1 ++ [record name inner.2]))) := by
  rw [StateT.run_bind, h, claims_append, Registry.claimAll_append]
  rfl

mutual

theorem ofField_run (owner parent field : String) : ∀ (shape : Shape) (r : Registry),
    (ofField owner parent field shape).run r =
      (fieldParts parent field shape, r.claimAll (claims owner (fieldParts parent field shape).1))
  | .object fields, r => by
    have hclose := bind_close_run (Naming.child parent field)
      (ofFields_run owner (Naming.child parent field) fields r)
    unfold ofField
    rw [← bind_assoc, StateT.run_bind, hclose]
    rfl
  | .array (.object fields), r => by
    have hclose := bind_close_run (Naming.item (Naming.child parent field))
      (ofFields_run owner (Naming.item (Naming.child parent field)) fields r)
    unfold ofField
    rw [← bind_assoc, StateT.run_bind, hclose]
    rfl
  | .array (.primitive p), r => rfl
  | .array (.array s), r => rfl
  | .array .unknown, r => rfl
  | .primitive p, r => rfl
  | .unknown, r => rfl

theorem ofNamedField_run (owner parent : String) : ∀ (f : String × Shape) (r : Registry),
    (ofNamedField owner parent f).run r =
      (namedFieldParts parent f, r.claimAll (claims owner (namedFieldParts parent f).1))
  | (field, shape), r => ofField_run owner parent field shape r

theorem ofFields_run (owner parent : String) : ∀ (fields : List (String × Shape)) (r : Registry),
    (ofFields owner parent fields).run r =
      (fieldsParts parent fields, r.claimAll (claims owner (fieldsParts parent fields).1))
  | [], r => rfl
  | f :: rest, r => by
    have hhead := ofNamedField_run owner parent f r
    have htail := ofFields_run owner parent rest (r.claimAll (claims owner (namedFieldParts parent f).1))
    unfold ofFields
    rw [StateT.run_bind, hhead]
    change (ofFields owner parent rest >>= _).run _ = _
    rw [StateT.run_bind, htail, ← Registry.claimAll_append, ← claims_append]
    rfl

end

theorem ofShape_run (owner : String) : ∀ (name : String) (shape : Shape) (r : Registry),
    (ofShape owner name shape).run r =
      (shapeBlocks name shape, r.claimAll (claims owner (shapeBlocks name shape)))
  | name, .object fields, r => bind_close_run name (ofFields_run owner name fields r)
  | name, .array element, r => by
    have helement := ofShape_run owner (Naming.item name) element r
    unfold ofShape shapeBlocks
    rw [StateT.run_bind, helement, claims_append, Registry.claimAll_append]
    rfl
  | name, .primitive p, r => rfl
  | name, .unknown, r => rfl

end Declaration

/-! ### Members -/

namespace Member

/-- The declarations of a member. -/
def blocks (m : Member) : List Declaration :=
  Declaration.shapeBlocks m.declaration m.shape

/-- The names that several members claim, each with the member that claims it, in order. -/
def claims (members : List Member) : List (String × String) :=
  members.flatMap fun m => Declaration.claims m.name m.blocks

theorem map_fst_claims (members : List Member) :
    (claims members).map (·.1) = (members.flatMap blocks).map Declaration.name := by
  unfold claims Declaration.claims
  rw [List.map_flatMap, List.map_flatMap]
  simp only [List.map_map, Function.comp_def]

end Member

theorem membersDeclarations_run (members : List Member) (r : Registry) :
    (membersDeclarations members).run r = (members.map Member.blocks, r.claimAll (Member.claims members)) := by
  unfold membersDeclarations
  induction members generalizing r with
  | nil => rfl
  | cons m members ih =>
    have hm : m.declarations.run r = (m.blocks, r.claimAll (Declaration.claims m.name m.blocks)) :=
      Declaration.ofShape_run m.name m.declaration m.shape r
    rw [List.mapM_cons, StateT.run_bind, hm]
    change (List.mapM Member.declarations members >>= _).run _ = _
    rw [StateT.run_bind, ih, ← Registry.claimAll_append]
    rfl

end ResponseShapes
