import Mathlib.Data.List.Perm.Basic
import ResponseShapes.Proofs.Declaration.Collisions

/-! # The order of members

What a member declares does not depend on what other members claimed (`Member.declarations_run`), so moving the members
of a unit moves their declarations and their lines in the lookup object, and nothing else of the module changes. The
members may be reported in other pairs: which of two owners comes first depends on their order. But a name is reported
once less often than it is claimed (`count_repeated`), and so the same names are reported equally often. -/

namespace ResponseShapes

/-! ### How often a name is reported -/

namespace Collision

variable {claims more : List (String × String)}

/-- Of the claims of one name all but the first one are reported. -/
theorem count_repeated (claims : List (String × String)) (n : String) :
    ((repeated claims).map name).count n = (claims.map Prod.fst).count n - 1 := by
  induction claims using List.reverseRecOn with
  | nil => rfl
  | append_singleton claims c ih =>
    rw [repeated_concat, List.map_append, List.count_append, ih, List.map_append, List.count_append]
    cases hget : Entries.get? c.1 claims with
    | none =>
      have hnew : c.1 ∉ claims.map Prod.fst := Entries.get?_eq_none_iff.mp hget
      by_cases hname : c.1 = n
      · rw [← hname, List.count_eq_zero_of_not_mem hnew]
        simp
      · simp [hname]
    | some first =>
      have hold : c.1 ∈ claims.map Prod.fst := List.mem_map.mpr ⟨_, Entries.mem_of_get? hget, rfl⟩
      by_cases hname : c.1 = n
      · have hpositive : 0 < (claims.map Prod.fst).count n := List.count_pos_iff.mpr (hname ▸ hold)
        simp [hname]
        omega
      · simp [hname]

theorem names_perm (h : (claims.map Prod.fst).Perm (more.map Prod.fst)) :
    ((repeated claims).map name).Perm ((repeated more).map name) := by
  rw [List.perm_iff_count]
  intro n
  rw [count_repeated, count_repeated, h.count_eq n]

end Collision

/-! ### Members in another order -/

namespace Member

variable {members more : List Member}

/-- What a member declares does not depend on the names that are claimed already. -/
theorem declarations_run (m : Member) (r : Registry) : (m.declarations.run r).1 = m.blocks :=
  congrArg Prod.fst (Declaration.ofShape_run m.name m.declaration m.shape r)

/-- The declarations of a member as they are written. -/
def texts (docs : Documentation) (m : Member) : List String :=
  m.blocks.map docs.block

/-- The line of a member in the lookup object. -/
def lookupLine (m : Member) : String :=
  "  " ++ propertyKey m.name ++ ": " ++ m.declaration ++ ","

theorem claims_perm (h : members.Perm more) : (claims members).Perm (claims more) :=
  h.flatMap_right _

/-- Each member stands beside the same declarations in every order of the members and with any names claimed before. -/
theorem zip_declarations_perm (h : members.Perm more) (r r' : Registry) :
    (members.zip ((membersDeclarations members).run r).1).Perm (more.zip ((membersDeclarations more).run r').1) := by
  rw [membersDeclarations_run, membersDeclarations_run, ← List.map_prod_left_eq_zip, ← List.map_prod_left_eq_zip]
  exact h.map _

end Member

namespace DeclarationModule

/-- A module around given declarations and given lines of the lookup object. -/
def framed (docs : Documentation) (lookup : String) (blocks lines : List String) : String :=
  String.intercalate "\n"
    [banner, "import \x7b " ++ docs.propertyDecorator ++ " \x7d from '" ++ docs.module ++ "';", "",
      String.intercalate "\n\n" blocks, "",
      "export const " ++ lookup ++ " = \x7b\n" ++ String.intercalate "\n" lines ++ "\n\x7d as const;\n\n" ++
        "export type " ++ Naming.lookupType lookup ++ " = typeof " ++ lookup ++ ";"] ++ "\n"

theorem moduleText_eq_framed (docs : Documentation) (lookup : String) (members : List Member) :
    moduleText docs lookup members (members.flatMap Member.blocks) =
      framed docs lookup (members.flatMap (Member.texts docs)) (members.map Member.lookupLine) := by
  unfold moduleText
  rw [List.map_flatMap]
  rfl

/-- One module holds what another one holds, with its members in another order, and reports the same names. -/
structure Rearranges (docs : Documentation) (members more : List Member) (m m' : DeclarationModule) : Prop where
  unit : m'.unit = m.unit
  fileName : m'.fileName = m.fileName
  lookup : m'.lookup = m.lookup
  text : m.text = framed docs m.lookup (members.flatMap (Member.texts docs)) (members.map Member.lookupLine)
  text_moved : m'.text = framed docs m.lookup (more.flatMap (Member.texts docs)) (more.map Member.lookupLine)
  lines : (more.map Member.lookupLine).Perm (members.map Member.lookupLine)
  blocks : (more.map (Member.texts docs)).Perm (members.map (Member.texts docs))
  collides : m'.collisions = [] ↔ m.collisions = []
  names : (m'.collisions.map Collision.name).Perm (m.collisions.map Collision.name)

theorem rearranges (naming : Naming) (docs : Documentation) (unit : String) {members more : List Member}
    (h : more.Perm members) (hmembers : members ≠ []) : ∃ m m', of? naming docs unit members = some m ∧
      of? naming docs unit more = some m' ∧ Rearranges docs members more m m' := by
  have hmore : more ≠ [] := fun hnil => hmembers (List.nil_perm.mp (hnil ▸ h))
  have hclaims : ((Member.claims more).map Prod.fst).Perm ((Member.claims members).map Prod.fst) :=
    (Member.claims_perm h).map _
  refine ⟨_, _, of?_eq naming docs unit hmembers, of?_eq naming docs unit hmore, ?_⟩
  exact
    { unit := rfl
      fileName := rfl
      lookup := rfl
      text := moduleText_eq_framed docs _ members
      text_moved := moduleText_eq_framed docs _ more
      lines := h.map _
      blocks := h.map _
      collides := by
        rw [Registry.collisions_claimAll, Registry.collisions_claimAll, Collision.repeated_eq_nil_iff,
          Collision.repeated_eq_nil_iff]
        exact hclaims.nodup_iff
      names := by
        rw [Registry.collisions_claimAll, Registry.collisions_claimAll]
        exact Collision.names_perm hclaims }

/-- The order of a unit's members decides nothing but the order of what they declare. Whatever names are claimed
    before, each member stands beside the same declarations. There is no module in either order just if there are no
    members; otherwise both modules have the same names, their texts differ only in the order of the members'
    declarations and lines, and they report the same names equally often. -/
theorem order_free (naming : Naming) (docs : Documentation) (a : UnitAnalysis) {more : List Member}
    (h : more.Perm a.members) :
    (∀ m ∈ a.members, ∀ r : Registry, (m.declarations.run r).1 = m.blocks) ∧
    (∀ r r' : Registry, (more.zip ((membersDeclarations more).run r).1).Perm
      (a.members.zip ((membersDeclarations a.members).run r').1)) ∧
    ((a.members = [] ∧ of? naming docs a.unit a.members = none ∧ of? naming docs a.unit more = none) ∨
      ∃ m m', of? naming docs a.unit a.members = some m ∧ of? naming docs a.unit more = some m' ∧
        Rearranges docs a.members more m m') := by
  refine ⟨fun m _ r => m.declarations_run r, Member.zip_declarations_perm h, ?_⟩
  by_cases hmembers : a.members = []
  · have hmore : more = [] := List.perm_nil.mp (hmembers ▸ h)
    rw [hmembers, hmore]
    exact .inl ⟨rfl, rfl, rfl⟩
  · exact .inr (rearranges naming docs a.unit h hmembers)

/-! ### Two members with one declaration -/

namespace Clash

def find : Member :=
  { name := "find", shape := .object [("id", .number)], declaration := "UsersServiceFindResponse" }

def findAgain : Member :=
  { name := "Find", shape := .array .string, declaration := "UsersServiceFindResponse" }

def analysis : UnitAnalysis :=
  { unit := "UsersService", path := Path.ofString "/users.service.ts", members := [find, findAgain] }

end Clash

open Clash in
theorem order_free_clash : [findAgain, find].Perm analysis.members ∧
    ∃ m m', of? { responseSuffix := "Response" } .standard analysis.unit analysis.members = some m ∧
      of? { responseSuffix := "Response" } .standard analysis.unit [findAgain, find] = some m' ∧
      m.collisions = [{ name := "UsersServiceFindResponse", first := "find", second := "Find" }] ∧
      m'.collisions = [{ name := "UsersServiceFindResponse", first := "Find", second := "find" }] ∧
      Rearranges .standard analysis.members [findAgain, find] m m' := by
  have hswap : [findAgain, find].Perm analysis.members := List.Perm.swap _ _ _
  obtain ⟨-, -, ⟨hnil, -⟩ | ⟨m, m', hm, hm', hrearranges⟩⟩ :=
    order_free { responseSuffix := "Response" } .standard analysis hswap
  · cases hnil
  · have hfirst : (of? { responseSuffix := "Response" } .standard analysis.unit analysis.members).map collisions =
        some [{ name := "UsersServiceFindResponse", first := "find", second := "Find" }] := by decide +kernel
    have hsecond : (of? { responseSuffix := "Response" } .standard analysis.unit [findAgain, find]).map collisions =
        some [{ name := "UsersServiceFindResponse", first := "Find", second := "find" }] := by decide +kernel
    rw [hm] at hfirst
    rw [hm'] at hsecond
    exact ⟨hswap, m, m', hm, hm', Option.some.inj hfirst, Option.some.inj hsecond, hrearranges⟩

end DeclarationModule

end ResponseShapes
