import Mathlib.Data.Finset.Card
import ResponseShapes.Proofs.Declaration.Written
import ResponseShapes.Proofs.Pass.Declarations

/-! # Collisions are reported exactly

A registry that was empty reports of the names claimed since then those that were claimed before, each with its first
owner and with the owner that claims it again (`collisions_claimAll`). The claims of a module are the names of its
declarations, each with the member that it is made for, in the order in which the declarations stand. So a module
reports one collision for each declaration whose name an earlier one has, and writing the module warns of each
collision once. -/

namespace ResponseShapes

open Syntax

/-! ### Names that are claimed again -/

/-- The claims of names that were claimed before, each with the owner of the first claim. -/
def Collision.repeated (claims : List (String × String)) : List Collision :=
  claims.zipIdx.filterMap fun c =>
    (Entries.get? c.1.1 (claims.take c.2)).map fun first => { name := c.1.1, first, second := c.1.2 }

namespace Collision

variable {claims : List (String × String)} {c : String × String}

theorem repeated_concat (claims : List (String × String)) (c : String × String) :
    repeated (claims ++ [c]) = repeated claims ++
      ((Entries.get? c.1 claims).map fun first => { name := c.1, first, second := c.2 }).toList := by
  have hbefore : ∀ x ∈ claims.zipIdx, (claims ++ [c]).take x.2 = claims.take x.2 := fun x hx =>
    List.take_append_of_le_length (List.snd_lt_of_mem_zipIdx hx).le
  unfold repeated
  rw [List.zipIdx_append, List.filterMap_append, List.filterMap_congr fun x hx => by rw [hbefore x hx]]
  refine congrArg (_ ++ ·) ?_
  rw [List.zipIdx_singleton, List.filterMap_cons, List.filterMap_nil, Nat.zero_add, List.take_left]
  cases Entries.get? c.1 claims <;> rfl

/-- Each claim is the first one of its name or is reported. -/
theorem length_repeated (claims : List (String × String)) :
    (repeated claims).length + (claims.map (·.1)).toFinset.card = claims.length := by
  induction claims using List.reverseRecOn with
  | nil => rfl
  | append_singleton claims c ih =>
    have hnames : ((claims ++ [c]).map (·.1)).toFinset = insert c.1 (claims.map (·.1)).toFinset := by
      rw [List.map_append, List.toFinset_append, Finset.insert_eq, Finset.union_comm]
      rfl
    rw [repeated_concat, List.length_append, hnames, List.length_append, List.length_singleton]
    -- The last claim is reported just if it brings no new name.
    cases hget : Entries.get? c.1 claims with
    | none =>
      have hnew : c.1 ∉ (claims.map (·.1)).toFinset := List.mem_toFinset.not.mpr (Entries.get?_eq_none_iff.mp hget)
      rw [Finset.card_insert_of_notMem hnew, ← Nat.add_assoc]
      exact congrArg (· + 1) ih
    | some first =>
      have hold : c.1 ∈ (claims.map (·.1)).toFinset :=
        List.mem_toFinset.mpr (List.mem_map_of_mem (f := (·.1)) (Entries.mem_of_get? hget))
      rw [Finset.insert_eq_of_mem hold, Nat.add_right_comm]
      exact congrArg (· + 1) ih

theorem repeated_eq_nil_iff : repeated claims = [] ↔ (claims.map (·.1)).Nodup := by
  have hlength := length_repeated claims
  have hcard : (claims.map (·.1)).toFinset.card = (claims.map (·.1)).length ↔ (claims.map (·.1)).Nodup :=
    Multiset.toFinset_card_eq_card_iff_nodup
  rw [← List.length_eq_zero_iff, ← hcard, List.length_map]
  omega

end Collision

/-! ### What a registry reports -/

namespace Registry

/-- The owner of a name is the one of its first claim. -/
theorem get?_owners_claimAll (name : String) (claims : List (String × String)) :
    Entries.get? name (empty.claimAll claims).owners = Entries.get? name claims := by
  induction claims using List.reverseRecOn with
  | nil => rfl
  | append_singleton claims c ih =>
    rw [claimAll_append, Entries.get?_append, ← ih]
    change Entries.get? name (claim (empty.claimAll claims) c.1 c.2).owners = _
    unfold claim
    split
    · exact Entries.get?_append _ _
    · rename_i first hfirst
      by_cases hname : c.1 = name
      · rw [← hname, hfirst, Option.some_or]
      · rw [Entries.get?_cons, if_neg hname, Entries.get?_nil, Option.or_none]

/-- A registry reports the claims of names that were claimed before. -/
theorem collisions_claimAll (claims : List (String × String)) :
    (empty.claimAll claims).collisions = Collision.repeated claims := by
  induction claims using List.reverseRecOn with
  | nil => rfl
  | append_singleton claims c ih =>
    rw [claimAll_append, Collision.repeated_concat, ← ih, ← get?_owners_claimAll]
    change (claim (empty.claimAll claims) c.1 c.2).collisions = _
    unfold claim
    split
    · rename_i hnone
      rw [hnone]
      exact (List.append_nil _).symm
    · rename_i first hfirst
      rw [hfirst]
      rfl

example : (empty.claimAll [("A", "x"), ("B", "x"), ("A", "y"), ("A", "z")]).collisions =
    [{ name := "A", first := "x", second := "y" }, { name := "A", first := "x", second := "z" }] := by
  decide

end Registry

/-! ### What a declaration declares -/

/-- The word before the name that a declaration gives. -/
def Declaration.keyword : Declaration → String
  | record _ _ => "class"
  | value _ _ => "class"
  | list _ _ => "const"

/-- A declaration as it is written exports its name. -/
theorem Documentation.block_exports (docs : Documentation) (d : Declaration) :
    ∃ before rest, (docs.block d).toList = before ++ exportText d.keyword d.name.toList (" ".toList ++ rest) := by
  rcases d with ⟨name, _ | ⟨p, ps⟩⟩ | ⟨name, shape⟩ | ⟨name, item⟩
  · refine ⟨[], "\x7b\x7d".toList, ?_⟩
    change ("export class " ++ name ++ " \x7b\x7d").toList = _
    rw [String.toList_append]
    exact toList_exported name "class" _
  · exact ⟨[], _, toList_record docs name p ps⟩
  · exact ⟨[], _, toList_value docs name shape⟩
  · have htail : ∀ tail, exportText "const" name.toList (givenText item.toList) ++ tail =
        exportText "const" name.toList (" ".toList ++ ("=".toList ++ (" ".toList ++ item.toList ++ (";".toList ++ tail)))) := by
      intro tail
      simp only [exportText, givenText, List.append_assoc]
    have htext := (toList_list docs name item).trans (List.append_assoc _ _ _)
    exact ⟨_, _, htext.trans (congrArg (_ ++ ·) (htail _))⟩

/-! ### What is reported by one part of the program -/

namespace Pass

variable {α β : Type} {x : Pass α} {f : α → Pass β} {reporter : Reporter}

/-- The rows of one reporter. -/
def rowsOf (reporter : Reporter) (σ : PassState) : List LogRow :=
  σ.rows.filter (·.reporter = reporter)

/-- Whatever the step does, the reporter reports nothing in it. -/
def Silent (reporter : Reporter) (x : Pass α) : Prop :=
  ∀ σ, rowsOf reporter (x.run σ).2 = rowsOf reporter σ

namespace Silent

theorem bind (hx : Silent reporter x) (hf : ∀ a, Silent reporter (f a)) : Silent reporter (x >>= f) := by
  intro σ
  have hrows := hx σ
  change rowsOf reporter (ExceptT.bindCont f (x.run σ).1 (x.run σ).2).2 = _
  cases (x.run σ).1 with
  | ok a => exact (hf a _).trans hrows
  | error i => exact hrows

theorem pure (a : α) : Silent reporter (pure a) :=
  fun _ => rfl

theorem interrupt (i : Interruption) : Silent reporter (Pass.interrupt i : Pass α) :=
  fun _ => rfl

theorem setDisk (d : Disk) : Silent reporter (modify fun s => { s with disk := d }) :=
  fun _ => rfl

theorem disk : Silent reporter Pass.disk :=
  fun _ => rfl

theorem say {other : Reporter} (h : other ≠ reporter) (level : LogLevel) (text : String) :
    Silent reporter (Pass.say level other text) := by
  intro σ
  change (σ.rows ++ [_]).filter _ = _
  rw [List.filter_append, List.filter_singleton]
  simp [h, rowsOf]

theorem writeOutput (p : Path) (text : String) : Silent reporter (Pass.writeOutput p text) := by
  refine disk.bind fun d => ?_
  generalize (if d.has p then some (d.readText p) else none) = old
  dsimp only
  split
  · exact interrupt _
  · exact pure _
  · split
    · exact pure _
    · refine (setDisk _).bind fun _ => ?_
      split <;> exact pure _

end Silent

/-- What is reported before a step in which the reporter is silent. -/
theorem rowsOf_report_bind {f : Unit → Pass β} (rows : List LogRow) (hf : Silent reporter (f ())) (σ : PassState) :
    rowsOf reporter ((Pass.report rows >>= f).run σ).2 = rowsOf reporter σ ++ rows.filter (·.reporter = reporter) :=
  (hf { σ with rows := σ.rows ++ rows }).trans (List.filter_append _ _)

end Pass

/-! ### What a module reports -/

namespace DeclarationModule

/-- A module holds the declarations of its members, each under the name that it claims, and reports those names that
    were claimed before. -/
structure Reports (m : DeclarationModule) (docs : Documentation) (members : List Member) : Prop where
  text : m.text = moduleText docs m.lookup members (members.flatMap Member.blocks)
  collisions : m.collisions = Collision.repeated (Member.claims members)
  count : m.collisions.length + ((members.flatMap Member.blocks).map Declaration.name).toFinset.card =
    (members.flatMap Member.blocks).length
  distinct : m.collisions = [] ↔ ((members.flatMap Member.blocks).map Declaration.name).Nodup

theorem reports_of? (naming : Naming) (docs : Documentation) (unit : String) {members : List Member}
    (h : members ≠ []) : ∃ m, of? naming docs unit members = some m ∧ m.Reports docs members := by
  refine ⟨_, of?_eq naming docs unit h, ⟨rfl, Registry.collisions_claimAll _, ?_, ?_⟩⟩
  · have hlength : (Member.claims members).length = (members.flatMap Member.blocks).length := by
      simpa using congrArg List.length (Member.map_fst_claims members)
    rw [Registry.collisions_claimAll, ← Member.map_fst_claims, ← hlength]
    exact Collision.length_repeated (Member.claims members)
  · rw [Registry.collisions_claimAll, Collision.repeated_eq_nil_iff, Member.map_fst_claims]

end DeclarationModule

/-- Writing the module of a unit warns once of each claim of a name that was claimed before. -/
theorem rowsOf_naming_writeModule (s : Settings) (output : Path) (a : UnitAnalysis) (σ : PassState) :
    Pass.rowsOf .naming ((writeModule s output a).run σ).2 =
      Pass.rowsOf .naming σ ++ (Collision.repeated (Member.claims a.members)).map (·.row a.unit) := by
  have hother : Reporter.units ≠ .naming := Reporter.noConfusion
  unfold writeModule
  by_cases hmembers : a.members = []
  · rw [hmembers]
    exact ((Pass.Silent.say hother _ _).bind fun _ => Pass.Silent.pure _) σ |>.trans (List.append_nil _).symm
  · have hnaming : ∀ row ∈ (Collision.repeated (Member.claims a.members)).map (·.row a.unit), row.reporter = .naming :=
      List.forall_mem_map.mpr fun _ _ => rfl
    rw [DeclarationModule.of?_eq _ _ _ hmembers, Registry.collisions_claimAll]
    refine (Pass.rowsOf_report_bind _ ?_ σ).trans (congrArg (Pass.rowsOf .naming σ ++ ·) ?_)
    · refine (Pass.Silent.writeOutput _ _).bind fun r => ?_
      cases r with
      | error f => exact (Pass.Silent.say hother _ _).bind fun _ => Pass.Silent.pure _
      | ok changed => exact (Pass.Silent.say hother _ _).bind fun _ => Pass.Silent.pure _
    · exact List.filter_eq_self.mpr fun row hrow => decide_eq_true (hnaming row hrow)

/-- The names claimed for a unit are those of the declarations in its module, in order, each with the member that its
    declaration is made for. The module reports exactly the claims of names that were claimed before, each with the
    owner of the first claim and its own: as many as there are declarations above the number of different names, and
    none just if all names are different. Writing the module warns of each of them once. -/
theorem DeclarationModule.collisions_exact (s : Settings) (output : Path) (a : UnitAnalysis) (σ : PassState) :
    (∀ r : Registry, (membersDeclarations a.members).run r =
      (a.members.map Member.blocks, r.claimAll (Member.claims a.members))) ∧
    (Member.claims a.members).map (·.1) = (a.members.flatMap Member.blocks).map Declaration.name ∧
    (∀ d ∈ a.members.flatMap Member.blocks, ∃ before rest, (s.documentation.block d).toList =
      before ++ exportText d.keyword d.name.toList (" ".toList ++ rest)) ∧
    (moduleOf? s a = none ∧ a.members = [] ∨
      ∃ m, moduleOf? s a = some m ∧ m.Reports s.documentation a.members) ∧
    Pass.rowsOf .naming ((writeModule s output a).run σ).2 =
      Pass.rowsOf .naming σ ++ (Collision.repeated (Member.claims a.members)).map (·.row a.unit) := by
  refine ⟨membersDeclarations_run a.members, Member.map_fst_claims a.members,
    fun d _ => s.documentation.block_exports d, ?_, rowsOf_naming_writeModule s output a σ⟩
  by_cases hmembers : a.members = []
  · rw [moduleOf?, hmembers]
    exact .inl ⟨rfl, rfl⟩
  · exact .inr (reports_of? _ s.documentation a.unit hmembers)

end ResponseShapes
