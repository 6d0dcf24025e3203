import Mathlib.Data.List.Pairwise
import ResponseShapes.Proofs.Syntax.Laid
import ResponseShapes.Syntax.Class

/-! # Where decorators stand

The decorators of a class and of its methods stand at four places: before `export`, in the class itself, among the
members, and in a method. In a tree that is laid over its text no two decorators that classes and methods carry have
a character in common (`Laid.decorators_clear`), no method shares a decorator with another, and whatever else the
class is read from stands clear of all of them. -/

namespace ResponseShapes.Syntax

theorem Node.mem_of_child? {p c : Node} {r : Role} (h : p.child? r = some c) : c ∈ p.children ∧ c.role = some r := by
  unfold Node.child? at h
  exact ⟨List.mem_of_find?_eq_some h, by simpa using List.find?_some h⟩

theorem Node.mem_childrenOf {p c : Node} {k : Kind} : c ∈ p.childrenOf k ↔ c ∈ p.children ∧ c.kind = k := by
  simp [Node.childrenOf]

theorem Node.mem_constructs {p c : Node} : c ∈ p.constructs ↔ c ∈ p.children ∧ c.isConstruct = true := by
  simp [Node.constructs]

/-- The decorators of the methods of the class, and then its own. -/
def ClassDeclaration.allDecorators (cls : ClassDeclaration) : List Decorator :=
  cls.methods.flatMap (·.decorators) ++ cls.decorators

namespace Source

open Node

variable {s : Source}

theorem decorator_node (n : Node) : (s.decorator n).node = n := by
  unfold decorator
  split
  · rfl
  · split <;> rfl

/-- The decorators that a member of a class brings along: itself, or those that stand in it. -/
def memberDecorators (s : Source) (n : Node) : List Decorator :=
  if n.kind = .decorator then [s.decorator n]
  else if n.kind = .methodDefinition then (n.childrenOf .decorator).map s.decorator
  else []

theorem mem_memberDecorators {n : Node} {d : Decorator} (h : d ∈ s.memberDecorators n) :
    (n.kind = .decorator ∧ d.node = n) ∨
      (n.kind = .methodDefinition ∧ d.node ∈ n.children ∧ d.node.kind = .decorator) := by
  unfold memberDecorators at h
  split at h
  · rename_i hk
    obtain rfl := List.mem_singleton.mp h
    exact Or.inl ⟨hk, decorator_node n⟩
  · split at h
    · rename_i hk
      obtain ⟨m, hm, rfl⟩ := List.mem_map.mp h
      rw [decorator_node]
      exact Or.inr ⟨hk, mem_childrenOf.mp hm⟩
    · cases h

theorem eq_of_mem_memberDecorators {n : Node} {d : Decorator} (h : d ∈ s.memberDecorators n) :
    d = s.decorator d.node := by
  unfold memberDecorators at h
  split at h
  · obtain rfl := List.mem_singleton.mp h
    rw [decorator_node]
  · split at h
    · obtain ⟨m, -, rfl⟩ := List.mem_map.mp h
      rw [decorator_node]
    · cases h

/-! ### Methods -/

/-- Methods take their decorators from those in front of the members and in them, in order and each once. -/
theorem methodsFrom_sublist (pending : List Decorator) (ns : List Node) :
    ((s.methodsFrom pending ns).flatMap (·.decorators)).Sublist (pending ++ ns.flatMap s.memberDecorators) := by
  induction ns generalizing pending with
  | nil => simp [methodsFrom]
  | cons n ns ih =>
    unfold methodsFrom
    rw [List.flatMap_cons]
    by_cases hdec : n.kind = .decorator
    · have hown : s.memberDecorators n = [s.decorator n] := by simp [memberDecorators, hdec]
      rw [if_pos hdec, hown, ← List.append_assoc]
      exact ih (pending ++ [s.decorator n])
    · rw [if_neg hdec]
      by_cases hcom : n.kind = .comment
      · have hown : s.memberDecorators n = [] := by simp [memberDecorators, hcom]
        rw [if_pos hcom, hown, List.nil_append]
        exact ih pending
      · rw [if_neg hcom]
        by_cases hmeth : n.kind = .methodDefinition
        · have hown : s.memberDecorators n = (n.childrenOf .decorator).map s.decorator := by
            simp [memberDecorators, hmeth]
          rw [if_pos hmeth, hown, List.flatMap_append, ← List.append_assoc]
          refine List.Sublist.append ?_ (by simpa using ih [])
          unfold method?
          cases n.child? .name with
          | none => simp
          | some name => simp
        · rw [if_neg hmeth]
          exact (ih []).trans ((List.sublist_append_right _ _).trans (List.sublist_append_right _ _))

theorem methods_sublist (classNode : Node) : ((s.methods classNode).flatMap (·.decorators)).Sublist
    ((classNode.child? .body).toList.flatMap fun body => body.children.flatMap s.memberDecorators) := by
  unfold methods
  cases classNode.child? .body with
  | none => simp
  | some body => simpa using methodsFrom_sublist [] body.children

theorem memberDecorators_clear {text : List Char} {body : Node} (h : body.Laid text) :
    (body.children.flatMap s.memberDecorators).Pairwise fun a b => Clear a.node b.node := by
  have hbelow : ∀ n ∈ body.children, ∀ d ∈ s.memberDecorators n, Below n d.node := by
    intro n _ d hd
    rcases mem_memberDecorators hd with ⟨-, hnode⟩ | ⟨-, hmem, -⟩
    · rw [hnode]
      exact .refl n
    · exact .of_mem hmem
  rw [List.pairwise_flatMap]
  constructor
  · intro n hn
    unfold memberDecorators
    split
    · exact List.pairwise_singleton _ _
    · split
      · rw [List.pairwise_map]
        have hord : n.children.Pairwise Clear := (h.child hn).laid.ordered.imp fun h => Or.inl h
        refine (hord.sublist List.filter_sublist).imp fun {a b} hab => ?_
        rw [decorator_node, decorator_node]
        exact hab
      · exact List.Pairwise.nil
  · refine h.ordered.imp_of_mem fun {m n} hm hn hmn d hd e he => ?_
    obtain ⟨-, -, hd'⟩ := (h.child hm).laid.below (hbelow m hm d hd)
    obtain ⟨-, he', -⟩ := (h.child hn).laid.below (hbelow n hn e he)
    exact Or.inl (by omega)

/-! ### Classes -/

/-- How a class is read from a statement: the statement is its declaration, or exports it and may bring decorators of
    its own. -/
structure ClassAt (s : Source) (statement : Node) (outer : List Node) (cls : ClassDeclaration) : Prop where
  place : (cls.node = statement ∧ outer = []) ∨
    (statement.kind = .exportStatement ∧ cls.node ∈ statement.children ∧ outer = statement.childrenOf .decorator)
  declares : declaresClass cls.node = true
  decorators : cls.decorators = (outer ++ cls.node.childrenOf .decorator).map s.decorator
  methods : cls.methods = s.methods cls.node
  name : ∃ name, cls.node.child? .name = some name ∧ cls.name = s.textOf name

theorem classOf?_eq_some {ds : List Decorator} {n : Node} {cls : ClassDeclaration} (h : s.classOf? ds n = some cls) :
    declaresClass n = true ∧ ∃ name, n.child? .name = some name ∧
      cls = { node := n, name := s.textOf name, decorators := ds ++ (n.childrenOf .decorator).map s.decorator,
              methods := s.methods n } := by
  unfold classOf? at h
  split at h
  · rename_i hdecl
    obtain ⟨name, hname, rfl⟩ := Option.map_eq_some_iff.mp h
    exact ⟨hdecl, name, hname, rfl⟩
  · cases h

theorem declaresClass_iff {n : Node} :
    declaresClass n = true ↔ n.kind = .classDeclaration ∨ n.kind = .abstractClassDeclaration := by
  simp [declaresClass]

theorem mem_of_exported {statement target : Node} (h : ((statement.child? .declaration).orElse fun _ =>
    statement.constructs.find? declaresClass) = some target) : target ∈ statement.children := by
  cases hdecl : statement.child? .declaration with
  | some n =>
    rw [hdecl] at h
    obtain rfl := Option.some.inj h
    exact (mem_of_child? hdecl).1
  | none =>
    rw [hdecl] at h
    exact (mem_constructs.mp (List.mem_of_find?_eq_some h)).1

theorem class?_eq_some {statement : Node} {cls : ClassDeclaration} (h : s.class? statement = some cls) :
    ∃ outer, ClassAt s statement outer cls := by
  unfold class? at h
  split at h
  · rename_i hexport
    obtain ⟨target, htarget, h⟩ := Option.bind_eq_some_iff.mp h
    obtain ⟨hdecl, name, hname, rfl⟩ := classOf?_eq_some h
    have hmem := mem_of_exported htarget
    exact ⟨statement.childrenOf .decorator, Or.inr ⟨hexport, hmem, rfl⟩, hdecl, by rw [List.map_append], rfl, name,
      hname, rfl⟩
  · obtain ⟨hdecl, name, hname, rfl⟩ := classOf?_eq_some h
    exact ⟨[], Or.inl ⟨rfl, rfl⟩, hdecl, rfl, rfl, name, hname, rfl⟩

/-- Where a decorator of a class stands in the statement that declares the class. -/
inductive Stands (s : Source) (statement : Node) (cls : ClassDeclaration) (n : Node) : Prop
  | outside (hcls : cls.node ∈ statement.children) (hn : n ∈ statement.children)
  | inClass (hn : n ∈ cls.node.children)
  | amongMembers (body : Node) (hbody : cls.node.child? .body = some body) (hn : n ∈ body.children)
  | inMember (body member : Node) (hbody : cls.node.child? .body = some body) (hmember : member ∈ body.children)
      (hkind : member.kind = .methodDefinition) (hn : n ∈ member.children)

section ClassAt
variable {text : List Char} {statement : Node} {outer : List Node} {cls : ClassDeclaration}
  (hat : ClassAt s statement outer cls)
include hat

theorem ClassAt.below : Below statement cls.node := by
  rcases hat.place with ⟨h, -⟩ | ⟨-, h, -⟩
  · rw [h]
    exact .refl _
  · exact .of_mem h

theorem ClassAt.stands {d : Decorator} (hd : d ∈ cls.allDecorators) :
    d.node.kind = .decorator ∧ Stands s statement cls d.node := by
  rcases List.mem_append.mp hd with hd | hd
  · have hmem := (methods_sublist cls.node).subset (hat.methods ▸ hd)
    obtain ⟨body, hbody, hmem⟩ := List.mem_flatMap.mp hmem
    obtain ⟨n, hn, hmem⟩ := List.mem_flatMap.mp hmem
    have hbody' : cls.node.child? .body = some body := Option.mem_toList.mp hbody
    rcases mem_memberDecorators hmem with ⟨hkind, hnode⟩ | ⟨hkind, hchild, hdec⟩
    · rw [hnode]
      exact ⟨hkind, .amongMembers body hbody' hn⟩
    · exact ⟨hdec, .inMember body n hbody' hn hkind hchild⟩
  · rw [hat.decorators] at hd
    obtain ⟨n, hn, rfl⟩ := List.mem_map.mp hd
    rw [decorator_node]
    rcases List.mem_append.mp hn with hn | hn
    · rcases hat.place with ⟨-, h⟩ | ⟨-, hcls, h⟩
      · rw [h] at hn
        cases hn
      · rw [h] at hn
        obtain ⟨hn, hkind⟩ := mem_childrenOf.mp hn
        exact ⟨hkind, .outside hcls hn⟩
    · obtain ⟨hn, hkind⟩ := mem_childrenOf.mp hn
      exact ⟨hkind, .inClass hn⟩

theorem ClassAt.decorator_eq {d : Decorator} (hd : d ∈ cls.allDecorators) : d = s.decorator d.node := by
  rcases List.mem_append.mp hd with hd | hd
  · have hmem := (methods_sublist cls.node).subset (hat.methods ▸ hd)
    obtain ⟨body, -, hmem⟩ := List.mem_flatMap.mp hmem
    obtain ⟨n, -, hmem⟩ := List.mem_flatMap.mp hmem
    exact eq_of_mem_memberDecorators hmem
  · rw [hat.decorators] at hd
    obtain ⟨n, -, rfl⟩ := List.mem_map.mp hd
    rw [decorator_node]

theorem ClassAt.ne_of_decorator {n : Node} (hn : n.kind = .decorator) : cls.node ≠ n := by
  rintro rfl
  have := declaresClass_iff.mp hat.declares
  rw [hn] at this
  simp at this

variable (hlaid : statement.Laid text)
include hlaid

theorem ClassAt.laid : cls.node.Laid text :=
  (hlaid.below hat.below).1

theorem ClassAt.body {body : Node} (hbody : cls.node.child? .body = some body) :
    body ∈ cls.node.children ∧ body.Laid text ∧ body.kind ≠ .decorator := by
  obtain ⟨hmem, hrole⟩ := mem_of_child? hbody
  have hchild := (hat.laid hlaid).child hmem
  refine ⟨hmem, hchild.laid, fun hkind => ?_⟩
  rw [hchild.role_eq hkind] at hrole
  cases hrole

/-- A decorator of a class lies in the statement that declares the class and ends before it. -/
theorem ClassAt.decorator_inside {d : Decorator} (hd : d ∈ cls.allDecorators) :
    Below statement d.node ∧ d.node.Begins text ∧ d.node.stop < statement.stop := by
  obtain ⟨hkind, hstands⟩ := hat.stands hd
  obtain ⟨hcls, -, hcls'⟩ := hlaid.below hat.below
  cases hstands with
  | outside _ hn =>
    have hchild := hlaid.child hn
    exact ⟨.of_mem hn, hchild.begins (isLead_of_decorator hkind), hchild.stop_lt hkind⟩
  | inClass hn =>
    have hchild := hcls.child hn
    have := hchild.stop_lt hkind
    exact ⟨hat.below.trans (.of_mem hn), hchild.begins (isLead_of_decorator hkind), by omega⟩
  | amongMembers body hbody hn =>
    obtain ⟨hmem, hlaid', -⟩ := hat.body hlaid hbody
    have hchild := hlaid'.child hn
    have h₁ := hchild.stop_lt hkind
    have h₂ := (hcls.child hmem).stop_le
    exact ⟨hat.below.trans (.child hmem (.of_mem hn)), hchild.begins (isLead_of_decorator hkind), by omega⟩
  | inMember body member hbody hmember _ hn =>
    obtain ⟨hmem, hlaid', -⟩ := hat.body hlaid hbody
    have hchild := (hlaid'.child hmember).laid.child hn
    have h₁ := hchild.stop_lt hkind
    have h₂ := (hcls.child hmem).stop_le
    have h₃ := (hlaid'.child hmember).stop_le
    exact ⟨hat.below.trans (.child hmem (.child hmember (.of_mem hn))), hchild.begins (isLead_of_decorator hkind),
      by omega⟩

theorem ClassAt.own_clear : cls.decorators.Pairwise fun a b => Clear a.node b.node := by
  rw [hat.decorators, List.pairwise_map]
  simp only [decorator_node]
  have hinner : (cls.node.childrenOf .decorator).Pairwise Clear :=
    ((hat.laid hlaid).ordered.imp fun h => Or.inl h).sublist List.filter_sublist
  rcases hat.place with ⟨-, houter⟩ | ⟨-, hmem, houter⟩
  · rwa [houter]
  · rw [houter, List.pairwise_append]
    refine ⟨(hlaid.ordered.imp fun h => Or.inl h).sublist List.filter_sublist, hinner, fun a ha b hb => ?_⟩
    obtain ⟨ha, hkind⟩ := mem_childrenOf.mp ha
    exact hlaid.cousins_clear ha hmem (hat.ne_of_decorator hkind).symm (.refl a) (.of_mem (mem_childrenOf.mp hb).1)

/-- The decorators of methods stand in the body of the class, its own beside the body. -/
theorem ClassAt.methods_clear_own {a b : Decorator} (ha : a ∈ cls.methods.flatMap (·.decorators))
    (hb : b ∈ cls.decorators) : Clear a.node b.node := by
  have hmem := (methods_sublist cls.node).subset (hat.methods ▸ ha)
  obtain ⟨body, hbody, hmem⟩ := List.mem_flatMap.mp hmem
  obtain ⟨n, hn, hmem⟩ := List.mem_flatMap.mp hmem
  obtain ⟨hbody', -, hkind'⟩ := hat.body hlaid (Option.mem_toList.mp hbody)
  have hbelow : Below body a.node := by
    rcases mem_memberDecorators hmem with ⟨-, hnode⟩ | ⟨-, hchild, -⟩
    · rw [hnode]
      exact .of_mem hn
    · exact .child hn (.of_mem hchild)
  rw [hat.decorators] at hb
  obtain ⟨m, hm, rfl⟩ := List.mem_map.mp hb
  rw [decorator_node]
  rcases List.mem_append.mp hm with hm | hm
  · rcases hat.place with ⟨-, houter⟩ | ⟨-, hcls, houter⟩
    · rw [houter] at hm
      cases hm
    · rw [houter] at hm
      obtain ⟨hm, hkind⟩ := mem_childrenOf.mp hm
      exact hlaid.cousins_clear hcls hm (hat.ne_of_decorator hkind) (.child hbody' hbelow) (.refl m)
  · obtain ⟨hm, hkind⟩ := mem_childrenOf.mp hm
    have hne : body ≠ m := by
      rintro rfl
      exact hkind' hkind
    exact (hat.laid hlaid).cousins_clear hbody' hm hne hbelow (.refl m)

theorem ClassAt.decorators_clear : cls.allDecorators.Pairwise fun a b => Clear a.node b.node := by
  unfold ClassDeclaration.allDecorators
  rw [List.pairwise_append]
  refine ⟨?_, hat.own_clear hlaid, fun a ha b hb => hat.methods_clear_own hlaid ha hb⟩
  rw [hat.methods]
  refine List.Pairwise.sublist (methods_sublist cls.node) ?_
  cases hbody : cls.node.child? .body with
  | none => exact List.Pairwise.nil
  | some body => simpa using memberDecorators_clear (s := s) (hat.body hlaid hbody).2.1

/-! ### What else a class is read from -/

/-- What stands in the class itself is clear of what stands outside it. -/
theorem ClassAt.clear_outside {n x : Node} (hcls : cls.node ∈ statement.children) (hn : n ∈ statement.children)
    (hkind : n.kind = .decorator) (hx : Below cls.node x) : Clear x n :=
  hlaid.cousins_clear hcls hn (hat.ne_of_decorator hkind) hx (.refl n)

theorem ClassAt.clear_of_part {x : Node} (hx : x ∈ cls.node.children) (hkind : x.kind ≠ .decorator)
    (hbody : cls.node.child? .body ≠ some x) {d : Decorator} (hd : d ∈ cls.allDecorators) : Clear x d.node := by
  obtain ⟨hdec, hstands⟩ := hat.stands hd
  have hcls := hat.laid hlaid
  have hne : ∀ body, cls.node.child? .body = some body → x ≠ body := by
    rintro body h rfl
    exact hbody h
  cases hstands with
  | outside hmem hn => exact hat.clear_outside hlaid hmem hn hdec (.of_mem hx)
  | inClass hn =>
    refine hcls.siblings_clear hx hn ?_
    rintro rfl
    exact hkind hdec
  | amongMembers body hb hn =>
    exact hcls.cousins_clear hx (hat.body hlaid hb).1 (hne body hb) (.refl x) (.of_mem hn)
  | inMember body member hb hmember _ hn =>
    exact hcls.cousins_clear hx (hat.body hlaid hb).1 (hne body hb) (.refl x) (.child hmember (.of_mem hn))

variable {body : Node} (hbody : cls.node.child? .body = some body)
include hbody

/-- What stands in the body of the class is clear of the decorators that do not stand there. -/
theorem ClassAt.clear_of_inner {x : Node} (hx : Below body x) {d : Decorator} (hd : d ∈ cls.allDecorators) :
    Clear x d.node ∨ d.node ∈ body.children ∨
      ∃ member ∈ body.children, member.kind = .methodDefinition ∧ d.node ∈ member.children := by
  obtain ⟨hdec, hstands⟩ := hat.stands hd
  obtain ⟨hmem, -, hkind⟩ := hat.body hlaid hbody
  cases hstands with
  | outside hcls hn => exact Or.inl (hat.clear_outside hlaid hcls hn hdec (.child hmem hx))
  | inClass hn =>
    refine Or.inl ((hat.laid hlaid).cousins_clear hmem hn ?_ hx (.refl _))
    rintro rfl
    exact hkind hdec
  | amongMembers body' hbody' hn =>
    rw [hbody] at hbody'
    obtain rfl := Option.some.inj hbody'
    exact Or.inr (Or.inl hn)
  | inMember body' member hbody' hmember hmeth hn =>
    rw [hbody] at hbody'
    obtain rfl := Option.some.inj hbody'
    exact Or.inr (Or.inr ⟨member, hmember, hmeth, hn⟩)

theorem ClassAt.clear_of_member {x : Node} (hx : x ∈ body.children)
    (hplain : x.kind = .methodDefinition → x.childrenOf .decorator = []) {d : Decorator}
    (hd : d ∈ cls.allDecorators) (hne : d.node ≠ x) : Clear x d.node := by
  have hdec := (hat.stands hd).1
  have hlaid' := (hat.body hlaid hbody).2.1
  rcases hat.clear_of_inner hlaid hbody (.of_mem hx) hd with h | hn | ⟨member, hmember, hmeth, hn⟩
  · exact h
  · exact hlaid'.siblings_clear hx hn hne.symm
  · refine hlaid'.cousins_clear hx hmember ?_ (.refl x) (.of_mem hn)
    rintro rfl
    have := mem_childrenOf.mpr ⟨hn, hdec⟩
    rw [hplain hmeth] at this
    cases this

/-- A part of a member that is no decorator is clear of all decorators. -/
theorem ClassAt.clear_of_member_part {member x : Node} (hmember : member ∈ body.children)
    (hkind : member.kind ≠ .decorator) (hx : x ∈ member.children) (hxkind : x.kind ≠ .decorator) {d : Decorator}
    (hd : d ∈ cls.allDecorators) : Clear x d.node := by
  have hdec := (hat.stands hd).1
  have hlaid' := (hat.body hlaid hbody).2.1
  rcases hat.clear_of_inner hlaid hbody (.child hmember (.of_mem hx)) hd with h | hn | ⟨member', hmember', -, hn⟩
  · exact h
  · refine hlaid'.cousins_clear hmember hn ?_ (.of_mem hx) (.refl _)
    rintro rfl
    exact hkind hdec
  · by_cases hsame : member = member'
    · subst hsame
      refine (hlaid'.child hmember).laid.siblings_clear hx hn ?_
      rintro rfl
      exact hxkind hdec
    · exact hlaid'.cousins_clear hmember hmember' hsame (.of_mem hx) (.of_mem hn)

end ClassAt

/-! ### All classes of a source -/

/-- A class is read from a statement at the top level, which is no import. -/
theorem exists_classAt {cls : ClassDeclaration} (h : cls ∈ s.classes) :
    ∃ statement outer, statement ∈ s.root.children ∧ statement.kind ≠ .importStatement ∧
      s.class? statement = some cls ∧ ClassAt s statement outer cls := by
  obtain ⟨statement, hmem, hclass⟩ := List.mem_filterMap.mp h
  obtain ⟨outer, hat⟩ := class?_eq_some hclass
  refine ⟨statement, outer, (mem_constructs.mp hmem).1, fun himport => ?_, hclass, hat⟩
  rcases hat.place with ⟨hnode, -⟩ | ⟨hexport, -⟩
  · have := declaresClass_iff.mp hat.declares
    rw [hnode, himport] at this
    simp at this
  · rw [himport] at hexport
    cases hexport

section Laid
variable (hlaid : s.Laid)
include hlaid

theorem Laid.classes_clear :
    s.classes.Pairwise fun a b => ∀ d ∈ a.allDecorators, ∀ e ∈ b.allDecorators, Clear d.node e.node := by
  have hord : s.root.constructs.Pairwise fun a b => a.stop ≤ b.start :=
    (Node.Laid.ordered hlaid).sublist List.filter_sublist
  unfold classes
  rw [List.pairwise_filterMap]
  refine hord.imp_of_mem fun {m n} hm hn hmn a ha b hb d hd e he => ?_
  obtain ⟨_, hata⟩ := class?_eq_some ha
  obtain ⟨_, hatb⟩ := class?_eq_some hb
  have hm' := (Node.Laid.child hlaid (mem_constructs.mp hm).1).laid
  have hn' := (Node.Laid.child hlaid (mem_constructs.mp hn).1).laid
  obtain ⟨-, -, hd'⟩ := hm'.below (hata.decorator_inside hm' hd).1
  obtain ⟨-, he', -⟩ := hn'.below (hatb.decorator_inside hn' he).1
  exact Or.inl (by omega)

/-- No two decorators that the classes of a source and their methods carry have a character in common. -/
theorem Laid.decorators_clear :
    (s.classes.flatMap (·.allDecorators)).Pairwise fun a b => Clear a.node b.node := by
  rw [List.pairwise_flatMap]
  refine ⟨fun cls hcls => ?_, hlaid.classes_clear⟩
  obtain ⟨statement, outer, hmem, -, -, hat⟩ := exists_classAt hcls
  exact hat.decorators_clear (Node.Laid.child hlaid hmem).laid

theorem Laid.decorator_begins {cls : ClassDeclaration} (hcls : cls ∈ s.classes) {d : Decorator}
    (hd : d ∈ cls.allDecorators) : d.node.Begins s.text ∧ d.node.stop ≤ s.text.length := by
  obtain ⟨statement, outer, hmem, -, -, hat⟩ := exists_classAt hcls
  have hchild := Node.Laid.child hlaid hmem
  obtain ⟨-, hbegins, hlt⟩ := hat.decorator_inside hchild.laid hd
  have := hchild.laid.span.2
  exact ⟨hbegins, by omega⟩

theorem Laid.class_eq {a b : ClassDeclaration} (ha : a ∈ s.classes) (hb : b ∈ s.classes) {d e : Decorator}
    (hd : d ∈ a.allDecorators) (he : e ∈ b.allDecorators) (hnode : d.node = e.node) : a = b := by
  by_contra hne
  have hsymm : Std.Symm fun a b : ClassDeclaration =>
      ∀ d ∈ a.allDecorators, ∀ e ∈ b.allDecorators, Clear d.node e.node :=
    ⟨fun _ _ h e he d hd => (h d hd e he).symm⟩
  have hclear := hlaid.classes_clear.forall ha hb hne d hd e he
  exact hclear.ne (hlaid.decorator_begins hb he).1 hnode

theorem Laid.method_eq {cls : ClassDeclaration} (hcls : cls ∈ s.classes) {a b : Method} (ha : a ∈ cls.methods)
    (hb : b ∈ cls.methods) {d e : Decorator} (hd : d ∈ a.decorators) (he : e ∈ b.decorators)
    (hnode : d.node = e.node) : a = b := by
  by_contra hne
  obtain ⟨statement, outer, hmem, -, -, hat⟩ := exists_classAt hcls
  have hall := hat.decorators_clear (Node.Laid.child hlaid hmem).laid
  have hmethods := (List.pairwise_flatMap.mp (List.pairwise_append.mp hall).1).2
  have hsymm : Std.Symm fun a b : Method => ∀ d ∈ a.decorators, ∀ e ∈ b.decorators, Clear d.node e.node :=
    ⟨fun _ _ h e he d hd => (h d hd e he).symm⟩
  have hclear := hmethods.forall ha hb hne d hd e he
  have hmem' : e ∈ cls.allDecorators := List.mem_append_left _ (List.mem_flatMap.mpr ⟨b, hb, he⟩)
  exact hclear.ne (hlaid.decorator_begins hcls hmem').1 hnode

theorem Laid.method_decorator_ne {cls : ClassDeclaration} (hcls : cls ∈ s.classes) {m : Method}
    (hm : m ∈ cls.methods) {d e : Decorator} (hd : d ∈ m.decorators) (he : e ∈ cls.decorators) :
    d.node ≠ e.node := by
  obtain ⟨statement, outer, hmem, -, -, hat⟩ := exists_classAt hcls
  have hclear := hat.methods_clear_own (Node.Laid.child hlaid hmem).laid (List.mem_flatMap.mpr ⟨m, hm, hd⟩) he
  exact hclear.ne (hlaid.decorator_begins hcls (List.mem_append_right _ he)).1

/-- Whatever stands in the statement of a class is clear of the decorators of the other classes. -/
theorem Laid.clear_of_statement {a b : ClassDeclaration} {statement : Node} (hmem : statement ∈ s.root.children)
    (ha : s.class? statement = some a) (hb : b ∈ s.classes) (hne : a ≠ b) {x : Node} (hx : Below statement x)
    {e : Decorator} (he : e ∈ b.allDecorators) : Clear x e.node := by
  obtain ⟨statement', outer, hmem', -, hclass, hat⟩ := exists_classAt hb
  have hlaid' := (Node.Laid.child hlaid hmem').laid
  refine Node.Laid.cousins_clear hlaid hmem hmem' ?_ hx (hat.decorator_inside hlaid' he).1
  rintro rfl
  rw [ha] at hclass
  exact hne (Option.some.inj hclass)

/-- An import is clear of whatever stands in the statement of a class. -/
theorem Laid.clear_of_import {n : Node} (hn : n ∈ s.root.childrenOf .importStatement) {statement : Node}
    (hmem : statement ∈ s.root.children) (hkind : statement.kind ≠ .importStatement) {x : Node}
    (hx : Below statement x) : Clear x n := by
  obtain ⟨hn, himport⟩ := mem_childrenOf.mp hn
  refine Node.Laid.cousins_clear hlaid hmem hn ?_ hx (.refl n)
  rintro rfl
  exact hkind himport

end Laid

end Source

end ResponseShapes.Syntax
