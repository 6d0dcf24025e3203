import ResponseShapes.Proofs.Marker.Apart

/-! # What rewriting leaves as it is

Rewriting gives up the markers of handlers that it documents, the markers of classes that do not keep theirs, the
imports that change, and white space directly behind these. All other characters stay, in their order (`Frame`). A
node that is clear of what is given up, and in which nothing is put, stays in one piece. -/

namespace ResponseShapes

open Syntax Syntax.Node

/-- The position lies in the node or in the white space directly behind it. -/
def Syntax.Node.Takes (text : List Char) (n : Node) (p : Nat) : Prop :=
  n.start ≤ p ∧ ∀ i, n.stop ≤ i → i ≤ p → (text[i]?.any isPadding) = true

namespace Rewritten

variable (c : Settings) (t : LookupTable) (path : Option Path) (s : Source)

/-- Where the character at a position stands after rewriting. -/
def place (p : Nat) : Nat :=
  Edit.moved (edits c path s (Plan.ofSource c t s)) p

/-- The nodes that are given up: markers of methods that are documented, markers of classes that do not keep them, and
    imports that change when anything is edited. -/
inductive GivenUp : Node → Prop
  | marker {cls : ClassDeclaration} {m : Method} {d : Decorator} (hcls : cls ∈ s.classes) (hm : m ∈ cls.methods)
      (hdoc : (cls.handling c t s m).isDocumented = true) (hd : d ∈ m.markers c) : GivenUp d.node
  | classMarker {cls : ClassDeclaration} {d : Decorator} (hcls : cls ∈ s.classes)
      (hkeep : cls.keepsMarkers c t s = false) (hd : d ∈ cls.markers c) : GivenUp d.node
  | changedImport {x : Import × ImportChange} (hedited : edits c path s (Plan.ofSource c t s) ≠ [])
      (hx : x ∈ importChanges c ((Plan.ofSource c t s).needs c path s.imports) s.imports)
      (hchange : x.2 ≠ .kept) : GivenUp x.1.node

/-- The nodes at which a source can be edited: the decorators of classes and methods, and the imports. -/
inductive Site : Node → Prop
  | decorator {cls : ClassDeclaration} {d : Decorator} (hcls : cls ∈ s.classes) (hd : d ∈ cls.allDecorators) :
      Site d.node
  | imported {n : Node} (hn : n ∈ s.root.childrenOf .importStatement) : Site n

/-- A character stays when it lies neither in a node that is given up nor in the white space behind one. -/
def Stays (p : Nat) : Prop :=
  p < s.text.length ∧ ∀ n, GivenUp c t path s n → ¬n.Takes s.text p

/-- The node stands in the text in one piece, from its first character on that is no white space. -/
def Survives (text : List Char) (n : Node) : Prop :=
  ∀ a, n.start ≤ a → (s.text[a]?.any fun ch => !isPadding ch) = true →
    (text.drop (place c t path s a)).take (n.stop - a) = s.slice a n.stop

/-- The node stands in the text in one piece. -/
def Whole (text : List Char) (n : Node) : Prop :=
  (text.drop (place c t path s n.start)).take (n.stop - n.start) = s.charsOf n

variable {c t path s}

theorem Survives.whole {text : List Char} {n : Node} (h : Survives c t path s text n) (hn : n.Begins s.text) :
    Whole c t path s text n :=
  h n.start (Nat.le_refl _) hn.2

section Edits
variable {e : Edit Char}

theorem takes_of_at {n : Node} (h : At s n e) {p : Nat} (h₁ : e.start ≤ p) (h₂ : p < e.stop) : n.Takes s.text p := by
  cases h with
  | across start_eq _ _ padding => exact ⟨by omega, fun i hi hip => padding i hi (by omega)⟩
  | behind start_eq stop_eq => omega

theorem documentingEdits_at (m : Method) (text : String) (hlen : ∀ d ∈ m.decorators, d.node.stop ≤ s.text.length)
    (he : e ∈ documentingEdits c.conventions s m text) : e.stop = e.start ∨ ∃ d ∈ m.markers c, At s d.node e := by
  unfold documentingEdits at he
  cases h : markersOf c.conventions m.decorators with
  | nil =>
    rw [h] at he
    simp only [insertion] at he
    split at he
    · obtain rfl := List.mem_singleton.mp he
      exact Or.inl rfl
    · cases he
  | cons first others =>
    have hmem : ∀ d ∈ first :: others, d ∈ m.markers c := fun d hd => by
      unfold Method.markers
      rwa [h]
    have hstop : ∀ d ∈ first :: others, d.node.stop ≤ s.text.length := fun d hd =>
      hlen d (mem_markersOf.mp (hmem d hd)).1
    rw [h] at he
    rcases List.mem_cons.mp he with rfl | he
    · have hfirst : first ∈ first :: others := List.mem_cons_self
      exact Or.inr ⟨first, hmem first hfirst, replacement_at (hstop first hfirst) _⟩
    · obtain ⟨d, hd, rfl⟩ := List.mem_map.mp he
      have hd := List.mem_cons_of_mem first hd
      exact Or.inr ⟨d, hmem d hd, removal_at (hstop d hd)⟩

/-- An edit replaces something only at a node that is given up. -/
theorem givenUp_of_mem_edits (hlaid : s.Laid) (he : e ∈ edits c path s (Plan.ofSource c t s)) :
    e.stop = e.start ∨ ∃ n, GivenUp c t path s n ∧ At s n e := by
  have hne := List.ne_nil_of_mem he
  rcases mem_edits he with he | ⟨x, hx, he⟩ | ⟨hpoint, -⟩
  · obtain ⟨cls, hcls, ⟨m, hm, he⟩ | ⟨hkeep, d, hd, rfl⟩⟩ := Plan.mem_ofSource_edits.mp he
    · have hlen : ∀ d ∈ m.decorators, d.node.stop ≤ s.text.length := fun d hd =>
        (hlaid.decorator_begins hcls (mem_allDecorators_of_method hm hd)).2
      cases hh : cls.handling c t s m with
      | documented mapping o =>
        rw [hh] at he
        have hdoc : (cls.handling c t s m).isDocumented = true := Handling.isDocumented_iff.mpr ⟨mapping, o, hh⟩
        exact (documentingEdits_at m _ hlen he).imp_right fun ⟨d, hd, hat⟩ => ⟨d.node, .marker hcls hm hdoc hd, hat⟩
      | unmarked =>
        rw [hh] at he
        cases he
      | unresolved =>
        rw [hh] at he
        cases he
    · have hlen := (hlaid.decorator_begins hcls (List.mem_append_right _ (mem_markersOf.mp hd).1)).2
      exact Or.inr ⟨d.node, .classMarker hcls hkeep hd, removal_at hlen⟩
  · have hlen := (import_child hlaid hx).2.2
    refine Or.inr ⟨x.1.node, .changedImport hne hx fun hkept => ?_, changeEdit_at hlen he⟩
    rw [hkept] at he
    cases he
  · exact Or.inl hpoint

end Edits

/-! ### Sites -/

section Sites
variable {m n x : Node} {e : Edit Char}

theorem GivenUp.site (h : GivenUp c t path s n) : Site s n := by
  cases h with
  | marker hcls hm _ hd => exact .decorator hcls (mem_allDecorators_of_method hm (mem_markersOf.mp hd).1)
  | classMarker hcls _ hd => exact .decorator hcls (List.mem_append_right _ (mem_markersOf.mp hd).1)
  | changedImport _ hx _ => exact .imported (importChanges_nodes _ _ ▸ List.mem_map_of_mem hx)

theorem Site.kind_ne_comment (h : Site s n) : n.kind ≠ .comment := by
  intro hkind
  cases h with
  | decorator hcls hd =>
    obtain ⟨statement, outer, -, -, -, hat⟩ := Source.exists_classAt hcls
    rw [(hat.stands hd).1] at hkind
    cases hkind
  | imported hn =>
    rw [(mem_childrenOf.mp hn).2] at hkind
    cases hkind

theorem Site.below (h : Site s n) (hlaid : s.Laid) : Below s.root n ∧ n.Begins s.text := by
  cases h with
  | decorator hcls hd =>
    obtain ⟨statement, outer, hmem, -, -, hat⟩ := Source.exists_classAt hcls
    obtain ⟨hbelow, hbegins, -⟩ := hat.decorator_inside (Node.Laid.child hlaid hmem).laid hd
    exact ⟨.child hmem hbelow, hbegins⟩
  | imported hn =>
    obtain ⟨hmem, hkind⟩ := mem_childrenOf.mp hn
    exact ⟨.of_mem hmem, (Node.Laid.child hlaid hmem).begins (isLead_of_import hkind)⟩

theorem start_of_mem_edits (hlaid : s.Laid) (he : e ∈ edits c path s (Plan.ofSource c t s)) :
    e.start = 0 ∨ ∃ n, Site s n ∧ (e.start = n.start ∨ e.start = n.stop) := by
  rcases mem_edits he with he | ⟨y, hy, he⟩ | ⟨-, he⟩
  · obtain ⟨cls, hcls, d, hd, hat⟩ := plan_edit_at hlaid he
    refine Or.inr ⟨d.node, .decorator hcls hd, ?_⟩
    cases hat with
    | across start_eq => exact Or.inl start_eq
    | behind start_eq => exact Or.inr start_eq
  · obtain ⟨hmem, -, hlen⟩ := import_child hlaid hy
    refine Or.inr ⟨y.1.node, .imported hmem, ?_⟩
    cases changeEdit_at hlen he with
    | across start_eq => exact Or.inl start_eq
    | behind start_eq => exact Or.inr start_eq
  · cases he with
    | behind y hy _ start_eq => exact Or.inr ⟨y.1.node, .imported (import_child hlaid hy).1, Or.inr start_eq⟩
    | ahead y rest hchanges start_eq =>
      have hy := (import_child hlaid (hchanges ▸ List.mem_cons_self)).1
      exact Or.inr ⟨y.1.node, .imported hy, Or.inl start_eq⟩
    | atStart _ start_eq => exact Or.inl start_eq

/-- The node is clear of what is given up, and a site is clear of it or around it. -/
structure Spared (c : Settings) (t : LookupTable) (path : Option Path) (s : Source) (x : Node) : Prop where
  clear : ∀ n, GivenUp c t path s n → Clear x n
  whole : ∀ n, Site s n → Clear x n ∨ Below n x

theorem Spared.untouched (h : Spared c t path s x) (hlaid : s.Laid) {a : Nat} (ha : x.start ≤ a)
    (hchar : (s.text[a]?.any fun ch => !isPadding ch) = true) :
    Edit.Untouched (edits c path s (Plan.ofSource c t s)) a x.stop := by
  intro e he
  by_cases hpoint : e.stop = e.start
  · rcases start_of_mem_edits hlaid he with hzero | ⟨n, hn, hends⟩
    · exact Or.inl (by omega)
    · have hlaid' := (Node.Laid.below hlaid (hn.below hlaid).1).1
      have hspan := hlaid'.span
      rcases h.whole n hn with hclear | hbelow
      · rcases hclear with hclear | hclear
        · exact Or.inr (by omega)
        · exact Or.inl (by omega)
      · obtain ⟨-, hstart, hstop⟩ := hlaid'.below hbelow
        rcases hends with hends | hends
        · exact Or.inl (by omega)
        · exact Or.inr (by omega)
  · obtain ⟨n, hn, hat⟩ := (givenUp_of_mem_edits hlaid he).resolve_left hpoint
    have hbegins := (hn.site.below hlaid).2
    have hlt := hbegins.1
    have hbounds := hat.bounds hbegins
    rcases h.clear n hn with hclear | hclear
    · exact Or.inr (by omega)
    · -- White space behind the node is all that the edit takes along.
      refine Or.inl (Nat.le_of_not_lt fun hover => ?_)
      have hstart : e.start ≤ a := by
        cases hat with
        | across start_eq => omega
        | behind start_eq => omega
      have hpad := (takes_of_at hat hstart hover).2 a (by omega) (Nat.le_refl _)
      cases hget : s.text[a]? with
      | none =>
        rw [hget] at hchar
        cases hchar
      | some ch =>
        rw [hget, Option.any_some] at hchar hpad
        rw [hpad] at hchar
        cases hchar

theorem Spared.survives (h : Spared c t path s x) (hlaid : s.Laid) (hlen : x.stop ≤ s.text.length) {r : Rewritten}
    (hr : ofSource c t path s = .ok r) : Survives c t path s r.text.toList x := by
  intro a ha hchar
  by_cases hle : a ≤ x.stop
  · exact Edit.slice_apply (edits_fit hlaid) (edits_apart hlaid) (ofSource_eq_ok.mp hr).1 hle hlen
      (h.untouched hlaid ha hchar)
  · have hzero : x.stop - a = 0 := by omega
    rw [Source.slice, hzero, List.take_zero, List.take_zero]

end Sites

/-! ### What is spared -/

section Spared
variable {cls : ClassDeclaration} {d : Decorator} {m : Method} {n x body : Node} (hlaid : s.Laid)
include hlaid

theorem Site.eq_or_clear (hx : Site s x) (hn : Site s n) : x = n ∨ Clear x n := by
  cases hx with
  | @decorator a d ha hd =>
    cases hn with
    | @decorator b e hb he =>
      have hd' : d ∈ s.classes.flatMap (·.allDecorators) := List.mem_flatMap.mpr ⟨a, ha, hd⟩
      have he' : e ∈ s.classes.flatMap (·.allDecorators) := List.mem_flatMap.mpr ⟨b, hb, he⟩
      have hsymm : Std.Symm fun a b : Decorator => Clear a.node b.node := ⟨fun _ _ h => h.symm⟩
      by_cases hde : d = e
      · exact Or.inl (congrArg Decorator.node hde)
      · exact Or.inr (hlaid.decorators_clear.forall hd' he' hde)
    | imported hn =>
      exact Or.inr ((decorator_clear_import hlaid ha hd hn).imp_left Nat.le_of_lt)
  | imported hx =>
    cases hn with
    | decorator hb he => exact Or.inr ((decorator_clear_import hlaid hb he hx).imp_left Nat.le_of_lt).symm
    | imported hn =>
      by_cases hxn : x = n
      · exact Or.inl hxn
      · exact Or.inr (Node.Laid.siblings_clear hlaid (mem_childrenOf.mp hx).1 (mem_childrenOf.mp hn).1 hxn)

theorem Spared.of_site (hx : Site s x) (h : ¬GivenUp c t path s x) : Spared c t path s x where
  clear n hn := (hx.eq_or_clear hlaid hn.site).resolve_left fun heq => h (heq ▸ hn)
  whole n hn := by
    rcases hx.eq_or_clear hlaid hn with rfl | hclear
    · exact Or.inr (.refl x)
    · exact Or.inl hclear

omit hlaid in
theorem Spared.of_clear (h : ∀ n, Site s n → Clear x n) : Spared c t path s x where
  clear n hn := h n hn.site
  whole n hn := Or.inl (h n hn)

/-- A decorator that is given up is a marker of a method that is documented or of a class that does not keep it. -/
theorem GivenUp.of_decorator (hcls : cls ∈ s.classes) (hd : d ∈ cls.allDecorators)
    (h : GivenUp c t path s d.node) : isMarker c.conventions d = true ∧
      ((∃ m ∈ cls.methods, (cls.handling c t s m).isDocumented = true ∧ d ∈ m.decorators) ∨
        cls.keepsMarkers c t s = false ∧ d ∈ cls.decorators) := by
  have hsame : ∀ {b : ClassDeclaration} {e : Decorator}, b ∈ s.classes → e ∈ b.allDecorators → d.node = e.node →
      b = cls ∧ e = d := by
    intro b e hb he heq
    obtain rfl := hlaid.class_eq hb hcls he hd heq.symm
    obtain ⟨statement, outer, -, -, -, hat⟩ := Source.exists_classAt hb
    exact ⟨rfl, by rw [hat.decorator_eq he, hat.decorator_eq hd, heq]⟩
  generalize hn : d.node = n at h
  cases h with
  | @marker b m e hb hm hdoc he =>
    obtain ⟨he, hmark⟩ := mem_markersOf.mp he
    obtain ⟨rfl, rfl⟩ := hsame hb (mem_allDecorators_of_method hm he) hn
    exact ⟨hmark, Or.inl ⟨m, hm, hdoc, he⟩⟩
  | @classMarker b e hb hkeep he =>
    obtain ⟨he, hmark⟩ := mem_markersOf.mp he
    obtain ⟨rfl, rfl⟩ := hsame hb (List.mem_append_right _ he) hn
    exact ⟨hmark, Or.inr ⟨hkeep, he⟩⟩
  | changedImport _ hx _ =>
    obtain ⟨hmem, hbegins, -⟩ := import_child hlaid hx
    have hclear : Clear d.node _ := (decorator_clear_import hlaid hcls hd hmem).imp_left Nat.le_of_lt
    exact absurd hn (hclear.ne hbegins)

theorem spared_of_not_marker (hcls : cls ∈ s.classes) (hd : d ∈ cls.allDecorators)
    (hmark : isMarker c.conventions d = false) : Spared c t path s d.node := by
  refine .of_site hlaid (.decorator hcls hd) fun hgiven => ?_
  rw [(hgiven.of_decorator hlaid hcls hd).1] at hmark
  cases hmark

theorem spared_of_unresolved (hcls : cls ∈ s.classes) (hm : m ∈ cls.unresolved c t s) (hd : d ∈ m.decorators) :
    Spared c t path s d.node := by
  obtain ⟨hm, hunres⟩ := mem_unresolved.mp hm
  have hd' := mem_allDecorators_of_method hm hd
  refine .of_site hlaid (.decorator hcls hd') fun hgiven => ?_
  rcases (hgiven.of_decorator hlaid hcls hd').2 with ⟨m', hm', hdoc, hd''⟩ | ⟨-, hown⟩
  · obtain rfl := hlaid.method_eq hcls hm hm' hd hd'' rfl
    rw [hunres] at hdoc
    cases hdoc
  · exact hlaid.method_decorator_ne hcls hm hd hown rfl

/-- What stands in the statement of a class and is clear of the decorators of the class is clear of all sites. -/
theorem clear_of_sites {statement : Node} (hmem : statement ∈ s.root.children)
    (hkind : statement.kind ≠ .importStatement) (hclass : s.class? statement = some cls) (hx : Below statement x)
    (hown : ∀ d ∈ cls.allDecorators, Clear x d.node) : ∀ n, Site s n → Clear x n := by
  intro n hn
  cases hn with
  | @decorator b e hb he =>
    by_cases hbc : cls = b
    · subst hbc
      exact hown e he
    · exact hlaid.clear_of_statement hmem hclass hb hbc hx he
  | imported hn => exact hlaid.clear_of_import hn hmem hkind hx

/-- A member of a class in which no decorators stand is spared. -/
theorem spared_of_member (hcls : cls ∈ s.classes) (hbody : cls.node.child? .body = some body)
    (hx : x ∈ body.children) (hkind : x.kind ≠ .decorator)
    (hplain : x.kind = .methodDefinition → x.childrenOf .decorator = []) : Spared c t path s x := by
  obtain ⟨statement, outer, hmem, himport, hclass, hat⟩ := Source.exists_classAt hcls
  have hlaid' := (Node.Laid.child hlaid hmem).laid
  have hbelow : Below statement x := hat.below.trans (.child (mem_of_child? hbody).1 (.of_mem hx))
  refine .of_clear (clear_of_sites hlaid hmem himport hclass hbelow fun d hd => ?_)
  refine hat.clear_of_member hlaid' hbody hx hplain hd fun heq => hkind ?_
  rw [← heq]
  exact (hat.stands hd).1

theorem spared_of_member_part {member : Node} (hcls : cls ∈ s.classes) (hbody : cls.node.child? .body = some body)
    (hmember : member ∈ body.children) (hkind : member.kind ≠ .decorator) (hx : x ∈ member.children)
    (hxkind : x.kind ≠ .decorator) : Spared c t path s x := by
  obtain ⟨statement, outer, hmem, himport, hclass, hat⟩ := Source.exists_classAt hcls
  have hlaid' := (Node.Laid.child hlaid hmem).laid
  have hbelow : Below statement x :=
    hat.below.trans (.child (mem_of_child? hbody).1 (.child hmember (.of_mem hx)))
  exact .of_clear (clear_of_sites hlaid hmem himport hclass hbelow fun d hd =>
    hat.clear_of_member_part hlaid' hbody hmember hkind hx hxkind hd)

omit hlaid in
theorem below_next {y other next : Node} (hy : y.Laid s.text) (hother : other ∈ y.children) (hx : Below other x)
    (hnext : next ∈ y.children) (hn : Below next n) (hxn : Below x n) (hbegins : n.Begins s.text) : Below next x := by
  by_cases hsame : next = other
  · subst hsame
    exact hx
  · exact absurd rfl ((hy.cousins_clear hnext hother hsame hn (hx.trans hxn)).ne hbegins)

omit hlaid in
theorem below_next_of_ne {y next : Node} (hy : y.Laid s.text) (hyx : Below y x) (hne : y.kind ≠ x.kind)
    (hnext : next ∈ y.children) (hn : Below next n) (hxn : Below x n) (hbegins : n.Begins s.text) : Below next x := by
  cases hyx with
  | refl => exact absurd rfl hne
  | child hother hx => exact below_next hy hother hx hnext hn hxn hbegins

/-- A decorator around a site stands in it: nothing on the way to a site is a decorator. -/
theorem Site.below_of_around {top : Node} (hn : Site s n) (htop : top ∈ s.root.children) (hx : Below top x)
    (hkind : x.kind = .decorator) (hxn : Below x n) : Below n x := by
  have hbegins := (hn.below hlaid).2
  cases hn with
  | imported hn => exact below_next hlaid htop hx (mem_childrenOf.mp hn).1 (.refl n) hxn hbegins
  | @decorator cls d hcls hd =>
    obtain ⟨statement, outer, hmem, -, -, hat⟩ := Source.exists_classAt hcls
    have hlaid' := (Node.Laid.child hlaid hmem).laid
    have hclsKind : cls.node.kind ≠ x.kind := fun h => hat.ne_of_decorator (h.trans hkind) rfl
    have hstatement := below_next hlaid htop hx hmem (hat.decorator_inside hlaid' hd).1 hxn hbegins
    obtain ⟨-, hstands⟩ := hat.stands hd
    -- From the statement to the class itself, if the decorator stands in it.
    have hclass : Below cls.node d.node → Below cls.node x := by
      intro hd'
      rcases hat.place with ⟨hnode, -⟩ | ⟨hexport, hmem', -⟩
      · rwa [hnode]
      · refine below_next_of_ne hlaid' hstatement ?_ hmem' hd' hxn hbegins
        rw [hexport, hkind]
        decide
    have hlaidClass := hat.laid hlaid'
    cases hstands with
    | outside hclsMem hn =>
      refine below_next_of_ne hlaid' hstatement ?_ hn (.refl _) hxn hbegins
      rcases hat.place with ⟨hnode, -⟩ | ⟨hexport, -⟩
      · rwa [← hnode]
      · rw [hexport, hkind]
        decide
    | inClass hn => exact below_next_of_ne hlaidClass (hclass (.of_mem hn)) hclsKind hn (.refl _) hxn hbegins
    | amongMembers body hbody hn =>
      obtain ⟨hbodyMem, hlaidBody, hbodyKind⟩ := hat.body hlaid' hbody
      have hbodyX := below_next_of_ne hlaidClass (hclass (.child hbodyMem (.of_mem hn))) hclsKind hbodyMem
        (.of_mem hn) hxn hbegins
      exact below_next_of_ne hlaidBody hbodyX (hkind ▸ hbodyKind) hn (.refl _) hxn hbegins
    | inMember body member hbody hmember hmethod hn =>
      obtain ⟨hbodyMem, hlaidBody, hbodyKind⟩ := hat.body hlaid' hbody
      have hbodyX := below_next_of_ne hlaidClass (hclass (.child hbodyMem (.child hmember (.of_mem hn)))) hclsKind
        hbodyMem (.child hmember (.of_mem hn)) hxn hbegins
      have hmemberX := below_next_of_ne hlaidBody hbodyX (hkind ▸ hbodyKind) hmember (.of_mem hn) hxn hbegins
      refine below_next_of_ne (hlaidBody.child hmember).laid hmemberX ?_ hn (.refl _) hxn hbegins
      rw [hmethod, hkind]
      decide

theorem spared_of_decorator {top : Node} (htop : top ∈ s.root.children) (hx : Below top x)
    (hkind : x.kind = .decorator) (hout : ∀ n, GivenUp c t path s n → ¬Below n x) : Spared c t path s x := by
  have hsite : ∀ n, Site s n → Below n x ∨ Clear x n := by
    intro n hn
    rcases Node.Laid.nested_or_clear hlaid (.child htop hx) (hn.below hlaid).1 with h | h | h
    · exact Or.inl (hn.below_of_around hlaid htop hx hkind h)
    · exact Or.inl h
    · exact Or.inr h
  exact ⟨fun n hn => (hsite n hn.site).resolve_left (hout n hn), fun n hn => (hsite n hn).symm⟩

theorem spared_of_comment (hx : Below s.root x) (hkind : x.kind = .comment) (hleaf : x.children = [])
    (hout : ∀ n, GivenUp c t path s n → ¬Below n x) : Spared c t path s x := by
  have hsite : ∀ n, Site s n → Below n x ∨ Clear x n := by
    intro n hn
    rcases Node.Laid.nested_or_clear hlaid hx (hn.below hlaid).1 with h | h | h
    · cases h with
      | refl => exact absurd hkind hn.kind_ne_comment
      | child hc =>
        rw [hleaf] at hc
        cases hc
    · exact Or.inl h
    · exact Or.inr h
  exact ⟨fun n hn => (hsite n hn.site).resolve_left (hout n hn), fun n hn => (hsite n hn).symm⟩

end Spared

/-! ### The frame -/

/-- What a rewritten source keeps of the source before. -/
structure Frame (c : Settings) (t : LookupTable) (path : Option Path) (s : Source) (r : Rewritten) : Prop where
  char : ∀ p, Stays c t path s p → r.text.toList[place c t path s p]? = s.text[p]?
  order : ∀ p q, Stays c t path s p → Stays c t path s q → p < q → place c t path s p < place c t path s q
  /-- Every decorator of a class or a method but its markers. -/
  own : ∀ cls ∈ s.classes, ∀ d ∈ cls.allDecorators, isMarker c.conventions d = false →
    Whole c t path s r.text.toList d.node
  /-- Every decorator anywhere that does not stand in what is given up. -/
  decorator : ∀ top ∈ s.root.children, ∀ x, Below top x → x.kind = .decorator →
    (∀ n, GivenUp c t path s n → ¬Below n x) → Survives c t path s r.text.toList x
  /-- The markers of the methods that are not resolved. -/
  marker : ∀ cls ∈ s.classes, ∀ m ∈ cls.unresolved c t s, ∀ d ∈ m.markers c,
    Whole c t path s r.text.toList d.node
  unresolved : r.unresolved = s.classes.flatMap fun cls => (cls.unresolved c t s).map cls.label
  /-- Every member of a class, unless it is a method with decorators in it. -/
  member : ∀ cls ∈ s.classes, ∀ body, cls.node.child? .body = some body → ∀ x ∈ body.children,
    x.kind ≠ .decorator → (x.kind = .methodDefinition → x.childrenOf .decorator = []) →
      Survives c t path s r.text.toList x
  /-- Every other part of a member. -/
  part : ∀ cls ∈ s.classes, ∀ body, cls.node.child? .body = some body → ∀ x ∈ body.children,
    x.kind ≠ .decorator → ∀ y ∈ x.children, y.kind ≠ .decorator → Survives c t path s r.text.toList y
  comment : ∀ x, Below s.root x → x.kind = .comment → x.children = [] →
    (∀ n, GivenUp c t path s n → ¬Below n x) → Survives c t path s r.text.toList x

section Frame
variable {p : Nat} (hlaid : s.Laid)
include hlaid

theorem Stays.untouched (h : Stays c t path s p) :
    Edit.Untouched (edits c path s (Plan.ofSource c t s)) p (p + 1) := by
  intro e he
  rcases givenUp_of_mem_edits hlaid he with hpoint | ⟨n, hn, hat⟩
  · by_cases hp : e.stop ≤ p
    · exact Or.inl hp
    · exact Or.inr (by omega)
  · by_cases hp : e.start ≤ p ∧ p < e.stop
    · exact absurd (takes_of_at hat hp.1 hp.2) (h.2 n hn)
    · have hfit := (edits_fit hlaid e he).1
      omega

/-- Rewriting a source keeps what is not given up: each character that stays stands at its place in the result, in the
    order of before, and decorators, markers of methods that are not resolved, members and comments stay whole. -/
theorem ofSource_keeps_frame (c : Settings) (t : LookupTable) (path : Option Path) :
    ∃ r, ofSource c t path s = .ok r ∧ Frame c t path s r := by
  obtain ⟨r, hr⟩ : ∃ r, ofSource c t path s = .ok r := exists_ofSource hlaid
  have htext := (ofSource_eq_ok.mp hr).1
  have hfit : ∀ e ∈ edits c path s (Plan.ofSource c t s), e.Fits s.text.length := edits_fit hlaid
  have hapart : (edits c path s (Plan.ofSource c t s)).Pairwise Edit.Apart := edits_apart hlaid
  have hsurvives : ∀ {x : Node}, Spared c t path s x → Below s.root x → Survives c t path s r.text.toList x :=
    fun hspared hx => hspared.survives hlaid (Node.Laid.below hlaid hx).1.span.2 hr
  have hsite : ∀ {cls : ClassDeclaration} {d : Decorator}, cls ∈ s.classes → d ∈ cls.allDecorators →
      Below s.root d.node := fun hcls hd => ((Site.decorator hcls hd).below hlaid).1
  have hmember : ∀ {cls : ClassDeclaration} {body x : Node}, cls ∈ s.classes →
      cls.node.child? .body = some body → x ∈ body.children → Below s.root x := by
    intro cls body x hcls hbody hx
    obtain ⟨statement, outer, hmem, -, -, hat⟩ := Source.exists_classAt hcls
    exact .child hmem (hat.below.trans (.child (mem_of_child? hbody).1 (.of_mem hx)))
  refine ⟨r, hr, ?_⟩
  exact {
    char := fun p hp => Edit.getElem?_apply hfit hapart htext hp.1 (hp.untouched hlaid)
    order := fun p q hp hq hpq => Edit.moved_lt hfit hapart hpq (Nat.le_of_lt hq.1) (hp.untouched hlaid)
    own := fun cls hcls d hd hmark => (hsurvives (spared_of_not_marker hlaid hcls hd hmark)
      (hsite hcls hd)).whole (hlaid.decorator_begins hcls hd).1
    decorator := fun top htop x hx hkind hout =>
      hsurvives (spared_of_decorator hlaid htop hx hkind hout) (.child htop hx)
    marker := fun cls hcls m hm d hd => by
      have hd := (mem_markersOf.mp hd).1
      have hd' := mem_allDecorators_of_method (mem_unresolved.mp hm).1 hd
      exact (hsurvives (spared_of_unresolved hlaid hcls hm hd) (hsite hcls hd')).whole
        (hlaid.decorator_begins hcls hd').1
    unresolved := (ofSource_eq_ok.mp hr).2.2.trans Plan.ofSource_unresolved
    member := fun cls hcls body hbody x hx hkind hplain =>
      hsurvives (spared_of_member hlaid hcls hbody hx hkind hplain) (hmember hcls hbody hx)
    part := fun cls hcls body hbody x hx hkind y hy hykind =>
      hsurvives (spared_of_member_part hlaid hcls hbody hx hkind hy hykind)
        ((hmember hcls hbody hx).trans (.of_mem hy))
    comment := fun x hx hkind hleaf hout => hsurvives (spared_of_comment hlaid hx hkind hleaf hout) hx }

end Frame

theorem frame_marked_users : ∃ s, Source.ofText? Users.marked = some s ∧ s.Laid ∧
    ∃ r, ofSource Users.settings (Users.table ["findAll"]) none s = .ok r ∧
      Frame Users.settings (Users.table ["findAll"]) none s r := by
  obtain ⟨s, hread, hlaid⟩ := Users.marked_laid
  exact ⟨s, hread, hlaid, ofSource_keeps_frame hlaid Users.settings (Users.table ["findAll"]) none⟩

end Rewritten

end ResponseShapes
