import ResponseShapes.Proofs.Syntax.Spliced

/-! # Classes of edited texts

The classes that are read from a spliced tree are those of the tree before, with the same names and the same methods;
what is spliced are their decorators (`classes_spliced`). It takes that no edit reaches into the names and the
modifiers that classes and methods are read from (`NamesKept`). -/

namespace ResponseShapes.Syntax

open Node

section Relations
variable (es : List (Edit Char)) (names : List String) (s s' : Source)

/-- The decorators of the second source are those of the first one, spliced. -/
def DecoratorsSpliced (ds ds' : List Decorator) : Prop :=
  ∃ ns ns', ds = ns.map s.decorator ∧ ds' = ns'.map s'.decorator ∧ SplicedAll es names s' ns ns'

/-- The methods are the same but for their decorators. -/
structure Method.Spliced (m m' : Method) : Prop where
  name : m'.name = m.name
  accessibility : m'.accessibility = m.accessibility
  isAccessor : m'.isAccessor = m.isAccessor
  hasPlainName : m'.hasPlainName = m.hasPlainName
  decorators : DecoratorsSpliced es names s s' m.decorators m'.decorators

/-- The classes are the same but for the decorators of the class and its methods. -/
structure ClassDeclaration.Spliced (cls cls' : ClassDeclaration) : Prop where
  name : cls'.name = cls.name
  decorators : DecoratorsSpliced es names s s' cls.decorators cls'.decorators
  methods : List.Forall₂ (Method.Spliced es names s s') cls.methods cls'.methods

/-- No edit reaches into a name or a modifier among the children of the node. -/
def Node.LeadsKept (n : Node) : Prop :=
  ∀ x ∈ n.children, x.isLead = true → x.kind ≠ .decorator → Edit.Untouched es x.start x.stop

/-- No edit reaches into the names and the modifiers of a class and its methods. -/
structure ClassDeclaration.NamesKept (cls : ClassDeclaration) : Prop where
  own : ∀ name, cls.node.child? .name = some name → Edit.Untouched es name.start name.stop
  methods : ∀ body, cls.node.child? .body = some body → ∀ n ∈ body.children, n.kind = .methodDefinition →
    n.LeadsKept es

end Relations

section Reading
variable {es : List (Edit Char)} {names : List String} {s s' : Source} (hcarried : Carried es s s')
include hcarried

theorem alike_of_lead {n x x' : Node} (hlaid : n.Laid s.text) (hx : x ∈ n.children)
    (hfree : Edit.Untouched es x.start x.stop) (h : x.Spliced es names s' x') : x.Alike s s' x' :=
  Spliced.alike hcarried x x' (hlaid.child hx).laid hfree h

theorem leads_eq {n n' : Node} (hlaid : n.Laid s.text) (hleads : n.LeadsKept es) (h : n.Spliced es names s' n')
    {k : Kind} (hk : k ≠ .decorator) (hk' : k ≠ .comment) (hlead : ∀ x : Node, x.kind = k → x.isLead = true) :
    (n.childrenOf k).map s.textOf = (n'.childrenOf k).map s'.textOf :=
  map_related (h.childrenOf hk hk') fun x hx x' hxx' => by
    obtain ⟨hx, hkind⟩ := mem_childrenOf.mp hx
    have hfree := hleads x hx (hlead x hkind) (hkind ▸ hk)
    exact (alike_of_lead hcarried hlaid hx hfree hxx').textOf_eq.symm

theorem method?_spliced {n n' : Node} (hlaid : n.Laid s.text) (hleads : n.LeadsKept es)
    (h : n.Spliced es names s' n') {ds ds' : List Decorator} (hds : DecoratorsSpliced es names s s' ds ds') :
    Option.Rel (Method.Spliced es names s s') (s.method? n ds) (s'.method? n' ds') := by
  have hrole : ∀ x ∈ n.children, x.kind = .decorator → x.role = none := fun x hx => (hlaid.child hx).role_eq
  unfold Source.method?
  rcases rel_cases (h.child? .name hrole) with ⟨hn, hn'⟩ | ⟨x, x', hn, hn', hx⟩
  · rw [hn, hn']
    exact .none
  · rw [hn, hn']
    obtain ⟨hmem, hnameRole⟩ := mem_of_child? hn
    have hlead : x.isLead = true := by simp [isLead, hnameRole]
    have hkind : x.kind ≠ .decorator := fun hk => by
      rw [hrole x hmem hk] at hnameRole
      cases hnameRole
    have hname := alike_of_lead hcarried hlaid hmem (hleads x hmem hlead hkind) hx
    have hmodifiers : ((n'.childrenOf .accessibilityModifier).getLast?).map s'.textOf =
        ((n.childrenOf .accessibilityModifier).getLast?).map s.textOf := by
      rw [← List.getLast?_map, ← List.getLast?_map,
        leads_eq hcarried hlaid hleads h (by decide) (by decide) fun x hx => by simp [isLead, hx]]
    have htokens : ((n'.childrenOf .token).any fun t => ["get", "set"].contains (s'.textOf t)) =
        (n.childrenOf .token).any fun t => ["get", "set"].contains (s.textOf t) := by
      have hlead : ∀ x : Node, x.kind = .token → x.isLead = true := fun x hx => by simp [isLead, hx]
      have htexts := leads_eq hcarried hlaid hleads h (by decide) (by decide) hlead
      have hany : ∀ (r : Source) (ns : List Node), (ns.any fun t => ["get", "set"].contains (r.textOf t)) =
          (ns.map r.textOf).any ["get", "set"].contains := fun r ns => by
        rw [List.any_map]
        rfl
      rw [hany, hany, htexts]
    refine .some ⟨hname.textOf_eq, hmodifiers, htokens, ?_, hds⟩
    simp only [hname.kind_eq]

omit hcarried in
theorem DecoratorsSpliced.inner {ns ns' : List Node} {n n' : Node} (hns : SplicedAll es names s' ns ns')
    (h : n.Spliced es names s' n') :
    DecoratorsSpliced es names s s' (ns.map s.decorator ++ (n.childrenOf .decorator).map s.decorator)
      (ns'.map s'.decorator ++ (n'.childrenOf .decorator).map s'.decorator) := by
  refine ⟨ns ++ n.childrenOf .decorator, ns' ++ n'.childrenOf .decorator, ?_, ?_, hns.append h.decorators⟩
  · rw [List.map_append]
  · rw [List.map_append]

omit hcarried in
theorem methodsFrom_decorator {n : Node} (hk : n.kind = .decorator) (ps ns : List Node) :
    s.methodsFrom (ps.map s.decorator) (n :: ns) = s.methodsFrom ((ps ++ [n]).map s.decorator) ns := by
  rw [Source.methodsFrom, if_pos hk, List.map_append]
  rfl

omit hcarried in
theorem methodsFrom_note {n : Node} (h : n.isNote = true) (ds : List Decorator) (ns : List Node) :
    s.methodsFrom ds (n :: ns) = s.methodsFrom ds ns := by
  have hk := (isNote_eq_true.mp h).1
  rw [Source.methodsFrom, if_neg (by rw [hk]; decide), if_pos hk]

omit hcarried in
theorem methodsFrom_filter (ds : List Decorator) (ns : List Node) :
    s.methodsFrom ds (ns.filter fun x => !x.isNote) = s.methodsFrom ds ns := by
  induction ns generalizing ds with
  | nil => rfl
  | cons n ns ih =>
    cases hnote : n.isNote with
    | true => rw [List.filter_cons_of_neg (by simp [hnote]), methodsFrom_note hnote, ih]
    | false =>
      rw [List.filter_cons_of_pos (by simp [hnote])]
      unfold Source.methodsFrom
      simp only [ih]

/-- The methods among spliced members are the methods, spliced; so are the decorators that stand before them. -/
theorem methodsFrom_spliced {ns ns' : List Node} (h : SplicedAll es names s' ns ns')
    (hlaid : ∀ n ∈ ns, n.Laid s.text) (hleads : ∀ n ∈ ns, n.kind = .methodDefinition → n.LeadsKept es)
    {ps ps' : List Node} (hps : SplicedAll es names s' ps ps') :
    List.Forall₂ (Method.Spliced es names s s') (s.methodsFrom (ps.map s.decorator) ns)
      (s'.methodsFrom (ps'.map s'.decorator) ns') := by
  induction h using SplicedAll.induction generalizing ps ps' with
  | nil => exact .nil
  | note n ns ns' hnote hns ih =>
    rw [methodsFrom_note hnote]
    exact ih (fun m hm => hlaid m (List.mem_cons_of_mem _ hm)) (fun m hm => hleads m (List.mem_cons_of_mem _ hm)) hps
  | kept n n' ns ns' hnote hp hn hns ih =>
    have hrest := @ih (fun m hm => hlaid m (List.mem_cons_of_mem _ hm)) fun m hm => hleads m (List.mem_cons_of_mem _ hm)
    by_cases hk : n.kind = .decorator
    · rw [methodsFrom_decorator hk, methodsFrom_decorator (hn.kind_eq.trans hk)]
      exact hrest (hps.append (.kept hnote hp hn .nil))
    · unfold Source.methodsFrom
      rw [hn.kind_eq, if_neg hk, if_neg hk]
      split
      · exact hrest hps
      · split
        · rename_i hmethod
          refine List.rel_append ?_ (hrest .nil)
          have hrel := method?_spliced hcarried (hlaid n List.mem_cons_self) (hleads n List.mem_cons_self hmethod) hn
            (DecoratorsSpliced.inner (s := s) hps hn)
          rcases rel_cases hrel with ⟨h₁, h₂⟩ | ⟨m, m', h₁, h₂, hm⟩
          · rw [h₁, h₂]
            exact .nil
          · rw [h₁, h₂]
            exact .cons hm .nil
        · exact hrest .nil
  | dropped n ns ns' hp hns ih =>
    rw [methodsFrom_decorator (kind_of_pieceOf (by rw [hp]; decide)), ← List.append_nil ps']
    exact ih (fun m hm => hlaid m (List.mem_cons_of_mem _ hm)) (fun m hm => hleads m (List.mem_cons_of_mem _ hm))
      (hps.append (.dropped hp .nil))
  | replaced n d ns ns' hp hd hns ih =>
    rw [methodsFrom_decorator (kind_of_pieceOf (by rw [hp]; decide)), methodsFrom_decorator hd.1]
    exact ih (fun m hm => hlaid m (List.mem_cons_of_mem _ hm)) (fun m hm => hleads m (List.mem_cons_of_mem _ hm))
      (hps.append (.replaced hp hd .nil))
  | followed n n' d ns ns' hp hn hd hns ih =>
    have hk := kind_of_pieceOf (n := n) (by rw [hp]; decide)
    rw [methodsFrom_decorator hk, methodsFrom_decorator (hn.kind_eq.trans hk), methodsFrom_decorator hd.1,
      List.append_assoc]
    exact ih (fun m hm => hlaid m (List.mem_cons_of_mem _ hm)) (fun m hm => hleads m (List.mem_cons_of_mem _ hm))
      (hps.append (.followed hp hn hd .nil))

/-! ### Classes -/

theorem methods_spliced {n n' : Node} (hlaid : n.Laid s.text)
    (hleads : ∀ body, n.child? .body = some body → ∀ m ∈ body.children, m.kind = .methodDefinition → m.LeadsKept es)
    (h : n.Spliced es names s' n') :
    List.Forall₂ (Method.Spliced es names s s') (s.methods n) (s'.methods n') := by
  unfold Source.methods
  rcases rel_cases (h.child? .body fun x hx => (hlaid.child hx).role_eq) with
    ⟨hb, hb'⟩ | ⟨body, body', hb, hb', hbody⟩
  · rw [hb, hb']
    exact .nil
  · rw [hb, hb']
    have hlaidBody := (hlaid.child (mem_of_child? hb).1).laid
    simp only [← methodsFrom_filter [] body'.children]
    exact methodsFrom_spliced hcarried hbody.parts (fun m hm => (hlaidBody.child hm).laid) (hleads body hb) .nil

theorem classOf?_spliced {n n' : Node} (hlaid : n.Laid s.text) (h : n.Spliced es names s' n') {ns ns' : List Node}
    (hns : SplicedAll es names s' ns ns')
    (hnames : ∀ cls, s.classOf? (ns.map s.decorator) n = some cls → cls.NamesKept es) :
    Option.Rel (ClassDeclaration.Spliced es names s s') (s.classOf? (ns.map s.decorator) n)
      (s'.classOf? (ns'.map s'.decorator) n') := by
  have hdeclares : Source.declaresClass n' = Source.declaresClass n := by
    unfold Source.declaresClass
    rw [h.kind_eq]
  unfold Source.classOf? at hnames ⊢
  rw [hdeclares]
  split
  · rename_i hdecl
    rcases rel_cases (h.child? .name fun x hx => (hlaid.child hx).role_eq) with
      ⟨hx, hx'⟩ | ⟨x, x', hx, hx', hname⟩
    · rw [hx, hx']
      exact .none
    · have hkept := hnames _ (by rw [if_pos hdecl, hx]; rfl)
      have hfree := hkept.own x hx
      rw [hx, hx']
      have halike := alike_of_lead hcarried hlaid (mem_of_child? hx).1 hfree hname
      exact .some ⟨halike.textOf_eq, .inner hns h, methods_spliced hcarried hlaid hkept.methods h⟩
  · exact .none

theorem class?_spliced {n n' : Node} (hlaid : n.Laid s.text) (h : n.Spliced es names s' n')
    (hnames : ∀ cls, s.class? n = some cls → cls.NamesKept es) :
    Option.Rel (ClassDeclaration.Spliced es names s s') (s.class? n) (s'.class? n') := by
  have hrole : ∀ x ∈ n.children, x.kind = .decorator → x.role = none := fun x hx => (hlaid.child hx).role_eq
  have htarget : Option.Rel (Node.Spliced es names s')
      ((n.child? .declaration).orElse fun _ => n.constructs.find? Source.declaresClass)
      ((n'.child? .declaration).orElse fun _ => n'.constructs.find? Source.declaresClass) := by
    rcases rel_cases (h.child? .declaration hrole) with ⟨hd, hd'⟩ | ⟨d, d', hd, hd', hrel⟩
    · rw [hd, hd']
      unfold constructs
      rw [Option.orElse_none, Option.orElse_none, List.find?_filter, List.find?_filter]
      have hnotes : ∀ x : Node, x.isNote = true →
          decide (x.isConstruct = true ∧ Source.declaresClass x = true) = false := fun x hx => by
        simp [isConstruct_of_isNote hx]
      rw [← find?_parts (n := n') hnotes]
      refine SplicedAll.find? (fun x x' hx => ?_) (fun d hd => ?_) hnotes h.parts fun x _ hk => ?_
      · unfold isConstruct Source.declaresClass
        rw [hx.kind_eq]
      · simp [Source.declaresClass, hd.1]
      · simp [Source.declaresClass, hk]
    · rw [hd, hd']
      exact .some hrel
  unfold Source.class? at hnames ⊢
  rw [h.kind_eq]
  split
  · rename_i hexport
    rw [if_pos hexport] at hnames
    rcases rel_cases htarget with ⟨ht, ht'⟩ | ⟨x, x', ht, ht', hrel⟩
    · simp only [ht, ht', Option.bind_none]
      exact .none
    · have hlaid' := (hlaid.child (Source.mem_of_exported ht)).laid
      simp only [ht, Option.bind_some] at hnames
      simp only [ht, ht', Option.bind_some]
      exact classOf?_spliced hcarried hlaid' hrel h.decorators hnames
  · rename_i hexport
    rw [if_neg hexport] at hnames
    have hnil : SplicedAll es names s' [] [] := .nil
    exact classOf?_spliced hcarried hlaid h hnil hnames

/-- The statements that are no imports. -/
def Source.statements (s : Source) : List Node :=
  s.root.parts.filter (·.kind != .importStatement)

omit hcarried in
theorem class?_eq_none {n : Node} (h : n.kind = .decorator ∨ n.kind = .importStatement) : s.class? n = none := by
  unfold Source.class? Source.classOf? Source.declaresClass
  rcases h with h | h <;> simp [h]

omit hcarried in
theorem classes_eq (s : Source) : s.classes =
    (s.statements.filter fun n => n.isConstruct && n.kind != .decorator).filterMap s.class? := by
  unfold Source.classes constructs Source.statements
  rw [← filter_parts fun _ => isConstruct_of_isNote, List.filter_filter, List.filterMap_filter, List.filterMap_filter]
  apply List.filterMap_congr
  intro n _
  by_cases hdec : n.kind = .decorator
  · rw [class?_eq_none (Or.inl hdec)]
    simp
  · by_cases himport : n.kind = .importStatement
    · rw [class?_eq_none (Or.inr himport)]
      simp
    · simp [hdec, himport]

/-- The classes of a spliced tree are the classes of the tree, spliced. -/
theorem classes_spliced (hlaid : s.Laid) (hnames : ∀ cls ∈ s.classes, cls.NamesKept es)
    (h : SplicedAll es names s' s.statements s'.statements) :
    List.Forall₂ (ClassDeclaration.Spliced es names s s') s.classes s'.classes := by
  have hkept : List.Forall₂ (Node.Spliced es names s')
      (s.statements.filter fun n => n.isConstruct && n.kind != .decorator)
      (s'.statements.filter fun n => n.isConstruct && n.kind != .decorator) := by
    refine SplicedAll.filter (fun x x' hx => ?_) (fun d hd => ?_) (fun x hx => ?_) h fun x hx => ?_
    · unfold isConstruct
      rw [hx.kind_eq]
    · simp [hd.1]
    · rw [isConstruct_of_isNote hx]
      rfl
    · simp [hx]
  have hmem : ∀ n ∈ s.statements.filter fun n => n.isConstruct && n.kind != .decorator,
      n ∈ s.root.children ∧ n.isConstruct = true := by
    intro n hn
    obtain ⟨hn, hcond⟩ := List.mem_filter.mp hn
    rw [Bool.and_eq_true] at hcond
    exact ⟨(List.mem_filter.mp (List.mem_filter.mp hn).1).1, hcond.1⟩
  rw [classes_eq s, classes_eq s']
  refine List.rel_filterMap ?_ ((List.forall₂_and_left _ _).mpr ⟨hmem, hkept⟩)
  rintro n n' ⟨⟨hn, hconstruct⟩, hrel⟩
  refine class?_spliced hcarried (Node.Laid.child hlaid hn).laid hrel fun cls hcls => hnames cls ?_
  exact List.mem_filterMap.mpr ⟨n, mem_constructs.mpr ⟨hn, hconstruct⟩, hcls⟩

end Reading

end ResponseShapes.Syntax
