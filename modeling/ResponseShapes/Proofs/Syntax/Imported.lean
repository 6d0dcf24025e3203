import ResponseShapes.Proofs.Syntax.Imports
import ResponseShapes.Proofs.Syntax.Leaves

/-! # What imports were read from

Each import at the top of a source lists specifiers that are written as such, and names its module by a string behind
which it ends with a semicolon, with attributes or with comments (`isRead_of_parse?`). -/

namespace ResponseShapes.Syntax

open Syntax.Parser Grammar

variable {text w : List Char} {phrase : Phrases} {c c' : Cursor} {holds : Node → Prop} {p q : Parser Unit} {kind : Kind}

/-! ### Lists of names -/

/-- What the node lists in braces are specifiers. -/
def ListsWritten (text : List Char) (n : Node) : Prop :=
  n.kind = .namedImports → ∀ m ∈ n.children, m.kind = .importSpecifier → ∃ p, Listed p ∧ IsSpecifier text p m

/-- The node plays no part, and what it lists as the clause of an import are specifiers. -/
def ClauseWritten (text : List Char) (n : Node) : Prop :=
  n.role = none ∧ (n.kind = .importClause → ∀ m ∈ n.children, ListsWritten text m)

theorem ListsWritten.of_ne {n : Node} (h : n.kind ≠ .namedImports) : ListsWritten text n :=
  fun hkind => absurd hkind h

theorem ClauseWritten.of_ne {n : Node} (hrole : n.role = none) (h : n.kind ≠ .importClause) : ClauseWritten text n :=
  ⟨hrole, fun hkind => absurd hkind h⟩

theorem adds_specifier : Adds text (fun n => ∃ p, Listed p ∧ IsSpecifier text p n) (specifier .importSpecifier) :=
  fun _ _ _ htext h => by
    obtain ⟨cs, n, comments, p, hstep, hnotes, hlisted, hn⟩ := listed_of_specifier htext h
    exact ⟨cs, _, hstep, List.forall_mem_cons.mpr ⟨.inr ⟨p, hlisted, hn⟩, fun n hn => .inl (hnotes n hn)⟩⟩

theorem adds_names : Adds text (ListsWritten text) importStatement.names := by
  have hlist : Adds text (fun n => ∃ p, Listed p ∧ IsSpecifier text p n)
      (Parser.enclosed "\x7b" "\x7d" (Parser.commaSeparated (specifier .importSpecifier))) :=
    .withBreaks (.bind (.sign _) fun _ => .bind (.bind adds_specifier.optional fun _ =>
      .many (.bind (.sign _) fun _ => adds_specifier.optional)) fun _ => .sign _) _
  refine .oneOf (List.forall_mem_cons.mpr ⟨?_, List.forall_mem_singleton.mpr ?_⟩)
  · refine hlist.node fun n _ _ hchildren _ m hm hkind => (hchildren m hm).elim (fun hcomment => ?_) id
    rw [hcomment.1] at hkind
    cases hkind
  · have hstar : Adds text (fun _ => True) (do Parser.sign "*"; Parser.word "as"; anyName .identifier : Parser Unit) :=
      .bind (.sign _) fun _ => .bind (.word (by decide)) fun _ => .leaf wordLength_le fun _ _ _ _ => trivial
    exact hstar.node fun n hkind _ _ => .of_ne (hkind ▸ by decide)

theorem adds_clause : Adds text (ClauseWritten text) importStatement.clause := by
  have hnamed : Adds text (ListsWritten text) (do
      anyName .identifier
      Parser.optional do
        Parser.sign ","
        importStatement.names) :=
    .bind (.leaf wordLength_le fun n hkind _ _ => .of_ne (hkind ▸ by decide)) fun _ =>
      .optional (.bind (.sign _) fun _ => adds_names)
  refine (Adds.oneOf (List.forall_mem_cons.mpr ⟨hnamed, List.forall_mem_singleton.mpr adds_names⟩)).node ?_
  exact fun n _ hrole hchildren => ⟨hrole, fun _ m hm => (hchildren m hm).elim (fun h => .of_ne (h.1 ▸ by decide)) id⟩

/-! ### Modules and ends -/

theorem IsString.exists_append (h : IsString w) : ∃ front q, w = front ++ [q] ∧ q ≠ ';' ∧ Text.isBlank q = false := by
  have hlength : stringLength w = w.length := by simpa using h.length_eq []
  have hpos : 0 < stringLength w := hlength ▸ List.length_pos_iff.mpr h.ne_nil
  obtain ⟨quote, content, hquote, hw, -⟩ := exists_of_stringLength hpos
  rw [hlength, List.take_length] at hw
  refine ⟨quote :: content, quote, hw, ?_⟩
  rcases hquote with rfl | rfl | rfl <;> decide

/-- The parser ends with the string that names a module. -/
def EndsInSource (text : List Char) (p : Parser Unit) : Prop :=
  ∀ c c', c.rest = text.drop c.position → p c = some ((), c') → ∃ cs w ns front, Step c c' (cs ++ w) (ns ++ front) ∧
    IsString w ∧ PartOf text .source w ns ∧ (∀ n ∈ ns, n.kind ≠ .importClause) ∧ ∀ n ∈ front, ClauseWritten text n

namespace EndsInSource

theorem source : EndsInSource text (Parser.role .source stringLiteral) := fun c c' htext h => by
  obtain ⟨gap, w, ns, hstep, -, hpart, hkinds, hpos, hlength⟩ := step_role_leaf (by decide) stringLength_le htext h
  refine ⟨gap, w, ns, [], ?_, isString_of_read hpos hlength, hpart, fun n hn => ?_, List.forall_mem_nil _⟩
  · rwa [List.append_nil]
  · rcases hkinds n hn with hkind | hkind <;> (rw [hkind]; decide)

theorem bind (hp : Adds text (ClauseWritten text) p) (hq : EndsInSource text q) : EndsInSource text (do p; q) :=
  fun c c' htext h => by
    obtain ⟨_, c₁, hpc, hqc⟩ := bind_eq_some.mp h
    obtain ⟨cs, front, hstep, hfront⟩ := hp c _ c₁ htext hpc
    obtain ⟨cs', w, ns, front', hstep', hw, hpart, hkinds, hfront'⟩ := hq c₁ c' (hstep.drop htext) hqc
    refine ⟨cs ++ cs', w, ns, front' ++ front, ?_, hw, hpart, hkinds, List.forall_mem_append.mpr ⟨hfront', fun n hn => ?_⟩⟩
    · rw [List.append_assoc, ← List.append_assoc ns]
      exact hstep.trans hstep'
    · exact (hfront n hn).elim (fun h => .of_ne h.2 (h.1 ▸ by decide)) id

theorem sourceClause : EndsInSource text Grammar.sourceClause :=
  bind (.word (by decide)) source

end EndsInSource

/-- The parser adds no clause of an import. -/
def AddsNoClause (p : Parser Unit) : Prop :=
  ∀ c c', p c = some ((), c') → ∃ ns, c'.children = ns ++ c.children ∧ ∀ n ∈ ns, n.kind ≠ .importClause

theorem addsNoClause_node (hkind : kind ≠ .importClause) (p : Parser Unit) : AddsNoClause (node kind p) := fun c c' h => by
  obtain ⟨c₁, c₂, hgap, -, rfl⟩ := of_node h
  obtain ⟨gap, comments, hstep, hnotes, -⟩ := step_gap hgap
  refine ⟨_ :: comments, congrArg _ hstep.children, List.forall_mem_cons.mpr ⟨hkind, fun n hn => ?_⟩⟩
  rw [(hnotes n hn).1]
  decide

/-- What an import reads behind its word. -/
theorem importSource_cases (text : List Char) (h : oneOf
    [do
      Parser.optional do
        keptWord .token ["type", "typeof"]
        guard ((← Parser.ahead).head?.any fun c => isWordStart c || c == '\x7b' || c == '*')
        guard (wordAt (← Parser.ahead) != "from")
      importStatement.clause
      sourceClause,
     do
      keptWord .token ["type", "typeof"]
      importStatement.clause
      sourceClause,
     do
      importStatement.clause
      sourceClause,
     node .importRequireClause do
      Parser.optional (do keptWord .token ["type"]; guard ((← Parser.ahead).head?.any isWordStart))
      anyName .identifier
      Parser.sign "="
      Parser.word "require"
      Parser.enclosed "(" ")" (Parser.role .source stringLiteral),
     Parser.role .source stringLiteral] c = some ((), c')) : (∃ p, EndsInSource text p ∧ p c = some ((), c')) ∨
      ∃ p, AddsNoClause p ∧ p c = some ((), c') := by
  have hkept : ∀ words, Adds text (ClauseWritten text) (keptWord .token words) := fun words => by
    refine .leaf (fun cs => ?_) fun n hkind hrole _ => .of_ne hrole (hkind ▸ by decide)
    split
    · exact wordLength_le cs
    · exact Nat.zero_le _
  have hclause : EndsInSource text (do importStatement.clause; sourceClause) := .bind adds_clause .sourceClause
  obtain ⟨p, hp, hpc⟩ := oneOf_eq_some h
  rw [List.mem_cons, List.mem_cons, List.mem_cons, List.mem_cons, List.mem_singleton] at hp
  rcases hp with rfl | rfl | rfl | rfl | rfl
  · refine .inl ⟨_, .bind (.optional (.bind (hkept _) fun _ => .bind .ahead fun _ => .bind (.guard _) fun _ =>
      .bind .ahead fun _ => .guard _)) hclause, hpc⟩
  · exact .inl ⟨_, .bind (hkept _) hclause, hpc⟩
  · exact .inl ⟨_, hclause, hpc⟩
  · exact .inr ⟨_, addsNoClause_node (by decide) _, hpc⟩
  · exact .inl ⟨_, .source, hpc⟩

/-! ### Ends of imports -/

/-- Attributes are a node of their own. -/
theorem importAttributes_cases (h : importAttributes phrase c = some ((), c')) : c' = c ∨
    ∃ n comments, c'.children = n :: comments ++ c.children ∧ n.kind = .importAttribute ∧ n.role = none ∧ Notes comments := by
  rcases optional_eq_some h with h | ⟨-, rfl⟩
  · obtain ⟨c₁, c₂, hgap, -, rfl⟩ := of_node h
    obtain ⟨gap, comments, hstep, hnotes, -⟩ := step_gap hgap
    exact .inr ⟨_, comments, congrArg _ hstep.children, rfl, rfl, hnotes⟩
  · exact .inl rfl

/-- A statement ends where it is, with comments or with a semicolon. -/
theorem semicolon_cases (h : Parser.semicolon c = some ((), c')) : ∃ comments, c'.children = comments ++ c.children ∧
    Notes comments ∧ (c' = c ∨ (∃ n ∈ comments, n.stop = c'.position) ∨ ∃ gap, Step c c' (gap ++ ";".toList) comments) := by
  rcases orElse_eq_some h with h | ⟨-, h⟩
  · obtain ⟨_, c₁, hcomments, hread⟩ := bind_eq_some.mp h
    rw [get_bind] at hread
    obtain ⟨-, rfl⟩ := guard_eq_some hread
    cases hcomments
    dsimp only
    split
    · exact ⟨[], rfl, List.forall_mem_nil _, .inl rfl⟩
    · rename_i start stop hlast
      refine ⟨_, rfl, notes_commentNodes _, .inr (.inl ⟨.mk .comment none start stop [], ?_, rfl⟩)⟩
      exact List.mem_reverse.mpr (List.mem_map.mpr ⟨_, List.mem_of_getLast? hlast, rfl⟩)
  · obtain ⟨gap, comments, hstep, hnotes⟩ := step_sign h
    exact ⟨comments, hstep.children, hnotes, .inr (.inr ⟨gap, hstep⟩)⟩

/-- An import ends where it is or with a semicolon, unless attributes or comments are there. -/
theorem importEnd_cases {c₁ : Cursor} (hattributes : importAttributes phrase c = some ((), c₁))
    (hsemicolon : Parser.semicolon c₁ = some ((), c')) : ∃ late, c'.children = late ++ c.children ∧
      (∀ n ∈ late, n.role = none ∧ n.kind ≠ .importClause) ∧
      ((∀ n ∈ late, n.kind ≠ .importAttribute ∧ (n.kind = .comment → n.stop ≠ c'.position)) →
        c' = c ∨ ∃ gap ns, Step c c' (gap ++ ";".toList) ns) := by
  obtain ⟨comments, hchildren, hnotes, hend⟩ := semicolon_cases hsemicolon
  have hplain : ∀ {ns : List Node}, Notes ns → ∀ n ∈ ns, n.role = none ∧ n.kind ≠ .importClause := fun h n hn =>
    ⟨(h n hn).2, (h n hn).1 ▸ by decide⟩
  rcases importAttributes_cases hattributes with rfl | ⟨n, comments', hchildren', hkind, hrole, hnotes'⟩
  · refine ⟨comments, hchildren, hplain hnotes, fun hnone => hend.imp_right fun hend => ?_⟩
    rcases hend with ⟨n, hn, hstop⟩ | ⟨gap, hstep⟩
    · exact absurd hstop ((hnone n hn).2 (hnotes n hn).1)
    · exact ⟨gap, comments, hstep⟩
  · refine ⟨comments ++ n :: comments', by rw [hchildren, hchildren', List.append_assoc], ?_, fun hnone => ?_⟩
    · exact List.forall_mem_append.mpr ⟨hplain hnotes, List.forall_mem_cons.mpr ⟨⟨hrole, hkind ▸ by decide⟩, hplain hnotes'⟩⟩
    · exact absurd hkind (hnone n (List.mem_append_right _ List.mem_cons_self)).1

/-! ### Imports -/

/-- The node is read as an import: its clause lists specifiers, and with a clause it names its module by a string and ends
    with it or with a semicolon, unless attributes or comments are there. -/
structure IsRead (text : List Char) (n : Node) : Prop where
  clauses : ∀ m ∈ n.children, ClauseWritten text m ∨ m.kind ≠ .importClause
  source : ∀ m ∈ n.children, m.kind = .importClause →
    ∃ x, n.child? .source = some x ∧ IsString ((text.drop x.start).take (x.stop - x.start))
  ending : ∀ m ∈ n.children, m.kind = .importClause →
    (∀ x ∈ n.children, x.kind ≠ .importAttribute ∧ (x.kind = .comment → x.stop ≠ n.stop)) →
    ∃ front d, (text.drop n.start).take (n.stop - n.start) = front ++ [d] ∧ Text.isBlank d = false

/-- What has no clause is read as an import of nothing. -/
theorem IsRead.of_no_clause {n : Node} (h : ∀ m ∈ n.children, m.kind ≠ .importClause) : IsRead text n :=
  ⟨fun m hm => .inr (h m hm), fun m hm hkind => absurd hkind (h m hm), fun m hm hkind => absurd hkind (h m hm)⟩

theorem isRead_importStatement (htext : c.rest = text.drop c.position) (h : importStatement phrase c = some ((), c')) :
    ∃ n comments, c'.children = n :: comments ++ c.children ∧ Notes comments ∧ IsRead text n := by
  rw [importStatement_eq] at h
  obtain ⟨c₀, c₄, hgap, hbody, rfl⟩ := of_node h
  obtain ⟨gap, comments, hstep, hnotes, -⟩ := step_gap hgap
  refine ⟨_, comments, congrArg _ hstep.children, hnotes, ?_⟩
  have htext₀ := hstep.drop htext
  obtain ⟨_, c₁, hword, hlater⟩ := bind_eq_some.mp hbody
  obtain ⟨_, c₂, hsource, hlater'⟩ := bind_eq_some.mp hlater
  obtain ⟨_, c₃, hattributes, hsemicolon⟩ := bind_eq_some.mp hlater'
  obtain ⟨gap₁, comments₁, hstep₁, hnotes₁, -⟩ := step_word (by decide) hword
  obtain ⟨late, hlate, hplain, hend⟩ := importEnd_cases hattributes hsemicolon
  have hword₁ : ∀ n ∈ comments₁, n.kind ≠ .importClause := fun n hn => (hnotes₁ n hn).1 ▸ by decide
  rcases importSource_cases text hsource with ⟨p, hp, hpc⟩ | ⟨p, hp, hpc⟩
  · obtain ⟨cs, w, ns, front, hstep₂, hw, hpart, hkinds, hfront⟩ := hp c₁ c₂ (hstep₁.drop htext₀) hpc
    have hsteps := hstep₁.trans hstep₂
    have hchildren : c₄.children = late ++ (ns ++ (front ++ comments₁)) := by
      rw [hlate, hsteps.children, List.append_nil, List.append_assoc]
    have hmem : ∀ {m}, m ∈ c₄.children.reverse ↔ m ∈ late ∨ m ∈ ns ∨ m ∈ front ∨ m ∈ comments₁ := by
      simp only [hchildren, List.mem_reverse, List.mem_append, implies_true]
    refine ⟨fun m hm => ?_, fun _ _ _ => ?_, fun _ _ _ hnone => ?_⟩
    · rcases hmem.mp hm with hm | hm | hm | hm
      · exact .inr (hplain m hm).2
      · exact .inr (hkinds m hm)
      · exact .inl (hfront m hm)
      · exact .inr (hword₁ m hm)
    · have hearlier : ∀ m ∈ front ++ comments₁, m.role ≠ some .source := fun m hm => by
        have hrole : m.role = none := (List.mem_append.mp hm).elim (fun hm => (hfront m hm).1) fun hm => (hnotes₁ m hm).2
        rw [hrole]
        exact (Option.some_ne_none _).symm
      obtain ⟨x, hx, hchars⟩ := hpart.child? (n := .mk .importStatement none c₀.position c₄.position c₄.children.reverse)
        ((List.reverse_reverse _).trans hchildren) hearlier
      exact ⟨x, hx, hchars ▸ hw⟩
    · obtain ⟨last, q, rfl, -, hq⟩ := hw.exists_append
      -- Without attributes and comments the statement ends where its module is named, or with a semicolon.
      rcases hend fun n hn => hnone n (hmem.mpr (.inl hn)) with rfl | ⟨gap', ns', hstep₃⟩
      · refine ⟨gap₁ ++ "import".toList ++ (cs ++ last), q, (hsteps.slice htext₀).trans ?_, hq⟩
        simp only [List.append_assoc]
      · refine ⟨gap₁ ++ "import".toList ++ (cs ++ (last ++ [q])) ++ gap', ';',
          ((hsteps.trans hstep₃).slice htext₀).trans ?_, by decide⟩
        simp only [List.append_assoc]
        rfl
  · obtain ⟨ns, hns, hkinds⟩ := hp c₁ c₂ hpc
    refine .of_no_clause fun m hm => ?_
    rw [Node.children, List.mem_reverse, hlate, hns, hstep₁.children, List.append_nil] at hm
    rcases List.mem_append.mp hm with hm | hm
    · exact (hplain m hm).2
    · exact (List.mem_append.mp hm).elim (hkinds m) (hword₁ m)

/-! ### Statements -/

/-- The parser makes one node, behind comments; if it is an import, it is read as one. -/
def MakesStatement (text : List Char) (p : Parser Unit) : Prop :=
  ∀ c c', c.rest = text.drop c.position → p c = some ((), c') → ∃ n comments, c'.children = n :: comments ++ c.children ∧
    Notes comments ∧ (n.kind = .importStatement → IsRead text n)

/-- The parser gives no other kinds than these. -/
def Returns (p : Parser Kind) (kinds : Kind → Prop) : Prop :=
  ∀ c kind c', p c = some (kind, c') → kinds kind

namespace Returns

variable {kinds : Kind → Prop}

theorem pure (h : kinds kind) : Returns (pure kind) kinds := fun _ _ _ heq => by
  cases heq
  exact h

theorem bind {α : Type} {q : Parser α} {f : α → Parser Kind} (h : ∀ a, Returns (f a) kinds) : Returns (q >>= f) kinds :=
  fun c kind c' heq => by
    obtain ⟨a, c₁, -, hf⟩ := bind_eq_some.mp heq
    exact h a c₁ kind c' hf

theorem bind_kind {q : Parser Kind} {f : Kind → Parser Kind} (hq : Returns q kinds)
    (hf : ∀ kind, kinds kind → Returns (f kind) kinds) : Returns (q >>= f) kinds := fun c kind c' heq => by
  obtain ⟨kind', c₁, hqc, hfc⟩ := bind_eq_some.mp heq
  exact hf kind' (hq c kind' c₁ hqc) c₁ kind c' hfc

theorem orElse {p q : Parser Kind} (hp : Returns p kinds) (hq : Returns q kinds) : Returns (p <|> q) kinds :=
  fun c kind c' h => (orElse_eq_some h).elim (hp c kind c') fun h => hq c kind c' h.2

end Returns

namespace MakesStatement

theorem nodeOf {p : Parser Kind} (h : Returns p (· ≠ .importStatement)) : MakesStatement text (discard (nodeOf p)) :=
  fun c c' _ hread => by
    obtain ⟨kind, hnode⟩ := of_discard hread
    obtain ⟨c₁, c₂, hgap, hp, rfl⟩ := of_nodeOf hnode
    obtain ⟨gap, comments, hstep, hnotes, -⟩ := step_gap hgap
    exact ⟨_, comments, congrArg _ hstep.children, hnotes, fun hkind => absurd hkind (h _ _ _ hp)⟩

theorem node (h : kind ≠ .importStatement) (p : Parser Unit) : MakesStatement text (node kind p) :=
  nodeOf (.bind fun _ => .pure h)

theorem oneOf_nil : MakesStatement text (oneOf []) :=
  fun _ _ _ h => by cases h

theorem oneOf_cons {ps : List (Parser Unit)} (hp : MakesStatement text p) (hps : MakesStatement text (oneOf ps)) :
    MakesStatement text (oneOf (p :: ps)) := fun c c' htext h =>
  (orElse_eq_some (show (p <|> oneOf ps) c = _ from h)).elim (hp c c' htext) fun h => hps c c' htext h.2

theorem withBreaks (hp : MakesStatement text p) (breakable : Bool) : MakesStatement text (withBreaks breakable p) :=
  fun c _ htext h => by
    obtain ⟨⟨_, c₁⟩, hpc, hc⟩ := Option.bind_eq_some_iff.mp (show (p { c with breakable }).bind _ = _ from h)
    cases hc
    exact hp { c with breakable } c₁ htext hpc

end MakesStatement

theorem makes_functionWith {plain generator : Kind} (hplain : plain ≠ .importStatement)
    (hgenerator : generator ≠ .importStatement) (named : Parser Unit) :
    MakesStatement text (functionWith phrase plain generator named) := by
  refine .nodeOf (.bind fun _ => .bind fun _ => .bind fun isGenerator => .bind fun _ => .bind fun _ => .bind fun _ => ?_)
  cases isGenerator
  · exact .pure hplain
  · exact .pure hgenerator

theorem makes_functionDeclaration : MakesStatement text (functionDeclaration phrase) :=
  .oneOf_cons (makes_functionWith (by decide) (by decide) _) (.oneOf_cons (.node (by decide) _) .oneOf_nil)

theorem makes_classDeclaration : MakesStatement text (classDeclaration phrase) := by
  refine .nodeOf (.bind fun _ => .bind fun isAbstract => .bind fun _ => .bind fun _ => .bind fun _ => .bind fun _ =>
    .bind fun _ => ?_)
  cases isAbstract
  · exact .pure (by decide)
  · exact .pure (by decide)

theorem makes_variableDeclaration : MakesStatement text (variableDeclaration phrase) := by
  have hkind : Returns ((do Parser.word "var"; return Kind.variableDeclaration) <|> (do
      oneOf
        [do
          Parser.word "const"
          guard (wordAt (← Parser.ahead) != "enum"),
         Parser.word "let"]
      return Kind.lexicalDeclaration)) (· ≠ .importStatement) :=
    .orElse (.bind fun _ => .pure (by decide)) (.bind fun _ => .pure (by decide))
  exact .nodeOf (hkind.bind_kind fun _ h => .bind fun _ => .bind fun _ => .pure h)

theorem makes_namespaceDeclaration : MakesStatement text (namespaceDeclaration phrase) :=
  .node (by decide) _

theorem makes_declaration : MakesStatement text (declaration phrase) := by
  refine .oneOf_cons makes_functionDeclaration <| .oneOf_cons makes_classDeclaration <| .oneOf_cons (.node (by decide) _) <|
    .oneOf_cons makes_variableDeclaration <| .oneOf_cons (.node (by decide) _) <| .oneOf_cons (.node (by decide) _) <|
    .oneOf_cons (.node (by decide) _) <| .oneOf_cons (.node (by decide) _) <| .oneOf_cons ?_ .oneOf_nil
  intro c c' htext h
  obtain ⟨_, c₁, hahead, hlater⟩ := bind_eq_some.mp h
  obtain ⟨-, rfl⟩ := ahead_eq_some hahead
  obtain ⟨_, c₂, hguard, hnamespace⟩ := bind_eq_some.mp hlater
  obtain ⟨-, rfl⟩ := guard_eq_some hguard
  exact makes_namespaceDeclaration c₂ c' htext hnamespace

theorem makes_keywordStatement : MakesStatement text (keywordStatement phrase) := by
  have hfor : MakesStatement text (forStatement phrase) :=
    .oneOf_cons (.node (by decide) _) (.oneOf_cons (.node (by decide) _) .oneOf_nil)
  exact .oneOf_cons (.node (by decide) _) <| .oneOf_cons hfor <| .oneOf_cons (.node (by decide) _) <|
    .oneOf_cons (.node (by decide) _) <| .oneOf_cons (.node (by decide) _) <| .oneOf_cons (.node (by decide) _) <|
    .oneOf_cons (.node (by decide) _) <| .oneOf_cons (.node (by decide) _) <| .oneOf_cons (.node (by decide) _) <|
    .oneOf_cons (.node (by decide) _) <| .oneOf_cons (.node (by decide) _) <| .oneOf_cons (.node (by decide) _) .oneOf_nil

theorem makes_importStatement : MakesStatement text (importStatement phrase) := fun c c' htext h => by
  obtain ⟨n, comments, hchildren, hnotes, hn⟩ := isRead_importStatement htext h
  exact ⟨n, comments, hchildren, hnotes, fun _ => hn⟩

theorem makes_block (depth : Nat) : MakesStatement text (Grammar.read depth .block) := by
  cases depth with
  | zero => exact fun _ _ _ h => by cases h
  | succ depth => exact .node (by decide) _

theorem makes_statement (depth : Nat) : MakesStatement text (Grammar.read depth .statement) := by
  cases depth with
  | zero => exact fun _ _ _ h => by cases h
  | succ depth =>
    exact .withBreaks (.oneOf_cons (.node (by decide) _) <| .oneOf_cons (makes_block depth) <|
      .oneOf_cons makes_keywordStatement <| .oneOf_cons makes_importStatement <| .oneOf_cons (.node (by decide) _) <|
      .oneOf_cons makes_declaration <| .oneOf_cons (.node (by decide) _) <| .oneOf_cons (.node (by decide) _) .oneOf_nil) _

/-! ### Sources -/

theorem atMost_makes [hsound : Parser.Sound text p] (hp : MakesStatement text p) (n : Nat) (hc : c.Sound text)
    (h : Parser.atMost n p c = some ((), c')) : ∃ ns, c'.children = ns ++ c.children ∧
      ∀ m ∈ ns, m.kind = .importStatement → IsRead text m := by
  induction n generalizing c with
  | zero =>
    cases h
    exact ⟨[], rfl, List.forall_mem_nil _⟩
  | succ n ih =>
    rcases orElse_eq_some h with h | ⟨-, h⟩
    · obtain ⟨_, c₁, hpc, hlater⟩ := bind_eq_some.mp h
      obtain ⟨m, comments, hchildren, hnotes, hm⟩ := hp c c₁ hc.rest_eq hpc
      obtain ⟨ns, hns, hall⟩ := ih (hsound.keeps hc hpc) hlater
      refine ⟨ns ++ m :: comments, by rw [hns, hchildren, List.append_assoc], ?_⟩
      refine List.forall_mem_append.mpr ⟨hall, List.forall_mem_cons.mpr ⟨hm, fun x hx hkind => ?_⟩⟩
      rw [(hnotes x hx).1] at hkind
      cases hkind
    · cases h
      exact ⟨[], rfl, List.forall_mem_nil _⟩

/-- Each import at the top of a source is read as one. -/
theorem isRead_of_parse? {root : Node} (h : parse? text = some root) :
    ∀ n ∈ root.childrenOf .importStatement, IsRead text n := by
  unfold parse? at h
  dsimp only at h
  split at h
  · rename_i c hread
    cases h
    have hstart : ({ position := text.length - (dropInterpreterLine text).length, rest := dropInterpreterLine text
                     breakable := true, children := [] } : Cursor).Sound text :=
      ⟨List.suffix_iff_eq_drop.mp (dropInterpreterLine_suffix text), List.forall_mem_nil _⟩
    obtain ⟨_, c₁, hmany, hlater⟩ := bind_eq_some.mp hread
    obtain ⟨_, c₂, hgap, hend⟩ := bind_eq_some.mp hlater
    rw [get_bind] at hend
    obtain ⟨-, rfl⟩ := guard_eq_some hend
    have : ∀ depth phrase, Parser.Sound text (Grammar.read depth phrase) := sound_read
    obtain ⟨ns, hns, hall⟩ := atMost_makes (makes_statement _) _ hstart hmany
    obtain ⟨gap, comments, hstep, hnotes, -⟩ := step_gap hgap
    intro n hn
    obtain ⟨hmem, hkind⟩ := List.mem_filter.mp hn
    rw [Node.children, List.mem_reverse, hstep.children, hns, List.append_nil] at hmem
    rcases List.mem_append.mp hmem with hmem | hmem
    · rw [(hnotes n hmem).1] at hkind
      cases hkind
    · exact hall n hmem (beq_iff_eq.mp hkind)
  · cases h

end ResponseShapes.Syntax
