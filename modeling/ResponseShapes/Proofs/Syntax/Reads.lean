import ResponseShapes.Proofs.Syntax.Guards

/-! # What parsers read

`Reads text p breakable cs rest a holds`: at a place of the text where `cs` stands in front of `rest`, the parser reads
`cs`, gives `a` and adds nodes of which `holds` is true. Readings compose along the text, alternatives are chosen by
what rejects the text, and a parser that finds nothing stays where it is (`Stays`). -/

namespace ResponseShapes.Syntax

open Syntax.Parser

variable {α β : Type} {text cs cs' rest gap w ws : List Char} {breakable : Bool} {a : α} {x : β} {p q : Parser α}
  {f : α → Parser β} {holds holds' : List Node → Prop} {kind : Kind}

/-- The parser reads some characters in front of others. -/
def Reads (text : List Char) (p : Parser α) (breakable : Bool) (cs rest : List Char) (a : α)
    (holds : List Node → Prop) : Prop :=
  ∀ position children, text.drop position = cs ++ rest → ∃ ns,
    p { position, rest := cs ++ rest, breakable, children } =
      some (a, { position := position + cs.length, rest, breakable, children := ns ++ children }) ∧ holds ns

/-- The parser stays where it is. -/
def Stays (p : Parser α) (a : α) (cs : List Char) : Prop :=
  ∀ position breakable children, p { position, rest := cs, breakable, children } =
    some (a, { position, rest := cs, breakable, children })

/-- The parser reads some characters and makes the node in front of them part of another one. -/
def Extends (text : List Char) (p : Parser α) (breakable : Bool) (cs rest : List Char) (a : α)
    (before after : Node → Prop) : Prop :=
  ∀ position n others, text.drop position = cs ++ rest → before n → ∃ n',
    p { position, rest := cs ++ rest, breakable, children := n :: others } =
      some (a, { position := position + cs.length, rest, breakable, children := n' :: others }) ∧ after n'

theorem advance_apply (n position : Nat) (cs : List Char) (breakable : Bool) (children : List Node) :
    advance n { position, rest := cs, breakable, children } =
      some ((), { position := position + n, rest := cs.drop n, breakable, children }) := rfl

/-- The nodes are comments. -/
def Notes (ns : List Node) : Prop :=
  ∀ n ∈ ns, n.kind = .comment ∧ n.role = none

theorem notes_commentNodes (g : Gap) : Notes (commentNodes g) := by
  intro n hn
  obtain ⟨c, -, rfl⟩ := List.mem_map.mp (List.mem_reverse.mp hn)
  exact ⟨rfl, rfl⟩

theorem gap_apply (position : Nat) (cs : List Char) (breakable : Bool) (children : List Node) :
    Parser.gap { position, rest := cs, breakable, children } =
      some ((), { position := (scanGap isSpace position .between cs).position
                  rest := (scanGap isSpace position .between cs).rest, breakable
                  children := commentNodes (scanGap isSpace position .between cs) ++ children }) := rfl

/-! ### Staying -/

namespace Stays

theorem pure (a : α) (cs : List Char) : Stays (pure a) a cs :=
  fun _ _ _ => rfl

theorem bind (hp : Stays p a cs) (hf : Stays (f a) x cs) : Stays (p >>= f) x cs := fun position breakable children => by
  rw [bind_apply, hp]
  exact hf position breakable children

theorem check {holds : Prop} [Decidable holds] (h : holds) (cs : List Char) : Stays (guard holds : Parser Unit) () cs :=
  fun _ _ _ => by rw [guard_apply, if_pos h]

theorem ahead (h : Skips cs rest) : Stays ahead rest cs := fun position breakable children => by
  change some (skipGap cs, _) = _
  rw [h.skipGap_eq]

theorem orElse_pure (h : Rejects p cs) (a : α) : Stays (p <|> Pure.pure a) a cs := fun position breakable children => by
  rw [orElse_apply, h]
  rfl

theorem orElse_left (h : Stays p a cs) (q : Parser α) : Stays (p <|> q) a cs := fun position breakable children => by
  rw [orElse_apply, h]
  rfl

theorem orElse_right (hp : Rejects p cs) (hq : Stays q a cs) : Stays (p <|> q) a cs := fun position breakable children => by
  rw [orElse_apply, hp, hq]
  rfl

theorem optional {p : Parser Unit} (h : Rejects p cs) : Stays (Parser.optional p) () cs :=
  orElse_pure h ()

theorem tried {p : Parser Unit} (h : Rejects p cs) : Stays (tried p) false cs :=
  orElse_pure (h.bind _) false

theorem many {p : Parser Unit} (h : Rejects p cs) : Stays (many p) () cs := by
  intro position breakable children
  change atMost cs.length p _ = _
  cases cs with
  | nil => rfl
  | cons c cs => exact orElse_pure (h.bind _) () position breakable children

theorem sameStatement (afterExpression : Bool)
    (h : endsStatement afterExpression (scanGap isInlineSpace 0 .between cs).rest = false) :
    Stays (sameStatement afterExpression) () cs := fun position breakable children => by
  change (guard (!(breakable && endsStatement afterExpression (scanGap isInlineSpace 0 .between cs).rest)) : Parser Unit) _ = _
  rw [guard_apply, if_pos]
  simp [h]

end Stays

namespace Reads

/-! ### Composition -/

theorem imp (h : Reads text p breakable cs rest a holds) (himp : ∀ ns, holds ns → holds' ns) :
    Reads text p breakable cs rest a holds' := fun position children htext => by
  obtain ⟨ns, hrun, hns⟩ := h position children htext
  exact ⟨ns, hrun, himp ns hns⟩

theorem any (h : Reads text p breakable cs rest a holds) : Reads text p breakable cs rest a fun _ => True :=
  h.imp fun _ _ => trivial

theorem of_eq (h : Reads text p breakable cs rest a holds) (hcs : cs' = cs) : Reads text p breakable cs' rest a holds :=
  hcs ▸ h

theorem bind {holdsBoth : List Node → Prop} (hp : Reads text p breakable cs (cs' ++ rest) a holds)
    (hf : Reads text (f a) breakable cs' rest x holds') (hboth : ∀ ns ns', holds ns → holds' ns' → holdsBoth (ns' ++ ns)) :
    Reads text (p >>= f) breakable (cs ++ cs') rest x holdsBoth := by
  intro position children htext
  rw [List.append_assoc] at htext ⊢
  obtain ⟨ns, hrun, hns⟩ := hp position children htext
  have hdrop : text.drop (position + cs.length) = cs' ++ rest := by
    rw [← List.drop_drop, htext, List.drop_left]
  obtain ⟨ns', hrun', hns'⟩ := hf (position + cs.length) (ns ++ children) hdrop
  refine ⟨ns' ++ ns, ?_, hboth ns ns' hns hns'⟩
  rw [bind_apply, hrun, Option.bind_some, hrun', List.length_append, Nat.add_assoc, List.append_assoc]

/-- Readings of which nothing more is to be known. -/
theorem then_any (hp : Reads text p breakable cs (cs' ++ rest) a holds)
    (hf : Reads text (f a) breakable cs' rest x holds') :
    Reads text (p >>= f) breakable (cs ++ cs') rest x fun _ => True :=
  hp.bind hf fun _ _ _ _ => trivial

/-- Behind what adds no nodes the nodes are those of the rest. -/
theorem silent_bind (hp : Reads text p breakable cs (cs' ++ rest) a (· = []))
    (hf : Reads text (f a) breakable cs' rest x holds) : Reads text (p >>= f) breakable (cs ++ cs') rest x holds :=
  hp.bind hf fun _ ns' hns hns' => by rwa [hns, List.append_nil]

theorem bind_silent (hp : Reads text p breakable cs (cs' ++ rest) a holds)
    (hf : Reads text (f a) breakable cs' rest x (· = [])) : Reads text (p >>= f) breakable (cs ++ cs') rest x holds :=
  hp.bind hf fun ns _ hns hns' => by rwa [hns', List.nil_append]

theorem after_stay (hp : Stays p a (cs ++ rest)) (hf : Reads text (f a) breakable cs rest x holds) :
    Reads text (p >>= f) breakable cs rest x holds := fun position children htext => by
  obtain ⟨ns, hrun, hns⟩ := hf position children htext
  exact ⟨ns, by rw [bind_apply, hp, Option.bind_some, hrun], hns⟩

theorem then_stay (hp : Reads text p breakable cs rest a holds) (hf : Stays (f a) x rest) :
    Reads text (p >>= f) breakable cs rest x holds := fun position children htext => by
  obtain ⟨ns, hrun, hns⟩ := hp position children htext
  exact ⟨ns, by rw [bind_apply, hrun, Option.bind_some, hf], hns⟩

theorem pure (a : α) : Reads text (pure a) breakable [] rest a (· = []) :=
  fun _ _ _ => ⟨[], rfl, rfl⟩

theorem of_stays (h : Stays p a rest) : Reads text p breakable [] rest a (· = []) := fun position children _ =>
  ⟨[], h position breakable children, rfl⟩

/-! ### Alternatives -/

theorem orElse_left (h : Reads text p breakable cs rest a holds) (q : Parser α) :
    Reads text (p <|> q) breakable cs rest a holds := fun position children htext => by
  obtain ⟨ns, hrun, hns⟩ := h position children htext
  exact ⟨ns, by rw [orElse_apply, hrun]; rfl, hns⟩

theorem orElse_right (hp : Rejects p (cs ++ rest)) (hq : Reads text q breakable cs rest a holds) :
    Reads text (p <|> q) breakable cs rest a holds := fun position children htext => by
  obtain ⟨ns, hrun, hns⟩ := hq position children htext
  exact ⟨ns, by rw [orElse_apply, hp, hrun]; rfl, hns⟩

theorem oneOf_here {p : Parser Unit} (h : Reads text p breakable cs rest () holds) (ps : List (Parser Unit)) :
    Reads text (oneOf (p :: ps)) breakable cs rest () holds :=
  h.orElse_left _

theorem oneOf_skip {p : Parser Unit} {ps : List (Parser Unit)} (hp : Rejects p (cs ++ rest))
    (hps : Reads text (oneOf ps) breakable cs rest () holds) :
    Reads text (oneOf (p :: ps)) breakable cs rest () holds :=
  orElse_right hp hps

theorem optional {p : Parser Unit} (h : Reads text p breakable cs rest () holds) :
    Reads text (Parser.optional p) breakable cs rest () holds :=
  h.orElse_left _

/-! ### Lexemes -/

theorem gap_bind {f : Unit → Parser β} (hgap : IsGap gap) (hsolid : Solid (cs ++ rest))
    (hf : Reads text (f ()) breakable cs rest x holds) :
    Reads text (Parser.gap >>= f) breakable (gap ++ cs) rest x fun ns =>
      ∃ ns' comments, ns = ns' ++ comments ∧ Notes comments ∧ holds ns' := by
  intro position children htext
  rw [List.append_assoc] at htext ⊢
  obtain ⟨comments, hscan⟩ := hgap (cs ++ rest) hsolid position
  have hdrop : text.drop (position + gap.length) = cs ++ rest := by
    rw [← List.drop_drop, htext, List.drop_left]
  have hgapped : Parser.gap { position, rest := gap ++ (cs ++ rest), breakable, children } =
      some ((), { position := position + gap.length, rest := cs ++ rest, breakable
                  children := commentNodes (scanGap isSpace position .between (gap ++ (cs ++ rest))) ++ children }) := by
    rw [gap_apply, hscan]
  obtain ⟨ns, hrun, hns⟩ := hf (position + gap.length) _ hdrop
  refine ⟨ns ++ commentNodes (scanGap isSpace position .between (gap ++ (cs ++ rest))), ?_, ns, _, rfl,
    notes_commentNodes _, hns⟩
  rw [bind_apply, hgapped, Option.bind_some, hrun, List.length_append, Nat.add_assoc, List.append_assoc]

/-- Blanks add no nodes. -/
theorem blanks_bind {f : Unit → Parser β} (hws : ws.all isSpace = true) (hsolid : Solid (cs ++ rest))
    (hf : Reads text (f ()) breakable cs rest x holds) :
    Reads text (Parser.gap >>= f) breakable (ws ++ cs) rest x holds := by
  intro position children htext
  rw [List.append_assoc] at htext ⊢
  have hdrop : text.drop (position + ws.length) = cs ++ rest := by
    rw [← List.drop_drop, htext, List.drop_left]
  have hgapped : Parser.gap { position, rest := ws ++ (cs ++ rest), breakable, children } =
      some ((), { position := position + ws.length, rest := cs ++ rest, breakable, children }) := by
    rw [gap_apply, scanGap_blanks hws, hsolid]
    rfl
  obtain ⟨ns, hrun, hns⟩ := hf (position + ws.length) children hdrop
  refine ⟨ns, ?_, hns⟩
  rw [bind_apply, hgapped, Option.bind_some, hrun, List.length_append, Nat.add_assoc]

end Reads

/-- The node is a lexeme spelled by the characters. -/
structure IsLeaf (text : List Char) (kind : Kind) (w : List Char) (n : Node) : Prop where
  kind_eq : n.kind = kind
  role_eq : n.role = none
  children_eq : n.children = []
  spelled : (text.drop n.start).take (n.stop - n.start) = w

namespace Reads

theorem leaf_behind {length : List Char → Nat} (hne : w ≠ []) (hlength : length (w ++ rest) = w.length) : Reads text (do
      let c ← get
      let n := length c.rest
      guard (0 < n)
      advance n
      push (.mk kind none c.position (c.position + n) []) : Parser Unit) breakable w rest () fun ns =>
        ∃ n, ns = [n] ∧ IsLeaf text kind w n := by
  intro position children htext
  refine ⟨[.mk kind none position (position + w.length) []], ?_, _, rfl, rfl, rfl, rfl, ?_⟩
  · rw [get_bind]
    dsimp only
    rw [hlength, bind_apply, guard_apply, if_pos (List.length_pos_iff.mpr hne), Option.bind_some, bind_apply,
      advance_apply, List.drop_left]
    rfl
  · change (text.drop position).take (position + w.length - position) = w
    rw [htext, Nat.add_sub_cancel_left, List.take_left]

theorem leaf {length : List Char → Nat} (hws : ws.all isSpace = true) (hne : w ≠ []) (hsolid : Solid (w ++ rest))
    (hlength : length (w ++ rest) = w.length) : Reads text (leaf kind length) breakable (ws ++ w) rest () fun ns =>
      ∃ n, ns = [n] ∧ IsLeaf text kind w n :=
  blanks_bind hws hsolid (leaf_behind hne hlength)

theorem leaf_commented {length : List Char → Nat} (hgap : IsGap gap) (hne : w ≠ []) (hsolid : Solid (w ++ rest))
    (hlength : length (w ++ rest) = w.length) : Reads text (Parser.leaf kind length) breakable (gap ++ w) rest () fun ns =>
      ∃ n comments, ns = n :: comments ∧ Notes comments ∧ IsLeaf text kind w n :=
  (gap_bind hgap hsolid (leaf_behind hne hlength)).imp <| by
    rintro _ ⟨_, comments, rfl, hcomments, n, rfl, hn⟩
    exact ⟨n, comments, rfl, hcomments, hn⟩

theorem signUnless {s : String} {excluded : List Char} (hws : ws.all isSpace = true) (hsolid : Solid (s.toList ++ rest))
    (hexcluded : rest.head?.any excluded.contains = false) :
    Reads text (signUnless s excluded) breakable (ws ++ s.toList) rest () (· = []) := by
  refine blanks_bind hws hsolid fun position children htext => ⟨[], ?_, rfl⟩
  have hdrop : (s.toList ++ rest).drop s.length = rest := by rw [← String.length_toList, List.drop_left]
  rw [get_bind]
  dsimp only
  have hstarts : startsWith s (s.toList ++ rest) = true := List.isPrefixOf_iff_prefix.mpr (List.prefix_append _ _)
  rw [bind_apply, guard_apply, if_pos hstarts, Option.bind_some, bind_apply, guard_apply, hdrop, hexcluded,
    Bool.not_false, if_pos rfl, Option.bind_some, advance_apply, hdrop, String.length_toList]
  rfl

theorem sign {s : String} (hws : ws.all isSpace = true) (hsolid : Solid (s.toList ++ rest)) :
    Reads text (sign s) breakable (ws ++ s.toList) rest () (· = []) :=
  signUnless hws hsolid (by cases rest.head? <;> rfl)

theorem word_behind {w : String} (hw : IsWord w.toList) (hrest : endsWord rest = true) : Reads text (do
      guard (wordAt (← get).rest = w)
      advance w.length : Parser Unit) breakable w.toList rest () (· = []) := by
  intro position children htext
  refine ⟨[], ?_, rfl⟩
  rw [get_bind, bind_apply, guard_apply, if_pos ((hw.wordAt_append hrest).trans String.ofList_toList), Option.bind_some]
  rw [advance_apply, ← String.length_toList, List.drop_left]
  rfl

theorem word {w : String} (hws : ws.all isSpace = true) (hw : IsWord w.toList) (hrest : endsWord rest = true) :
    Reads text (word w) breakable (ws ++ w.toList) rest () (· = []) :=
  blanks_bind hws (hw.solid rest) (word_behind hw hrest)

theorem word_commented {w : String} (hgap : IsGap gap) (hw : IsWord w.toList) (hrest : endsWord rest = true) :
    Reads text (Parser.word w) breakable (gap ++ w.toList) rest () Notes :=
  (gap_bind hgap (hw.solid rest) (word_behind hw hrest)).imp <| by
    rintro _ ⟨_, comments, rfl, hcomments, rfl⟩
    exact hcomments

/-! Lexemes without blanks in front. -/

theorem leaf_bare {length : List Char → Nat} (hne : w ≠ []) (hsolid : Solid (w ++ rest))
    (hlength : length (w ++ rest) = w.length) :
    Reads text (Parser.leaf kind length) breakable w rest () fun ns => ∃ n, ns = [n] ∧ IsLeaf text kind w n :=
  leaf (show List.all [] isSpace = true from rfl) hne hsolid hlength

theorem sign_bare {s : String} (hsolid : Solid (s.toList ++ rest)) :
    Reads text (Parser.sign s) breakable s.toList rest () (· = []) :=
  sign (show List.all [] isSpace = true from rfl) hsolid

theorem word_bare {w : String} (hw : IsWord w.toList) (hrest : endsWord rest = true) :
    Reads text (Parser.word w) breakable w.toList rest () (· = []) :=
  word (show List.all [] isSpace = true from rfl) hw hrest

/-! ### Constructs -/

theorem discard (h : Reads text p breakable cs rest a holds) : Reads text (discard p) breakable cs rest () holds :=
  fun position children htext => by
    obtain ⟨ns, hrun, hns⟩ := h position children htext
    refine ⟨ns, ?_, hns⟩
    change ((p _).bind fun r => some ((), r.2)) = _
    rw [hrun]
    rfl

end Reads

/-- The node is a construct of a kind, with children of which, the latest first, `holds` is true. -/
structure IsConstruct (kind : Kind) (holds : List Node → Prop) (n : Node) : Prop where
  kind_eq : n.kind = kind
  role_eq : n.role = none
  children : holds n.children.reverse

/-- The node covers the characters, and `holds` is true of it. -/
def Covers (text cs : List Char) (holds : Node → Prop) (n : Node) : Prop :=
  (text.drop n.start).take (n.stop - n.start) = cs ∧ holds n

/-- Nothing but a node of which `holds` is true. -/
def One (holds : Node → Prop) (ns : List Node) : Prop :=
  ∃ n, ns = [n] ∧ holds n

/-- A node of which `holds` is true, and comments in front of it. -/
def Commented (holds : Node → Prop) (ns : List Node) : Prop :=
  ∃ n comments, ns = n :: comments ∧ (∀ c ∈ comments, c.kind = .comment) ∧ holds n

namespace Reads

theorem nodeOf_bare {p : Parser Kind} (h : Reads text p breakable cs rest kind holds) : Reads text (do
      let outer ← get
      set { outer with children := [] }
      let kind ← p
      modify fun c => { c with children := .mk kind none outer.position c.position c.children.reverse :: outer.children }
      return kind : Parser Kind) breakable cs rest kind (One (Covers text cs (IsConstruct kind holds))) := by
  intro position children htext
  obtain ⟨ns, hrun, hns⟩ := h position [] htext
  refine ⟨[.mk kind none position (position + cs.length) ns.reverse], ?_, _, rfl, ?_, rfl, rfl, by rwa [Node.children,
    List.reverse_reverse]⟩
  · change ((p { position, rest := cs ++ rest, breakable, children := [] }).bind _) = _
    rw [hrun, List.append_nil]
    rfl
  · change (text.drop position).take (position + cs.length - position) = cs
    rw [htext, Nat.add_sub_cancel_left, List.take_left]

theorem nodeOf_covering {p : Parser Kind} (hws : ws.all isSpace = true) (hsolid : Solid (cs ++ rest))
    (h : Reads text p breakable cs rest kind holds) :
    Reads text (Parser.nodeOf p) breakable (ws ++ cs) rest kind (One (Covers text cs (IsConstruct kind holds))) :=
  blanks_bind hws hsolid (nodeOf_bare h)

theorem nodeOf {p : Parser Kind} (hws : ws.all isSpace = true) (hsolid : Solid (cs ++ rest))
    (h : Reads text p breakable cs rest kind holds) :
    Reads text (nodeOf p) breakable (ws ++ cs) rest kind (One (IsConstruct kind holds)) :=
  (nodeOf_covering hws hsolid h).imp fun _ hn => hn.imp fun _ hn => ⟨hn.1, hn.2.2⟩

theorem nodeOf_commented {p : Parser Kind} (hgap : IsGap gap) (hsolid : Solid (cs ++ rest))
    (h : Reads text p breakable cs rest kind holds) :
    Reads text (Parser.nodeOf p) breakable (gap ++ cs) rest kind (Commented (IsConstruct kind holds)) :=
  (gap_bind hgap hsolid (nodeOf_bare h)).imp <| by
    rintro _ ⟨_, comments, rfl, hcomments, n, rfl, -, hn⟩
    exact ⟨n, comments, rfl, fun c hc => (hcomments c hc).1, hn⟩

theorem node {p : Parser Unit} (hws : ws.all isSpace = true) (hsolid : Solid (cs ++ rest))
    (h : Reads text p breakable cs rest () holds) :
    Reads text (node kind p) breakable (ws ++ cs) rest () (One (IsConstruct kind holds)) :=
  (nodeOf hws hsolid (h.then_stay (.pure _ _))).discard

theorem node_covering {p : Parser Unit} (hws : ws.all isSpace = true) (hsolid : Solid (cs ++ rest))
    (h : Reads text p breakable cs rest () holds) :
    Reads text (Parser.node kind p) breakable (ws ++ cs) rest () (One (Covers text cs (IsConstruct kind holds))) :=
  (nodeOf_covering hws hsolid (h.then_stay (.pure _ _))).discard

theorem node_commented {p : Parser Unit} (hgap : IsGap gap) (hsolid : Solid (cs ++ rest))
    (h : Reads text p breakable cs rest () holds) :
    Reads text (Parser.node kind p) breakable (gap ++ cs) rest () (Commented (IsConstruct kind holds)) :=
  (nodeOf_commented hgap hsolid (h.then_stay (.pure _ _))).discard

/-- A construct without blanks in front. -/
theorem node_bare {p : Parser Unit} (hsolid : Solid (cs ++ rest)) (h : Reads text p breakable cs rest () holds) :
    Reads text (Parser.node kind p) breakable cs rest () (One (IsConstruct kind holds)) :=
  node (show List.all [] isSpace = true from rfl) hsolid h

/-- The nodes with a role, unless they are comments. -/
theorem role {p : Parser Unit} (h : Reads text p breakable cs rest () holds) (r : Role) :
    Reads text (role r p) breakable cs rest () fun ns => ∃ ns', holds ns' ∧
      ns = ns'.map fun n => if n.kind = .comment then n else n.withRole r := by
  intro position children htext
  obtain ⟨ns, hrun, hns⟩ := h position [] htext
  refine ⟨ns.map fun n => if n.kind = .comment then n else n.withRole r, ?_, ns, hns, rfl⟩
  change ((p { position, rest := cs ++ rest, breakable, children := [] }).bind _) = _
  rw [hrun, List.append_nil]
  rfl

theorem withBreaks {p : Parser Unit} {outer : Bool} (h : Reads text p breakable cs rest () holds) :
    Reads text (withBreaks breakable p) outer cs rest () holds := by
  intro position children htext
  obtain ⟨ns, hrun, hns⟩ := h position children htext
  refine ⟨ns, ?_, hns⟩
  change ((p { position, rest := cs ++ rest, breakable, children }).bind _) = _
  rw [hrun]
  rfl

theorem enclosed {p : Parser Unit} {opening closing : String}
    (hopening : Solid (opening.toList ++ (cs ++ (ws ++ closing.toList) ++ rest))) (hws : ws.all isSpace = true)
    (hclosing : Solid (closing.toList ++ rest)) (h : Reads text p false cs ((ws ++ closing.toList) ++ rest) () holds) :
    Reads text (enclosed opening closing p) breakable (opening.toList ++ (cs ++ (ws ++ closing.toList))) rest () holds :=
  withBreaks (silent_bind (sign_bare hopening) (h.bind_silent (sign hws hclosing)))

end Reads

/-- A parser fails if what it reads first is in front of what its rest rejects. -/
theorem Rejects.of_reads (h : ∀ text breakable, Reads text p breakable cs rest a fun _ => True)
    (hf : Rejects (f a) rest) : Rejects (p >>= f) (cs ++ rest) := fun position breakable children => by
  have htext : (List.replicate position ' ' ++ (cs ++ rest)).drop position = cs ++ rest :=
    List.drop_left' List.length_replicate
  obtain ⟨ns, hrun, -⟩ := h _ breakable position children htext
  rw [bind_apply, hrun, Option.bind_some, hf]

theorem Rejects.after_stay (hp : Stays p a cs) (hf : Rejects (f a) cs) : Rejects (p >>= f) cs :=
  fun position breakable children => by
    rw [bind_apply, hp, Option.bind_some, hf]

/-! ### Repetition -/

/-- Readings behind each other, and then nothing that could be read. -/
inductive Repeats (text : List Char) (p : Parser Unit) (breakable : Bool) :
    List Char → List Char → (List Node → Prop) → Prop
  | stop {rest : List Char} {holds : List Node → Prop} (h : Rejects p rest) (hnil : holds []) :
      Repeats text p breakable [] rest holds
  | step {cs cs' rest : List Char} {first others holds : List Node → Prop} (hne : cs ≠ [])
      (hfirst : Reads text p breakable cs (cs' ++ rest) () first) (hothers : Repeats text p breakable cs' rest others)
      (hboth : ∀ ns ns', first ns → others ns' → holds (ns' ++ ns)) : Repeats text p breakable (cs ++ cs') rest holds

theorem Repeats.imp {p : Parser Unit} (h : Repeats text p breakable cs rest holds) (himp : ∀ ns, holds ns → holds' ns) :
    Repeats text p breakable cs rest holds' := by
  cases h with
  | stop h hnil => exact .stop h (himp _ hnil)
  | step hne hfirst hothers hboth => exact .step hne hfirst hothers fun ns ns' hns hns' => himp _ (hboth ns ns' hns hns')

/-- A reading of which nothing more is to be known. -/
theorem Repeats.step_any {p : Parser Unit} (hne : cs ≠ []) (hfirst : Reads text p breakable cs (cs' ++ rest) () holds)
    (hothers : Repeats text p breakable cs' rest holds') : Repeats text p breakable (cs ++ cs') rest fun _ => True :=
  .step hne hfirst hothers fun _ _ _ _ => trivial

theorem Repeats.atMost {p : Parser Unit} (h : Repeats text p breakable cs rest holds) :
    ∀ n, cs.length ≤ n → Reads text (Parser.atMost n p) breakable cs rest () holds := by
  induction h with
  | stop h hnil =>
    intro n _
    refine Reads.imp ?_ fun ns (hns : ns = []) => hns ▸ hnil
    cases n with
    | zero => exact .pure ()
    | succ n => exact .of_stays (.orElse_pure (h.bind _) ())
  | step hne hfirst _ hboth ih =>
    intro n hn
    have hpos := List.length_pos_iff.mpr hne
    rw [List.length_append] at hn
    obtain ⟨n, rfl⟩ : ∃ m, n = m + 1 := ⟨n - 1, by omega⟩
    exact (hfirst.bind (ih n (by omega)) hboth).orElse_left _

theorem Reads.many {p : Parser Unit} (h : Repeats text p breakable cs rest holds) :
    Reads text (Parser.many p) breakable cs rest () holds := fun position children htext =>
  h.atMost (cs ++ rest).length (by rw [List.length_append]; omega) position children htext

/-! ### Extension -/

namespace Extends

variable {before after after' : Node → Prop} {r : Option Role}

theorem of_stays (h : Stays p a rest) : Extends text p breakable [] rest a before before :=
  fun position n others _ hn => ⟨n, h position breakable (n :: others), hn⟩

theorem after_stay (hp : Stays p a (cs ++ rest)) (hf : Extends text (f a) breakable cs rest x before after) :
    Extends text (p >>= f) breakable cs rest x before after := fun position n others htext hn => by
  obtain ⟨n', hrun, hn'⟩ := hf position n others htext hn
  exact ⟨n', by rw [bind_apply, hp, Option.bind_some, hrun], hn'⟩

theorem imp (h : Extends text p breakable cs rest a before after) (himp : ∀ n, after n → after' n) :
    Extends text p breakable cs rest a before after' := fun position n others htext hn => by
  obtain ⟨n', hrun, hn'⟩ := h position n others htext hn
  exact ⟨n', hrun, himp n' hn'⟩

theorem bind (hp : Extends text p breakable cs (cs' ++ rest) a before after)
    (hf : Extends text (f a) breakable cs' rest x after after') :
    Extends text (p >>= f) breakable (cs ++ cs') rest x before after' := by
  intro position n others htext hn
  rw [List.append_assoc] at htext ⊢
  obtain ⟨n', hrun, hn'⟩ := hp position n others htext hn
  have hdrop : text.drop (position + cs.length) = cs' ++ rest := by
    rw [← List.drop_drop, htext, List.drop_left]
  obtain ⟨n'', hrun', hn''⟩ := hf (position + cs.length) n' others hdrop hn'
  exact ⟨n'', by rw [bind_apply, hrun, Option.bind_some, hrun', List.length_append, Nat.add_assoc], hn''⟩

theorem optional {p : Parser Unit} (h : Extends text p breakable cs rest () before after) :
    Extends text (Parser.optional p) breakable cs rest () before after := fun position n others htext hn => by
  obtain ⟨n', hrun, hn'⟩ := h position n others htext hn
  exact ⟨n', by change (p _ <|> _) = _; rw [hrun]; rfl, hn'⟩

theorem orElse_left (h : Extends text p breakable cs rest a before after) (q : Parser α) :
    Extends text (p <|> q) breakable cs rest a before after := fun position n others htext hn => by
  obtain ⟨n', hrun, hn'⟩ := h position n others htext hn
  exact ⟨n', by rw [orElse_apply, hrun]; rfl, hn'⟩

theorem orElse_right (hp : Rejects p (cs ++ rest)) (hq : Extends text q breakable cs rest a before after) :
    Extends text (p <|> q) breakable cs rest a before after := fun position n others htext hn => by
  obtain ⟨n', hrun, hn'⟩ := hq position n others htext hn
  exact ⟨n', by rw [orElse_apply, hp, hrun]; rfl, hn'⟩

/-- The larger construct around a node. -/
theorem extend {p : Parser Unit} (h : Reads text p breakable cs rest () holds) (kind : Kind) (r : Option Role) :
    Extends text (extend kind r p) breakable cs rest () before (IsConstruct kind fun ns =>
      ∃ n ns', before n ∧ holds ns' ∧ ns = ns' ++ [r.elim n n.withRole]) := by
  intro position n others htext hn
  obtain ⟨ns, hrun, hns⟩ := h position [r.elim n n.withRole] htext
  refine ⟨.mk kind none n.start (position + cs.length) (ns ++ [r.elim n n.withRole]).reverse, ?_, rfl, rfl, n, ns, hn, hns,
    by rw [Node.children, List.reverse_reverse]⟩
  cases r with
  | none =>
    rw [Option.elim_none] at hrun ⊢
    change ((p { position, rest := cs ++ rest, breakable, children := [n] }).bind _) = _
    rw [hrun]
    rfl
  | some r =>
    rw [Option.elim_some] at hrun ⊢
    change ((p { position, rest := cs ++ rest, breakable, children := [n.withRole r] }).bind _) = _
    rw [hrun]
    rfl

end Extends

/-- Extensions behind each other, and then nothing that could be read. -/
inductive Prolongs (text : List Char) (p : Parser Unit) (breakable : Bool) :
    List Char → List Char → (Node → Prop) → (Node → Prop) → Prop
  | stop {rest : List Char} {before : Node → Prop} (h : Rejects p rest) : Prolongs text p breakable [] rest before before
  | step {cs cs' rest : List Char} {before between after : Node → Prop} (hne : cs ≠ [])
      (hfirst : Extends text p breakable cs (cs' ++ rest) () before between)
      (hothers : Prolongs text p breakable cs' rest between after) : Prolongs text p breakable (cs ++ cs') rest before after

theorem Prolongs.atMost {p : Parser Unit} {before after : Node → Prop} (h : Prolongs text p breakable cs rest before after) :
    ∀ n, cs.length ≤ n → Extends text (Parser.atMost n p) breakable cs rest () before after := by
  induction h with
  | stop h =>
    intro n _
    cases n with
    | zero => exact .of_stays (.pure () _)
    | succ n => exact .of_stays (.orElse_pure (h.bind _) ())
  | step hne hfirst _ ih =>
    intro n hn
    have hpos := List.length_pos_iff.mpr hne
    rw [List.length_append] at hn
    obtain ⟨n, rfl⟩ : ∃ m, n = m + 1 := ⟨n - 1, by omega⟩
    exact (hfirst.bind (ih n (by omega))).orElse_left _

theorem Extends.many {p : Parser Unit} {before after : Node → Prop} (h : Prolongs text p breakable cs rest before after) :
    Extends text (Parser.many p) breakable cs rest () before after := fun position n others htext hn =>
  h.atMost (cs ++ rest).length (by rw [List.length_append]; omega) position n others htext hn

/-- A construct around a single node that was read. -/
theorem Reads.extended {before after : Node → Prop} (hp : Reads text p breakable cs (cs' ++ rest) a (One before))
    (hf : Extends text (f a) breakable cs' rest x before after) :
    Reads text (p >>= f) breakable (cs ++ cs') rest x (One after) := by
  intro position children htext
  rw [List.append_assoc] at htext ⊢
  obtain ⟨_, hrun, n, rfl, hn⟩ := hp position children htext
  have hdrop : text.drop (position + cs.length) = cs' ++ rest := by
    rw [← List.drop_drop, htext, List.drop_left]
  obtain ⟨n', hrun', hn'⟩ := hf (position + cs.length) n children hdrop hn
  refine ⟨[n'], ?_, n', rfl, hn'⟩
  rw [bind_apply, hrun, Option.bind_some, List.singleton_append, hrun', List.length_append, Nat.add_assoc]
  rfl

end ResponseShapes.Syntax
