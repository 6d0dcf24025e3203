import ResponseShapes.Proofs.Syntax.Guards
import ResponseShapes.Proofs.Syntax.Identifiers
import ResponseShapes.Proofs.Syntax.Laid
import ResponseShapes.Proofs.Syntax.Unquoted
import ResponseShapes.Syntax.Parse

/-! # What leaves are read from

A leaf of a tree that was read from a text covers what the reader of its kind takes there (`Node.Spelt`): a name covers
a word, a string what is read as a string. Every parser keeps this (`Parser.Sound`). The combinators do, and so do the
productions, which are put together of them: which parts a production has is found by instance resolution. So the
whole grammar does (`sound_of_parse?`). -/

namespace ResponseShapes.Syntax

open Syntax.Parser

/-- How the leaves that name or quote something are read. -/
@[reducible] def spelling : Kind → Option (List Char → Nat)
  | .identifier | .typeIdentifier | .propertyIdentifier | .shorthandPropertyIdentifier => some wordLength
  | .privatePropertyIdentifier => some privateNameLength
  | .string => some stringLength
  | _ => none

/-- A missing value. -/
class Missing {α : Type} (x : Option α) : Prop where
  eq_none : x = none

instance {α : Type} : Missing (none : Option α) := ⟨rfl⟩

/-- A kind of nodes that neither name nor quote anything by themselves. -/
class Unspelt (kind : Kind) : Prop where
  eq_none : spelling kind = none

instance {kind : Kind} [h : Missing (spelling kind)] : Unspelt kind := ⟨h.eq_none⟩

instance {b : Bool} {k k' : Kind} [h : Unspelt k] [h' : Unspelt k'] : Unspelt (if b then k else k') := by
  cases b
  · exact h'
  · exact h

variable {text : List Char}

/-! ### Nodes -/

namespace Node

/-- The node covers what its kind is read by, if it names or quotes something. -/
def Spelt (text : List Char) (n : Node) : Prop :=
  ∀ measure, spelling n.kind = some measure →
    0 < measure (text.drop n.start) ∧ n.stop = n.start + measure (text.drop n.start)

/-- The node and all below it are spelt in the text. -/
def Sound (text : List Char) (n : Node) : Prop :=
  ∀ x, Below n x → x.Spelt text

variable {kind : Kind} {r : Option Role} {a b : Nat} {ns : List Node} {n : Node}

theorem Spelt.of_unspelt (h : Unspelt n.kind) : n.Spelt text := fun measure hmeasure => by
  rw [h.eq_none] at hmeasure
  cases hmeasure

theorem sound_iff : n.Sound text ↔ n.Spelt text ∧ ∀ m ∈ n.children, m.Sound text := by
  refine ⟨fun h => ⟨h n (.refl n), fun m hm x hx => h x (.child hm hx)⟩, fun h x hx => ?_⟩
  cases hx with
  | refl => exact h.1
  | child hm hx => exact h.2 _ hm x hx

theorem sound_construct (h : Unspelt kind) (hns : ∀ m ∈ ns, m.Sound text) : (mk kind r a b ns).Sound text :=
  sound_iff.mpr ⟨.of_unspelt h, hns⟩

theorem Sound.withRole (h : n.Sound text) (r : Role) : (n.withRole r).Sound text := by
  obtain ⟨kind, _ | role, a, b, ns⟩ := n
  · have hparts := sound_iff.mp h
    exact sound_iff.mpr hparts
  · exact h

end Node

/-! ### Cursors -/

/-- The cursor stands in the text, and what was read is spelt there. -/
structure Cursor.Sound (text : List Char) (c : Cursor) : Prop where
  rest_eq : c.rest = text.drop c.position
  nodes : ∀ n ∈ c.children, n.Sound text

namespace Cursor.Sound

variable {c c' : Cursor}

theorem move (h : c.Sound text) (n : Nat) :
    ({ c with position := c.position + n, rest := c.rest.drop n } : Cursor).Sound text :=
  ⟨by rw [h.rest_eq, List.drop_drop], h.nodes⟩

theorem withNodes {ns : List Node} (h : c.Sound text) (hns : ∀ n ∈ ns, n.Sound text) :
    ({ c with children := ns } : Cursor).Sound text :=
  ⟨h.rest_eq, hns⟩

theorem withBreaks (h : c.Sound text) (breakable : Bool) : ({ c with breakable } : Cursor).Sound text :=
  ⟨h.rest_eq, h.nodes⟩

end Cursor.Sound

/-! ### Gaps -/

/-- An open block comment began with what stands in the text where it began. -/
def GapState.Sound (text : List Char) : GapState → Prop
  | .block start opening => opening = text.drop start
  | _ => True

theorem eq_drop_succ {c : Char} {cs : List Char} {n : Nat} (h : c :: cs = text.drop n) : cs = text.drop (n + 1) := by
  rw [← List.drop_drop, ← h]
  rfl

/-- A scan of a gap goes on in the text, and no comment in it ends before it. -/
theorem scanGap_sound (blank : Char → Bool) (position : Nat) (state : GapState) {cs : List Char}
    (hcs : cs = text.drop position) (hstate : state.Sound text) :
    (scanGap blank position state cs).rest = text.drop (scanGap blank position state cs).position ∧
      ∀ comment ∈ (scanGap blank position state cs).comments, position ≤ comment.2 := by
  have hlater : ∀ {comments : List (Nat × Nat)} {n m : Nat}, n ≤ m → (∀ comment ∈ comments, m ≤ comment.2) →
      ∀ comment ∈ comments, n ≤ comment.2 := fun hle h comment hmem => Nat.le_trans hle (h comment hmem)
  fun_induction scanGap blank position state cs with
  | case1 position cs ih => exact (ih (eq_drop_succ (eq_drop_succ hcs)) trivial).imp_right (hlater (Nat.le_add_right _ _))
  | case2 position cs ih => exact (ih (eq_drop_succ (eq_drop_succ hcs)) hcs).imp_right (hlater (Nat.le_add_right _ _))
  | case3 position c cs _ _ _ ih => exact (ih (eq_drop_succ hcs) trivial).imp_right (hlater (Nat.le_add_right _ _))
  | case6 position start c cs _ _ ih =>
    exact (ih (eq_drop_succ hcs) trivial).imp_right fun h =>
      List.forall_mem_cons.mpr ⟨Nat.le_refl _, hlater (Nat.le_add_right _ _) h⟩
  | case8 position start c cs _ ih => exact (ih (eq_drop_succ hcs) trivial).imp_right (hlater (Nat.le_add_right _ _))
  | case10 position start opening cs ih =>
    exact (ih (eq_drop_succ (eq_drop_succ hcs)) trivial).imp_right fun h =>
      List.forall_mem_cons.mpr ⟨Nat.le_add_right _ _, hlater (Nat.le_add_right _ _) h⟩
  | case11 position start opening c cs _ ih =>
    exact (ih (eq_drop_succ hcs) hstate).imp_right (hlater (Nat.le_add_right _ _))
  | case4 | case5 => exact ⟨hcs, List.forall_mem_nil _⟩
  | case7 | case9 => exact ⟨hcs, List.forall_mem_singleton.mpr (Nat.le_refl _)⟩
  | case12 => exact ⟨hstate, List.forall_mem_nil _⟩

theorem sound_commentNodes (g : Gap) : ∀ n ∈ commentNodes g, n.Sound text := by
  intro n hn
  obtain ⟨c, -, rfl⟩ := List.mem_map.mp (List.mem_reverse.mp hn)
  exact Node.sound_construct inferInstance (List.forall_mem_nil _)

/-! ### Combinators -/

namespace Parser

/-- The parser leaves a sound cursor behind where it finds one. -/
class Sound (text : List Char) {α : Type} (p : Parser α) : Prop where
  keeps : ∀ {c a c'}, c.Sound text → p c = some (a, c') → c'.Sound text

/-- The parser tells the kind of a construct. -/
class Constructs (p : Parser Kind) : Prop where
  unspelt : ∀ {c k c'}, p c = some (k, c') → Unspelt k

section Monad

variable {α β : Type} {p q : Parser α} {f : α → Parser β}

instance (a : α) : Sound text (pure a : Parser α) := ⟨fun h heq => by cases heq; exact h⟩

theorem Sound.bind (hp : Sound text p) (hf : ∀ a, Sound text (f a)) : Sound text (p >>= f) where
  keeps h heq := by
    obtain ⟨⟨a, c⟩, hpc, hfc⟩ := Option.bind_eq_some_iff.mp heq
    exact (hf a).keeps (hp.keeps h hpc) hfc

instance [hp : Sound text p] [hf : ∀ a, Sound text (f a)] : Sound text (p >>= f) := hp.bind hf

instance : Sound text (failure : Parser α) := ⟨fun _ heq => by cases heq⟩

instance [hp : Sound text p] [hq : Sound text q] : Sound text (p <|> q) where
  keeps {c a c'} h heq := by
    rw [orElse_apply] at heq
    cases hpc : p c with
    | none =>
      rw [hpc] at heq
      exact hq.keeps h heq
    | some r =>
      rw [hpc] at heq
      exact hp.keeps h (hpc.trans heq)

instance : Sound text (get : Parser Cursor) := ⟨fun h heq => by cases heq; exact h⟩

instance {holds : Prop} [Decidable holds] : Sound text (guard holds : Parser Unit) where
  keeps h heq := by
    rw [guard_apply] at heq
    split at heq <;> cases heq
    exact h

theorem Sound.discard (hp : Sound text p) : Sound text (discard p) where
  keeps h heq := by
    obtain ⟨⟨a, c⟩, hpc, hc⟩ := Option.bind_eq_some_iff.mp (show (p _).bind (fun r => some ((), r.2)) = _ from heq)
    cases hc
    exact hp.keeps h hpc

instance [hp : Sound text p] : Sound text (discard p) := hp.discard

instance {b : Bool} [hp : Sound text p] [hq : Sound text q] : Sound text (if b then p else q) := by
  cases b
  · exact hq
  · exact hp

instance {k : Kind} [h : Unspelt k] : Constructs (pure k) := ⟨fun heq => by cases heq; exact h⟩

instance {f : α → Parser Kind} [hf : ∀ a, Constructs (f a)] : Constructs (p >>= f) where
  unspelt heq := by
    obtain ⟨⟨a, c⟩, -, hfc⟩ := Option.bind_eq_some_iff.mp heq
    exact (hf a).unspelt hfc

theorem Constructs.bind {p : Parser Kind} {f : Kind → Parser Kind} (hp : Constructs p)
    (hf : ∀ k, Unspelt k → Constructs (f k)) : Constructs (p >>= f) where
  unspelt heq := by
    obtain ⟨⟨k, c⟩, hpc, hfc⟩ := Option.bind_eq_some_iff.mp heq
    exact (hf k (hp.unspelt hpc)).unspelt hfc

instance {p q : Parser Kind} [hp : Constructs p] [hq : Constructs q] : Constructs (p <|> q) where
  unspelt {c k c'} heq := by
    rw [orElse_apply] at heq
    cases hpc : p c with
    | none =>
      rw [hpc] at heq
      exact hq.unspelt heq
    | some r =>
      rw [hpc] at heq
      exact hp.unspelt (hpc.trans heq)

end Monad

section Lexemes

instance : Sound text gap where
  keeps {c _ _} h heq := by
    cases heq
    have hscan := (scanGap_sound isSpace c.position .between h.rest_eq trivial).1
    exact ⟨hscan, List.forall_mem_append.mpr ⟨sound_commentNodes _, h.nodes⟩⟩

instance : Sound text inlineComments where
  keeps {c _ _} h heq := by
    have hscan := (scanGap_sound isInlineSpace c.position .between h.rest_eq trivial).2
    cases heq
    dsimp only
    split
    · exact h
    · rename_i stop hlast
      refine ⟨?_, List.forall_mem_append.mpr ⟨sound_commentNodes _, h.nodes⟩⟩
      have hle : c.position ≤ stop := hscan _ (List.mem_of_getLast? hlast)
      rw [h.rest_eq, List.drop_drop, Nat.add_sub_cancel' hle]

instance (n : Nat) : Sound text (advance n) where
  keeps h heq := by
    cases heq
    exact h.move n

instance : Sound text ahead := by
  unfold ahead
  infer_instance

variable {p : Parser Unit}

theorem Sound.optional (hp : Sound text p) : Sound text (Parser.optional p) :=
  inferInstanceAs (Sound text (p <|> pure ()))

instance [hp : Sound text p] : Sound text (Parser.optional p) := hp.optional

instance [Sound text p] : Sound text (tried p) := by
  unfold tried
  infer_instance

instance [Sound text p] (n : Nat) : Sound text (atMost n p) := by
  induction n with
  | zero =>
    unfold atMost
    infer_instance
  | succ n ih =>
    unfold atMost
    infer_instance

instance [Sound text p] : Sound text (many p) := by
  unfold many
  infer_instance

instance : Sound text (oneOf []) := inferInstanceAs (Sound text (failure : Parser Unit))

instance {ps : List (Parser Unit)} [Sound text p] [h : Sound text (oneOf ps)] : Sound text (oneOf (p :: ps)) :=
  inferInstanceAs (Sound text (p <|> oneOf ps))

instance (breakable : Bool) : Sound text (modify ({ · with breakable }) : Parser Unit) where
  keeps h heq := by
    cases heq
    exact h.withBreaks breakable

instance (breakable : Bool) [Sound text p] : Sound text (withBreaks breakable p) := by
  unfold withBreaks
  infer_instance

instance (afterExpression : Bool) : Sound text (atBreak afterExpression) := by
  unfold atBreak
  infer_instance

instance (afterExpression : Bool) : Sound text (sameStatement afterExpression) := by
  unfold sameStatement
  infer_instance

/-- A leaf is spelt in the text if its kind is read so. -/
theorem sound_leaf {kind : Kind} {length : List Char → Nat}
    (hlength : ∀ measure, spelling kind = some measure → ∀ cs, 0 < length cs → length cs = measure cs) :
    Sound text (leaf kind length) where
  keeps {c a c'} h heq := by
    rw [leaf, bind_apply] at heq
    obtain ⟨⟨_, c₁⟩, hgap, heq⟩ := Option.bind_eq_some_iff.mp heq
    have hc₁ : c₁.Sound text := Sound.keeps h hgap
    rw [get_bind, bind_apply, guard_apply] at heq
    split at heq
    · rename_i hpos
      cases heq
      refine (hc₁.move _).withNodes
        (List.forall_mem_cons.mpr ⟨Node.sound_iff.mpr ⟨?_, List.forall_mem_nil _⟩, hc₁.nodes⟩)
      intro measure hmeasure
      have hread := hlength measure hmeasure c₁.rest hpos
      rw [hread, hc₁.rest_eq] at hpos
      refine ⟨hpos, ?_⟩
      change c₁.position + length c₁.rest = _
      rw [hread, hc₁.rest_eq]
      rfl
    · cases heq

instance {kind : Kind} [h : Unspelt kind] (length : List Char → Nat) : Sound text (leaf kind length) :=
  sound_leaf fun measure hmeasure => by
    rw [h.eq_none] at hmeasure
    cases hmeasure

instance : Sound text (leaf .identifier wordLength) := sound_leaf fun _ h _ _ => by cases h; rfl

instance : Sound text (leaf .typeIdentifier wordLength) := sound_leaf fun _ h _ _ => by cases h; rfl

instance : Sound text (leaf .propertyIdentifier wordLength) := sound_leaf fun _ h _ _ => by cases h; rfl

instance : Sound text (leaf .shorthandPropertyIdentifier wordLength) := sound_leaf fun _ h _ _ => by cases h; rfl

instance : Sound text (leaf .privatePropertyIdentifier privateNameLength) := sound_leaf fun _ h _ _ => by cases h; rfl

instance : Sound text (leaf .string stringLength) := sound_leaf fun _ h _ _ => by cases h; rfl

instance (s : String) (excluded : List Char) : Sound text (signUnless s excluded) := by
  unfold signUnless
  infer_instance

instance (s : String) : Sound text (sign s) := by
  unfold sign
  infer_instance

instance (w : String) : Sound text (word w) := by
  unfold word
  infer_instance

instance {kind : Kind} [Unspelt kind] (words : List String) : Sound text (keptWord kind words) := by
  unfold keptWord
  infer_instance

instance (s : String) : Sound text (keptSign s) := by
  unfold keptSign
  infer_instance

instance (words : List String) : Sound text (wordAhead words) := by
  unfold wordAhead
  infer_instance

instance (s : String) : Sound text (signAhead s) := by
  unfold signAhead
  infer_instance

instance : Sound text semicolon := by
  unfold semicolon
  infer_instance

instance (afterExpression : Bool) : Sound text (memberEnd afterExpression) := by
  unfold memberEnd
  infer_instance

end Lexemes

section Constructs

variable {p : Parser Unit}

theorem Sound.nodeOf {p : Parser Kind} (hp : Sound text p) (hkind : Constructs p) : Sound text (Parser.nodeOf p) where
  keeps {c a c'} h heq := by
    rw [Parser.nodeOf, bind_apply] at heq
    obtain ⟨⟨_, c₁⟩, hgap, heq⟩ := Option.bind_eq_some_iff.mp heq
    have hc₁ : c₁.Sound text := Sound.keeps h hgap
    obtain ⟨⟨kind, c₂⟩, hpc, hc'⟩ :=
      Option.bind_eq_some_iff.mp (show (p { c₁ with children := [] }).bind _ = _ from heq)
    have hc₂ := hp.keeps (hc₁.withNodes (List.forall_mem_nil _)) hpc
    cases hc'
    exact hc₂.withNodes (List.forall_mem_cons.mpr
      ⟨Node.sound_construct (hkind.unspelt hpc) fun n hn => hc₂.nodes n (List.mem_reverse.mp hn), hc₁.nodes⟩)

instance {p : Parser Kind} [hp : Sound text p] [hkind : Constructs p] : Sound text (nodeOf p) := hp.nodeOf hkind

instance {kind : Kind} [Unspelt kind] [Sound text p] : Sound text (node kind p) := by
  unfold node
  infer_instance

instance (r : Role) [hp : Sound text p] : Sound text (role r p) where
  keeps {c a c'} h heq := by
    obtain ⟨⟨_, c₁⟩, hpc, hc'⟩ := Option.bind_eq_some_iff.mp (show (p { c with children := [] }).bind _ = _ from heq)
    have hc₁ := hp.keeps (h.withNodes (List.forall_mem_nil _)) hpc
    cases hc'
    refine hc₁.withNodes (List.forall_mem_append.mpr ⟨List.forall_mem_map.mpr fun n hn => ?_, h.nodes⟩)
    split
    · exact hc₁.nodes n hn
    · exact (hc₁.nodes n hn).withRole r

theorem Sound.extend {kind : Kind} [hkind : Unspelt kind] (r : Option Role) (hp : Sound text p) :
    Sound text (Parser.extend kind r p) where
  keeps {c a c'} h heq := by
    rw [Parser.extend, get_bind] at heq
    obtain ⟨position, rest, breakable, _ | ⟨operand, others⟩⟩ := c
    · cases heq
    obtain ⟨hoperand, hothers⟩ := List.forall_mem_cons.mp h.nodes
    obtain ⟨⟨_, c₁⟩, hpc, hc'⟩ := Option.bind_eq_some_iff.mp heq
    have hc₁ : c₁.Sound text := by
      refine hp.keeps (h.withNodes (List.forall_mem_singleton.mpr ?_)) hpc
      cases r with
      | none => exact hoperand
      | some r => exact hoperand.withRole r
    cases hc'
    exact hc₁.withNodes (List.forall_mem_cons.mpr
      ⟨Node.sound_construct hkind fun n hn => hc₁.nodes n (List.mem_reverse.mp hn), hothers⟩)

instance {kind : Kind} [Unspelt kind] (r : Option Role) [hp : Sound text p] : Sound text (extend kind r p) := hp.extend r

instance [Sound text p] : Sound text (commaSeparated p) := by
  unfold commaSeparated
  infer_instance

instance (opening closing : String) [Sound text p] : Sound text (enclosed opening closing p) := by
  unfold enclosed
  infer_instance

end Constructs

end Parser

/-! ### Productions -/

namespace Grammar

-- What is read behind a result is sound for every result, and each such step counts twice.
set_option synthInstance.maxSize 4096

instance : Sound text identifier :=
  sound_leaf fun _ h cs hpos => by
    cases h
    split at hpos
    · cases hpos
    · rename_i hword
      rw [if_neg hword]

instance {kind : Kind} [Sound text (leaf kind wordLength)] : Sound text (anyName kind) := by
  unfold anyName
  infer_instance

instance : Sound text stringLiteral := by
  unfold stringLiteral
  infer_instance

instance : Sound text memberGoesOn := by
  unfold memberGoesOn
  infer_instance

instance : Sound text modifiers := by
  unfold modifiers
  infer_instance

instance {kind : Kind} [Unspelt kind] {content : Parser Unit} [Sound text content] : Sound text (template kind content) := by
  unfold template template.templatePart
  infer_instance

variable {phrase : Phrases} [∀ p, Sound text (phrase p)]

instance : Sound text (propertyName phrase) := by unfold propertyName; infer_instance

/-! ### Types, parameters and patterns -/

instance : Sound text (annotatedType phrase) := by unfold annotatedType; infer_instance

instance {asserted predicate : Kind} {opening : Parser Unit} [Unspelt asserted] [Unspelt predicate] [Sound text opening] :
    Sound text (resultClause phrase asserted predicate opening) := by unfold resultClause; infer_instance

instance : Sound text (annotatedResult phrase) := by unfold annotatedResult; infer_instance

instance : Sound text (signature phrase) := by unfold signature; infer_instance

instance : Sound text (initializer phrase) := by unfold initializer; infer_instance

instance : Sound text (defaultedPattern phrase) := by unfold defaultedPattern; infer_instance

instance : Sound text (pattern phrase) := by unfold pattern; infer_instance

instance : Sound text (parameter phrase) := by unfold parameter; infer_instance

instance : Sound text (parameters phrase) := by unfold parameters; infer_instance

instance : Sound text (typeArguments phrase) := by unfold typeArguments; infer_instance

instance : Sound text (typeParameters.typeParameter phrase) := by unfold typeParameters.typeParameter; infer_instance

instance : Sound text (typeParameters phrase) := by unfold typeParameters; infer_instance

instance : Sound text (functionType phrase) := by unfold functionType; infer_instance

instance {kind : Kind} [Unspelt kind] : Sound text (pathTail kind) := by unfold pathTail; infer_instance

instance : Sound text (leaf .typeIdentifier fun cs => if reserved.contains (wordAt cs) then 0 else wordLength cs) :=
  sound_leaf fun _ h cs hpos => by
    cases h
    split at hpos
    · cases hpos
    · rename_i hword
      rw [if_neg hword]

instance : Sound text (primaryType phrase) := by unfold primaryType; infer_instance

instance : Sound text (typeOperand phrase) := by unfold typeOperand; infer_instance

instance {kind : Kind} {joint : String} {part : Parser Unit} [Unspelt kind] [Sound text part] :
    Sound text (joinedTypes kind joint part) := by unfold joinedTypes; infer_instance

instance : Sound text (type phrase) := by unfold type; infer_instance

instance : Sound text (indexKey phrase) := by unfold indexKey; infer_instance

instance : Sound text (indexSignature phrase) := by unfold indexSignature; infer_instance

instance : Sound text (typeMember phrase) := by unfold typeMember; infer_instance

instance : Sound text (objectType phrase) := by unfold objectType; infer_instance

/-! ### Expressions -/

instance : Sound text (objectLiteral phrase) := by unfold objectLiteral; infer_instance

instance : Sound text (element phrase) := by unfold element; infer_instance

instance : Sound text (arrayLiteral phrase) := by unfold arrayLiteral; infer_instance

instance : Sound text (callArguments phrase) := by unfold callArguments; infer_instance

instance : Sound text (arrowFunction.head phrase) := by unfold arrowFunction.head; infer_instance

instance : Sound text (arrowFunction phrase) := by unfold arrowFunction; infer_instance

instance {plain generator : Kind} {named : Parser Unit} [Unspelt plain] [Unspelt generator] [Sound text named] :
    Sound text (functionWith phrase plain generator named) := by unfold functionWith; infer_instance

instance : Sound text (classExpression phrase) := by unfold classExpression; infer_instance

instance : Sound text (construction.constructed phrase) := by unfold construction.constructed; infer_instance

instance : Sound text (construction phrase) := by unfold construction; infer_instance

instance : Sound text (primaryExpression phrase) := by unfold primaryExpression; infer_instance

instance : Sound text (suffix phrase) := by unfold suffix; infer_instance

instance : Sound text (operand phrase) := by unfold operand; infer_instance

instance (level : Nat) : Sound text (operation phrase level) := by
  unfold operation
  exact .extend _ (.bind inferInstance fun cs => by split <;> infer_instance)

instance : Sound text (assertedType phrase) := by unfold assertedType; infer_instance

instance (level : Nat) : Sound text (binary phrase level) := by unfold binary; infer_instance

instance : Sound text (expression phrase) := by
  unfold expression
  refine .bind inferInstance fun _ => .bind inferInstance fun _ => .optional (.extend _ (.bind inferInstance fun cs => ?_))
  split <;> infer_instance

instance : Sound text (expressions phrase) := by unfold expressions; infer_instance

/-! ### Statements -/

instance : Sound text (decorator.decorating phrase) := by unfold decorator.decorating; infer_instance

instance : Sound text (decorator phrase) := by unfold decorator; infer_instance

instance : Sound text (decorators phrase) := by unfold decorators; infer_instance

instance : Sound text (classMember phrase) := by
  unfold classMember
  exact .bind inferInstance fun kind => by split <;> infer_instance

instance : Sound text (classBody phrase) := by unfold classBody; infer_instance

instance : Sound text (classTail phrase) := by unfold classTail; infer_instance

instance : Sound text (classDeclaration phrase) := by unfold classDeclaration; infer_instance

instance : Sound text (declarators.declarator phrase) := by unfold declarators.declarator; infer_instance

instance : Sound text (declarators phrase) := by unfold declarators; infer_instance

instance : Sound text (variableDeclaration phrase) := by
  unfold variableDeclaration
  exact .discard (.nodeOf inferInstance (.bind inferInstance fun kind _ => inferInstance))

instance : Sound text (functionDeclaration phrase) := by unfold functionDeclaration; infer_instance

instance : Sound text (enumDeclaration phrase) := by unfold enumDeclaration; infer_instance

instance : Sound text (interfaceDeclaration phrase) := by unfold interfaceDeclaration; infer_instance

instance : Sound text (typeAlias phrase) := by unfold typeAlias; infer_instance

instance : Sound text (namespaceDeclaration phrase) := by unfold namespaceDeclaration; infer_instance

instance : Sound text importAlias := by unfold importAlias; infer_instance

instance : Sound text (declaration phrase) := by unfold declaration; infer_instance

instance : Sound text moduleName := by unfold moduleName; infer_instance

instance {kind : Kind} [Unspelt kind] : Sound text (specifier kind) := by unfold specifier; infer_instance

instance : Sound text sourceClause := by unfold sourceClause; infer_instance

instance : Sound text (importAttributes phrase) := by unfold importAttributes; infer_instance

instance : Sound text importStatement.names := by unfold importStatement.names; infer_instance

instance : Sound text importStatement.clause := by unfold importStatement.clause; infer_instance

instance : Sound text (importStatement phrase) := by unfold importStatement; infer_instance

instance : Sound text (exportStatement phrase) := by unfold exportStatement; infer_instance

instance : Sound text (block phrase) := by unfold block; infer_instance

instance : Sound text (condition phrase) := by unfold condition; infer_instance

instance : Sound text (forStatement phrase) := by unfold forStatement; infer_instance

instance : Sound text (switchBody phrase) := by unfold switchBody; infer_instance

instance : Sound text (keywordStatement phrase) := by unfold keywordStatement; infer_instance

instance : Sound text (statement phrase) := by unfold statement; infer_instance

/-! ### The grammar -/

instance (p : Phrase) : Sound text (production phrase p) := by
  cases p <;> (unfold production; infer_instance)

theorem sound_read (depth : Nat) : ∀ p, Sound text (read depth p) := by
  -- A phrase of the next depth is a production over the phrases of this one.
  induction depth with
  | zero => exact fun p => inferInstanceAs (Sound text (failure : Parser Unit))
  | succ depth ih => exact fun p => inferInstanceAs (Sound text (production (read depth) p))

instance (depth : Nat) : Sound text (statements depth) := by
  have hread : ∀ p, Sound text (read depth p) := sound_read depth
  unfold statements
  infer_instance

end Grammar

theorem dropInterpreterLine_suffix (text : List Char) : dropInterpreterLine text <:+ text := by
  unfold dropInterpreterLine
  split
  · rename_i cs
    exact (List.dropWhile_suffix _).trans ((List.suffix_cons '!' cs).trans (List.suffix_cons '#' _))
  · exact List.suffix_refl _

/-- A tree that is read from a text is spelt in it. -/
theorem sound_of_parse? {root : Node} (h : parse? text = some root) : root.Sound text := by
  unfold parse? at h
  dsimp only at h
  split at h
  · rename_i c hread
    have hstart : ({ position := text.length - (dropInterpreterLine text).length, rest := dropInterpreterLine text
                     breakable := true, children := [] } : Cursor).Sound text :=
      ⟨List.suffix_iff_eq_drop.mp (dropInterpreterLine_suffix text), List.forall_mem_nil _⟩
    have hstatements : Sound text (Grammar.statements (Grammar.phrasesPerCharacter * ((dropInterpreterLine text).length + 1))) :=
      inferInstance
    have hc := hstatements.keeps hstart hread
    cases h
    exact Node.sound_construct inferInstance fun n hn => hc.nodes n (List.mem_reverse.mp hn)
  · cases h

/-! ### Names and strings of a source -/

/-- In a string a line feed stands behind a backslash, which is still there in what the string is read as. -/
theorem exists_of_stringTail {quote : Char} {cs : List Char} {n : Nat} (h : stringTail quote cs = some n) :
    ∃ content, cs.take n = content ++ [quote] ∧ ('\n' ∈ unescaped content → '\\' ∈ unescaped content) := by
  fun_induction stringTail quote cs generalizing n with
  | case1 => cases h
  | case2 cs ih =>
    obtain ⟨m, hm, rfl⟩ := Option.map_eq_some_iff.mp h
    obtain ⟨content, hcontent, -⟩ := ih hm
    refine ⟨'\\' :: '\r' :: '\n' :: content, ?_, fun _ => List.mem_cons_self⟩
    rw [List.take_succ_cons, List.take_succ_cons, List.take_succ_cons, hcontent]
    rfl
  | case3 c cs _ ih =>
    obtain ⟨m, hm, rfl⟩ := Option.map_eq_some_iff.mp h
    obtain ⟨content, hcontent, hline⟩ := ih hm
    refine ⟨'\\' :: c :: content, ?_, ?_⟩
    · rw [List.take_succ_cons, List.take_succ_cons, hcontent]
      rfl
    · rw [unescaped]
      split
      · rename_i hback
        intro hmem
        rcases List.mem_cons.mp hmem with rfl | hmem
        · exact absurd hback (by decide)
        · exact List.mem_cons_of_mem _ (hline hmem)
      · exact fun _ => List.mem_cons_self
  | case4 cs =>
    cases h
    exact ⟨[], rfl, fun hmem => absurd hmem List.not_mem_nil⟩
  | case5 => cases h
  | case6 c cs _ hslash _ hline ih =>
    obtain ⟨m, hm, rfl⟩ := Option.map_eq_some_iff.mp h
    obtain ⟨content, hcontent, hlater⟩ := ih hm
    refine ⟨c :: content, by rw [List.take_succ_cons, hcontent]; rfl, ?_⟩
    have hc : c ≠ '\\' := by
      rintro rfl
      cases cs with
      | nil => cases hm
      | cons d cs => exact hslash _ _ rfl rfl
    rw [unescaped_cons hc]
    intro hmem
    rcases List.mem_cons.mp hmem with rfl | hmem
    · exact absurd rfl hline
    · exact List.mem_cons_of_mem _ (hlater hmem)

theorem exists_of_stringLength {cs : List Char} (h : 0 < stringLength cs) : ∃ quote content,
    (quote = '\x27' ∨ quote = '\x22' ∨ quote = '\x60') ∧ cs.take (stringLength cs) = quote :: content ++ [quote] ∧
      ('\n' ∈ unescaped content → '\\' ∈ unescaped content) := by
  cases cs with
  | nil => cases h
  | cons quote cs =>
    rw [stringLength] at h ⊢
    split at h
    · rename_i hquote
      rw [if_pos hquote]
      split at h
      · rename_i n htail
        obtain ⟨content, hcontent, hline⟩ := exists_of_stringTail htail
        refine ⟨quote, content, ?_, by rw [List.take_succ_cons, hcontent]; rfl, hline⟩
        rw [Bool.or_eq_true, beq_iff_eq, beq_iff_eq] at hquote
        exact hquote.imp id Or.inl
      · cases h
    · cases h

namespace Source

variable {s : Source} {n : Node}

/-- The tree of the source is spelt in its text. -/
def Sound (s : Source) : Prop :=
  s.root.Sound s.text

/-- If the text is malformed, then the tree that is recovered from it is spelt in it. -/
def RecoveredSound [Recovery] (text : String) : Prop :=
  parse? text.toList = none → (Recovery.root text.toList).Sound text.toList

theorem recoveredSound_of_ofText? [Recovery] {text : String} (hs : ofText? text = some s) : RecoveredSound text := by
  obtain ⟨root, hroot, -⟩ := Option.map_eq_some_iff.mp hs
  intro hnone
  rw [hnone] at hroot
  cases hroot

theorem sound_ofText [Recovery] {text : String} (h : RecoveredSound text) : (ofText text).Sound := by
  unfold ofText ofText?
  cases hparse : parse? text.toList with
  | none => exact h hparse
  | some root => exact sound_of_parse? hparse

/-- The characters that a node covers which names or quotes something. -/
theorem Sound.charsOf_eq (hs : s.Sound) (hn : Node.Below s.root n) {measure : List Char → Nat}
    (hkind : spelling n.kind = some measure) : 0 < measure (s.text.drop n.start) ∧
      s.charsOf n = (s.text.drop n.start).take (measure (s.text.drop n.start)) := by
  obtain ⟨hpos, hstop⟩ := hs n hn measure hkind
  refine ⟨hpos, ?_⟩
  rw [charsOf, slice, hstop, Nat.add_sub_cancel_left]

/-- A node that is read as a word covers one. -/
theorem Sound.isWord_charsOf (hs : s.Sound) (hn : Node.Below s.root n) (hkind : spelling n.kind = some wordLength) :
    IsWord (s.charsOf n) := by
  obtain ⟨hpos, hchars⟩ := hs.charsOf_eq hn hkind
  rw [hchars]
  exact isWord_take hpos

/-- A private name begins with its sign. -/
theorem Sound.head_charsOf (hs : s.Sound) (hn : Node.Below s.root n) (hkind : n.kind = .privatePropertyIdentifier) :
    (s.charsOf n).head? = some '#' := by
  obtain ⟨hpos, hchars⟩ := hs.charsOf_eq hn (show spelling n.kind = some privateNameLength by rw [hkind])
  rw [hchars, List.head?_take, if_neg (Nat.pos_iff_ne_zero.mp hpos)]
  unfold privateNameLength at hpos
  split at hpos
  · rename_i cs htext
    rw [htext]
    rfl
  · cases hpos

/-- What a string is read as has a line feed only with a backslash. -/
theorem Sound.backslash_mem_stringValue (hs : s.Sound) (hn : Node.Below s.root n) (hkind : n.kind = .string)
    (hline : '\n' ∈ (s.stringValue n).toList) : '\\' ∈ (s.stringValue n).toList := by
  obtain ⟨hpos, hchars⟩ := hs.charsOf_eq hn (show spelling n.kind = some stringLength by rw [hkind])
  obtain ⟨quote, content, hquote, hquoted, hcontent⟩ := exists_of_stringLength hpos
  rw [stringValue, String.toList_ofList, hchars, hquoted, unquote_quoted hquote] at hline ⊢
  exact hcontent hline

end Source

end ResponseShapes.Syntax
