import ResponseShapes.Proofs.Syntax.Operands

/-! # Reading objects

A key in front of a colon is read as the name of a property, whatever word it is, and an object literal with commas
between its properties as an object of these properties. -/

namespace ResponseShapes.Syntax

open Syntax.Parser Grammar

variable {text cs rest front k w ws tail : List Char} {breakable : Bool} {holds : Node → Prop} {p item : Parser Unit}
  {phrase : Phrases} {kind : Kind} {r : Role} {n : Node}

/-! ### Parts of constructs -/

@[simp] theorem Node.kind_withRole (r : Role) (n : Node) : (n.withRole r).kind = n.kind := by
  obtain ⟨k, role, a, b, cs⟩ := n
  cases role <;> rfl

@[simp] theorem Node.start_withRole (r : Role) (n : Node) : (n.withRole r).start = n.start := by
  obtain ⟨k, role, a, b, cs⟩ := n
  cases role <;> rfl

@[simp] theorem Node.stop_withRole (r : Role) (n : Node) : (n.withRole r).stop = n.stop := by
  obtain ⟨k, role, a, b, cs⟩ := n
  cases role <;> rfl

@[simp] theorem Node.children_withRole (r : Role) (n : Node) : (n.withRole r).children = n.children := by
  obtain ⟨k, role, a, b, cs⟩ := n
  cases role <;> rfl

theorem Node.role_withRole (h : n.role = none) (r : Role) : (n.withRole r).role = some r := by
  obtain ⟨k, role, a, b, cs⟩ := n
  obtain rfl : role = none := h
  rfl

/-- The node is a lexeme that is spelled by the characters, in whatever part. -/
def Spells (text : List Char) (kind : Kind) (w : List Char) (n : Node) : Prop :=
  n.kind = kind ∧ (text.drop n.start).take (n.stop - n.start) = w

/-- The node is a construct with children of which, the latest first, `holds` is true, in whatever part. -/
def Built (kind : Kind) (holds : List Node → Prop) (n : Node) : Prop :=
  n.kind = kind ∧ holds n.children.reverse

/-- The node plays a part, and `holds` is true of it. -/
def Plays (r : Role) (holds : Node → Prop) (n : Node) : Prop :=
  n.role = some r ∧ holds n

theorem IsLeaf.plays (h : IsLeaf text kind w n) (r : Role) : Plays r (Spells text kind w) (n.withRole r) :=
  ⟨Node.role_withRole h.role_eq r, by simp [h.kind_eq], by simp [h.spelled]⟩

theorem IsConstruct.plays {holds : List Node → Prop} (h : IsConstruct kind holds n) (r : Role) :
    Plays r (Built kind holds) (n.withRole r) :=
  ⟨Node.role_withRole h.role_eq r, by simp [h.kind_eq], by simpa using h.children⟩

namespace Reads

/-- A single node in a part. -/
theorem role_one {after : Node → Prop} (h : Reads text p breakable cs rest () (One holds))
    (hkind : ∀ n, holds n → n.kind ≠ .comment) (hplays : ∀ n, holds n → Plays r after (n.withRole r)) :
    Reads text (Parser.role r p) breakable cs rest () (One (Plays r after)) :=
  (h.role r).imp <| by
    rintro _ ⟨_, ⟨n, rfl, hn⟩, rfl⟩
    exact ⟨n.withRole r, by rw [List.map_singleton, if_neg (hkind n hn)], hplays n hn⟩

theorem role_leaf (h : Reads text p breakable cs rest () (One (IsLeaf text kind w))) (hkind : kind ≠ .comment) :
    Reads text (Parser.role r p) breakable cs rest () (One (Plays r (Spells text kind w))) :=
  h.role_one (fun _ hn => hn.kind_eq ▸ hkind) fun _ hn => hn.plays r

theorem role_construct {holds : List Node → Prop} (h : Reads text p breakable cs rest () (One (IsConstruct kind holds)))
    (hkind : kind ≠ .comment) : Reads text (Parser.role r p) breakable cs rest () (One (Plays r (Built kind holds))) :=
  h.role_one (fun _ hn => hn.kind_eq ▸ hkind) fun _ hn => hn.plays r

end Reads

/-! ### Keys -/

/-- The kind of node that a key is. -/
inductive IsKey (k : List Char) : Kind → Prop
  | word (h : IsWord k) : IsKey k .propertyIdentifier
  | string (h : IsString k) : IsKey k .string

theorem IsKey.solid (h : IsKey k kind) (rest : List Char) : Solid (k ++ rest) := by
  cases h with
  | word h => exact h.solid rest
  | string h => exact h.solid rest

theorem endsWord_colon (rest : List Char) : endsWord (':' :: rest) = true := rfl

theorem Stays.modifiers (hws : ws.all isSpace = true) (h : IsKey k kind) (rest : List Char) :
    Stays Grammar.modifiers () (ws ++ (k ++ ':' :: rest)) := by
  have hskips : Skips (ws ++ (k ++ ':' :: rest)) (k ++ ':' :: rest) := (isGap_blanks hws).skips (h.solid _)
  have hgoesOn : Rejects memberGoesOn (':' :: rest) := by
    suffices h : Guarded memberGoesOn fun cs => cs.head? != some ':' from
      h.rejects (.of_solid (solid_cons (by decide) (by decide) rest)) rfl
    refine .behind (.sameStatement false) (.ahead fun cs rest hskips hclosed => (Guarded.check _).rejects hskips ?_)
    simp only [bne_eq_false_iff_eq] at hclosed
    rw [hclosed]
    rfl
  have hmodifier : ∀ kind {words}, "" ∉ words → Rejects (do keptWord kind words; memberGoesOn : Parser Unit) (ws ++ (k ++ ':' :: rest)) := by
    intro kind' words hempty
    by_cases hmem : words.contains (wordAt (k ++ ':' :: rest)) = true
    · cases h with
      | string h =>
        rw [wordAt, h.wordLength_eq_zero] at hmem
        exact absurd (List.contains_iff_mem.mp hmem) hempty
      | word h =>
        rw [← List.append_assoc]
        refine .of_reads (fun text breakable => (Reads.leaf hws h.nonempty (h.solid _) ?_).any) hgoesOn
        rw [if_pos hmem, h.length_eq _ (endsWord_colon rest)]
    · exact ((Guarded.keptWord _ _).rejects hskips (Bool.eq_false_iff.mpr hmem)).bind _
  refine (Stays.many ((hmodifier _ (by decide)).orElse ((hmodifier _ (by decide)).orElse fun _ _ _ => rfl))).bind (.optional ?_)
  refine (Guarded.keptSign "*").rejects hskips ?_
  cases h with
  | word h => exact h.startsWith_eq_false rfl _
  | string h => exact h.startsWith_eq_false rfl _

/-- The name of a property in front of a colon. -/
theorem Reads.propertyName (phrase : Phrases) (hws : ws.all isSpace = true) (h : IsKey k kind) :
    Reads text (Grammar.propertyName phrase) breakable (ws ++ k) (':' :: rest) () (One (IsLeaf text kind k)) := by
  cases h with
  | word h => exact .oneOf_here (leaf hws h.nonempty (h.solid _) (h.length_eq _ (endsWord_colon rest))) _
  | string h =>
    have hskips : Skips (ws ++ k ++ ':' :: rest) (k ++ ':' :: rest) := by
      rw [List.append_assoc]
      exact (isGap_blanks hws).skips (h.solid _)
    refine .oneOf_skip ((Guarded.leaf _ _).rejects hskips ?_) <| .oneOf_skip ((Guarded.leaf _ _).rejects hskips ?_) <|
      .oneOf_here (leaf hws h.ne_nil (h.solid _) (h.length_eq _)) _
    · rw [h.wordLength_eq_zero]
      rfl
    · obtain ⟨q, cs, rfl, rfl | rfl⟩ := h.quoted <;> rfl

/-- A named member with a signature does not begin with a key and a colon. -/
theorem rejects_method (hphrase : Guards phrase) (hws : ws.all isSpace = true) (h : IsKey k kind)
    (f : Unit → Parser Kind) : Rejects (nodeOf do
      modifiers
      role .name (propertyName phrase)
      signature phrase
      f ()) (ws ++ (k ++ ':' :: rest)) := by
  have hnil : List.all [] isSpace = true := rfl
  refine .nodeOf ((isGap_blanks hws).skips (h.solid _)) (.after_stay (Stays.modifiers hnil h rest) ?_)
  refine .of_reads (fun text breakable => ((Reads.propertyName phrase hnil h).role _).any) (.bind ?_ _)
  exact (guarded_signature hphrase).rejects (.of_solid (solid_cons (by decide) (by decide) rest)) rfl

/-! ### Properties -/

/-- The node is a property with a key of the given spelling, and `holds` is true of its value. -/
def IsPair (text : List Char) (k : List Char) (kind : Kind) (holds : Node → Prop) (n : Node) : Prop :=
  n.kind = .pair ∧ (∃ key, n.child? .key = some key ∧ Spells text kind k key) ∧
    ∃ value, n.child? .value = some value ∧ holds value

/-- A property of an object literal, which begins with neither a spread expression nor a method. -/
theorem reads_pair {items : List (Parser Unit)} {value : List Char} (hphrase : Guards phrase)
    (hws : ws.all isSpace = true) (h : IsKey k kind)
    (hvalue : Reads text (role .value (phrase .expression)) breakable value rest () (One (Plays .value holds))) :
    Reads text (oneOf ((node .spreadElement do sign "..."; phrase .expression) ::
      (discard <| nodeOf do
        modifiers
        role .name (propertyName phrase)
        signature phrase
        role .body (phrase .block)
        return .methodDefinition) ::
      (node .pair do
        role .key (propertyName phrase)
        sign ":"
        role .value (phrase .expression)) :: items)) breakable (ws ++ (k ++ (":".toList ++ value))) rest ()
      (One (IsPair text k kind holds)) := by
  have hnil : List.all [] isSpace = true := rfl
  have hsolid : Solid (k ++ (":".toList ++ value) ++ rest) := by
    rw [List.append_assoc]
    exact h.solid _
  have hspread : startsWith "..." (k ++ (":".toList ++ value) ++ rest) = false := by
    rw [List.append_assoc]
    cases h with
    | word h => exact h.startsWith_eq_false rfl _
    | string h => exact h.startsWith_eq_false rfl _
  have hskips : Skips (ws ++ (k ++ (":".toList ++ value)) ++ rest) (k ++ (":".toList ++ value) ++ rest) := by
    rw [List.append_assoc]
    exact (isGap_blanks hws).skips hsolid
  have hmethod : Rejects (discard <| nodeOf do
        modifiers
        role .name (propertyName phrase)
        signature phrase
        role .body (phrase .block)
        return .methodDefinition) (ws ++ (k ++ (":".toList ++ value)) ++ rest) := by
    simp only [List.append_assoc]
    exact .discard (rejects_method hphrase hws h fun _ => do
      role .body (phrase .block)
      return .methodDefinition)
  have hkey : Reads text (role .key (propertyName phrase)) breakable k (":".toList ++ value ++ rest) ()
      (One (Plays .key (Spells text kind k))) :=
    (Reads.propertyName phrase hnil h).role_leaf (by cases h <;> decide)
  have hcolon : Reads text (sign ":") breakable ":".toList (value ++ rest) () (· = []) :=
    .sign_bare (solid_cons (by decide) (by decide) _)
  have hpair : Reads text (do role .key (propertyName phrase); sign ":"; role .value (phrase .expression)) breakable
      (k ++ (":".toList ++ value)) rest () fun ns => ∃ key value, ns = [value, key] ∧
        Plays .key (Spells text kind k) key ∧ Plays .value holds value := by
    refine hkey.bind (hcolon.silent_bind hvalue) ?_
    rintro _ _ ⟨key, rfl, hkey⟩ ⟨value, rfl, hvalue⟩
    exact ⟨key, value, rfl, hkey, hvalue⟩
  refine .oneOf_skip ((((Guarded.sign _).bind _).node _).rejects hskips hspread) <|
    .oneOf_skip hmethod <| .oneOf_here ((hpair.node hws hsolid).imp ?_) _
  rintro _ ⟨n, rfl, hn⟩
  obtain ⟨key, value, hns, hkey, hvalue⟩ := hn.children
  have hchildren : n.children = [key, value] := List.reverse_eq_iff.mp hns
  refine ⟨n, rfl, hn.kind_eq, ⟨key, ?_, hkey.2⟩, value, ?_, hvalue.2⟩
  · rw [Node.child?, hchildren, List.find?_cons_of_pos (by simp [hkey.1])]
  · rw [Node.child?, hchildren, List.find?_cons_of_neg (by simp [hkey.1]), List.find?_cons_of_pos (by simp [hvalue.1])]

/-- Whether a property of an object literal may begin here. -/
def opensProperty (cs : List Char) : Bool :=
  startsWith "..." cs || opensModifier cs || opensName cs

theorem guarded_property (phrase : Phrases) : Guarded (oneOf
    [node .spreadElement (do sign "..."; phrase .expression),
     discard <| nodeOf do
      modifiers
      role .name (propertyName phrase)
      signature phrase
      role .body (phrase .block)
      return .methodDefinition,
     node .pair do
      role .key (propertyName phrase)
      sign ":"
      role .value (phrase .expression),
     node .defaultedShorthand do
      anyName .shorthandPropertyIdentifier
      initializer phrase,
     anyName .shorthandPropertyIdentifier]) opensProperty := by
  have hname : ∀ {cs}, opensName cs = true → opensProperty cs = true := fun hcs => by rw [opensProperty, hcs, Bool.or_true]
  have hword : ∀ {cs}, decide (0 < wordLength cs) = true → opensProperty cs = true := fun hcs =>
    hname (by simp only [opensName, hcs, Bool.true_or])
  refine .oneOf_cons ?_ <| .oneOf_cons ?_ <| .oneOf_cons ?_ <| .oneOf_cons ?_ <| .oneOf_cons ?_ .oneOf_nil
  · exact (((Guarded.sign _).bind _).node _).mono fun cs hcs => by simp only [opensProperty, hcs, Bool.true_or]
  · refine ((Guarded.bind_idle idles_modifiers (((guarded_propertyName phrase).role _).bind _)).nodeOf.discard).mono ?_
    intro cs hcs
    rw [opensProperty, Bool.or_assoc, hcs, Bool.or_true]
  · exact ((((guarded_propertyName phrase).role _).bind _).node _).mono fun cs => hname
  · exact (((Guarded.leaf _ _).bind _).node _).mono fun cs => hword
  · exact (Guarded.leaf _ _).mono fun cs => hword

/-! ### Objects -/

/-- A property of an object: its key and its value as they are written, with the kinds of their nodes. -/
structure Entry where
  key : List Char
  keyKind : Kind
  value : List Char
  valueKind : Kind

namespace Entry

/-- The key is one and the value a name or a literal. -/
structure Proper (e : Entry) : Prop where
  key : IsKey e.key e.keyKind
  value : IsSimple e.value e.valueKind

/-- The property behind blanks. -/
def written (lead : List Char) (e : Entry) : List Char :=
  lead ++ (e.key ++ (":".toList ++ (" ".toList ++ e.value)))

/-- The node is the property. -/
def Means (text : List Char) (e : Entry) : Node → Prop :=
  IsPair text e.key e.keyKind (Spells text e.valueKind e.value)

end Entry

/-- An object with at least one property, each behind the same blanks, and blanks before the closing brace. -/
def objectText (lead tail closing : List Char) (e : Entry) (es : List Entry) : List Char :=
  "\x7b".toList ++ ((e.written lead ++ ((es.flatMap fun e => ",".toList ++ e.written lead) ++ tail)) ++
    (closing ++ "\x7d".toList))

/-- Items with commas in front, and then a last comma or none. -/
theorem Repeats.items {ι : Type} {xs : List ι} {written : ι → List Char} {means : ι → Node → Prop}
    (hitem : ∀ x ∈ xs, ∀ rest, Closes rest → Reads text item breakable (written x) rest () (One (means x)))
    (htail : Repeats text (do sign ","; optional item) breakable tail rest (· = [])) (hclose : Closes (tail ++ rest)) :
    Repeats text (do sign ","; optional item) breakable ((xs.flatMap fun x => ",".toList ++ written x) ++ tail) rest
      fun ns => List.Forall₂ means xs ns.reverse := by
  induction xs with
  | nil =>
    exact htail.imp fun ns hns => by
      rw [hns]
      exact .nil
  | cons x xs ih =>
    obtain ⟨hx, hxs⟩ := List.forall_mem_cons.mp hitem
    have hcloses : Closes ((xs.flatMap fun x => ",".toList ++ written x) ++ tail ++ rest) := by
      cases xs with
      | nil => exact hclose
      | cons y ys => exact closes_cons (by decide) _
    rw [List.flatMap_cons, List.append_assoc]
    refine .step (by simp) (.silent_bind (.sign_bare (solid_cons (by decide) (by decide) _)) (.optional (hx _ hcloses))) (ih hxs) ?_
    rintro _ ns ⟨n, rfl, hn⟩ hns
    rw [List.reverse_append]
    exact .cons hn hns

theorem Reads.commaSeparated {ι : Type} {x : ι} {xs : List ι} {written : ι → List Char} {means : ι → Node → Prop}
    (hitem : ∀ y ∈ x :: xs, ∀ rest, Closes rest → Reads text item breakable (written y) rest () (One (means y)))
    (htail : Repeats text (do Parser.sign ","; Parser.optional item) breakable tail rest (· = [])) (hclose : Closes (tail ++ rest)) :
    Reads text (Parser.commaSeparated item) breakable
      (written x ++ ((xs.flatMap fun x => ",".toList ++ written x) ++ tail)) rest () fun ns =>
        List.Forall₂ means (x :: xs) ns.reverse := by
  obtain ⟨hx, hxs⟩ := List.forall_mem_cons.mp hitem
  have hcloses : Closes ((xs.flatMap fun x => ",".toList ++ written x) ++ tail ++ rest) := by
    cases xs with
    | nil => exact hclose
    | cons y ys => exact closes_cons (by decide) _
  refine (hx _ hcloses).optional.bind (.many (Repeats.items hxs htail hclose)) ?_
  rintro _ ns ⟨n, rfl, hn⟩ hns
  rw [List.reverse_append]
  exact .cons hn hns

/-- An object literal with properties that are separated by commas, the last of which may have one behind it. -/
theorem Reads.object {n : Nat} {e : Entry} {es : List Entry} {lead closing : List Char} (hws : ws.all isSpace = true)
    (hlead : lead.all isSpace = true) (hclosing : closing.all isSpace = true) (hproper : ∀ e' ∈ e :: es, e'.Proper)
    (htail : tail = [] ∨ tail = ",".toList) :
    Reads text (objectLiteral (Grammar.read (n + 3))) breakable (ws ++ objectText lead tail closing e es) rest ()
      (One (IsConstruct .object fun ns => List.Forall₂ (Entry.Means text) (e :: es) ns.reverse)) := by
  have hend : Closes ((closing ++ "\x7d".toList) ++ rest) := by
    rw [List.append_assoc]
    exact .blank hclosing (closes_cons (by decide) rest)
  have hskips : Skips ((closing ++ "\x7d".toList) ++ rest) ("\x7d".toList ++ rest) := by
    rw [List.append_assoc]
    exact (isGap_blanks hclosing).skips (solid_closer (by decide) rest)
  refine node hws (solid_cons (by decide) (by decide) _) (enclosed (solid_cons (by decide) (by decide) _) hclosing
    (solid_closer (by decide) rest) (commaSeparated (fun e' he' rest' hrest' => ?_) ?_ ?_))
  · obtain ⟨hkey, hvalue⟩ := hproper e' he'
    have hblank : " ".toList.all isSpace = true := by decide
    exact reads_pair (guards_read _) hlead hkey (role_leaf (simple hblank hvalue hrest') hvalue.kind_ne)
  · have hcomma : ∀ {f : Unit → Parser Unit}, Rejects (Parser.sign "," >>= f) ((closing ++ "\x7d".toList) ++ rest) :=
      ((Guarded.sign ",").rejects hskips rfl).bind _
    obtain rfl | rfl := htail
    · exact .stop hcomma rfl
    · change Repeats _ _ _ (",".toList ++ []) _ _
      refine .step (List.cons_ne_nil _ _) (.then_stay (.sign_bare (solid_cons (by decide) (by decide) _))
        (.optional ((guarded_property _).rejects hskips rfl))) (.stop hcomma rfl) ?_
      rintro _ _ rfl rfl
      rfl
  · obtain rfl | rfl := htail
    · exact hend
    · exact closes_cons (by decide) _

/-- An object literal that nothing follows tightly is an operand. -/
theorem Reads.object_operand {n : Nat} {holds : List Node → Prop}
    (h : Reads text (objectLiteral (Grammar.read n)) breakable cs rest () holds)
    (hskips : Skips (cs ++ rest) ("\x7b".toList ++ front)) (hsuffix : Rejects (suffix (Grammar.read n)) rest) :
    Reads text (Grammar.read (n + 1) .operand) breakable cs rest () holds := by
  have hprimary : Reads text (primaryExpression (Grammar.read n)) breakable cs rest () holds :=
    .oneOf_skip (((Guarded.enclosed _ _ _).node _).rejects hskips rfl) (.oneOf_here h _)
  refine hprimary.literal_operand hskips rfl (fun s hs => ?_) hsuffix
  simp only [List.mem_cons, List.not_mem_nil, or_false] at hs
  obtain rfl | rfl | rfl | rfl | rfl | rfl := hs <;> rfl

/-! ### Constant objects -/

/-- The node asserts that a node of which `holds` is true is constant. -/
def IsConstant (text : List Char) (holds : Node → Prop) : Node → Prop :=
  IsConstruct .asExpression fun ns => ∃ n token, ns = [token, n] ∧ holds n ∧ IsLeaf text .token "const".toList token

/-- What is asserted to be constant in front of a semicolon. -/
theorem Extends.constant (phrase : Phrases) : Extends text (assertedType phrase) breakable " as const".toList
    (';' :: rest) () holds (IsConstant text holds) := by
  have has : Reads text (word "as") breakable (" ".toList ++ "as".toList) (" const".toList ++ ';' :: rest) () (· = []) :=
    .word (by decide) (isWord_of_all (by decide) (by decide)) rfl
  have hconst : Reads text (oneOf [keptWord .token ["const"], phrase .type]) breakable (" ".toList ++ "const".toList)
      (';' :: rest) () (One (IsLeaf text .token "const".toList)) :=
    .oneOf_here (.leaf (by decide) (by decide) (solid_cons (by decide) (by decide) _) rfl) _
  refine .after_stay (.sameStatement true rfl) (.orElse_left ((Extends.extend (has.silent_bind hconst) _ none).imp ?_) _)
  rintro n ⟨hkind, hrole, object, _, hobject, ⟨token, rfl, htoken⟩, hns⟩
  exact ⟨hkind, hrole, object, token, hns, hobject, htoken⟩

/-- An object that is asserted to be constant. -/
theorem Reads.constant {n : Nat} (h : Reads text (objectLiteral (Grammar.read n)) breakable cs
      (" as const".toList ++ ';' :: rest) () (One holds)) (hskips : Skips (cs ++ (" as const".toList ++ ';' :: rest))
      ("\x7b".toList ++ front)) :
    Reads text (Grammar.read (n + 3) .expression) breakable (cs ++ " as const".toList) (';' :: rest) ()
      (One (IsConstant text holds)) := by
  have hclose : Closes (';' :: rest) := closes_cons (by decide) rest
  have hblank : IsGap " ".toList := isGap_blanks (by decide)
  have hword : Skips (" as const".toList ++ ';' :: rest) ("as const".toList ++ ';' :: rest) :=
    hblank.skips (solid_cons (by decide) (by decide) _)
  have hbinary : Reads text (Grammar.binary (Grammar.read (n + 1)) 0) breakable (cs ++ " as const".toList) (';' :: rest) ()
      (One (IsConstant text holds)) := by
    refine (h.object_operand hskips ((guarded_suffix (guards_read n)).rejects hword rfl)).extended (.many ?_)
    change Prolongs _ _ _ (" as const".toList ++ []) _ _ _
    refine .step (by decide) (.orElse_right ((guarded_operation _ _).rejects hword rfl)
      (.orElse_left (.after_stay (.check rfl _) (.constant _)) _)) (.stop ?_)
    refine (hclose.rejects_operation _ _).orElse (.orElse ?_ fun _ _ _ => rfl)
    exact .after_stay (.check rfl _) (hclose.rejects_assertedType _)
  exact hbinary.then_stay (hclose.stays_expression _)

end ResponseShapes.Syntax
