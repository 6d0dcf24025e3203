import ResponseShapes.Proofs.Syntax.Guards
import ResponseShapes.Syntax.Parse

/-! # What begins a construct

The guards of the productions: what a construct begins with, at whatever depth phrases are read. -/

namespace ResponseShapes.Syntax

open Syntax.Parser Grammar

/-- Signs that may begin an operand. -/
def operandSigns : List String :=
  ["(", "\x7b", "[", "<", "\x60", "!", "~", "-", "+", "@"]

/-- Whether an operand may begin here. -/
def opensOperand (cs : List Char) : Bool :=
  0 < wordLength cs || 0 < numberLength cs || 0 < stringLength cs || 0 < regexLength cs || 0 < privateNameLength cs ||
    operandSigns.any (startsWith · cs)

/-- What the phrases begin with. -/
structure Guards (phrase : Phrases) : Prop where
  block : Guarded (phrase .block) (startsWith "\x7b")
  parameters : Guarded (phrase .parameters) (startsWith "(")
  callArguments : Guarded (phrase .callArguments) (startsWith "(")
  typeArguments : Guarded (phrase .typeArguments) (startsWith "<")
  typeParameters : Guarded (phrase .typeParameters) (startsWith "<")
  objectType : Guarded (phrase .objectType) (startsWith "\x7b")
  decorators : Idles (phrase .decorators) () (startsWith "@")
  operand : Guarded (phrase .operand) opensOperand
  binary : ∀ level, Guarded (phrase (.binary level)) opensOperand
  expression : Guarded (phrase .expression) opensOperand
  expressions : Guarded (phrase .expressions) opensOperand

variable {phrase : Phrases}

/-! ### Names, types and patterns -/

/-- Whether the name of a member or property may begin here. -/
def opensName (cs : List Char) : Bool :=
  0 < wordLength cs || 0 < privateNameLength cs || 0 < stringLength cs || 0 < numberLength cs || startsWith "[" cs

theorem guarded_propertyName (phrase : Phrases) : Guarded (propertyName phrase) opensName := by
  refine .oneOf_cons ?_ <| .oneOf_cons ?_ <| .oneOf_cons ?_ <| .oneOf_cons ?_ <| .oneOf_cons ?_ .oneOf_nil
  · exact (Guarded.leaf _ _).mono fun cs h => by simp only [opensName, h, Bool.true_or]
  · exact (Guarded.leaf _ _).mono fun cs h => by simp only [opensName, h, Bool.true_or, Bool.or_true]
  · exact (Guarded.leaf _ _).mono fun cs h => by simp only [opensName, h, Bool.true_or, Bool.or_true]
  · exact (Guarded.leaf _ _).mono fun cs h => by simp only [opensName, h, Bool.true_or, Bool.or_true]
  · exact ((Guarded.enclosed _ _ _).node _).mono fun cs h => by simp only [opensName, h, Bool.or_true]

/-- Whether the word is a modifier, or a star stands here. -/
def opensModifier (cs : List Char) : Bool :=
  ["public", "private", "protected"].contains (wordAt cs) || memberModifiers.contains (wordAt cs) || startsWith "*" cs

theorem idles_modifiers : Idles modifiers () opensModifier := by
  refine (Idles.many (.oneOf_cons ?_ <| .oneOf_cons ?_ .oneOf_nil)).bind (.optional (.keptSign "*"))
  · exact ((Guarded.keptWord _ _).bind _).mono fun cs h => by simp only [h, Bool.true_or]
  · exact ((Guarded.keptWord _ _).bind _).mono fun cs h => by simp only [h, Bool.or_true]

theorem guarded_annotatedType (phrase : Phrases) : Guarded (annotatedType phrase) (startsWith ":") :=
  ((Guarded.sign ":").bind _).node _

/-- Whether a signature may begin here. -/
def opensSignature (cs : List Char) : Bool :=
  startsWith "<" cs || startsWith "(" cs

theorem guarded_signature (h : Guards phrase) : Guarded (signature phrase) opensSignature :=
  .bind_idle (.optional h.typeParameters) (h.parameters.bind _)

theorem guarded_initializer (phrase : Phrases) : Guarded (initializer phrase) (startsWith "=") :=
  (Guarded.signUnless "=" ['=', '>']).bind _

theorem guarded_functionType (h : Guards phrase) : Guarded (functionType phrase) opensSignature :=
  .bind_idle (.optional h.typeParameters) (h.parameters.bind _)

/-! ### Expressions -/

theorem guarded_objectLiteral (phrase : Phrases) : Guarded (objectLiteral phrase) (startsWith "\x7b") :=
  (Guarded.enclosed _ _ _).node _

theorem guarded_arrayLiteral (phrase : Phrases) : Guarded (arrayLiteral phrase) (startsWith "[") :=
  (Guarded.enclosed _ _ _).node _

theorem guarded_template (kind : Kind) (content : Parser Unit) : Guarded (template kind content) (startsWith "\x60") :=
  ((Guarded.sign _).bind _).node _

/-- Whether an arrow function may begin here. -/
def opensArrow (cs : List Char) : Bool :=
  0 < wordLength cs || opensSignature cs

theorem opens_of_word {w : String} (hw : w ≠ "") {cs : List Char} (h : decide (wordAt cs = w) = true) :
    decide (0 < wordLength cs) = true := by
  refine decide_eq_true (Nat.pos_of_ne_zero fun hzero => hw ?_)
  rw [← of_decide_eq_true h, wordAt, hzero]
  rfl

theorem opens_of_words {words : List String} (hw : "" ∉ words) {cs : List Char}
    (h : words.contains (wordAt cs) = true) : decide (0 < wordLength cs) = true :=
  opens_of_word (fun hempty => hw (hempty ▸ List.contains_iff_mem.mp h)) (decide_eq_true rfl)

theorem guarded_identifier : Guarded identifier fun cs => 0 < wordLength cs :=
  (Guarded.leaf _ _).mono fun cs h => by
    simp only [decide_eq_true_eq] at h ⊢
    split at h
    · cases h
    · exact h

theorem guarded_arrowFunction (h : Guards phrase) : Guarded (arrowFunction phrase) opensArrow := by
  have hhead : Guarded (arrowFunction.head phrase) opensArrow := by
    refine .oneOf_cons ?_ <| .oneOf_cons ?_ .oneOf_nil
    · exact (guarded_identifier.bind _).mono fun cs h => by simp only [opensArrow, h, Bool.true_or]
    · exact ((guarded_signature h).bind _).mono fun cs h => by simp only [opensArrow, h, Bool.or_true]
  refine ((Guarded.oneOf_cons ?_ <| .oneOf_cons hhead .oneOf_nil).bind _).node _
  exact ((Guarded.word "async").bind _).mono fun cs h => by simp only [opensArrow, opens_of_word (by decide) h, Bool.true_or]

theorem guarded_functionWith (plain generator : Kind) (named : Parser Unit) : Guarded
    (functionWith phrase plain generator named) fun cs => decide (wordAt cs = "async") || decide (wordAt cs = "function") :=
  (Guarded.nodeOf (.bind_idle (.optional ((Guarded.word "async").bind _)) ((Guarded.word "function").bind _))).discard

theorem guarded_classExpression (h : Guards phrase) :
    Guarded (classExpression phrase) fun cs => startsWith "@" cs || decide (wordAt cs = "class") :=
  (Guarded.bind_idle h.decorators ((Guarded.word "class").bind _)).node _

theorem guarded_construction (phrase : Phrases) : Guarded (construction phrase) fun cs => wordAt cs = "new" :=
  ((Guarded.word "new").bind _).node _

theorem opensOperand_of_word {cs : List Char} (h : decide (0 < wordLength cs) = true) : opensOperand cs = true := by
  simp only [opensOperand, h, Bool.true_or]

theorem opensOperand_of_sign {s : String} (hs : s ∈ operandSigns) {cs : List Char} (h : startsWith s cs = true) :
    opensOperand cs = true := by
  have hany : operandSigns.any (startsWith · cs) = true := List.any_eq_true.mpr ⟨s, hs, h⟩
  rw [opensOperand, hany, Bool.or_true]

theorem guarded_primaryExpression (h : Guards phrase) : Guarded (primaryExpression phrase) opensOperand := by
  have hwords : ∀ {kind words}, "" ∉ words → Guarded (keptWord kind words) opensOperand := fun hw =>
    (Guarded.keptWord _ _).mono fun cs hcs => opensOperand_of_word (opens_of_words hw hcs)
  refine .oneOf_cons ?_ <| .oneOf_cons ?_ <| .oneOf_cons ?_ <| .oneOf_cons ?_ <| .oneOf_cons ?_ <| .oneOf_cons ?_ <|
    .oneOf_cons ?_ <| .oneOf_cons (hwords (by decide)) <| .oneOf_cons (hwords (by decide)) <|
    .oneOf_cons (hwords (by decide)) <| .oneOf_cons (hwords (by decide)) <| .oneOf_cons (hwords (by decide)) <|
    .oneOf_cons (hwords (by decide)) <| .oneOf_cons ?_ <| .oneOf_cons ?_ <| .oneOf_cons ?_ <| .oneOf_cons ?_ <|
    .oneOf_cons ?_ <| .oneOf_cons ?_ <| .oneOf_cons (guarded_identifier.mono fun cs => opensOperand_of_word) .oneOf_nil
  · exact ((Guarded.enclosed _ _ _).node _).mono fun cs => opensOperand_of_sign (by decide)
  · exact (guarded_objectLiteral phrase).mono fun cs => opensOperand_of_sign (by decide)
  · exact (guarded_arrayLiteral phrase).mono fun cs => opensOperand_of_sign (by decide)
  · exact (Guarded.leaf _ _).mono fun cs hcs => by simp only [opensOperand, hcs, Bool.true_or, Bool.or_true]
  · exact (guarded_template _ _).mono fun cs => opensOperand_of_sign (by decide)
  · exact (Guarded.leaf _ _).mono fun cs hcs => by simp only [opensOperand, hcs, Bool.true_or, Bool.or_true]
  · exact (Guarded.leaf _ _).mono fun cs hcs => by simp only [opensOperand, hcs, Bool.true_or, Bool.or_true]
  · refine (guarded_functionWith _ _ _).mono fun cs hcs => opensOperand_of_word ?_
    exact (Bool.or_eq_true _ _ ▸ hcs).elim (opens_of_word (by decide)) (opens_of_word (by decide))
  · refine (guarded_classExpression h).mono fun cs hcs => ?_
    exact (Bool.or_eq_true _ _ ▸ hcs).elim (opensOperand_of_sign (by decide)) fun hcs =>
      opensOperand_of_word (opens_of_word (by decide) hcs)
  · exact (guarded_construction phrase).mono fun cs hcs => opensOperand_of_word (opens_of_word (by decide) hcs)
  · exact (((Guarded.word "import").bind _).node _).mono fun cs hcs => opensOperand_of_word (opens_of_word (by decide) hcs)
  · exact (((Guarded.word "import").bind _).node _).mono fun cs hcs => opensOperand_of_word (opens_of_word (by decide) hcs)
  · exact (Guarded.leaf _ _).mono fun cs hcs => by simp only [opensOperand, hcs, Bool.true_or, Bool.or_true]

/-- Whether something may begin here that goes in front of an operand. -/
def opensPrefix (cs : List Char) : Bool :=
  ["!", "~", "-", "+", "<"].any (startsWith · cs) || ["typeof", "void", "delete", "await", "yield"].contains (wordAt cs)

theorem startsWith_of_append (s s' : String) {cs : List Char} (h : startsWith (s ++ s') cs = true) :
    startsWith s cs = true := by
  rw [startsWith, List.isPrefixOf_iff_prefix] at h ⊢
  rw [String.toList_append] at h
  exact (List.prefix_append _ _).trans h

theorem opensPrefix_of_sign {s : String} (hs : s ∈ ["!", "~", "-", "+", "<"]) {cs : List Char}
    (h : startsWith s cs = true) : opensPrefix cs = true := by
  have hany : ["!", "~", "-", "+", "<"].any (startsWith · cs) = true := List.any_eq_true.mpr ⟨s, hs, h⟩
  rw [opensPrefix, hany, Bool.true_or]

theorem opensPrefix_of_word {w : String} (hw : w ∈ ["typeof", "void", "delete", "await", "yield"]) {cs : List Char}
    (h : decide (wordAt cs = w) = true) : opensPrefix cs = true := by
  rw [opensPrefix, of_decide_eq_true h, List.contains_iff_mem.mpr hw, Bool.or_true]

/-- Where no arrow function stands and nothing that goes in front of an operand, the operand is a primary expression with
    what follows it. -/
theorem operand_eq (h : Guards phrase) {cs rest : List Char} (hskips : Skips cs rest)
    (harrow : Rejects (arrowFunction phrase) cs) (hopens : opensPrefix rest = false) (position : Nat)
    (breakable : Bool) (children : List Node) :
    operand phrase { position, rest := cs, breakable, children } =
      (do primaryExpression phrase; many (suffix phrase) : Parser Unit) { position, rest := cs, breakable, children } := by
  have hsign : ∀ {s}, s ∈ ["!", "~", "-", "+", "<"] → Guarded (keptSign s) opensPrefix := fun hs =>
    (Guarded.keptSign _).mono fun cs => opensPrefix_of_sign hs
  have hword : ∀ {w}, w ∈ ["typeof", "void", "delete", "await", "yield"] → Guarded (word w) opensPrefix := fun hw =>
    (Guarded.word _).mono fun cs => opensPrefix_of_word hw
  have hunary : Guarded (oneOf
      [do guard !(startsWith "!=" (← ahead)); keptSign "!", keptSign "~",
        do guard !(startsWith "--" (← ahead)); keptSign "-", do guard !(startsWith "++" (← ahead)); keptSign "+",
        keptWord .token ["typeof", "void", "delete"]]) opensPrefix := by
    have hunless : ∀ {s s'}, s ∈ ["!", "~", "-", "+", "<"] →
        Guarded (do guard !(startsWith s' (← ahead)); keptSign s : Parser Unit) opensPrefix := fun hs =>
      .ahead fun _ _ => Guarded.behind (.check _) (hsign hs) _ _
    refine .oneOf_cons (hunless (by decide)) <| .oneOf_cons (hsign (by decide)) <| .oneOf_cons (hunless (by decide)) <|
      .oneOf_cons (hunless (by decide)) <| .oneOf_cons ?_ .oneOf_nil
    refine (Guarded.keptWord _ _).mono fun cs hcs => ?_
    rw [opensPrefix, List.contains_iff_mem.mpr, Bool.or_true]
    exact List.mem_append_left ["await", "yield"] (List.contains_iff_mem.mp hcs)
  have hupdate : Guarded (oneOf [keptSign "++", keptSign "--"]) opensPrefix := by
    refine .oneOf_cons ?_ <| .oneOf_cons ?_ .oneOf_nil
    · exact (Guarded.keptSign "++").mono fun cs hcs => opensPrefix_of_sign (by decide) (startsWith_of_append "+" "+" hcs)
    · exact (Guarded.keptSign "--").mono fun cs hcs => opensPrefix_of_sign (by decide) (startsWith_of_append "-" "-" hcs)
  have hassertion : Guarded (phrase .typeArguments) opensPrefix :=
    h.typeArguments.mono fun cs => opensPrefix_of_sign (by decide)
  unfold operand
  rw [harrow.oneOf_eq, (((hunary.bind _).node _).rejects hskips hopens).oneOf_eq,
    (((hupdate.bind _).node _).rejects hskips hopens).oneOf_eq,
    ((((hword (by decide)).bind _).node _).rejects hskips hopens).oneOf_eq,
    ((((hword (by decide)).bind _).node _).rejects hskips hopens).oneOf_eq,
    (((hassertion.bind _).node _).rejects hskips hopens).oneOf_eq, oneOf_singleton]

theorem guarded_operand (h : Guards phrase) : Guarded (operand phrase) opensOperand := by
  intro cs rest hskips hclosed position breakable children
  have hsigns : ∀ s ∈ ["!", "~", "-", "+", "<"], s ∈ operandSigns := by decide
  have hsign : ∀ s ∈ ["!", "~", "-", "+", "<"], startsWith s rest = false := fun s hs =>
    Bool.eq_false_iff.mpr fun hopen => Bool.eq_false_iff.mp hclosed (opensOperand_of_sign (hsigns s hs) hopen)
  have hword : decide (0 < wordLength rest) = false := Bool.eq_false_iff.mpr fun hopen =>
    Bool.eq_false_iff.mp hclosed (opensOperand_of_word hopen)
  have harrow : opensArrow rest = false := by
    rw [opensArrow, opensSignature, hword, hsign "<" (by decide), Bool.false_or, Bool.false_or]
    exact Bool.eq_false_iff.mpr fun hopen => Bool.eq_false_iff.mp hclosed (opensOperand_of_sign (by decide) hopen)
  have hopens : opensPrefix rest = false := by
    rw [opensPrefix, Bool.or_eq_false_iff]
    refine ⟨List.any_eq_false.mpr fun s hs => Bool.eq_false_iff.mp (hsign s hs), Bool.eq_false_iff.mpr fun hopen => ?_⟩
    exact Bool.eq_false_iff.mp hword (opens_of_words (by decide) hopen)
  rw [operand_eq h hskips ((guarded_arrowFunction h).rejects hskips harrow) hopens]
  exact ((guarded_primaryExpression h).bind _).rejects hskips hclosed _ _ _

/-- Whether something may begin here that follows an operand tightly. -/
def opensSuffix (cs : List Char) : Bool :=
  ["?.", ".", "[", "<", "(", "\x60", "!", "++", "--"].any (startsWith · cs)

theorem opensSuffix_of_sign {s : String} (hs : s ∈ ["?.", ".", "[", "<", "(", "\x60", "!", "++", "--"]) {cs : List Char}
    (h : startsWith s cs = true) : opensSuffix cs = true :=
  List.any_eq_true.mpr ⟨s, hs, h⟩

theorem guarded_suffix (h : Guards phrase) : Guarded (suffix phrase) opensSuffix := by
  have hmark : Guarded (sign "?.") opensSuffix := (Guarded.sign _).mono fun cs => opensSuffix_of_sign (by decide)
  have htypes : Guarded (role .typeArguments (phrase .typeArguments)) opensSuffix :=
    (h.typeArguments.role _).mono fun cs => opensSuffix_of_sign (by decide)
  have hcall : Guarded (role .arguments (phrase .callArguments)) opensSuffix :=
    (h.callArguments.role _).mono fun cs => opensSuffix_of_sign (by decide)
  refine .oneOf_cons ?_ <| .oneOf_cons ?_ <| .oneOf_cons ?_ <| .oneOf_cons ?_ <| .oneOf_cons ?_ <| .oneOf_cons ?_ <|
    .oneOf_cons ?_ .oneOf_nil
  · refine (Guarded.bind (.oneOf_cons (hmark.bind _) <| .oneOf_cons ?_ .oneOf_nil) _).extend _ _
    exact (Guarded.signUnless _ _).mono fun cs => opensSuffix_of_sign (by decide)
  · refine (Guarded.bind_either (.optional hmark) ?_).extend _ _
    exact (Guarded.enclosed _ _ _).mono fun cs => opensSuffix_of_sign (by decide)
  · exact (Guarded.bind_either (.optional hmark) (.bind_either (.optional htypes) hcall)).extend _ _
  · refine (Guarded.bind_either (.optional htypes) ?_).extend _ _
    exact ((guarded_template _ _).role _).mono fun cs => opensSuffix_of_sign (by decide)
  · exact (htypes.bind _).extend _ _
  · refine (Guarded.behind (.sameStatement true) ?_).extend _ _
    exact (Guarded.signUnless _ _).mono fun cs => opensSuffix_of_sign (by decide)
  · refine (Guarded.behind (.sameStatement true) (.oneOf_cons ?_ <| .oneOf_cons ?_ .oneOf_nil)).extend _ _
    · exact (Guarded.keptSign _).mono fun cs => opensSuffix_of_sign (by decide)
    · exact (Guarded.keptSign _).mono fun cs => opensSuffix_of_sign (by decide)

theorem guarded_operation (phrase : Phrases) (level : Nat) :
    Guarded (operation phrase level) fun cs => (operatorAt? cs).isSome := by
  refine Guarded.extend (.ahead fun cs rest hskips hclosed => ?_) _ _
  rw [Option.isSome_eq_false_iff, Option.isNone_iff_eq_none] at hclosed
  rw [hclosed]
  exact (Guarded.failure fun _ => false).rejects hskips rfl

theorem guarded_assertedType (phrase : Phrases) : Guarded (assertedType phrase) fun cs =>
    decide (wordAt cs = "as") || decide (wordAt cs = "satisfies") := by
  refine .behind (.sameStatement true) (.oneOf_cons ?_ <| .oneOf_cons ?_ .oneOf_nil)
  · exact (((Guarded.word _).bind _).extend _ _).mono fun cs hcs => by simp only [hcs, Bool.true_or]
  · exact (((Guarded.word _).bind _).extend _ _).mono fun cs hcs => by simp only [hcs, Bool.or_true]

theorem guarded_decorator (phrase : Phrases) : Guarded (decorator phrase) (startsWith "@") :=
  ((Guarded.sign "@").bind _).node _

theorem guards_production (h : Guards phrase) : Guards (production phrase) where
  block := ((Guarded.sign _).bind _).node _
  parameters := (Guarded.enclosed _ _ _).node _
  callArguments := (Guarded.enclosed _ _ _).node _
  typeArguments := (((Guarded.sign _).bind _).withBreaks _).node _
  typeParameters := (((Guarded.sign _).bind _).withBreaks _).node _
  objectType := (((Guarded.sign _).bind _).withBreaks _).node _
  decorators := .many (guarded_decorator phrase)
  operand := guarded_operand h
  binary := fun _ => h.operand.bind _
  expression := (h.binary 0).bind _
  expressions := h.expression.bind _

/-- What the phrases begin with does not depend on the depth to which they are read. -/
theorem guards_read (depth : Nat) : Guards (read depth) := by
  induction depth with
  | zero =>
    exact ⟨.failure _, .failure _, .failure _, .failure _, .failure _, .failure _, fun _ _ _ _ _ _ _ => .inl rfl,
      .failure _, fun _ => .failure _, .failure _, .failure _⟩
  | succ depth ih => exact guards_production ih

/-! ### Statements -/

/-- Words that begin statements other than declarations, imports and exports. -/
def statementWords : List String :=
  ["if", "for", "while", "do", "switch", "try", "return", "throw", "with", "break", "continue", "debugger"]

theorem guarded_keywordStatement (phrase : Phrases) :
    Guarded (keywordStatement phrase) fun cs => statementWords.contains (wordAt cs) := by
  have hword : ∀ {kind w} {f : Unit → Parser Unit}, w ∈ statementWords →
      Guarded (node kind (word w >>= f)) fun cs => statementWords.contains (wordAt cs) := fun hw =>
    (((Guarded.word _).bind _).node _).mono fun cs hcs =>
      List.contains_iff_mem.mpr (of_decide_eq_true hcs ▸ hw)
  have hfor : Guarded (forStatement phrase) fun cs => statementWords.contains (wordAt cs) :=
    .oneOf_cons (hword (by decide)) <| .oneOf_cons (hword (by decide)) .oneOf_nil
  exact .oneOf_cons (hword (by decide)) <| .oneOf_cons hfor <| .oneOf_cons (hword (by decide)) <|
    .oneOf_cons (hword (by decide)) <| .oneOf_cons (hword (by decide)) <| .oneOf_cons (hword (by decide)) <|
    .oneOf_cons (hword (by decide)) <| .oneOf_cons (hword (by decide)) <| .oneOf_cons (hword (by decide)) <|
    .oneOf_cons (hword (by decide)) <| .oneOf_cons (hword (by decide)) <| .oneOf_cons (hword (by decide)) .oneOf_nil

theorem guarded_importStatement (phrase : Phrases) : Guarded (importStatement phrase) fun cs => wordAt cs = "import" :=
  ((Guarded.word _).bind _).node _

theorem guarded_exportStatement (phrase : Phrases) :
    Guarded (exportStatement phrase) fun cs => startsWith "@" cs || decide (wordAt cs = "export") :=
  (Guarded.bind_idle (.many (guarded_decorator phrase)) ((Guarded.word _).bind _)).node _

theorem guarded_functionDeclaration (phrase : Phrases) : Guarded (functionDeclaration phrase) fun cs =>
    decide (wordAt cs = "async") || decide (wordAt cs = "function") :=
  .oneOf_cons (guarded_functionWith _ _ _) <|
    .oneOf_cons ((Guarded.bind_idle (.optional (.word _)) ((Guarded.word _).bind _)).node _) .oneOf_nil

theorem guarded_classDeclaration (phrase : Phrases) : Guarded (classDeclaration phrase) fun cs =>
    startsWith "@" cs || (decide (wordAt cs = "abstract") || decide (wordAt cs = "class")) :=
  (Guarded.bind_idle (.many (guarded_decorator phrase))
    (.bind_idle (.tried (.word _)) ((Guarded.word _).bind _))).nodeOf.discard

theorem guarded_enumDeclaration (phrase : Phrases) : Guarded (enumDeclaration phrase) fun cs =>
    decide (wordAt cs = "const") || decide (wordAt cs = "enum") :=
  (Guarded.bind_idle (.optional (.word _)) ((Guarded.word _).bind _)).node _

theorem guarded_variableDeclaration (phrase : Phrases) : Guarded (variableDeclaration phrase) fun cs =>
    decide (wordAt cs = "var") || (decide (wordAt cs = "const") || decide (wordAt cs = "let")) := by
  refine (Guarded.bind (.orElse ((Guarded.word _).bind _) (.bind (.oneOf_cons ?_ <| .oneOf_cons ?_ .oneOf_nil) _))
    _).nodeOf.discard
  · exact ((Guarded.word "const").bind _).mono fun cs hcs => by simp only [hcs, Bool.true_or]
  · exact (Guarded.word "let").mono fun cs hcs => by simp only [hcs, Bool.or_true]

theorem guarded_interfaceDeclaration (phrase : Phrases) :
    Guarded (interfaceDeclaration phrase) fun cs => wordAt cs = "interface" :=
  ((Guarded.word _).bind _).node _

theorem guarded_typeAlias (phrase : Phrases) : Guarded (typeAlias phrase) fun cs => wordAt cs = "type" :=
  ((Guarded.word _).bind _).node _

theorem guarded_importAlias : Guarded importAlias fun cs => wordAt cs = "import" :=
  ((Guarded.word _).bind _).node _

/-- At the end of the text stands no declaration. -/
theorem declaration_nonempty (phrase : Phrases) : Guarded (declaration phrase) fun cs => !cs.isEmpty := by
  have hnamespace : Guarded (namespaceDeclaration phrase) fun cs => !cs.isEmpty := by
    refine (Guarded.oneOf_cons ?_ <| .oneOf_cons ?_ .oneOf_nil).node _
    · exact .bind (.oneOf_cons ((Guarded.word _).nonempty rfl) <| .oneOf_cons ((Guarded.word _).nonempty rfl) .oneOf_nil) _
    · exact ((Guarded.word _).nonempty rfl).bind _
  refine .oneOf_cons ((guarded_functionDeclaration phrase).nonempty rfl) <|
    .oneOf_cons ((guarded_classDeclaration phrase).nonempty rfl) <|
    .oneOf_cons ((guarded_enumDeclaration phrase).nonempty rfl) <|
    .oneOf_cons ((guarded_variableDeclaration phrase).nonempty rfl) <|
    .oneOf_cons ((guarded_interfaceDeclaration phrase).nonempty rfl) <|
    .oneOf_cons ((guarded_typeAlias phrase).nonempty rfl) <| .oneOf_cons (guarded_importAlias.nonempty rfl) <|
    .oneOf_cons ((((Guarded.word _).nonempty rfl).bind _).node _) <| .oneOf_cons ?_ .oneOf_nil
  exact .ahead fun _ _ => Guarded.behind (f := fun _ => namespaceDeclaration phrase) (.check _) hnamespace _ _

/-- At the end of the text stands no statement. -/
theorem statement_nonempty (h : Guards phrase) : Guarded (statement phrase) fun cs => !cs.isEmpty := by
  refine .withBreaks (.oneOf_cons ?_ <| .oneOf_cons (h.block.nonempty rfl) <|
    .oneOf_cons ((guarded_keywordStatement phrase).nonempty rfl) <|
    .oneOf_cons ((guarded_importStatement phrase).nonempty rfl) <|
    .oneOf_cons ((guarded_exportStatement phrase).nonempty rfl) <| .oneOf_cons (declaration_nonempty phrase) <|
    .oneOf_cons ?_ <| .oneOf_cons ?_ .oneOf_nil) true
  · exact ((Guarded.sign ";").nonempty rfl).node _
  · exact (((Guarded.leaf _ _).nonempty rfl).bind _).node _
  · exact ((h.expressions.nonempty rfl).bind _).node _

end ResponseShapes.Syntax
