import ResponseShapes.Proofs.Syntax.Imports

/-! # Reading statements

Imports of one name, and exported classes, constants and types, are read as the statements that they are: of a constant
it is known which name and which value its statement holds. -/

namespace ResponseShapes.Syntax

open Syntax.Parser Grammar

variable {text cs rest gap name value : List Char} {breakable : Bool} {phrase : Phrases} {n : Nat} {p : Parser Unit}
  {holds after : Node → Prop}

theorem isWord_class : IsWord "class".toList :=
  isWord_of_all (by decide) (by decide)

theorem isWord_const : IsWord "const".toList :=
  isWord_of_all (by decide) (by decide)

theorem isWord_type : IsWord "type".toList :=
  isWord_of_all (by decide) (by decide)

theorem isWord_export : IsWord "export".toList :=
  isWord_of_all (by decide) (by decide)

/-! ### Constants -/

theorem Reads.pattern (phrase : Phrases) (hname : IsName name) (hrest : endsWord rest = true) :
    Reads text (Grammar.pattern phrase) breakable name rest () (One (IsLeaf text .identifier name)) := by
  have hskips : Skips (name ++ rest) (name ++ rest) := .of_solid (hname.word.solid rest)
  have hsign : ∀ {s}, startsNoWord s = true → startsWith s (name ++ rest) = false := fun hs =>
    hname.word.startsWith_eq_false hs rest
  have hident : Reads text Grammar.identifier breakable name rest () (One (IsLeaf text .identifier name)) :=
    .identifier (show List.all [] isSpace = true from rfl) hname hrest
  exact .oneOf_skip (((Guarded.enclosed _ _ _).node _).rejects hskips (hsign rfl)) <|
    .oneOf_skip (((Guarded.enclosed _ _ _).node _).rejects hskips (hsign rfl)) <|
    .oneOf_skip ((((Guarded.sign _).bind _).node _).rejects hskips (hsign rfl)) <| .oneOf_here hident _

/-- A name and behind it the value that it is given. -/
def boundText (name value : List Char) : List Char :=
  name ++ ((" ".toList ++ "=".toList) ++ (" ".toList ++ value))

/-- The node binds the name to a value of which `after` is true. -/
def Binds (text name : List Char) (after : Node → Prop) : Node → Prop :=
  IsConstruct .variableDeclarator fun ns => ∃ x y, ns = [y, x] ∧ Plays .name (Spells text .identifier name) x ∧
    Plays .value after y

theorem Reads.declarator (hname : IsName name)
    (hvalue : Reads text (Grammar.read (n + 3) .expression) breakable (" ".toList ++ value) (';' :: rest) () (One holds))
    (hkind : ∀ n, holds n → n.kind ≠ .comment) (hplays : ∀ n, holds n → Plays .value after (n.withRole .value)) :
    Reads text (declarators.declarator (Grammar.read (n + 3))) breakable (" ".toList ++ boundText name value) (';' :: rest) ()
      (One (Binds text name after)) := by
  have hblank : " ".toList.all isSpace = true := by decide
  have hsolid : Solid (boundText name value ++ ';' :: rest) := by
    rw [boundText, List.append_assoc]
    exact hname.word.solid _
  have hequals : Skips ((" ".toList ++ "=".toList) ++ (" ".toList ++ value) ++ ';' :: rest)
      ("=".toList ++ (" ".toList ++ (value ++ ';' :: rest))) := by
    simp only [List.append_assoc]
    exact (isGap_blanks hblank).skips (solid_cons (by decide) (by decide) _)
  have hbound : Reads text (Parser.role .name (Grammar.read (n + 3) .pattern)) breakable name
      ((" ".toList ++ "=".toList) ++ (" ".toList ++ value) ++ ';' :: rest) () (One (Plays .name (Spells text .identifier name))) :=
    role_leaf (pattern _ hname (endsWord_space _)) (by decide)
  have hgiven : Reads text (initializer (Grammar.read (n + 3))) breakable (" ".toList ++ "=".toList ++ (" ".toList ++ value))
      (';' :: rest) () (One (Plays .value after)) :=
    silent_bind (.signUnless hblank (solid_cons (by decide) (by decide) _) rfl) (hvalue.role_one hkind hplays)
  have hmark : Stays (Parser.optional (Parser.signUnless "!" ['='])) ()
      ((" ".toList ++ "=".toList) ++ (" ".toList ++ value) ++ ';' :: rest) :=
    .optional ((Guarded.signUnless "!" _).rejects hequals rfl)
  have htyped : Stays (Parser.optional (Parser.role .type (annotatedType (Grammar.read (n + 3))))) ()
      ((" ".toList ++ "=".toList) ++ (" ".toList ++ value) ++ ';' :: rest) :=
    .optional (((guarded_annotatedType _).role _).rejects hequals rfl)
  refine node hblank hsolid (hbound.bind (after_stay hmark (after_stay htyped hgiven.optional)) ?_)
  rintro _ _ ⟨x, rfl, hx⟩ ⟨y, rfl, hy⟩
  exact ⟨x, y, rfl, hx, hy⟩

/-- A constant with its semicolon. -/
def constantText (name value : List Char) : List Char :=
  "const".toList ++ (" ".toList ++ boundText name value ++ ";".toList)

/-- The node declares a constant of which `after` is true. -/
def Declares (text name : List Char) (after : Node → Prop) : Node → Prop :=
  IsConstruct .lexicalDeclaration (One (Binds text name after))

theorem Reads.variableDeclaration (hname : IsName name)
    (hvalue : Reads text (Grammar.read (n + 3) .expression) breakable (" ".toList ++ value) (';' :: rest) () (One holds))
    (hkind : ∀ n, holds n → n.kind ≠ .comment) (hplays : ∀ n, holds n → Plays .value after (n.withRole .value)) :
    Reads text (Grammar.variableDeclaration (Grammar.read (n + 3))) breakable (" ".toList ++ constantText name value) rest ()
      (One (Declares text name after)) := by
  have hblank : " ".toList.all isSpace = true := by decide
  have hsolid : Solid (constantText name value ++ rest) := solid_cons (by decide) (by decide) _
  have hahead : Skips (" ".toList ++ boundText name value ++ ";".toList ++ rest)
      (name ++ (" ".toList ++ ("=".toList ++ (" ".toList ++ (value ++ (";".toList ++ rest)))))) := by
    simp only [boundText, List.append_assoc]
    exact (isGap_blanks hblank).skips (hname.word.solid _)
  have henum : (wordAt (name ++ (" ".toList ++ ("=".toList ++ (" ".toList ++ (value ++ (";".toList ++ rest)))))) != "enum") =
      true := bne_iff_ne.mpr (hname.wordAt_ne (endsWord_space _) (by decide))
  have hconst : Reads text (Parser.word "const") breakable "const".toList (" ".toList ++ boundText name value ++ ";".toList ++ rest) ()
      (· = []) := word_bare isWord_const (endsWord_space _)
  have hbound : Reads text (declarators (Grammar.read (n + 3))) breakable (" ".toList ++ boundText name value) (";".toList ++ rest) ()
      (One (Binds text name after)) :=
    (declarator hname hvalue hkind hplays).then_stay
      (.many (((Guarded.sign ",").rejects (.of_solid (solid_semicolon rest)) rfl).bind _))
  refine discard (nodeOf hblank hsolid (silent_bind (.orElse_right ?_ ?_) (hbound.bind_silent (semicolon.then_stay (.pure _ _)))))
  · exact ((Guarded.word "var").rejects (.of_solid hsolid) rfl).bind _
  · exact (oneOf_here (hconst.then_stay ((Stays.ahead hahead).bind (.check henum _))) _).then_stay (.pure _ _)

/-! ### Types -/

theorem isLineBreak_eq_false {c : Char} (hc : isSpace c = false) : isLineBreak c = false := by
  refine Bool.eq_false_iff.mpr fun hbreak => ?_
  simp only [isLineBreak, Bool.or_eq_true, beq_iff_eq] at hbreak
  obtain (rfl | rfl) | rfl := hbreak <;> exact absurd hc (by decide)

/-- A statement goes on with a word on the same line. -/
theorem IsWord.continues (h : IsWord name) (afterExpression : Bool) (rest : List Char) :
    endsStatement afterExpression (scanGap isInlineSpace 0 .between (" ".toList ++ (name ++ rest))).rest = false := by
  obtain ⟨c, cs, rfl, hc⟩ := h.exists_cons
  obtain ⟨hspace, hslash, hbrace⟩ : isSpace c = false ∧ c ≠ '/' ∧ c ≠ '\x7d' := by
    obtain hc | rfl := hc
    · simp only [isWordStart, isWordPart, Bool.and_eq_true, Bool.not_eq_true'] at hc
      refine ⟨hc.1.1.2, ?_, ?_⟩ <;> rintro rfl <;> exact absurd hc.1.2 (by decide)
    · decide
  have hinline : isInlineSpace c = false := by rw [isInlineSpace, hspace, Bool.false_and]
  change endsStatement afterExpression (scanGap isInlineSpace 0 .between (' ' :: c :: (cs ++ rest))).rest = false
  rw [scanGap_cons _ (by decide), if_pos (by decide), scanGap_cons _ hslash, hinline, if_neg Bool.false_ne_true, endsStatement,
    if_neg (by rwa [beq_iff_eq]), isLineBreak_eq_false hspace, if_neg Bool.false_ne_true, hspace, Bool.false_and]

/-- A name for a type with its semicolon. -/
def aliasText (name type : List Char) : List Char :=
  "type".toList ++ (" ".toList ++ name ++ (" ".toList ++ "=".toList ++ (" ".toList ++ type ++ ";".toList)))

theorem Reads.typeAlias {type : List Char} (hname : IsWord name)
    (htype : Reads text (Grammar.read n .type) breakable (" ".toList ++ type) (';' :: rest) () fun _ => True) :
    Reads text (Grammar.typeAlias (Grammar.read n)) breakable (" ".toList ++ aliasText name type) rest ()
      (One (IsConstruct .typeAliasDeclaration fun _ => True)) := by
  have hblank : " ".toList.all isSpace = true := by decide
  have hequals : Skips (" ".toList ++ "=".toList ++ (" ".toList ++ type ++ ";".toList) ++ rest)
      ("=".toList ++ (" ".toList ++ (type ++ (";".toList ++ rest)))) := by
    simp only [List.append_assoc]
    exact (isGap_blanks hblank).skips (solid_cons (by decide) (by decide) _)
  have hline : Stays (Parser.sameStatement false) ()
      (" ".toList ++ name ++ (" ".toList ++ "=".toList ++ (" ".toList ++ type ++ ";".toList)) ++ rest) := by
    simp only [List.append_assoc]
    exact .sameStatement _ (hname.continues _ _)
  have hbound : Reads text (Parser.role .name (anyName .typeIdentifier)) breakable (" ".toList ++ name)
      (" ".toList ++ "=".toList ++ (" ".toList ++ type ++ ";".toList) ++ rest) () (One (Plays .name (Spells text .typeIdentifier name))) :=
    (leaf hblank hname.nonempty (hname.solid _) (hname.length_eq _ (endsWord_space _))).role_leaf (by decide)
  have hgiven : Reads text (do Parser.sign "="; Grammar.read n .type; Parser.semicolon : Parser Unit) breakable
      (" ".toList ++ "=".toList ++ (" ".toList ++ type ++ ";".toList)) rest () fun _ => True :=
    (Reads.sign hblank (solid_cons (by decide) (by decide) _)).then_any (htype.then_any semicolon)
  have hparameters : Stays (Parser.optional (Grammar.read n .typeParameters)) ()
      (" ".toList ++ "=".toList ++ (" ".toList ++ type ++ ";".toList) ++ rest) :=
    .optional ((guards_read n).typeParameters.rejects hequals rfl)
  exact (node hblank (solid_cons (by decide) (by decide) _) (silent_bind (word_bare isWord_type (endsWord_space _))
    (after_stay hline (hbound.then_any (after_stay hparameters hgiven)))))

/-! ### Declarations -/

theorem Reads.declared_class {ms : List DecoratedField} {w closing : List Char} (hname : IsName name) (hw : IsWord w)
    (h : ∀ m ∈ ms, m.Proper) (hclosing : closing.all isSpace = true) :
    Reads text (Grammar.declaration (Grammar.read (n + 8))) breakable
      (" ".toList ++ ("class".toList ++ (" ".toList ++ name ++ (" ".toList ++ bodyText w ms closing)))) rest ()
      (One (IsConstruct .classDeclaration fun _ => True)) := by
  have hskips : Skips (" ".toList ++ ("class".toList ++ (" ".toList ++ name ++ (" ".toList ++ bodyText w ms closing))) ++ rest)
      ("class".toList ++ (" ".toList ++ name ++ (" ".toList ++ bodyText w ms closing) ++ rest)) := by
    rw [List.append_assoc]
    exact (isGap_blanks (by decide)).skips (solid_cons (by decide) (by decide) _)
  exact .oneOf_skip ((guarded_functionDeclaration _).rejects hskips rfl) (.oneOf_here (.classDeclaration hname hw h hclosing) _)

theorem Reads.declared_constant (hname : IsName name)
    (hvalue : Reads text (Grammar.read (n + 3) .expression) breakable (" ".toList ++ value) (';' :: rest) () (One holds))
    (hkind : ∀ n, holds n → n.kind ≠ .comment) (hplays : ∀ n, holds n → Plays .value after (n.withRole .value)) :
    Reads text (Grammar.declaration (Grammar.read (n + 3))) breakable (" ".toList ++ constantText name value) rest ()
      (One (Declares text name after)) := by
  have hskips : Skips (" ".toList ++ constantText name value ++ rest)
      ("const".toList ++ (" ".toList ++ boundText name value ++ ";".toList ++ rest)) := by
    rw [List.append_assoc]
    exact (isGap_blanks (by decide)).skips (solid_cons (by decide) (by decide) _)
  have hahead : Skips (" ".toList ++ boundText name value ++ ";".toList ++ rest)
      (name ++ (" ".toList ++ ("=".toList ++ (" ".toList ++ (value ++ (";".toList ++ rest)))))) := by
    simp only [boundText, List.append_assoc]
    exact (isGap_blanks (by decide)).skips (hname.word.solid _)
  -- No enumeration: behind the word for constants stands a name.
  have henum : Rejects (enumDeclaration (Grammar.read (n + 3))) (" ".toList ++ constantText name value ++ rest) := by
    refine .node hskips (.of_reads (fun text breakable => (word_bare isWord_const ?_).any.optional) (.bind ?_ _)) _
    · exact endsWord_space _
    · exact (Guarded.word "enum").rejects hahead (decide_eq_false (hname.wordAt_ne (endsWord_space _) (by decide)))
  exact .oneOf_skip ((guarded_functionDeclaration _).rejects hskips rfl) <|
    .oneOf_skip ((guarded_classDeclaration _).rejects hskips rfl) <| .oneOf_skip henum <|
    .oneOf_here (.variableDeclaration hname hvalue hkind hplays) _

theorem Reads.declared_type {type : List Char} (hname : IsWord name)
    (htype : Reads text (Grammar.read n .type) breakable (" ".toList ++ type) (';' :: rest) () fun _ => True) :
    Reads text (Grammar.declaration (Grammar.read n)) breakable (" ".toList ++ aliasText name type) rest ()
      (One (IsConstruct .typeAliasDeclaration fun _ => True)) := by
  have hskips : Skips (" ".toList ++ aliasText name type ++ rest)
      ("type".toList ++ (" ".toList ++ name ++ (" ".toList ++ "=".toList ++ (" ".toList ++ type ++ ";".toList)) ++ rest)) := by
    rw [List.append_assoc]
    exact (isGap_blanks (by decide)).skips (solid_cons (by decide) (by decide) _)
  exact .oneOf_skip ((guarded_functionDeclaration _).rejects hskips rfl) <|
    .oneOf_skip ((guarded_classDeclaration _).rejects hskips rfl) <|
    .oneOf_skip ((guarded_enumDeclaration _).rejects hskips rfl) <|
    .oneOf_skip ((guarded_variableDeclaration _).rejects hskips rfl) <|
    .oneOf_skip ((guarded_interfaceDeclaration _).rejects hskips rfl) <| .oneOf_here (.typeAlias hname htype) _

/-! ### Exports -/

/-- Words that begin the declarations of classes, constants and types. -/
def declaringWords : List String :=
  ["class", "const", "type"]

/-- What is exported: a declaration that begins with a word and a name. -/
def exportText (w : String) (name tail : List Char) : List Char :=
  "export".toList ++ (" ".toList ++ (w.toList ++ (" ".toList ++ (name ++ tail))))

/-- The node exports a declaration. -/
def Exports (kind : Kind) (holds : List Node → Prop) : Node → Prop :=
  IsConstruct .exportStatement (One (Plays .declaration (Built kind holds)))

theorem isWord_declaring {w : String} (h : w ∈ declaringWords) : IsWord w.toList := by
  simp only [declaringWords, List.mem_cons, List.not_mem_nil, or_false] at h
  obtain rfl | rfl | rfl := h
  · exact isWord_class
  · exact isWord_const
  · exact isWord_type

theorem Reads.exportStatement {w : String} {tail : List Char} {kind : Kind} {holds : List Node → Prop}
    (hgap : IsGap gap) (hw : w ∈ declaringWords) (hname : IsWord name)
    (h : Reads text (Grammar.declaration phrase) breakable (" ".toList ++ (w.toList ++ (" ".toList ++ (name ++ tail)))) rest ()
      (One (IsConstruct kind holds))) (hkind : kind ≠ .comment) :
    Reads text (Grammar.exportStatement phrase) breakable (gap ++ exportText w name tail) rest ()
      (Commented (Exports kind holds)) := by
  have hblank : " ".toList.all isSpace = true := by decide
  have hword := isWord_declaring hw
  have hsolid : Solid (exportText w name tail ++ rest) := solid_cons (by decide) (by decide) _
  have hskips : Skips (" ".toList ++ (w.toList ++ (" ".toList ++ (name ++ tail))) ++ rest)
      (w.toList ++ (" ".toList ++ (name ++ tail ++ rest))) := by
    simp only [List.append_assoc]
    exact (isGap_blanks hblank).skips (hword.solid _)
  have hbehind : Skips (" ".toList ++ (name ++ tail ++ rest)) (name ++ (tail ++ rest)) := by
    simp only [List.append_assoc]
    exact (isGap_blanks hblank).skips (hname.solid _)
  have hsign : ∀ {s}, startsNoWord s = true → startsWith s (w.toList ++ (" ".toList ++ (name ++ tail ++ rest))) = false := fun hs =>
    hword.startsWith_eq_false hs _
  have hwordAt : wordAt (w.toList ++ (" ".toList ++ (name ++ tail ++ rest))) = w :=
    (hword.wordAt_append (endsWord_space _)).trans String.ofList_toList
  have hother : ∀ {s : String}, s ∉ declaringWords →
      decide (wordAt (w.toList ++ (" ".toList ++ (name ++ tail ++ rest))) = s) = false := by
    intro s hs
    rw [hwordAt]
    refine decide_eq_false ?_
    rintro rfl
    exact hs hw
  -- Behind the word `type` stands a name, so neither a list nor a star is exported as a type.
  have htype : ∀ {p q : Parser Unit} {s : String} {f : Unit → Parser Unit}, (p = Parser.word "type" ∨
      p = Parser.optional (Parser.word "type")) → Guarded q (startsWith s) → startsNoWord s = true →
        Rejects (p >>= fun _ => q >>= f) (" ".toList ++ (w.toList ++ (" ".toList ++ (name ++ tail))) ++ rest) := by
    intro p q s f hp hq hs
    by_cases heq : w = "type"
    · have hread : ∀ text breakable, Reads text (Parser.word "type") breakable (" ".toList ++ w.toList)
          (" ".toList ++ (name ++ tail ++ rest)) () (· = []) := fun text breakable => by
        rw [heq]
        exact .word hblank isWord_type (endsWord_space _)
      have hreject : Rejects (q >>= f) (" ".toList ++ (name ++ tail ++ rest)) :=
        (hq.rejects hbehind (hname.startsWith_eq_false hs _)).bind f
      have happend : " ".toList ++ (w.toList ++ (" ".toList ++ (name ++ tail))) ++ rest =
          " ".toList ++ w.toList ++ (" ".toList ++ (name ++ tail ++ rest)) := by simp only [List.append_assoc]
      rw [happend]
      obtain rfl | rfl := hp
      · exact .of_reads (fun text breakable => (hread text breakable).any) hreject
      · exact .of_reads (fun text breakable => (hread text breakable).any.optional) hreject
    · have hnone : Rejects (Parser.word "type") (" ".toList ++ (w.toList ++ (" ".toList ++ (name ++ tail))) ++ rest) :=
        (Guarded.word "type").rejects hskips (decide_eq_false (hwordAt.symm ▸ heq))
      obtain rfl | rfl := hp
      · exact hnone.bind _
      · exact .after_stay (.optional hnone) ((hq.rejects hskips (hsign hs)).bind f)
  refine node_commented hgap hsolid (after_stay (.many ((guarded_decorator _).rejects (.of_solid hsolid) rfl))
    (silent_bind (word_bare isWord_export (endsWord_space _)) ?_))
  refine .oneOf_skip (((Guarded.sign "*").rejects hskips (hsign rfl)).bind _) <|
    .oneOf_skip (htype (.inr rfl) ((Guarded.enclosed _ _ _).node _) rfl) <|
    .oneOf_skip (htype (.inl rfl) (Guarded.sign "*") rfl) <|
    .oneOf_skip (((Guarded.word "default").rejects hskips (hother (by decide))).bind _) <|
    .oneOf_skip (((Guarded.signUnless "=" _).rejects hskips (hsign rfl)).bind _) <|
    .oneOf_skip (((Guarded.word "as").rejects hskips (hother (by decide))).bind _) <|
    .oneOf_here (h.role_construct hkind) _

/-! ### Imports -/

/-- A list of one name. -/
def listText (w : List Char) : List Char :=
  "\x7b".toList ++ (" ".toList ++ w ++ (" ".toList ++ "\x7d".toList))

/-- The import of one name. -/
def importText (w module : List Char) : List Char :=
  "import".toList ++ (" ".toList ++ (listText w ++ (sourceText module ++ ";".toList)))

/-- An import of one name is a list of one specifier. -/
theorem importText_eq (w module : List Char) : importText w module =
    namesImport { name := String.ofList w, rename := none, text := String.ofList w } [] module ";".toList := by
  simp only [importText, listText, namesImport, bracesText, List.flatMap_nil, List.append_nil, String.toList_ofList (l := w),
    List.append_assoc]

theorem Reads.importStatement {w module : List Char} (hgap : IsGap gap) (hw : IsWord w) (hmodule : IsString module) :
    Reads text (Grammar.importStatement phrase) breakable (gap ++ importText w module) rest ()
      (Commented (IsConstruct .importStatement fun _ => True)) := by
  have hlisted : Listed { name := String.ofList w, rename := none, text := String.ofList w } :=
    listed_word (by rwa [String.toList_ofList])
  rw [importText_eq]
  exact node_commented hgap (solid_cons (by decide) (by decide) _)
    (importBody hlisted (List.forall_mem_nil _) hmodule (.inl rfl)).any

/-! ### Statements and sources -/

/-- A statement that begins with the word for imports or exports is none of those before these. -/
theorem reads_statement {w : String} {cs' : List Char} {holds : List Node → Prop} (hgap : IsGap gap) (hword : IsWord w.toList)
    (hw : w ∉ statementWords) (h : Reads text (oneOf
      [Grammar.importStatement (Grammar.read n), Grammar.exportStatement (Grammar.read n),
       Grammar.declaration (Grammar.read n),
       Parser.node .labeledStatement do
        anyName .labelIdentifier
        Parser.sign ":"
        Grammar.read n .statement,
       Parser.node .expressionStatement (do Grammar.read n .expressions; Parser.semicolon)]) true
        (gap ++ (w.toList ++ (" ".toList ++ cs'))) rest () holds) :
    Reads text (Grammar.read (n + 1) .statement) breakable (gap ++ (w.toList ++ (" ".toList ++ cs'))) rest () holds := by
  have hskips : Skips (gap ++ (w.toList ++ (" ".toList ++ cs')) ++ rest) (w.toList ++ (" ".toList ++ (cs' ++ rest))) := by
    simp only [List.append_assoc]
    exact hgap.skips (hword.solid _)
  have hwordAt : wordAt (w.toList ++ (" ".toList ++ (cs' ++ rest))) = w :=
    (hword.wordAt_append (endsWord_space _)).trans String.ofList_toList
  refine .withBreaks <| .oneOf_skip (((Guarded.sign ";").node _).rejects hskips (hword.startsWith_eq_false rfl _)) <|
    .oneOf_skip ((guards_read n).block.rejects hskips (hword.startsWith_eq_false rfl _)) <|
    .oneOf_skip ((guarded_keywordStatement _).rejects hskips ?_) h
  rw [hwordAt]
  exact Bool.eq_false_iff.mpr fun hmem => hw (List.contains_iff_mem.mp hmem)

theorem Reads.statement_export {w : String} {tail : List Char} {holds : List Node → Prop} (hgap : IsGap gap)
    (h : Reads text (Grammar.exportStatement (Grammar.read n)) true (gap ++ exportText w name tail) rest () holds) :
    Reads text (Grammar.read (n + 1) .statement) breakable (gap ++ exportText w name tail) rest () holds := by
  have hskips : Skips (gap ++ exportText w name tail ++ rest) (exportText w name tail ++ rest) := by
    rw [List.append_assoc]
    exact hgap.skips (solid_cons (by decide) (by decide) _)
  exact reads_statement hgap isWord_export (by decide) (.oneOf_skip ((guarded_importStatement _).rejects hskips rfl)
    (.oneOf_here h _))

theorem Reads.statement_import {w module : List Char} (hgap : IsGap gap) (hw : IsWord w) (hmodule : IsString module) :
    Reads text (Grammar.read (n + 1) .statement) breakable (gap ++ importText w module) rest ()
      (Commented (IsConstruct .importStatement fun _ => True)) :=
  reads_statement hgap isWord_import (by decide) (.oneOf_here (.importStatement hgap hw hmodule) _)

/-- At the end of a source stands no statement. -/
theorem rejects_statement {ws : List Char} (hws : ws.all isSpace = true) : Rejects (Grammar.read (n + 1) .statement) ws := by
  have hskips := (isGap_blanks hws).skips solid_nil
  rw [List.append_nil] at hskips
  exact (statement_nonempty (guards_read n)).rejects hskips rfl

theorem Reads.statements {ws : List Char} {holds : List Node → Prop} (hws : ws.all isSpace = true)
    (h : Repeats text (Grammar.read n .statement) true cs ws holds) :
    Reads text (Grammar.statements n) true (cs ++ ws) [] () holds := by
  have hend : Reads text (do guard (← get).rest.isEmpty : Parser Unit) true [] [] () (· = []) := fun _ _ _ => ⟨[], rfl, rfl⟩
  have hblank : Reads text (do Parser.gap; guard (← get).rest.isEmpty : Parser Unit) true ws [] () (· = []) :=
    (blanks_bind hws solid_nil hend).of_eq (List.append_nil ws).symm
  rw [← List.append_nil ws] at h
  exact (many h).bind_silent hblank

/-- A source whose statements are read one behind another, up to its last blanks. -/
theorem parse?_of_repeats {ws : List Char} {holds : List Node → Prop} (htext : text = cs ++ ws)
    (hline : dropInterpreterLine text = text) (hws : ws.all isSpace = true)
    (h : ∀ n, Repeats text (Grammar.read (n + phrasesPerCharacter) .statement) true cs ws holds) :
    ∃ root, parse? text = some root ∧ holds root.children.reverse := by
  obtain ⟨depth, hdepth⟩ : ∃ depth, phrasesPerCharacter * (text.length + 1) = depth + phrasesPerCharacter :=
    ⟨_, Nat.mul_succ _ _⟩
  obtain ⟨ns, hrun, hns⟩ := Reads.statements hws (h depth) 0 [] (by rw [List.drop_zero, List.append_nil, htext])
  rw [List.append_nil, List.append_nil, ← htext] at hrun
  refine ⟨.mk .program none 0 text.length ns.reverse, ?_, by rwa [Node.children, List.reverse_reverse]⟩
  unfold parse?
  dsimp only
  rw [hline, Nat.sub_self, hdepth]
  rw [show (Grammar.statements (depth + phrasesPerCharacter)).run _ = _ from hrun]

/-- A source that is nothing but an import of names. -/
theorem parse?_namesImport {p : ImportSpecifier} {ps : List ImportSpecifier} {module closing : List Char} (hp : Listed p)
    (hps : ∀ q ∈ ps, Listed q) (hmodule : IsString module) (hends : StatementEnd closing []) :
    let text := namesImport p ps module closing
    ∃ root n, parse? text = some root ∧ root.children = [n] ∧
      Covers text text (IsConstruct .importStatement (ImportParts text (p :: ps) module)) n := by
  intro text
  have htext : text = "import".toList ++ (" ".toList ++ (bracesText p ps ++ (sourceText module ++ closing))) := by
    simp only [text, namesImport, List.append_assoc]
  have hnode : ∀ phrase, Reads text (Grammar.importStatement phrase) true ([] ++ text) ([] ++ []) ()
      (One (Covers text text (IsConstruct .importStatement (ImportParts text (p :: ps) module)))) := fun phrase =>
    .node_covering rfl (solid_cons (by decide) (by decide) _) (.importBody hp hps hmodule hends)
  have hread : ∀ n, Reads text (Grammar.read (n + 1) .statement) true text ([] ++ []) ()
      (One (Covers text text (IsConstruct .importStatement (ImportParts text (p :: ps) module)))) := fun n => by
    have hstatement : Reads text (Grammar.read (n + 1) .statement) true ([] ++ ("import".toList ++
        (" ".toList ++ (bracesText p ps ++ (sourceText module ++ closing))))) ([] ++ []) () _ :=
      reads_statement (isGap_blanks rfl) isWord_import (by decide)
        (.oneOf_here ((hnode (Grammar.read n)).of_eq (congrArg ([] ++ ·) htext).symm) _)
    exact hstatement.of_eq htext
  have hrepeats : ∀ n, Repeats text (Grammar.read (n + phrasesPerCharacter) .statement) true (text ++ []) []
      (One (Covers text text (IsConstruct .importStatement (ImportParts text (p :: ps) module)))) := fun n => by
    refine .step (List.cons_ne_nil _ _) (hread _) (.stop (rejects_statement rfl) rfl) ?_
    rintro ns _ hns rfl
    exact hns
  obtain ⟨root, hroot, n, hchildren, hn⟩ := parse?_of_repeats (by simp) rfl rfl hrepeats
  exact ⟨root, n, hroot, by rw [← List.reverse_reverse root.children, hchildren]; rfl, hn⟩

end ResponseShapes.Syntax
