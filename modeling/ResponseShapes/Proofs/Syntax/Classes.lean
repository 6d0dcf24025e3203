import ResponseShapes.Proofs.Syntax.Objects
import ResponseShapes.Proofs.Syntax.Types

/-! # Reading classes

A class whose members are decorated fields is read as a class, whatever words the keys of the fields are. -/

namespace ResponseShapes.Syntax

open Syntax.Parser Grammar

variable {text cs rest gap k w ws : List Char} {breakable : Bool} {phrase : Phrases} {kind : Kind} {n : Nat}

/-! ### Ends of statements and members -/

theorem rejects_ending (afterExpression : Bool) (rest : List Char) : Rejects (do
    inlineComments
    guard (endsStatement afterExpression (← get).rest) : Parser Unit) (';' :: rest) := fun _ _ _ => rfl

theorem Reads.semicolon : Reads text semicolon breakable ";".toList rest () (· = []) :=
  .orElse_right (rejects_ending true rest) (.sign_bare (solid_semicolon rest))

theorem Reads.memberEnd (afterExpression : Bool) :
    Reads text (Parser.memberEnd afterExpression) breakable ";".toList rest () (· = []) :=
  .orElse_right (rejects_ending afterExpression rest) (.orElse_left (.sign_bare (solid_semicolon rest)) _)

/-! ### Decorators -/

/-- The arguments of a decorator: none, or an object. -/
def argumentText : List Entry → List Char
  | [] => "()".toList
  | e :: es => "(".toList ++ (objectText " ".toList [] " ".toList e es ++ ([] ++ ")".toList))

theorem Reads.callArguments {es : List Entry} (h : ∀ e ∈ es, e.Proper) :
    Reads text (Grammar.read (n + 7) .callArguments) breakable (argumentText es) rest () (One fun _ => True) := by
  have hnil : List.all [] isSpace = true := rfl
  have hparen : Skips (")".toList ++ rest) (")".toList ++ rest) := .of_solid (solid_closer (by decide) rest)
  have hclose : Closes (")".toList ++ rest) := closes_cons (by decide) rest
  have hcomma : ∀ {f : Unit → Parser Unit}, Rejects (Parser.sign "," >>= f) (")".toList ++ rest) :=
    ((Guarded.sign ",").rejects hparen rfl).bind _
  have harguments : ∀ {cs}, Reads text (Parser.commaSeparated (element (Grammar.read (n + 6)))) false cs (")".toList ++ rest) ()
      (fun _ => True) → Reads text (Grammar.read (n + 7) .callArguments) breakable ("(".toList ++ (cs ++ ([] ++ ")".toList))) rest ()
        (One fun _ => True) := fun h =>
    (node hnil (solid_cons (by decide) (by decide) _) (enclosed (solid_cons (by decide) (by decide) _) hnil
      (solid_closer (by decide) rest) h)).imp fun ns ⟨n, hn, _⟩ => ⟨n, hn, trivial⟩
  cases es with
  | nil =>
    have helement : Rejects (element (Grammar.read (n + 6))) (")".toList ++ rest) :=
      ((((Guarded.sign "...").bind _).node _).rejects hparen rfl).orElse
        (((guards_read _).expression.rejects hparen rfl).orElse fun _ _ _ => rfl)
    exact harguments (of_stays ((Stays.optional helement).bind (.many hcomma))).any
  | cons e es =>
    have hobject : Reads text (objectLiteral (Grammar.read (n + 3))) false (objectText " ".toList [] " ".toList e es)
        (")".toList ++ rest) () fun _ => True :=
      (Reads.object hnil (by decide) (by decide) h (.inl rfl)).any
    have hskips : Skips (objectText " ".toList [] " ".toList e es ++ (")".toList ++ rest)) _ :=
      .of_solid (solid_cons (by decide) (by decide) _)
    have hexpression : Reads text (Grammar.read (n + 6) .expression) false (objectText " ".toList [] " ".toList e es)
        (")".toList ++ rest) () fun _ => True :=
      (hobject.object_operand hskips (hclose.rejects_suffix (guards_read _))).expression hclose
    have helement : Reads text (element (Grammar.read (n + 6))) false (objectText " ".toList [] " ".toList e es)
        (")".toList ++ rest) () fun _ => True :=
      .oneOf_skip ((((Guarded.sign "...").bind _).node _).rejects hskips rfl) (.oneOf_here hexpression _)
    exact harguments (helement.optional.then_stay (.many hcomma))

/-- A decorator with its arguments. -/
def decorationText (w : List Char) (es : List Entry) : List Char :=
  "@".toList ++ (w ++ argumentText es)

theorem Reads.decorator {es : List Entry} (hgap : IsGap gap) (hw : IsWord w) (h : ∀ e ∈ es, e.Proper) :
    Reads text (Grammar.decorator (Grammar.read (n + 7))) breakable (gap ++ decorationText w es) rest () fun _ => True := by
  have hopening : ∃ cs, argumentText es = '(' :: cs := by cases es <;> exact ⟨_, rfl⟩
  obtain ⟨cs, hcs⟩ := hopening
  have hparen : Skips (argumentText es ++ rest) ('(' :: (cs ++ rest)) := by
    rw [hcs]
    exact .of_solid (solid_cons (by decide) (by decide) _)
  have hrest : endsWord (argumentText es ++ rest) = true := by
    rw [hcs]
    rfl
  have hsolid : Solid (decorationText w es ++ rest) := solid_cons (by decide) (by decide) _
  have hname : Reads text (anyName .identifier) breakable w (argumentText es ++ rest) () (One (IsLeaf text .identifier w)) :=
    leaf_bare hw.nonempty (hw.solid _) (hw.length_eq _ hrest)
  have hcall : Extends text (Parser.extend .callExpression (some .function) do
      Parser.optional (Parser.role .typeArguments (Grammar.read (n + 7) .typeArguments))
      Parser.role .arguments (Grammar.read (n + 7) .callArguments)) breakable (argumentText es) rest () (IsLeaf text .identifier w) _ :=
    .extend (.after_stay (.optional ((((guards_read _).typeArguments).role _).rejects hparen rfl))
      ((callArguments h).role _)) _ _
  have hdecorating : Reads text (decorator.decorating (Grammar.read (n + 7))) breakable (w ++ argumentText es) rest () fun _ => True :=
    (hname.extended (.after_stay (.many ((((Guarded.signUnless _ _).bind _).extend _ _).rejects hparen rfl)) hcall.optional)).any
  refine (node_commented hgap hsolid (silent_bind (.sign_bare hsolid) (.oneOf_skip ?_ (.oneOf_here hdecorating _)))).any
  rw [List.append_assoc]
  exact ((Guarded.enclosed _ _ _).node _).rejects (.of_solid (hw.solid _)) (hw.startsWith_eq_false rfl _)

/-! ### Fields -/

/-- A field: its key, and its type with a number of brackets. -/
structure Field where
  key : List Char
  keyKind : Kind
  type : List Char
  depth : Nat

namespace Field

/-- The key is one and the type the name of one. -/
structure Proper (f : Field) : Prop where
  key : IsKey f.key f.keyKind
  type : IsTypeName f.type

/-- The field in front of its semicolon. -/
def written (f : Field) : List Char :=
  f.key ++ (":".toList ++ (" ".toList ++ f.type ++ brackets f.depth))

end Field

variable {f : Field}

theorem startsWith_key (h : IsKey k kind) {s : String} (hs : startsNoWord s = true)
    (hs' : (s.toList.head?.any fun c => c != '\x27' && c != '\x22') = true) (rest : List Char) :
    startsWith s (k ++ rest) = false := by
  cases h with
  | word h => exact h.startsWith_eq_false hs rest
  | string h => exact h.startsWith_eq_false hs' rest

theorem skips_colon (rest : List Char) : Skips (':' :: rest) (':' :: rest) :=
  .of_solid (solid_cons (by decide) (by decide) rest)

/-- A key in front of a colon is a word of its own or not that word. -/
theorem key_cases (h : IsKey k kind) {s : String} (hs : s ≠ "") (rest : List Char) :
    (∀ text breakable, Reads text (word s) breakable k (':' :: rest) () fun _ => True) ∨
      decide (wordAt (k ++ ':' :: rest) = s) = false := by
  by_cases hword : wordAt (k ++ ':' :: rest) = s
  · left
    cases h with
    | word h =>
      intro text breakable
      obtain rfl : String.ofList k = s := (h.wordAt_append (endsWord_colon rest)).symm.trans hword
      have hk : (String.ofList k).toList = k := String.toList_ofList
      have hread : Reads text (word (String.ofList k)) breakable (String.ofList k).toList (':' :: rest) () (· = []) :=
        .word_bare (hk.symm ▸ h) (endsWord_colon rest)
      exact (hread.of_eq hk.symm).any
    | string h =>
      rw [wordAt, h.wordLength_eq_zero] at hword
      exact absurd hword.symm hs
  · exact Or.inr (decide_eq_false hword)

theorem rejects_static (hphrase : Guards phrase) (hws : ws.all isSpace = true) (h : IsKey k kind) (rest : List Char) :
    Rejects (node .staticBlock do word "static"; role .body (phrase .block)) (ws ++ (k ++ ':' :: rest)) := by
  refine .node ((isGap_blanks hws).skips (h.solid _)) ?_ _
  obtain hread | hother := key_cases h (s := "static") (by decide) rest
  · exact .of_reads hread ((hphrase.block.role _).rejects (skips_colon rest) rfl)
  · exact ((Guarded.word _).rejects (.of_solid (h.solid _)) hother).bind _

theorem rejects_indexSignature (phrase : Phrases) (hws : ws.all isSpace = true) (h : IsKey k kind) (rest : List Char) :
    Rejects (indexSignature phrase) (ws ++ (k ++ ':' :: rest)) := by
  have hkey : Skips (k ++ ':' :: rest) (k ++ ':' :: rest) := .of_solid (h.solid _)
  have hsigns : Stays (Parser.optional (oneOf [sign "-", sign "+"])) () (k ++ ':' :: rest) :=
    .optional (((Guarded.sign _).rejects hkey (startsWith_key h rfl rfl _)).orElse
      (((Guarded.sign _).rejects hkey (startsWith_key h rfl rfl _)).orElse fun _ _ _ => rfl))
  refine .node ((isGap_blanks hws).skips (h.solid _)) ?_ _
  obtain hread | hother := key_cases h (s := "readonly") (by decide) rest
  · refine .of_reads (fun text breakable => (Reads.after_stay hsigns (hread text breakable)).optional) (.bind ?_ _)
    exact (Guarded.enclosed _ _ _).rejects (skips_colon rest) rfl
  · refine .after_stay (.optional (.after_stay hsigns ((Guarded.word _).rejects hkey hother))) (.bind ?_ _)
    exact (Guarded.enclosed _ _ _).rejects hkey (startsWith_key h rfl rfl _)

/-- A field with its semicolon. -/
theorem Reads.field {f : Field} (hws : ws.all isSpace = true) (h : f.Proper) :
    Reads text (classMember (Grammar.read (n + 2))) breakable (ws ++ f.written ++ ";".toList) rest () fun _ => True := by
  have hnil : List.all [] isSpace = true := rfl
  have hsemicolon : Skips (";".toList ++ rest) (";".toList ++ rest) := .of_solid (solid_semicolon rest)
  have htype : Reads text (Parser.role .type (annotatedType (Grammar.read (n + 2)))) breakable
      (":".toList ++ (" ".toList ++ f.type ++ brackets f.depth)) (";".toList ++ rest) () fun _ => True :=
    ((node hnil (skips_colon _).solid (silent_bind (.sign_bare (skips_colon _).solid)
      (typeName (by decide) h.type f.depth))).role _).any
  have hcolon : Skips (":".toList ++ (" ".toList ++ f.type ++ brackets f.depth) ++ (";".toList ++ rest)) _ := skips_colon _
  have hmark : Stays (Parser.optional (oneOf [Parser.sign "?", Parser.signUnless "!" ['=']])) ()
      (":".toList ++ (" ".toList ++ f.type ++ brackets f.depth) ++ (";".toList ++ rest)) :=
    .optional (((Guarded.sign _).rejects hcolon rfl).orElse (((Guarded.signUnless _ _).rejects hcolon rfl).orElse fun _ _ _ => rfl))
  have hsignature : ∀ {g : Unit → Parser Kind}, Rejects (signature (Grammar.read (n + 2)) >>= g)
      (":".toList ++ (" ".toList ++ f.type ++ brackets f.depth) ++ (";".toList ++ rest)) :=
    ((guarded_signature (guards_read (n + 2))).rejects hcolon rfl).bind _
  have hname : Reads text (Parser.role .name (Grammar.propertyName (Grammar.read (n + 2)))) breakable f.key
      (":".toList ++ (" ".toList ++ f.type ++ brackets f.depth) ++ (";".toList ++ rest)) () fun _ => True :=
    ((propertyName _ hnil h.key).role _).any
  have hinitializer : Stays (Parser.optional (initializer (Grammar.read (n + 2)))) () (";".toList ++ rest) :=
    .optional ((guarded_initializer _).rejects hsemicolon rfl)
  have hsolid : Solid (f.written ++ (";".toList ++ rest)) := by
    rw [Field.written, List.append_assoc]
    exact h.key.solid _
  have hmodifiers : Stays modifiers () (f.written ++ (";".toList ++ rest)) := by
    rw [Field.written, List.append_assoc]
    exact Stays.modifiers hnil h.key _
  exact then_any (a := Kind.fieldDefinition) (nodeOf hws hsolid (after_stay hmodifiers (hname.then_any (after_stay hmark
    (.orElse_right hsignature (htype.optional.then_stay (hinitializer.bind (.pure _ _)))))))) (.oneOf_here (memberEnd true) _)

/-! ### Class bodies -/

/-- A member of a class: a field behind a decorator, in front of which there is a gap, and on a line of its own. -/
structure DecoratedField where
  gap : List Char
  options : List Entry
  field : Field

namespace DecoratedField

structure Proper (m : DecoratedField) : Prop where
  gap : IsGap m.gap
  options : ∀ e ∈ m.options, e.Proper
  field : m.field.Proper

/-- The member with the name of its decorator. -/
def written (w : List Char) (m : DecoratedField) : List Char :=
  (m.gap ++ decorationText w m.options) ++ ("\n  ".toList ++ m.field.written ++ ";".toList)

end DecoratedField

theorem guarded_indexSignature (phrase : Phrases) : Guarded (indexSignature phrase) fun cs =>
    startsWith "-" cs || startsWith "+" cs || decide (wordAt cs = "readonly") || startsWith "[" cs := by
  have hsigns : Idles (Parser.optional (oneOf [sign "-", sign "+"])) () fun cs => startsWith "-" cs || startsWith "+" cs :=
    .optional (.oneOf_cons ((Guarded.sign _).mono fun _ hcs => by rw [hcs, Bool.true_or])
      (.oneOf_cons ((Guarded.sign _).mono fun _ hcs => by rw [hcs, Bool.or_true]) .oneOf_nil))
  exact .node (.bind_idle (.optional (.bind_idle hsigns (.word _))) ((Guarded.enclosed _ _ _).bind _)) _

theorem guarded_classMember (phrase : Phrases) : Guarded (classMember phrase) fun cs => opensModifier cs || opensName cs :=
  (Guarded.bind_idle idles_modifiers (((guarded_propertyName phrase).role _).bind _)).nodeOf.bind _

/-- What stands in the body of a class. -/
def classElement (phrase : Phrases) : Parser Unit :=
  oneOf
    [sign ";", decorator phrase,
     node .staticBlock do
      word "static"
      role .body (phrase .block),
     do
      indexSignature phrase
      oneOf [memberEnd false, signAhead "\x7d"],
     classMember phrase]

theorem Reads.classField {f : Field} (h : f.Proper) : Reads text (classElement (Grammar.read (n + 2))) breakable
    ("\n  ".toList ++ f.written ++ ";".toList) rest () fun _ => True := by
  have hblank : "\n  ".toList.all isSpace = true := by decide
  have htext : "\n  ".toList ++ f.written ++ ";".toList ++ rest =
      "\n  ".toList ++ (f.key ++ ':' :: ((" ".toList ++ f.type ++ brackets f.depth) ++ (";".toList ++ rest))) := by
    rw [Field.written]
    simp only [List.append_assoc]
    rfl
  have hskips : Skips ("\n  ".toList ++ f.written ++ ";".toList ++ rest) _ := htext ▸ (isGap_blanks hblank).skips (h.key.solid _)
  refine .oneOf_skip ((Guarded.sign _).rejects hskips (startsWith_key h.key rfl rfl _)) <|
    .oneOf_skip ((guarded_decorator _).rejects hskips (startsWith_key h.key rfl rfl _)) <|
    .oneOf_skip ?_ <| .oneOf_skip (.bind ?_ _) <| .oneOf_here (field hblank h) _
  · rw [htext]
    exact rejects_static (guards_read _) hblank h.key _
  · rw [htext]
    exact rejects_indexSignature _ hblank h.key _

theorem Repeats.members {ms : List DecoratedField} (hw : IsWord w) (h : ∀ m ∈ ms, m.Proper)
    (hclosing : ws.all isSpace = true) : Repeats text (classElement (Grammar.read (n + 7))) breakable
      (ms.flatMap (DecoratedField.written w)) (ws ++ "\x7d".toList ++ rest) fun _ => True := by
  induction ms with
  | nil =>
    have hend : Skips (ws ++ "\x7d".toList ++ rest) ("\x7d".toList ++ rest) := by
      rw [List.append_assoc]
      exact (isGap_blanks hclosing).skips (solid_closer (by decide) rest)
    refine .stop (((Guarded.sign _).rejects hend rfl).orElse <| ((guarded_decorator _).rejects hend rfl).orElse <|
      ((((Guarded.word _).bind _).node _).rejects hend rfl).orElse <| Rejects.orElse ?_ <|
      ((guarded_classMember _).rejects hend rfl).orElse fun _ _ _ => rfl) trivial
    exact ((guarded_indexSignature _).rejects hend rfl).bind _
  | cons m ms ih =>
    obtain ⟨hm, hms⟩ := List.forall_mem_cons.mp h
    rw [List.flatMap_cons, DecoratedField.written, List.append_assoc]
    refine .step_any ?_ (.oneOf_skip ?_ (.oneOf_here (.decorator hm.gap hw hm.options) _))
      (.step_any ?_ (.classField hm.field) (ih hms))
    · exact List.append_ne_nil_of_right_ne_nil _ (List.cons_ne_nil _ _)
    · rw [List.append_assoc m.gap]
      exact (Guarded.sign _).rejects (hm.gap.skips (solid_cons (by decide) (by decide) _)) rfl
    · exact List.append_ne_nil_of_right_ne_nil _ (List.cons_ne_nil _ _)

/-- The body of a class, whose closing brace stands behind blanks. -/
def bodyText (w : List Char) (ms : List DecoratedField) (closing : List Char) : List Char :=
  "\x7b".toList ++ (ms.flatMap (DecoratedField.written w) ++ (closing ++ "\x7d".toList))

theorem Reads.classBody {ms : List DecoratedField} {closing : List Char} (hw : IsWord w) (h : ∀ m ∈ ms, m.Proper)
    (hclosing : closing.all isSpace = true) :
    Reads text (Grammar.classBody (Grammar.read (n + 7))) breakable (" ".toList ++ bodyText w ms closing) rest () fun _ => True := by
  have hsolid : Solid (bodyText w ms closing ++ rest) := solid_cons (by decide) (by decide) _
  exact (node (by decide) hsolid (withBreaks (silent_bind (.sign_bare (solid_cons (by decide) (by decide) _))
    ((many (.members hw h hclosing)).then_any (.sign hclosing (solid_closer (by decide) rest)))))).any

theorem Reads.classTail {ms : List DecoratedField} {closing : List Char} (hw : IsWord w) (h : ∀ m ∈ ms, m.Proper)
    (hclosing : closing.all isSpace = true) :
    Reads text (Grammar.read (n + 8) .classTail) breakable (" ".toList ++ bodyText w ms closing) rest () fun _ => True := by
  have hskips : Skips (" ".toList ++ bodyText w ms closing ++ rest) (bodyText w ms closing ++ rest) := by
    rw [List.append_assoc]
    exact (isGap_blanks (by decide)).skips (solid_cons (by decide) (by decide) _)
  have hheritage : ∀ {s : String} {f : Unit → Parser Unit}, s = "extends" ∨ s = "implements" →
      Stays (Parser.optional (Parser.node .classHeritage (Parser.word s >>= f))) () (" ".toList ++ bodyText w ms closing ++ rest) := by
    rintro s f hs
    refine .optional ((((Guarded.word s).bind _).node _).rejects hskips ?_)
    obtain rfl | rfl := hs <;> rfl
  exact after_stay (.optional ((guards_read _).typeParameters.rejects hskips rfl)) (after_stay (hheritage (.inl rfl))
    (after_stay (hheritage (.inr rfl)) ((classBody hw h hclosing).role _).any))

/-- A class with a plain name. -/
theorem Reads.classDeclaration {name : List Char} {ms : List DecoratedField} {closing : List Char} (hname : IsName name)
    (hw : IsWord w) (h : ∀ m ∈ ms, m.Proper) (hclosing : closing.all isSpace = true) :
    Reads text (Grammar.classDeclaration (Grammar.read (n + 8))) breakable
      (" ".toList ++ ("class".toList ++ (" ".toList ++ name ++ (" ".toList ++ bodyText w ms closing)))) rest ()
      (One (IsConstruct .classDeclaration fun _ => True)) := by
  have hblank : " ".toList.all isSpace = true := by decide
  have hclass : IsWord "class".toList := isWord_of_all (by decide) (by decide)
  have hsolid : Solid ("class".toList ++ (" ".toList ++ name ++ (" ".toList ++ bodyText w ms closing)) ++ rest) :=
    solid_cons (by decide) (by decide) _
  have hahead : Skips (" ".toList ++ name ++ (" ".toList ++ bodyText w ms closing) ++ rest)
      (name ++ (" ".toList ++ (bodyText w ms closing ++ rest))) := by
    simp only [List.append_assoc]
    exact (isGap_blanks hblank).skips (hname.word.solid _)
  have hheritage : (!(["extends", "implements"].contains
      (wordAt (name ++ (" ".toList ++ (bodyText w ms closing ++ rest)))))) = true := by
    rw [hname.wordAt_notMem (endsWord_space _) (by decide)]
    rfl
  have hleaf : Reads text (Parser.role .name (anyName .typeIdentifier)) breakable (" ".toList ++ name)
      (" ".toList ++ bodyText w ms closing ++ rest) () (One (Plays .name (Spells text .typeIdentifier name))) :=
    (leaf hblank hname.word.nonempty (hname.word.solid _) (hname.word.length_eq _ (endsWord_space _))).role_leaf (by decide)
  refine discard (nodeOf hblank hsolid ?_)
  refine after_stay (.many ((guarded_decorator _).rejects (.of_solid hsolid) rfl)) (after_stay (.tried ?_) ?_)
  · exact (Guarded.word "abstract").rejects (.of_solid hsolid) rfl
  · exact silent_bind (word_bare hclass (endsWord_space _)) (after_stay (.ahead hahead) (after_stay (.check hheritage _)
      (hleaf.then_any ((classTail hw h hclosing).then_stay (.pure _ _)))))

end ResponseShapes.Syntax
