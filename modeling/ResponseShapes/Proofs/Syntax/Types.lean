import ResponseShapes.Proofs.Syntax.Operands

/-! # Reading types

The name of a type in front of a semicolon, with any number of brackets behind it, is a type, and so is the type of a
constant. -/

namespace ResponseShapes.Syntax

open Syntax.Parser Grammar

variable {text cs rest w ws : List Char} {breakable : Bool} {p : Parser Unit} {phrase : Phrases} {n : Nat}

/-- A word that is read as a type. -/
structure IsTypeName (w : List Char) : Prop where
  word : IsWord w
  plain : String.ofList w ∈ predefinedTypes ∨ String.ofList w ∉ specialWords

theorem IsName.isTypeName (h : IsName w) : IsTypeName w :=
  ⟨h.word, .inr h.plain⟩

theorem IsTypeName.ne (h : IsTypeName w) {s : String} (hs : s ∈ specialWords) (hplain : s ∉ predefinedTypes) :
    String.ofList w ≠ s := by
  rintro rfl
  exact h.plain.elim hplain fun hw => hw hs

/-- Pairs of brackets. -/
def brackets (k : Nat) : List Char :=
  (List.replicate k "[]".toList).flatten

theorem brackets_succ (k : Nat) : brackets (k + 1) = "[]".toList ++ brackets k := by
  rw [brackets, List.replicate_succ, List.flatten_cons]
  rfl

/-- Behind the name of a type stand brackets or a semicolon. -/
theorem brackets_cases {motive : List Char → Prop} (k : Nat) (rest : List Char)
    (hbracket : ∀ cs, motive ('[' :: ']' :: cs)) (hsemicolon : motive (';' :: rest)) : motive (brackets k ++ ';' :: rest) := by
  cases k with
  | zero => exact hsemicolon
  | succ k =>
    rw [brackets_succ]
    exact hbracket _

theorem solid_semicolon (rest : List Char) : Solid (';' :: rest) :=
  solid_cons (by decide) (by decide) rest

theorem solid_brackets (k : Nat) (rest : List Char) : Solid (brackets k ++ ';' :: rest) :=
  brackets_cases k rest (fun _ => solid_cons (by decide) (by decide) _) (solid_semicolon rest)

theorem endsWord_brackets (k : Nat) (rest : List Char) : endsWord (brackets k ++ ';' :: rest) = true :=
  brackets_cases (motive := fun cs => endsWord cs = true) k rest (fun _ => rfl) rfl

theorem rejects_brackets {opens : List Char → Bool} (h : Guarded p opens) (k : Nat) (rest : List Char)
    (hbracket : ∀ cs, opens ('[' :: ']' :: cs) = false) (hsemicolon : opens (';' :: rest) = false) :
    Rejects p (brackets k ++ ';' :: rest) :=
  h.rejects (.of_solid (solid_brackets k rest))
    (brackets_cases (motive := fun cs => opens cs = false) k rest hbracket hsemicolon)

theorem Stays.pathTail (kind : Kind) (k : Nat) (rest : List Char) :
    Stays (Grammar.pathTail kind) () (brackets k ++ ';' :: rest) :=
  .many (rejects_brackets (((Guarded.signUnless "." ['.']).bind _).extend _ _) k rest (fun _ => rfl) rfl)

/-- A word in front of what begins no type but a name. -/
theorem Reads.primaryType (hphrase : Guards phrase) (hws : ws.all isSpace = true) (hw : IsTypeName w) (k : Nat) :
    Reads text (Grammar.primaryType phrase) breakable (ws ++ w) (brackets k ++ ';' :: rest) () (One fun _ => True) := by
  have hrest := endsWord_brackets k rest
  have hsolid := Skips.of_solid (hw.word.solid (brackets k ++ ';' :: rest))
  have hskips : Skips (ws ++ w ++ (brackets k ++ ';' :: rest)) (w ++ (brackets k ++ ';' :: rest)) := by
    rw [List.append_assoc]
    exact (isGap_blanks hws).skips (hw.word.solid _)
  have hsign : ∀ {s}, startsNoWord s = true → startsWith s (w ++ (brackets k ++ ';' :: rest)) = false := fun hs =>
    hw.word.startsWith_eq_false hs _
  have hword : ∀ {s}, s ∈ specialWords → s ∉ predefinedTypes →
      decide (wordAt (w ++ (brackets k ++ ';' :: rest)) = s) = false := fun hs hplain =>
    decide_eq_false (hw.word.wordAt_append hrest ▸ hw.ne hs hplain)
  have hkept : ∀ {cs kind s}, Skips cs (w ++ (brackets k ++ ';' :: rest)) → s ∈ specialWords → s ∉ predefinedTypes →
      Rejects (keptWord kind [s]) cs := fun hskips hs hplain =>
    (Guarded.keptWord _ _).rejects hskips <| by
      rw [← Bool.not_eq_true, List.contains_iff_mem, List.mem_singleton]
      exact of_decide_eq_false (hword hs hplain)
  have hleaf : ∀ {kind} {length : List Char → Nat}, length (w ++ (brackets k ++ ';' :: rest)) = 0 →
      Rejects (Parser.leaf kind length) (w ++ (brackets k ++ ';' :: rest)) := fun hzero =>
    (Guarded.leaf _ _).rejects hsolid (decide_eq_false (by rw [hzero]; exact Nat.lt_irrefl 0))
  have hsigned : ∀ {f : Unit → Parser Unit}, Rejects (oneOf [keptSign "-", keptSign "+"] >>= f) (w ++ (brackets k ++ ';' :: rest)) :=
    .bind (((Guarded.keptSign _).rejects hsolid (hsign rfl)).orElse
      (((Guarded.keptSign _).rejects hsolid (hsign rfl)).orElse fun _ _ _ => rfl)) _
  have hliteral : Rejects (oneOf
      [stringLiteral, Parser.leaf .number numberLength,
       Parser.node .unaryExpression (do oneOf [keptSign "-", keptSign "+"]; Parser.leaf .number numberLength),
       keptWord .null ["null"], keptWord .undefined ["undefined"], keptWord .true ["true"],
       keptWord .false ["false"]]) (w ++ (brackets k ++ ';' :: rest)) :=
    (hleaf (hw.word.stringLength_eq_zero _)).orElse <| (hleaf (hw.word.numberLength_eq_zero _)).orElse <|
      (hsigned.node hsolid _).orElse <| (hkept hsolid (by decide) (by decide)).orElse <|
      (hkept hsolid (by decide) (by decide)).orElse <| (hkept hsolid (by decide) (by decide)).orElse <|
      (hkept hsolid (by decide) (by decide)).orElse fun _ _ _ => rfl
  refine .oneOf_skip (((Guarded.enclosed _ _ _).node _).rejects hskips (hsign rfl)) <|
    .oneOf_skip (hphrase.objectType.rejects hskips (hsign rfl)) <|
    .oneOf_skip (((Guarded.enclosed _ _ _).node _).rejects hskips (hsign rfl)) <|
    .oneOf_skip (hliteral.node hskips _) <| .oneOf_skip ((guarded_template _ _).rejects hskips (hsign rfl)) <|
    .oneOf_skip (hkept hskips (by decide) (by decide)) <| .oneOf_skip (hkept hskips (by decide) (by decide)) <|
    .oneOf_skip ((((Guarded.word _).bind _).node _).rejects hskips (hword (by decide) (by decide))) <|
    .oneOf_skip ((((Guarded.word _).bind _).node _).rejects hskips (hword (by decide) (by decide))) ?_
  have hlength := hw.word.length_eq _ hrest
  have hdot : (skipGap ((w ++ (brackets k ++ ';' :: rest)).drop w.length)).head? ≠ some '.' := by
    rw [List.drop_left, (Skips.of_solid (solid_brackets k rest)).skipGap_eq]
    exact brackets_cases (motive := fun cs => cs.head? ≠ some '.') k rest (by simp) (by simp)
  have hpredefined : (predefinedTypes.contains (String.ofList w) &&
      (skipGap ((w ++ (brackets k ++ ';' :: rest)).drop w.length)).head? != some '.') =
        decide (String.ofList w ∈ predefinedTypes) := by
    rw [bne_iff_ne.mpr hdot, Bool.and_true, List.contains_eq_mem]
  by_cases hplain : String.ofList w ∈ predefinedTypes
  · refine .oneOf_here ((leaf hws hw.word.nonempty (hw.word.solid _) ?_).imp fun ns ⟨n, hn, _⟩ => ⟨n, hn, trivial⟩) _
    rw [hw.word.wordAt_append hrest, hlength, hpredefined, decide_eq_true hplain, if_pos rfl]
  · have hreserved : String.ofList w ∉ reserved := fun h => hw.plain.elim hplain fun hname =>
      hname ((by decide : reserved ⊆ specialWords) h)
    refine .oneOf_skip ((Guarded.leaf _ _).rejects hskips ?_) <| .oneOf_here ?_ _
    · rw [hw.word.wordAt_append hrest, hlength, hpredefined, decide_eq_false hplain]
      rfl
    · refine (then_stay (leaf hws hw.word.nonempty (hw.word.solid _) ?_)
        ((Stays.pathTail _ k rest).bind (.optional ?_))).imp fun ns ⟨n, hn, _⟩ => ⟨n, hn, trivial⟩
      · rw [hw.word.wordAt_append hrest, List.contains_eq_mem, decide_eq_false hreserved, if_neg Bool.false_ne_true, hlength]
      · exact rejects_brackets (.behind (.sameStatement false) ((hphrase.typeArguments.role _).extend _ _)) k rest
          (fun _ => rfl) rfl

/-- Brackets behind a type. -/
theorem extends_brackets (phrase : Phrases) (k : Nat) : Extends text (many do
      sameStatement false
      oneOf
        [extend .arrayType none (do sign "["; sign "]"),
         extend .lookupType none (enclosed "[" "]" (phrase .type))]) breakable (brackets k) (';' :: rest) ()
      (fun _ => True) fun _ => True := by
  refine .many ?_
  induction k with
  | zero =>
    refine .stop ?_
    suffices h : Guarded _ (startsWith "[") from h.rejects (.of_solid (solid_semicolon rest)) rfl
    refine .behind (.sameStatement false) (.oneOf_cons ?_ (.oneOf_cons ?_ .oneOf_nil))
    · exact ((Guarded.sign "[").bind _).extend _ _
    · exact (Guarded.enclosed _ _ _).extend _ _
  | succ k ih =>
    rw [brackets_succ]
    have hopening : Reads text (sign "[") breakable "[".toList ("]".toList ++ (brackets k ++ ';' :: rest)) () (· = []) :=
      .sign_bare (solid_cons (by decide) (by decide) _)
    have hclosing : Reads text (sign "]") breakable "]".toList (brackets k ++ ';' :: rest) () (· = []) :=
      .sign_bare (solid_cons (by decide) (by decide) _)
    exact .step (by decide) (.after_stay (.sameStatement false rfl) (.orElse_left
      ((Extends.extend (hopening.silent_bind hclosing) _ none).imp fun _ _ => trivial) _)) ih

theorem Reads.typeOperand (hphrase : Guards phrase) (hws : ws.all isSpace = true) (hw : IsTypeName w) (k : Nat) :
    Reads text (Grammar.typeOperand phrase) breakable (ws ++ w ++ brackets k) (';' :: rest) () (One fun _ => True) := by
  have hrest := endsWord_brackets k rest
  have hskips : Skips (ws ++ w ++ (brackets k ++ ';' :: rest)) (w ++ (brackets k ++ ';' :: rest)) := by
    rw [List.append_assoc]
    exact (isGap_blanks hws).skips (hw.word.solid _)
  have hskips' : Skips (ws ++ w ++ brackets k ++ ';' :: rest) (w ++ (brackets k ++ ';' :: rest)) := by
    rw [List.append_assoc _ (brackets k)]
    exact hskips
  have hword : ∀ {s}, s ∈ specialWords → s ∉ predefinedTypes →
      decide (wordAt (w ++ (brackets k ++ ';' :: rest)) = s) = false := fun hs hplain =>
    decide_eq_false (hw.word.wordAt_append hrest ▸ hw.ne hs hplain)
  refine .oneOf_skip ((((Guarded.word _).bind _).node _).rejects hskips' (hword (by decide) (by decide))) <|
    .oneOf_skip ((((Guarded.word _).bind _).node _).rejects hskips' (hword (by decide) (by decide))) <|
    .oneOf_skip ((((Guarded.word _).bind _).node _).rejects hskips' (hword (by decide) (by decide))) <|
    .oneOf_skip ?_ <| .oneOf_skip (((guarded_functionType hphrase).node _).rejects hskips' ?_) <| .oneOf_here ?_ _
  · refine (Guarded.node (.bind_idle (.optional ((Guarded.word _).bind _)) ((Guarded.word _).bind _)) _).rejects hskips' ?_
    rw [hword (by decide) (by decide), hword (by decide) (by decide)]
    rfl
  · rw [opensSignature, hw.word.startsWith_eq_false rfl, hw.word.startsWith_eq_false rfl]
    rfl
  · refine extended (.oneOf_skip ?_ (.oneOf_here (primaryType hphrase hws hw k) _)) (extends_brackets phrase k)
    exact (((Guarded.word _).bind _).node _).rejects hskips (hword (by decide) (by decide))

/-- The type of a constant. -/
theorem Reads.typeQuery (hphrase : Guards phrase) (hws : ws.all isSpace = true) (hw : IsName w) :
    Reads text (Grammar.typeOperand phrase) breakable (ws ++ ("typeof".toList ++ (" ".toList ++ w))) (';' :: rest) ()
      (One fun _ => True) := by
  have hskips : Skips (ws ++ ("typeof".toList ++ (" ".toList ++ w)) ++ ';' :: rest)
      ("typeof ".toList ++ (w ++ ';' :: rest)) := by
    simp only [List.append_assoc]
    exact (isGap_blanks hws).skips (solid_cons (by decide) (by decide) _)
  have hname : Skips (" ".toList ++ w ++ ';' :: rest) (w ++ ';' :: rest) := by
    rw [List.append_assoc]
    exact (isGap_blanks (by decide)).skips (hw.word.solid _)
  have hrest : endsWord (';' :: rest) = true := rfl
  have hblank : " ".toList.all isSpace = true := by decide
  have hsubject : Reads text (oneOf
      [Parser.node .importType (do Parser.word "import"; Parser.enclosed "(" ")" (phrase .type)),
       keptWord .this ["this"], Grammar.identifier]) breakable (" ".toList ++ w) (';' :: rest) () (One (IsLeaf text .identifier w)) := by
    refine .oneOf_skip ((((Guarded.word _).bind _).node _).rejects hname (decide_eq_false (hw.wordAt_ne hrest (by decide)))) <|
      .oneOf_skip ((Guarded.keptWord _ _).rejects hname (hw.wordAt_notMem hrest (by decide))) <|
      .oneOf_here (.identifier hblank hw hrest) _
  have harguments : Rejects (phrase .typeArguments) (';' :: rest) :=
    hphrase.typeArguments.rejects (.of_solid (solid_semicolon rest)) rfl
  refine .oneOf_skip ((((Guarded.word _).bind _).node _).rejects hskips rfl) <|
    .oneOf_skip ((((Guarded.word _).bind _).node _).rejects hskips rfl) <|
    .oneOf_skip ((((Guarded.word _).bind _).node _).rejects hskips rfl) <|
    .oneOf_skip ?_ <| .oneOf_skip (((guarded_functionType hphrase).node _).rejects hskips rfl) <| .oneOf_here ?_ _
  · exact (Guarded.node (.bind_idle (.optional ((Guarded.word _).bind _)) ((Guarded.word _).bind _)) _).rejects hskips rfl
  · rw [← List.append_nil (ws ++ _)]
    have htypeof : Reads text (Parser.word "typeof") breakable "typeof".toList (" ".toList ++ w ++ ';' :: rest) () (· = []) :=
      word_bare (isWord_of_all (by decide) (by decide)) rfl
    refine extended (.oneOf_here ((node hws (solid_cons (by decide) (by decide) _) (silent_bind htypeof
      (hsubject.then_stay ((Stays.pathTail .memberExpression 0 rest).bind (.optional harguments))))).imp ?_) _)
      (extends_brackets phrase 0)
    rintro _ ⟨n, rfl, -⟩
    exact ⟨n, rfl, trivial⟩

/-! ### Whole types -/

/-- A type that no sign joins to others. -/
theorem Reads.joinedTypes {joint : String} {part : Parser Unit} {front : List Char} (kind : Kind)
    (h : Reads text part breakable cs (';' :: rest) () fun _ => True) (hskips : Skips (cs ++ ';' :: rest) front)
    (hfront : startsWith joint front = false) (hend : startsWith joint (';' :: rest) = false) :
    Reads text (Grammar.joinedTypes kind joint part) breakable cs (';' :: rest) () fun _ => True := by
  refine after_stay (.tried ((Guarded.signUnless _ _).rejects hskips hfront)) (h.then_stay (.orElse_right ?_ (.orElse_left (.pure () _) _)))
  exact ((((Guarded.signUnless _ _).bind _).bind _).extend _ _).rejects (.of_solid (solid_semicolon rest)) hend

theorem Reads.type {front : List Char} (h : Reads text (read (n + 1) .typeOperand) breakable cs (';' :: rest) () fun _ => True)
    (hskips : Skips (cs ++ ';' :: rest) front) (hunion : startsWith "|" front = false)
    (hintersection : startsWith "&" front = false) :
    Reads text (read (n + 2) .type) breakable cs (';' :: rest) () fun _ => True := by
  have hintersections : Reads text (Grammar.joinedTypes .intersectionType "&" (read (n + 1) .typeOperand)) breakable cs
      (';' :: rest) () fun _ => True := joinedTypes _ h hskips hintersection rfl
  have hunions : Reads text (Grammar.joinedTypes .unionType "|"
      (Grammar.joinedTypes .intersectionType "&" (read (n + 1) .typeOperand))) breakable cs (';' :: rest) () fun _ => True :=
    joinedTypes _ hintersections hskips hunion rfl
  refine hunions.then_stay (.optional ?_)
  suffices h : Guarded _ fun cs => decide (wordAt cs = "extends") from h.rejects (.of_solid (solid_semicolon rest)) rfl
  exact .extend (.behind (.sameStatement false) ((Guarded.word "extends").bind _)) _ _

/-- The name of a type, with brackets behind it, is a type. -/
theorem Reads.typeName (hws : ws.all isSpace = true) (hw : IsTypeName w) (k : Nat) :
    Reads text (read (n + 2) .type) breakable (ws ++ w ++ brackets k) (';' :: rest) () fun _ => True := by
  have hskips : Skips (ws ++ w ++ brackets k ++ ';' :: rest) (w ++ (brackets k ++ ';' :: rest)) := by
    simp only [List.append_assoc]
    exact (isGap_blanks hws).skips (hw.word.solid _)
  exact type (typeOperand (guards_read n) hws hw k).any hskips (hw.word.startsWith_eq_false rfl _)
    (hw.word.startsWith_eq_false rfl _)

/-- The type of a constant is a type. -/
theorem Reads.typeOf (hws : ws.all isSpace = true) (hw : IsName w) :
    Reads text (read (n + 2) .type) breakable (ws ++ ("typeof".toList ++ (" ".toList ++ w))) (';' :: rest) () fun _ => True := by
  have hskips : Skips (ws ++ ("typeof".toList ++ (" ".toList ++ w)) ++ ';' :: rest) ("typeof ".toList ++ (w ++ ';' :: rest)) := by
    simp only [List.append_assoc]
    exact (isGap_blanks hws).skips (solid_cons (by decide) (by decide) _)
  exact type (typeQuery (guards_read n) hws hw).any hskips rfl rfl

end ResponseShapes.Syntax
