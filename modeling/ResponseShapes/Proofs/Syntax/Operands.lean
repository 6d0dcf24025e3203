import ResponseShapes.Proofs.Syntax.Names
import ResponseShapes.Proofs.Syntax.Openings
import ResponseShapes.Proofs.Syntax.Reads

/-! # Reading expressions

In front of a comma, a semicolon or a closing bracket, nothing goes on with an expression, so a name, a literal or an
object is the whole expression. -/

namespace ResponseShapes.Syntax

open Syntax.Parser Grammar

variable {text cs rest front w ws : List Char} {breakable : Bool} {holds : List Node → Prop} {opens : List Char → Bool}
  {p : Parser Unit} {phrase : Phrases}

/-! ### What closes an expression -/

/-- Characters in front of which an expression ends. -/
def closers : List Char :=
  [';', ',', ')', '\x7d']

/-- Behind blanks, a character stands at the front in front of which an expression ends. -/
def Closes (rest : List Char) : Prop :=
  ∃ ws c cs, ws.all isSpace = true ∧ rest = ws ++ c :: cs ∧ c ∈ closers

theorem closes_cons {c : Char} (hc : c ∈ closers) (cs : List Char) : Closes (c :: cs) :=
  ⟨[], c, cs, rfl, rfl, hc⟩

theorem Closes.blank (hws : ws.all isSpace = true) (h : Closes rest) : Closes (ws ++ rest) := by
  obtain ⟨ws', c, cs, hws', rfl, hc⟩ := h
  exact ⟨ws ++ ws', c, cs, by rw [List.all_append, hws, hws']; rfl, (List.append_assoc _ _ _).symm, hc⟩

theorem solid_closer {c : Char} (hc : c ∈ closers) (cs : List Char) : Solid (c :: cs) := by
  have hsolid : ∀ c ∈ closers, isSpace c = false ∧ c ≠ '/' := List.all_iff_forall_prop.mp rfl
  exact solid_cons (hsolid c hc).1 (hsolid c hc).2 cs

/-- A parser whose guard admits no closing character fails. -/
theorem Closes.rejects (h : Closes rest) {p : Parser Unit} (hp : Guarded p opens)
    (hclosed : ∀ cs, ∀ c ∈ closers, opens (c :: cs) = false) : Rejects p rest := by
  obtain ⟨ws, c, cs, hws, rfl, hc⟩ := h
  exact hp.rejects ((isGap_blanks hws).skips (solid_closer hc cs)) (hclosed cs c hc)

theorem endsWord_of_isSpace {c : Char} (hc : isSpace c = true) (cs : List Char) : endsWord (c :: cs) = true := by
  have hne : c ≠ '\\' := by
    rintro rfl
    exact absurd hc (by decide)
  simp [endsWord, isWordPart, hc, hne]

theorem endsWord_blank (hws : ws.all isSpace = true) (h : endsWord rest = true) : endsWord (ws ++ rest) = true := by
  cases ws with
  | nil => exact h
  | cons c ws => exact endsWord_of_isSpace (Bool.and_eq_true_iff.mp hws).1 _

theorem endsWord_space (cs : List Char) : endsWord (" ".toList ++ cs) = true :=
  endsWord_of_isSpace (by decide) cs

theorem Closes.endsWord (h : Closes rest) : endsWord rest = true := by
  obtain ⟨ws, c, cs, hws, rfl, hc⟩ := h
  refine endsWord_blank hws ?_
  revert c
  exact fun c hc => by
    simp only [closers, List.mem_cons, List.not_mem_nil, or_false] at hc
    obtain rfl | rfl | rfl | rfl := hc <;> rfl

theorem forall_closers {holds : Char → Prop} (h₁ : holds ';') (h₂ : holds ',') (h₃ : holds ')') (h₄ : holds '\x7d') :
    ∀ c ∈ closers, holds c :=
  List.forall_mem_cons.mpr ⟨h₁, List.forall_mem_cons.mpr ⟨h₂, List.forall_mem_cons.mpr ⟨h₃,
    List.forall_mem_singleton.mpr h₄⟩⟩⟩

theorem Closes.rejects_suffix (h : Closes rest) (hphrase : Guards phrase) : Rejects (suffix phrase) rest :=
  h.rejects (guarded_suffix hphrase) fun _ => forall_closers rfl rfl rfl rfl

theorem Closes.rejects_operation (h : Closes rest) (phrase : Phrases) (level : Nat) : Rejects (operation phrase level) rest :=
  h.rejects (guarded_operation phrase level) fun _ => forall_closers rfl rfl rfl rfl

theorem Closes.rejects_assertedType (h : Closes rest) (phrase : Phrases) : Rejects (assertedType phrase) rest :=
  h.rejects (guarded_assertedType phrase) fun _ => forall_closers rfl rfl rfl rfl

/-! ### Expressions around operands -/

theorem guarded_assignment (phrase : Phrases) : Guarded (extend .assignmentExpression (some .left) do
      match assignmentAt? (← ahead) with
      | none => failure
      | some text =>
        sign text
        role .right (phrase .expression)) fun cs => (assignmentAt? cs).isSome := by
  refine Guarded.extend (.ahead fun cs rest hskips hclosed => ?_) _ _
  rw [Option.isSome_eq_false_iff, Option.isNone_iff_eq_none] at hclosed
  rw [hclosed]
  exact (Guarded.failure fun _ => false).rejects hskips rfl

/-- A primary expression that nothing stands in front of and nothing follows tightly is an operand. -/
theorem Reads.operand (hphrase : Guards phrase) (h : Reads text (primaryExpression phrase) breakable cs rest () holds)
    (hskips : Skips (cs ++ rest) front) (harrow : Rejects (arrowFunction phrase) (cs ++ rest))
    (hopens : opensPrefix front = false) (hsuffix : Rejects (suffix phrase) rest) :
    Reads text (Grammar.operand phrase) breakable cs rest () holds := fun position children htext => by
  rw [operand_eq hphrase hskips harrow hopens]
  exact h.then_stay (f := fun _ => Parser.many (suffix phrase)) (.many hsuffix) position children htext

/-- Behind a whole expression stands nothing of it. -/
theorem Closes.stays_expression (h : Closes rest) (phrase : Phrases) : Stays (do
      optional <| extend .ternaryExpression none do
        sign "?"
        withBreaks false (phrase .expression)
        sign ":"
        phrase .expression
      optional <| extend .assignmentExpression (some .left) do
        match assignmentAt? (← ahead) with
        | none => failure
        | some text =>
          sign text
          role .right (phrase .expression) : Parser Unit) () rest := by
  refine (Stays.optional ?_).bind (.optional ?_)
  · exact h.rejects (((Guarded.sign "?").bind _).extend _ _) fun _ => forall_closers rfl rfl rfl rfl
  · exact h.rejects (guarded_assignment phrase) fun _ => forall_closers rfl rfl rfl rfl

/-- An operand is an expression where nothing goes on with it. -/
theorem Reads.expression {n : Nat} (h : Reads text (read (n + 1) .operand) breakable cs rest () holds)
    (hclose : Closes rest) : Reads text (read (n + 3) .expression) breakable cs rest () holds := by
  have hbinary : Reads text (Grammar.binary (read (n + 1)) 0) breakable cs rest () holds := by
    refine h.then_stay (.many ?_)
    refine (hclose.rejects_operation _ _).orElse (.orElse ?_ fun _ _ _ => rfl)
    exact fun position breakable children => hclose.rejects_assertedType _ position breakable children
  exact hbinary.then_stay (hclose.stays_expression _)

/-! ### Names and literals -/

/-- A word in front of what closes an expression is no parameter of an arrow function. -/
theorem rejects_arrowFunction (hphrase : Guards phrase) (hws : ws.all isSpace = true) (hw : IsWord w)
    (hasync : String.ofList w ≠ "async") (hclose : Closes rest) :
    Rejects (arrowFunction phrase) (ws ++ (w ++ rest)) := by
  have hskips : Skips (w ++ rest) (w ++ rest) := .of_solid (hw.solid rest)
  have hname : Rejects (do identifier; signAhead "=>" : Parser Unit) (w ++ rest) := by
    by_cases hreserved : reserved.contains (wordAt (w ++ rest)) = true
    · refine ((Guarded.leaf _ _).rejects hskips (decide_eq_false ?_)).bind _
      rw [if_pos hreserved]
      exact Nat.lt_irrefl 0
    · refine .of_reads (a := ()) (fun text breakable => (Reads.leaf_bare hw.nonempty (hw.solid rest) ?_).any) ?_
      · rw [if_neg hreserved, hw.length_eq rest hclose.endsWord]
      · exact hclose.rejects (Guarded.signAhead "=>") fun _ => forall_closers rfl rfl rfl rfl
  have hsignature : Rejects (do signature phrase; signAhead "=>" : Parser Unit) (w ++ rest) := by
    refine ((guarded_signature hphrase).rejects hskips ?_).bind _
    rw [opensSignature, hw.startsWith_eq_false rfl, hw.startsWith_eq_false rfl]
    rfl
  refine .node ((isGap_blanks hws).skips (hw.solid rest)) (.bind (.orElse (.bind ?_ _) (.orElse ?_ fun _ _ _ => rfl)) _) _
  · exact (Guarded.word "async").rejects hskips (decide_eq_false (hw.wordAt_append hclose.endsWord ▸ hasync))
  · exact hname.orElse (hsignature.orElse fun _ _ _ => rfl)

/-- A name where names of values are read. -/
theorem Reads.identifier (hws : ws.all isSpace = true) (hw : IsName w) (hrest : endsWord rest = true) :
    Reads text Grammar.identifier breakable (ws ++ w) rest () (One (IsLeaf text .identifier w)) := by
  refine leaf hws hw.word.nonempty (hw.word.solid rest) ?_
  rw [hw.wordAt_notMem hrest (by decide), if_neg Bool.false_ne_true, hw.word.length_eq rest hrest]

theorem Reads.primary_name (hphrase : Guards phrase) (hws : ws.all isSpace = true) (hw : IsName w)
    (hrest : endsWord rest = true) :
    Reads text (primaryExpression phrase) breakable (ws ++ w) rest () (One (IsLeaf text .identifier w)) := by
  have hskips : Skips (ws ++ w ++ rest) (w ++ rest) := by
    rw [List.append_assoc]
    exact (isGap_blanks hws).skips (hw.word.solid rest)
  have hsign : ∀ {s}, startsNoWord s = true → startsWith s (w ++ rest) = false := fun hs =>
    hw.word.startsWith_eq_false hs rest
  have hlength : ∀ {kind} {length : List Char → Nat}, length (w ++ rest) = 0 →
      Rejects (Parser.leaf kind length) (ws ++ w ++ rest) := fun hzero =>
    (Guarded.leaf _ _).rejects hskips (decide_eq_false (by rw [hzero]; exact Nat.lt_irrefl 0))
  have hword : ∀ {s}, s ∈ specialWords → decide (wordAt (w ++ rest) = s) = false := fun hs =>
    decide_eq_false (hw.wordAt_ne hrest hs)
  have hkept : ∀ {kind words}, words ⊆ specialWords → Rejects (keptWord kind words) (ws ++ w ++ rest) := fun hwords =>
    (Guarded.keptWord _ _).rejects hskips (hw.wordAt_notMem hrest hwords)
  refine .oneOf_skip (((Guarded.enclosed _ _ _).node _).rejects hskips (hsign rfl)) <|
    .oneOf_skip ((guarded_objectLiteral phrase).rejects hskips (hsign rfl)) <|
    .oneOf_skip ((guarded_arrayLiteral phrase).rejects hskips (hsign rfl)) <|
    .oneOf_skip (hlength (hw.word.stringLength_eq_zero rest)) <|
    .oneOf_skip ((guarded_template _ _).rejects hskips (hsign rfl)) <|
    .oneOf_skip (hlength (hw.word.numberLength_eq_zero rest)) <|
    .oneOf_skip (hlength (hw.word.regexLength_eq_zero rest)) <|
    .oneOf_skip (hkept (by decide)) <| .oneOf_skip (hkept (by decide)) <| .oneOf_skip (hkept (by decide)) <|
    .oneOf_skip (hkept (by decide)) <| .oneOf_skip (hkept (by decide)) <| .oneOf_skip (hkept (by decide)) <|
    .oneOf_skip ?_ <| .oneOf_skip ?_ <|
    .oneOf_skip ((guarded_construction phrase).rejects hskips (hword (by decide))) <|
    .oneOf_skip ((((Guarded.word _).bind _).node _).rejects hskips (hword (by decide))) <|
    .oneOf_skip ((((Guarded.word _).bind _).node _).rejects hskips (hword (by decide))) <|
    .oneOf_skip (hlength (hw.word.privateNameLength_eq_zero rest)) <| .oneOf_here (.identifier hws hw hrest) _
  · refine (guarded_functionWith _ _ _).rejects hskips ?_
    rw [hword (by decide), hword (by decide)]
    rfl
  · refine (guarded_classExpression hphrase).rejects hskips ?_
    rw [hsign rfl, hword (by decide)]
    rfl

theorem opensPrefix_word (hw : IsWord w) (hrest : endsWord rest = true)
    (hplain : String.ofList w ∉ ["typeof", "void", "delete", "await", "yield"]) : opensPrefix (w ++ rest) = false := by
  have hsign : ∀ s ∈ ["!", "~", "-", "+", "<"], startsNoWord s = true := by decide
  rw [opensPrefix, Bool.or_eq_false_iff, hw.wordAt_append hrest]
  exact ⟨List.any_eq_false.mpr fun s hs => Bool.eq_false_iff.mp (hw.startsWith_eq_false (hsign s hs) rest),
    Bool.eq_false_iff.mpr fun h => hplain (List.contains_iff_mem.mp h)⟩

/-- A name is a whole expression. -/
theorem Reads.name {n : Nat} (hws : ws.all isSpace = true) (hw : IsName w) (hclose : Closes rest) :
    Reads text (read (n + 3) .expression) breakable (ws ++ w) rest () (One (IsLeaf text .identifier w)) := by
  have hskips := (isGap_blanks hws).skips (hw.word.solid rest)
  have hmem : ∀ {s}, s ∈ specialWords → String.ofList w ≠ s := fun hs heq => hw.plain (heq ▸ hs)
  have hplain : String.ofList w ∉ ["typeof", "void", "delete", "await", "yield"] := fun h =>
    hw.plain ((by decide : ["typeof", "void", "delete", "await", "yield"] ⊆ specialWords) h)
  rw [← List.append_assoc] at hskips
  refine .expression (.operand (guards_read n) (primary_name (guards_read n) hws hw hclose.endsWord) hskips ?_
    (opensPrefix_word hw.word hclose.endsWord hplain) (hclose.rejects_suffix (guards_read n))) hclose
  rw [List.append_assoc]
  exact rejects_arrowFunction (guards_read n) hws hw.word (hmem (by decide)) hclose

/-- A primary expression that begins neither with a word nor with a sign in front of operands is an operand. -/
theorem Reads.literal_operand {n : Nat} (h : Reads text (primaryExpression (read n)) breakable cs rest () holds)
    (hskips : Skips (cs ++ rest) front) (hword : wordLength front = 0)
    (hsigns : ∀ s ∈ ["!", "~", "-", "+", "<", "("], startsWith s front = false) (hsuffix : Rejects (suffix (read n)) rest) :
    Reads text (read (n + 1) .operand) breakable cs rest () holds := by
  have hwordAt : wordAt front = "" := by
    rw [wordAt, hword]
    rfl
  refine operand (guards_read n) h hskips ((guarded_arrowFunction (guards_read n)).rejects hskips ?_) ?_ hsuffix
  · rw [opensArrow, opensSignature, hword, hsigns "<" (by decide), hsigns "(" (by decide)]
    rfl
  · rw [opensPrefix, Bool.or_eq_false_iff, hwordAt]
    refine ⟨List.any_eq_false.mpr fun s hs => Bool.eq_false_iff.mp (hsigns s ?_), rfl⟩
    exact (by decide : ["!", "~", "-", "+", "<"] ⊆ ["!", "~", "-", "+", "<", "("]) hs

theorem Reads.string {n : Nat} (hws : ws.all isSpace = true) (hw : IsString w) (hclose : Closes rest) :
    Reads text (read (n + 3) .expression) breakable (ws ++ w) rest () (One (IsLeaf text .string w)) := by
  have hskips : Skips (ws ++ w ++ rest) (w ++ rest) := by
    rw [List.append_assoc]
    exact (isGap_blanks hws).skips (hw.solid rest)
  have hprimary : Reads text (primaryExpression (read n)) breakable (ws ++ w) rest () (One (IsLeaf text .string w)) := by
    refine .oneOf_skip (((Guarded.enclosed _ _ _).node _).rejects hskips (hw.startsWith_eq_false rfl rest)) <|
      .oneOf_skip ((guarded_objectLiteral _).rejects hskips (hw.startsWith_eq_false rfl rest)) <|
      .oneOf_skip ((guarded_arrayLiteral _).rejects hskips (hw.startsWith_eq_false rfl rest)) <|
      .oneOf_here (leaf hws hw.ne_nil (hw.solid rest) (hw.length_eq rest)) _
  have hsigns : ∀ s ∈ ["!", "~", "-", "+", "<", "("], (s.toList.head?.any fun c => c != '\x27' && c != '\x22') = true := by
    decide
  exact (hprimary.literal_operand hskips (hw.wordLength_eq_zero rest) (fun s hs => hw.startsWith_eq_false (hsigns s hs) rest)
    (hclose.rejects_suffix (guards_read n))).expression hclose

theorem isDigit_of_isSpace {c : Char} (hc : isSpace c = true) : c.isDigit = false := by
  refine Bool.eq_false_iff.mpr fun hdigit => ?_
  simp only [Char.isDigit, Bool.and_eq_true, decide_eq_true_eq, ge_iff_le, UInt32.le_iff_toNat_le] at hdigit
  have hlow : 48 ≤ c.toNat := hdigit.1
  have hhigh : c.toNat ≤ 57 := hdigit.2
  simp only [isSpace, Bool.or_eq_true, Bool.and_eq_true, decide_eq_true_eq, beq_iff_eq] at hc
  omega

theorem Closes.exists_head (h : Closes rest) :
    ∃ c cs, rest = c :: cs ∧ c ∉ "xXbBoO_.neE".toList ∧ c.isDigit = false := by
  obtain ⟨ws, c, cs, hws, rfl, hc⟩ := h
  cases ws with
  | nil =>
    have hnone : ∀ c ∈ closers, c ∉ "xXbBoO_.neE".toList ∧ c.isDigit = false := List.all_iff_forall_prop.mp rfl
    exact ⟨c, cs, rfl, hnone c hc⟩
  | cons b ws =>
    have hspace : isSpace b = true := (Bool.and_eq_true_iff.mp hws).1
    have hletters : ∀ c ∈ "xXbBoO_.neE".toList, isSpace c = false := List.all_iff_forall_prop.mp rfl
    exact ⟨b, _, rfl, fun hb => absurd hspace (Bool.eq_false_iff.mp (hletters b hb)), isDigit_of_isSpace hspace⟩

theorem digitRun_stop {c : Char} (hc : c.isDigit = false) (hline : c ≠ '_') (cs : List Char) :
    digitRun Char.isDigit (c :: cs) = 0 := by
  unfold digitRun
  split <;> simp_all

theorem digitRun_digit {d : Char} (hd : d.isDigit = true) (cs : List Char) :
    digitRun Char.isDigit (d :: cs) = 1 + digitRun Char.isDigit cs := by
  conv_lhs => unfold digitRun
  split <;> simp_all

theorem numberLength_digit {d : Char} (hd : d.isDigit = true) (hclose : Closes rest) : numberLength (d :: rest) = 1 := by
  obtain ⟨c, cs, rfl, hletters, hc⟩ := hclose.exists_head
  have hne : ∀ e ∈ "xXbBoO_.neE".toList, c ≠ e := fun e he heq => hletters (heq ▸ he)
  have hdot : d ≠ '.' := by
    rintro rfl
    exact absurd hd (by decide)
  have hrun : digitRun Char.isDigit (d :: c :: cs) = 1 := by
    rw [digitRun_digit hd, digitRun_stop hc (hne '_' (by decide))]
  have hexponent : exponentLength (c :: cs) = 0 := by
    simp [exponentLength, hne 'e' (by decide), hne 'E' (by decide)]
  have hbase : ∀ e ∈ "xXbBoO".toList, ∀ {ds}, d :: c :: cs ≠ '0' :: e :: ds := by
    intro e he ds heq
    simp only [List.cons.injEq] at heq
    exact hne e ((by decide : "xXbBoO".toList ⊆ "xXbBoO_.neE".toList) he) heq.2.1
  unfold numberLength
  split
  case h_1 heq => exact absurd heq (hbase 'x' (by decide))
  case h_2 heq => exact absurd heq (hbase 'X' (by decide))
  case h_3 heq => exact absurd heq (hbase 'b' (by decide))
  case h_4 heq => exact absurd heq (hbase 'B' (by decide))
  case h_5 heq => exact absurd heq (hbase 'o' (by decide))
  case h_6 heq => exact absurd heq (hbase 'O' (by decide))
  case h_7 heq => exact absurd (List.cons.inj heq).1 hdot
  case h_8 heq =>
    obtain ⟨rfl, rfl⟩ := List.cons.inj heq
    rw [if_pos hd]
    simp only [hrun, List.drop_one, List.tail_cons]
    split
    · rename_i heq
      exact absurd (List.cons.inj heq).1 (hne 'n' (by decide))
    · rename_i heq
      exact absurd (List.cons.inj heq).1 (hne '.' (by decide))
    · rw [hexponent]
  case h_9 heq => cases heq

theorem Reads.digit {n : Nat} (hws : ws.all isSpace = true) {d : Char} (hd : d = '0' ∨ d = '1') (hclose : Closes rest) :
    Reads text (read (n + 3) .expression) breakable (ws ++ [d]) rest () (One (IsLeaf text .number [d])) := by
  have hsolid : Solid ([d] ++ rest) := by
    obtain rfl | rfl := hd <;> exact solid_cons (by decide) (by decide) _
  have hlength : numberLength ([d] ++ rest) = 1 := by
    obtain rfl | rfl := hd <;> exact numberLength_digit (by decide) hclose
  have hskips : Skips (ws ++ [d] ++ rest) ([d] ++ rest) := by
    rw [List.append_assoc]
    exact (isGap_blanks hws).skips hsolid
  have hprimary : Reads text (primaryExpression (read n)) breakable (ws ++ [d]) rest () (One (IsLeaf text .number [d])) := by
    refine .oneOf_skip (((Guarded.enclosed _ _ _).node _).rejects hskips ?_) <|
      .oneOf_skip ((guarded_objectLiteral _).rejects hskips ?_) <|
      .oneOf_skip ((guarded_arrayLiteral _).rejects hskips ?_) <|
      .oneOf_skip ((Guarded.leaf _ _).rejects hskips ?_) <|
      .oneOf_skip ((guarded_template _ _).rejects hskips ?_) <|
      .oneOf_here (leaf hws (List.cons_ne_nil _ _) hsolid hlength) _
    all_goals obtain rfl | rfl := hd <;> rfl
  refine (hprimary.literal_operand hskips ?_ (fun s hs => ?_) (hclose.rejects_suffix (guards_read n))).expression hclose
  · obtain rfl | rfl := hd <;> rfl
  · simp only [List.mem_cons, List.not_mem_nil, or_false] at hs
    obtain rfl | rfl := hd <;> obtain rfl | rfl | rfl | rfl | rfl | rfl := hs <;> rfl

theorem isWord_true : IsWord "true".toList :=
  isWord_of_all (by decide) (by decide)

theorem Reads.truth {n : Nat} (hws : ws.all isSpace = true) (hclose : Closes rest) :
    Reads text (read (n + 3) .expression) breakable (ws ++ "true".toList) rest () (One (IsLeaf text .true "true".toList)) := by
  have hw := isWord_true
  have hwordAt : wordAt ("true".toList ++ rest) = "true" := hw.wordAt_append hclose.endsWord
  have hskips : Skips (ws ++ "true".toList ++ rest) ("true".toList ++ rest) := by
    rw [List.append_assoc]
    exact (isGap_blanks hws).skips (hw.solid rest)
  have hprimary : Reads text (primaryExpression (read n)) breakable (ws ++ "true".toList) rest ()
      (One (IsLeaf text .true "true".toList)) := by
    refine .oneOf_skip (((Guarded.enclosed _ _ _).node _).rejects hskips rfl) <|
      .oneOf_skip ((guarded_objectLiteral _).rejects hskips rfl) <|
      .oneOf_skip ((guarded_arrayLiteral _).rejects hskips rfl) <|
      .oneOf_skip ((Guarded.leaf _ _).rejects hskips rfl) <|
      .oneOf_skip ((guarded_template _ _).rejects hskips rfl) <|
      .oneOf_skip ((Guarded.leaf _ _).rejects hskips rfl) <|
      .oneOf_skip ((Guarded.leaf _ _).rejects hskips rfl) <|
      .oneOf_here (leaf hws hw.nonempty (hw.solid rest) ?_) _
    rw [hwordAt, if_pos (by decide), hw.length_eq rest hclose.endsWord]
  refine .expression (.operand (guards_read n) hprimary hskips ?_ (opensPrefix_word hw hclose.endsWord (by decide))
    (hclose.rejects_suffix (guards_read n))) hclose
  rw [List.append_assoc]
  exact rejects_arrowFunction (guards_read n) hws hw (by decide) hclose

/-- The kind of node that a name or a literal is. -/
inductive IsSimple (w : List Char) : Kind → Prop
  | name (h : IsName w) : IsSimple w .identifier
  | string (h : IsString w) : IsSimple w .string
  | digit (h : w = ['0'] ∨ w = ['1']) : IsSimple w .number
  | truth (h : w = "true".toList) : IsSimple w .true

theorem IsSimple.kind_ne {kind : Kind} (h : IsSimple w kind) : kind ≠ .comment := by
  cases h <;> decide

theorem Reads.simple {n : Nat} {kind : Kind} (hws : ws.all isSpace = true) (h : IsSimple w kind) (hclose : Closes rest) :
    Reads text (read (n + 3) .expression) breakable (ws ++ w) rest () (One (IsLeaf text kind w)) := by
  cases h with
  | name h => exact name hws h hclose
  | string h => exact string hws h hclose
  | digit h => obtain rfl | rfl := h <;> exact digit hws (by decide) hclose
  | truth h =>
    subst h
    exact truth hws hclose

end ResponseShapes.Syntax
