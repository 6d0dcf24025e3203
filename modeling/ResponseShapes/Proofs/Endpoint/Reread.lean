import ResponseShapes.Endpoint.Scan
import ResponseShapes.Proofs.Entries
import ResponseShapes.Proofs.Syntax.Spelled
import ResponseShapes.Proofs.Syntax.Statements

/-! # Reading declared units back

Of the statements of a module only the last constant is a lookup object (`Ends`), so the unit that the module declares is
read from it (`readDeclaredUnit?_of_ends`). -/

namespace ResponseShapes

open Syntax

variable {s : Source} {n value : Node} {ns ns' : List Node} {name cs cs' gap : List Char} {kind : Kind}
  {after : Node → Prop} {members : Entries String} {lookup : String} {e : Entry} {es : List Entry}

/-! ### Constants of statements -/

/-- The constants that a statement exports. -/
def Syntax.Source.constantsOf (s : Source) (statement : Node) : List (String × Node) :=
  if statement.kind = .exportStatement then
    match statement.child? .declaration with
    | some declaration =>
      if declaration.kind = .lexicalDeclaration then
        (declaration.childrenOf .variableDeclarator).filterMap fun d =>
          match d.child? .name, d.child? .value with
          | some name, some value => some (s.textOf name, value)
          | _, _ => none
      else []
    | none => []
  else []

theorem Syntax.Source.constantDeclarations_eq (s : Source) : s.constantDeclarations = s.root.children.flatMap s.constantsOf := by
  unfold constantDeclarations Node.childrenOf
  induction s.root.children with
  | nil => rfl
  | cons n ns ih =>
    rw [List.filter_cons, List.flatMap_cons, ← ih, constantsOf]
    by_cases hkind : n.kind = .exportStatement
    · rw [if_pos (beq_iff_eq.mpr hkind), if_pos hkind, List.flatMap_cons]
      rfl
    · rw [if_neg (fun h => hkind (beq_iff_eq.mp h)), if_neg hkind, List.nil_append]

theorem constantsOf_of_kind (h : n.kind ≠ .exportStatement) : s.constantsOf n = [] :=
  if_neg h

theorem Syntax.Node.child?_of_children {x : Node} {r : Role} (h : n.children.reverse = [x]) (hrole : x.role = some r) :
    n.child? r = some x := by
  rw [child?, List.reverse_eq_iff.mp h]
  exact List.find?_cons_of_pos (by rw [hrole, beq_self_eq_true])

/-- The exported class or type is no constant. -/
theorem constantsOf_exports {holds : List Node → Prop} (h : Exports kind holds n) (hkind : kind ≠ .lexicalDeclaration) :
    s.constantsOf n = [] := by
  obtain ⟨d, hd, hrole, hbuilt, -⟩ := h.children
  rw [Source.constantsOf, if_pos h.kind_eq, Node.child?_of_children hd hrole]
  exact if_neg (hbuilt ▸ hkind)

/-- The exported constant. -/
theorem constantsOf_declares (h : Exports .lexicalDeclaration (One (Binds s.text name after)) n) :
    ∃ value, s.constantsOf n = [(String.ofList name, value)] ∧ after value := by
  obtain ⟨d, hd, hrole, hbuilt, b, hb, hbinds⟩ := h.children
  obtain ⟨x, y, hxy, ⟨hx, hspelled⟩, hy, hafter⟩ := hbinds.children
  have hchildren : b.children = [x, y] := List.reverse_eq_iff.mp hxy
  have hname : b.child? .name = some x := by
    rw [Node.child?, hchildren, List.find?_cons_of_pos (by rw [hx, beq_self_eq_true])]
  have hvalue : b.child? .value = some y := by
    rw [Node.child?, hchildren, List.find?_cons_of_neg (by rw [hx]; decide),
      List.find?_cons_of_pos (by rw [hy, beq_self_eq_true])]
  have hbinding : d.childrenOf .variableDeclarator = [b] := by
    rw [Node.childrenOf, List.reverse_eq_iff.mp hb]
    exact List.filter_cons_of_pos (beq_iff_eq.mpr hbinds.kind_eq)
  refine ⟨y, ?_, hafter⟩
  rw [Source.constantsOf, if_pos h.kind_eq, Node.child?_of_children hd hrole]
  dsimp only
  rw [if_pos hbuilt, hbinding, List.filterMap_cons, hname, hvalue]
  dsimp only
  rw [Source.textOf, Source.charsOf, Source.slice, hspelled.2]
  rfl

/-! ### Lookup objects -/

theorem lookupMembers?_of_identifier (h : value.kind = .identifier) : lookupMembers? s value = none := by
  obtain ⟨k, r, a, b, cs⟩ := value
  obtain rfl : k = .identifier := h
  rfl

/-- The member that a property of a lookup object stands for, and its declaration. -/
def Syntax.Entry.member (e : Entry) : String × String :=
  (String.ofList (if e.keyKind = .string then unquote e.key else e.key), String.ofList e.value)

theorem lookupPair?_of_means (h : e.Means s.text n) (hvalue : e.valueKind = .identifier) :
    lookupPair? s n = some e.member := by
  obtain ⟨hkind, ⟨key, hkey, hkeyKind, hkeySpelled⟩, value, hval, hvalueKind, hvalueSpelled⟩ := h
  rw [lookupPair?, if_pos hkind, hkey, hval]
  dsimp only
  rw [if_pos (hvalueKind.trans hvalue), Source.stringValue, Source.textOf, Source.textOf, Source.charsOf, Source.charsOf,
    Source.slice, Source.slice, hkeySpelled, hvalueSpelled, hkeyKind, Entry.member]
  split <;> rfl

theorem mapM_lookupPair? (h : List.Forall₂ (Entry.Means s.text) es ns) (hvalue : ∀ e ∈ es, e.valueKind = .identifier) :
    ns.mapM (lookupPair? s) = some (es.map Entry.member) := by
  induction h with
  | nil => rfl
  | cons hn _ ih =>
    obtain ⟨he, hes⟩ := List.forall_mem_cons.mp hvalue
    rw [List.mapM_cons, lookupPair?_of_means hn he, ih hes]
    rfl

theorem filter_isConstruct (h : List.Forall₂ (Entry.Means s.text) es ns) : ns.filter Node.isConstruct = ns := by
  induction h with
  | nil => rfl
  | cons hn _ ih => rw [List.filter_cons_of_pos (by rw [Node.isConstruct, hn.1]; rfl), ih]

/-- The node is an object with the properties, asserted to be constant. -/
def IsLookup (text : List Char) (es : List Entry) : Node → Prop :=
  Built .asExpression fun ns => ∃ n token, ns = [token, n] ∧
    IsConstruct .object (fun ns => List.Forall₂ (Entry.Means text) es ns.reverse) n ∧
      IsLeaf text .token "const".toList token

theorem lookupMembers?_of_lookup (h : IsLookup s.text es value) (hvalue : ∀ e ∈ es, e.valueKind = .identifier) :
    lookupMembers? s value = some (Entries.ofList (es.map Entry.member)) := by
  obtain ⟨k, r, a, b, cs⟩ := value
  obtain ⟨hkind, n, token, hns, hn, -⟩ := h
  obtain rfl : k = .asExpression := hkind
  obtain rfl : cs = [n, token] := List.reverse_eq_iff.mp hns
  -- The sizes of both parts bound how often the value is unwrapped.
  obtain ⟨k', r', a', b', pairs⟩ := n
  obtain ⟨k'', r'', a'', b'', none⟩ := token
  obtain rfl : k' = .object := hn.kind_eq
  have hpairs := hn.children
  rw [List.reverse_reverse] at hpairs
  change List.Forall₂ (Entry.Means s.text) es pairs at hpairs
  have hobject : lookupMembers? s (.mk .asExpression r a b [.mk .object r' a' b' pairs, .mk k'' r'' a'' b'' none]) =
      ((pairs.filter Node.isConstruct).mapM (lookupPair? s)).map Entries.ofList := rfl
  rw [hobject, filter_isConstruct hpairs, mapM_lookupPair? hpairs hvalue]
  rfl

/-! ### The unit of a module -/

/-- Of the constants that the statements export the last one is a lookup object, and only this one. -/
def Ends (s : Source) (name : String) (members : Entries String) (ns : List Node) : Prop :=
  ∃ before value, ns.flatMap s.constantsOf = before ++ [(name, value)] ∧
    (∀ p ∈ before, lookupMembers? s p.2 = none) ∧ lookupMembers? s value = some members

theorem readDeclaredUnit?_of_ends {suffix unit name : String} (h : Ends s name members s.root.children)
    (hname : stem? suffix name = some unit) (path : Path) :
    readDeclaredUnit? suffix s path = some { unit, lookup := name, module := path, members } := by
  obtain ⟨before, value, hconstants, hbefore, hvalue⟩ := h
  rw [readDeclaredUnit?, Source.constantDeclarations_eq, hconstants, Entries.ofList_concat, Entries.findSome?_put]
  · dsimp only
    rw [hname, hvalue]
  · intro e he
    dsimp only
    rw [hbefore e (Entries.mem_of_mem_ofList he)]
    split <;> first | rfl | contradiction

/-! ### Statements in front of the lookup object -/

/-- No constant that the statement exports is a lookup object. -/
def Silent (s : Source) (n : Node) : Prop :=
  ∀ p ∈ s.constantsOf n, lookupMembers? s p.2 = none

theorem silent_of_nil (h : s.constantsOf n = []) : Silent s n := fun p hp => by
  rw [h] at hp
  cases hp

theorem constantsOf_of_commented {holds : Node → Prop} (h : Commented holds ns) (hholds : ∀ n, holds n → s.constantsOf n = []) :
    ∀ n ∈ ns, s.constantsOf n = [] := by
  obtain ⟨n, comments, rfl, hcomments, hn⟩ := h
  refine List.forall_mem_cons.mpr ⟨hholds n hn, fun c hc => constantsOf_of_kind ?_⟩
  rw [hcomments c hc]
  decide

theorem silent_of_commented {holds : Node → Prop} (h : Commented holds ns) (hholds : ∀ n, holds n → Silent s n) :
    ∀ n ∈ ns, Silent s n := by
  obtain ⟨n, comments, rfl, hcomments, hn⟩ := h
  refine List.forall_mem_cons.mpr ⟨hholds n hn, fun c hc => silent_of_nil (constantsOf_of_kind ?_)⟩
  rw [hcomments c hc]
  decide

theorem Ends.behind (h : Ends s lookup members ns) (hns : ∀ n ∈ ns', Silent s n) : Ends s lookup members (ns' ++ ns) := by
  obtain ⟨before, value, hconstants, hbefore, hvalue⟩ := h
  refine ⟨ns'.flatMap s.constantsOf ++ before, value, ?_, fun p hp => ?_, hvalue⟩
  · rw [List.flatMap_append, hconstants, List.append_assoc]
  · rcases List.mem_append.mp hp with hp | hp
    · obtain ⟨n, hn, hp⟩ := List.mem_flatMap.mp hp
      exact hns n hn p hp
    · exact hbefore p hp

/-- The text is read as statements, up to a lookup object behind it. -/
def Precedes (s : Source) (lookup : String) (members : Entries String) (cs : List Char) : Prop :=
  ∀ k cs' rest, Repeats s.text (Grammar.read (k + 9) .statement) true cs' rest (fun ns => Ends s lookup members ns.reverse) →
    Repeats s.text (Grammar.read (k + 9) .statement) true (cs ++ cs') rest fun ns => Ends s lookup members ns.reverse

theorem Precedes.of_reads (hne : cs ≠ []) (h : ∀ k rest, Reads s.text (Grammar.read (k + 9) .statement) true cs rest ()
    fun ns => ∀ n ∈ ns, Silent s n) : Precedes s lookup members cs := fun k cs' rest hrest => by
  refine .step hne (h k (cs' ++ rest)) hrest fun ns ns' hns hns' => ?_
  rw [List.reverse_append]
  exact hns'.behind fun n hn => hns n (List.mem_reverse.mp hn)

theorem Precedes.append (h : Precedes s lookup members cs) (h' : Precedes s lookup members cs') :
    Precedes s lookup members (cs ++ cs') := fun k cs'' rest hrest => by
  rw [List.append_assoc]
  exact h k _ rest (h' k _ rest hrest)

theorem Precedes.flatMap {α : Type} {xs : List α} {f : α → List Char} (h : ∀ x ∈ xs, Precedes s lookup members (f x)) :
    Precedes s lookup members (xs.flatMap f) := by
  induction xs with
  | nil => exact fun k cs' rest hrest => hrest
  | cons x xs ih =>
    obtain ⟨hx, hxs⟩ := List.forall_mem_cons.mp h
    exact hx.append (ih hxs)

theorem precedes_import {w module : List Char} (hgap : IsGap gap) (hw : IsWord w) (hmodule : IsString module) :
    Precedes s lookup members (gap ++ importText w module) := by
  refine .of_reads (List.append_ne_nil_of_right_ne_nil _ (List.cons_ne_nil _ _)) fun k rest =>
    (Reads.statement_import hgap hw hmodule).imp fun ns hns => silent_of_commented hns fun n hn => ?_
  refine silent_of_nil (constantsOf_of_kind ?_)
  rw [hn.kind_eq]
  decide

/-- What exports a class or a type. -/
theorem precedes_export (kind : Kind) (holds : List Node → Prop) {w : String} {tail : List Char} (hgap : IsGap gap) (hw : w ∈ declaringWords)
    (hname : IsWord name) (h : ∀ k rest, Reads s.text (Grammar.declaration (Grammar.read (k + 8))) true
      (" ".toList ++ (w.toList ++ (" ".toList ++ (name ++ tail)))) rest () (One (IsConstruct kind holds)))
    (hcomment : kind ≠ .comment) (hsilent : ∀ n, Exports kind holds n → Silent s n) :
    Precedes s lookup members (gap ++ exportText w name tail) := by
  refine .of_reads (List.append_ne_nil_of_right_ne_nil _ (List.cons_ne_nil _ _)) fun k rest => ?_
  exact (Reads.statement_export hgap (.exportStatement hgap hw hname (h k rest) hcomment)).imp fun ns hns =>
    silent_of_commented hns hsilent

theorem precedes_class {w closing : List Char} {ms : List DecoratedField} (hgap : IsGap gap) (hname : IsName name)
    (hw : IsWord w) (h : ∀ m ∈ ms, m.Proper) (hclosing : closing.all isSpace = true) :
    Precedes s lookup members (gap ++ exportText "class" name (" ".toList ++ bodyText w ms closing)) :=
  precedes_export .classDeclaration (fun _ => True) hgap (by decide) hname.word
    (fun k rest => (Reads.declared_class hname hw h hclosing).of_eq (by simp only [List.append_assoc])) (by decide)
    fun n hn => silent_of_nil (constantsOf_exports hn (by decide))

/-- What a name stands for, behind the name. -/
def givenText (value : List Char) : List Char :=
  " ".toList ++ "=".toList ++ (" ".toList ++ value) ++ ";".toList

theorem reads_type {type rest : List Char} {k : Nat} (hgap : IsGap gap) (hname : IsWord name)
    (htype : Reads s.text (Grammar.read (k + 8) .type) true (" ".toList ++ type) (';' :: rest) () fun _ => True) :
    Reads s.text (Grammar.read (k + 9) .statement) true (gap ++ exportText "type" name (givenText type)) rest ()
      (Commented (Exports .typeAliasDeclaration fun _ => True)) :=
  .statement_export hgap (.exportStatement hgap (by decide) hname ((Reads.declared_type hname htype).of_eq
    (by simp only [aliasText, givenText, List.append_assoc])) (by decide))

theorem precedes_type {type : List Char} (hgap : IsGap gap) (hname : IsWord name)
    (htype : ∀ k rest, Reads s.text (Grammar.read (k + 8) .type) true (" ".toList ++ type) (';' :: rest) () fun _ => True) :
    Precedes s lookup members (gap ++ exportText "type" name (givenText type)) :=
  .of_reads (List.append_ne_nil_of_right_ne_nil _ (List.cons_ne_nil _ _)) fun k rest =>
    (reads_type hgap hname (htype k rest)).imp fun _ hns => silent_of_commented hns fun n hn =>
      silent_of_nil (constantsOf_exports hn (by decide))

theorem exportText_const (name value : List Char) : " ".toList ++ ("const".toList ++ (" ".toList ++ (name ++ givenText value))) =
    " ".toList ++ constantText name value := by
  simp only [givenText, constantText, boundText, List.append_assoc]

/-- A constant that is another name for a constant. -/
theorem precedes_constant {item : List Char} (hgap : IsGap gap) (hname : IsName name) (hitem : IsName item) :
    Precedes s lookup members (gap ++ exportText "const" name (givenText item)) := by
  refine precedes_export .lexicalDeclaration (One (Binds s.text name (Spells s.text .identifier item))) hgap
    (by decide) hname.word (fun k rest => ?_) (by decide) (fun n hn p hp => ?_)
  · rw [exportText_const]
    exact .declared_constant (n := k + 5) hname (.name (by decide) hitem (closes_cons (by decide) rest))
      (fun n hn => hn.kind_eq ▸ by decide) fun n hn => hn.plays .value
  · obtain ⟨value, hconstants, hvalue⟩ := constantsOf_declares hn
    rw [hconstants, List.mem_singleton] at hp
    rw [hp]
    exact lookupMembers?_of_identifier hvalue.1

/-! ### The lookup object -/

/-- The last statements of a module: the lookup object, and a name for its type. -/
theorem repeats_lookup {object gap' type ws : List Char} {es : List Entry} (hgap : IsGap gap) (hgap' : IsGap gap')
    (hname : IsName name) (htype : IsWord type) (hws : ws.all isSpace = true) (k : Nat)
    (hobject : ∀ rest, Reads s.text (Grammar.read (k + 8) .expression) true (" ".toList ++ object) (';' :: rest) ()
      (One (IsConstant s.text (IsConstruct .object fun ns => List.Forall₂ (Entry.Means s.text) es ns.reverse))))
    (hvalue : ∀ e ∈ es, e.valueKind = .identifier) :
    Repeats s.text (Grammar.read (k + 9) .statement) true ((gap ++ exportText "const" name (givenText object)) ++
      ((gap' ++ exportText "type" type (givenText ("typeof".toList ++ (" ".toList ++ name)))) ++ [])) ws
      fun ns => Ends s (String.ofList name) (Entries.ofList (es.map Entry.member)) ns.reverse := by
  have hconstant : ∀ rest, Reads s.text (Grammar.declaration (Grammar.read (k + 8))) true
      (" ".toList ++ ("const".toList ++ (" ".toList ++ (name ++ givenText object)))) rest ()
      (One (IsConstruct .lexicalDeclaration (One (Binds s.text name (IsLookup s.text es))))) := fun rest => by
    rw [exportText_const]
    exact .declared_constant (n := k + 5) hname (hobject rest) (fun n hn => hn.kind_eq ▸ by decide) fun n hn => hn.plays .value
  have hne : ∀ {gap w name tail}, gap ++ exportText w name tail ≠ [] :=
    List.append_ne_nil_of_right_ne_nil _ (List.cons_ne_nil _ _)
  have htypes : Repeats s.text (Grammar.read (k + 9) .statement) true
      ((gap' ++ exportText "type" type (givenText ("typeof".toList ++ (" ".toList ++ name)))) ++ []) ws
      fun ns => ∀ n ∈ ns, s.constantsOf n = [] :=
    .step hne (reads_type hgap' htype (Reads.typeOf (by decide) hname)) (.stop (rejects_statement hws) (List.forall_mem_nil _))
      fun ns _ hns hnone => List.forall_mem_append.mpr
        ⟨hnone, constantsOf_of_commented hns fun n hn => constantsOf_exports hn (by decide)⟩
  refine .step hne (.statement_export hgap (.exportStatement hgap (by decide) hname.word (hconstant _) (by decide))) htypes ?_
  rintro _ ns' ⟨n, comments, rfl, hcomments, hn⟩ hns'
  obtain ⟨value, hconstants, hlookup⟩ := constantsOf_declares hn
  refine ⟨[], value, ?_, List.forall_mem_nil _, lookupMembers?_of_lookup hlookup hvalue⟩
  have hnone : comments.reverse.flatMap s.constantsOf = [] := List.flatMap_eq_nil_iff.mpr fun c hc =>
    constantsOf_of_kind (by rw [hcomments c (List.mem_reverse.mp hc)]; decide)
  have hbehind : ns'.reverse.flatMap s.constantsOf = [] :=
    List.flatMap_eq_nil_iff.mpr fun n hn => hns' n (List.mem_reverse.mp hn)
  rw [List.reverse_append, List.reverse_cons, List.flatMap_append, List.flatMap_append, hnone, hbehind, List.flatMap_singleton,
    hconstants, List.append_nil]

/-- A text whose statements are read so is a source that ends with them. -/
theorem ends_of_repeats [Recovery] {text : String} {ws : List Char} (htext : text.toList = cs ++ ws)
    (hline : dropInterpreterLine text.toList = text.toList) (hws : ws.all isSpace = true)
    (h : ∀ k, Repeats (Source.ofText text).text (Grammar.read (k + 9) .statement) true cs ws fun ns =>
      Ends (Source.ofText text) lookup members ns.reverse) :
    Ends (Source.ofText text) lookup members (Source.ofText text).root.children := by
  rw [Source.text_ofText] at h
  obtain ⟨root, hparse, hends⟩ := parse?_of_repeats htext hline hws fun n => h (n + 23)
  have hsource : Source.ofText text = { text := text.toList, root } := by
    rw [Source.ofText, Source.ofText?, hparse]
    rfl
  rw [List.reverse_reverse] at hends
  rwa [hsource] at hends ⊢

end ResponseShapes
