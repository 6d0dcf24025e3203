import ResponseShapes.Proofs.Marker.Bound
import ResponseShapes.Proofs.Syntax.Imported
import ResponseShapes.Proofs.Syntax.Statements

/-! # Imports that are written anew

An import that lists other names than before is written anew from its parts, and what is written is read as one import
from the same module that lists the specifiers that stay and then the names that come to it (`relisted_reread`). The word
for types and the attributes are no such parts and are lost. The semicolon is told by the end of the old text, so it stays
as it was unless attributes or a comment end the statement. -/

namespace ResponseShapes

open Syntax

variable {c : Settings} {needs : ImportNeeds} {s s' : Source} {i : Import} {n : Node} {k : Nat}
  {p : ImportSpecifier} {ps : List ImportSpecifier} {specifiers : List String} {text module closing : List Char}

/-- The statement ends with a semicolon of its own, not with one in a comment. -/
def Syntax.Source.Terminated (s : Source) (n : Node) : Prop :=
  (s.charsOf n).getLast? = some ';' ∧ ∀ m ∈ n.children, m.kind = .comment → m.stop ≠ n.stop

/-! ### What was read -/

/-- An import that lists names and nothing else has a clause. -/
theorem exists_clause (h : (s.importOf n).hasNames = true) : ∃ m ∈ n.children, m.kind = .importClause := by
  cases hfind : n.constructs.find? (·.kind = .importClause) with
  | none => simp [Source.importOf, hfind] at h
  | some m =>
    exact ⟨m, (List.mem_filter.mp (List.mem_of_find?_eq_some hfind)).1, by simpa using List.find?_some hfind⟩

/-- The specifiers of an import that was read are written as such. -/
theorem listed_of_isRead (h : IsRead s.text n) : ∀ q ∈ (s.importOf n).specifiers, Listed q := by
  intro q hq
  cases hfind : n.constructs.find? (·.kind = .importClause) with
  | none => simp [Source.importOf, hfind] at hq
  | some clause =>
    have hclause : clause ∈ n.children := (List.mem_filter.mp (List.mem_of_find?_eq_some hfind)).1
    have hkind : clause.kind = .importClause := by simpa using List.find?_some hfind
    simp only [Source.importOf, hfind, Option.map_some, Option.getD_some] at hq
    obtain ⟨l, hl, hq⟩ := List.mem_flatMap.mp hq
    obtain ⟨m, hm, rfl⟩ := List.mem_map.mp hq
    obtain ⟨hl, hlist⟩ := List.mem_filter.mp hl
    obtain ⟨hm, hspecifier⟩ := List.mem_filter.mp hm
    have hwritten := ((h.clauses clause hclause).resolve_right (not_not.mpr hkind)).2 hkind l (List.mem_filter.mp hl).1
    obtain ⟨q, hlisted, -, hread⟩ := hwritten (by simpa using hlist) m hm (by simpa using hspecifier)
    exact (hread s.root).symm ▸ hlisted

/-! ### What is written -/

theorem toList_intercalate_specifiers (p : ImportSpecifier) (ps : List ImportSpecifier) :
    (String.intercalate ", " ((p :: ps).map (·.text))).toList =
      p.text.toList ++ ps.flatMap fun q => ",".toList ++ (" ".toList ++ q.text.toList) := by
  induction ps generalizing p with
  | nil => simp
  | cons q ps ih =>
    rw [List.map_cons, List.map_cons, String.intercalate_cons_cons, String.toList_append, String.toList_append,
      ← List.map_cons, ih, List.flatMap_cons]
    simp only [List.append_assoc]
    rfl

theorem relistedText_eq {m : Node} (hsource : i.node.child? .source = some m)
    (hclosing : closing = if (Text.dropEndWhile Text.isBlank (s.charsOf i.node)).getLast? = some ';' then [';'] else []) :
    relistedText s i ((p :: ps).map (·.text)) = namesImport p ps (s.charsOf m) closing := by
  have hopening : "import \x7b ".toList = "import".toList ++ (" ".toList ++ ("\x7b".toList ++ " ".toList)) := rfl
  have hfrom : " \x7d from ".toList = " ".toList ++ ("\x7d".toList ++ (" ".toList ++ ("from".toList ++ " ".toList))) := rfl
  have hchars : (s.textOf m).toList = s.charsOf m := String.toList_ofList
  rw [relistedText, hsource, hclosing, Option.map_some, Option.getD_some]
  simp only [String.toList_append, toList_intercalate_specifiers, hopening, hfrom, hchars, namesImport, bracesText, sourceText,
    List.append_assoc, List.append_nil]

theorem getLast?_namesImport (p : ImportSpecifier) (ps : List ImportSpecifier) (hmodule : IsString module)
    (hends : StatementEnd closing []) : (namesImport p ps module closing).getLast? = some ';' ↔ closing = ";".toList := by
  rcases hends with rfl | ⟨rfl, -⟩
  · have hend : namesImport p ps module ";".toList =
        "import".toList ++ (" ".toList ++ bracesText p ps ++ sourceText module) ++ [';'] := (List.append_assoc _ _ _).symm
    rw [hend, List.getLast?_concat]
    exact ⟨fun _ => rfl, fun _ => rfl⟩
  · obtain ⟨front, q, rfl, hq, -⟩ := hmodule.exists_append
    have hend : namesImport p ps (front ++ [q]) [] =
        "import".toList ++ (" ".toList ++ (bracesText p ps ++ (" ".toList ++ ("from".toList ++ (" ".toList ++ front))))) ++ [q] := by
      simp only [namesImport, sourceText, List.append_assoc, List.append_nil]
    rw [hend, List.getLast?_concat]
    exact ⟨fun h => absurd (Option.some.inj h) hq, fun h => by cases h⟩

/-! ### What is read again -/

theorem specifiers_of_nodes {ns : List Node} (h : List.Forall₂ (IsSpecifier s.text) ps ns) :
    (ns.filter (·.kind == .importSpecifier)).map s.importSpecifier = ps := by
  induction h with
  | nil => rfl
  | @cons p m ps ms hm _ ih =>
    rw [List.filter_cons_of_pos (by simpa using hm.1), List.map_cons, ih]
    exact congrArg (· :: ps) (hm.2 s.root)

theorem specifiers_of_lists {l : Node} (h : ListsNames s.text ps l) :
    (l.childrenOf .importSpecifier).map s.importSpecifier = ps :=
  specifiers_of_nodes ((List.reverse_reverse l.children) ▸ h.children)

/-- The import whose parts are the clause and the module. -/
theorem importOf_of_parts (hn : IsConstruct .importStatement (ImportParts s.text ps module) n) :
    ∃ x m, n.children = [x, m] ∧ x.kind = .importClause ∧ m.kind = .string ∧ n.child? .source = some m ∧ s.charsOf m = module ∧
      s.importOf n =
        { node := n, source := String.ofList (unquote module), specifiers := ps, hasNames := true, hasOtherBindings := false } := by
  obtain ⟨x, m, hreverse, ⟨hx, hxrole, l, hxreverse, hl⟩, hmrole, hm, hmodule⟩ := hn.children
  have hchildren : n.children = [x, m] := by rw [← List.reverse_reverse n.children, hreverse]; rfl
  have hlist : x.children = [l] := by rw [← List.reverse_reverse x.children, hxreverse]; rfl
  have hsource : n.child? .source = some m := by simp [Node.child?, hchildren, hxrole, hmrole]
  have hclause : n.constructs.find? (·.kind = .importClause) = some x := by
    simp [Node.constructs, hchildren, Node.isConstruct, hx]
  have hparts : x.constructs = [l] := by simp [Node.constructs, hlist, Node.isConstruct, hl.kind_eq]
  refine ⟨x, m, hchildren, hx, hm, hsource, hmodule, ?_⟩
  simp [Source.importOf, hclause, hparts, hsource, hl.kind_eq, specifiers_of_lists hl, Source.stringValue, Source.charsOf,
    Source.slice, hmodule]

/-- What is written anew is read as one import, terminated where a semicolon was written. -/
theorem reread_namesImport (hp : Listed p) (hps : ∀ q ∈ ps, Listed q) (hmodule : IsString module) (hends : StatementEnd closing []) :
    ∃ s' i' m', Source.ofText? (String.ofList (namesImport p ps module closing)) = some s' ∧ s'.imports = [i'] ∧
      i'.node.child? .source = some m' ∧ s'.charsOf m' = module ∧ i'.source = String.ofList (unquote module) ∧
      i'.specifiers = p :: ps ∧ (∀ n ∈ i'.node.children, n.kind = .importClause ∨ n.kind = .string) ∧
      (s'.Terminated i'.node ↔ closing = ";".toList) := by
  obtain ⟨root, n, hroot, hchildren, htext, hn⟩ := parse?_namesImport hp hps hmodule hends
  let s' : Source := { text := namesImport p ps module closing, root }
  obtain ⟨x, m, hparts, hx, hm, hsource, hmodule', himport⟩ := importOf_of_parts (s := s') hn
  have hs' : Source.ofText? (String.ofList (namesImport p ps module closing)) = some s' := by
    rw [Source.ofText?, String.toList_ofList, hroot, Option.map_some]
  have himports : s'.imports = [s'.importOf n] := by
    have hkind : (n.kind == .importStatement) = true := beq_iff_eq.mpr hn.kind_eq
    simp [Source.imports, s', Node.childrenOf, hchildren, hkind]
  refine ⟨s', _, m, hs', himports, hsource, hmodule', by rw [himport], by rw [himport], ?_, ?_⟩
  · intro y hy
    rw [show (s'.importOf n).node.children = [x, m] from hparts, List.mem_cons, List.mem_singleton] at hy
    rcases hy with rfl | rfl
    · exact .inl hx
    · exact .inr hm
  · have hchars : s'.charsOf n = namesImport p ps module closing := htext
    have hcomments : ∀ y ∈ n.children, y.kind = .comment → y.stop ≠ n.stop := fun y hy hkind => by
      rw [hparts, List.mem_cons, List.mem_singleton] at hy
      rcases hy with rfl | rfl
      · exact absurd (hx.symm.trans hkind) (by decide)
      · exact absurd (hm.symm.trans hkind) (by decide)
    have hlast := getLast?_namesImport p ps hmodule hends
    rw [← hchars] at hlast
    exact ⟨fun h => hlast.mp h.1, fun h => ⟨hlast.mpr h, hcomments⟩⟩

/-! ### What is written anew -/

/-- The specifiers of an import after the change: those that stay, and the names that come to it. -/
def relistedSpecifiers (c : Settings) (needs : ImportNeeds) (imports : List Import) (k : Nat) (i : Import) :
    List ImportSpecifier :=
  i.staying c.conventions needs.dropMarkers ++ (addedTo c.documentation needs imports k).map .bare

/-- Only an import that lists names and binds nothing else is written anew, and some names are left to it. -/
theorem relisted_of_importChanges {imports : List Import} (hlists : ∀ i ∈ imports, i.hasNames = false → i.specifiers = [])
    (h : (importChanges c needs imports)[k]? = some (i, .relisted specifiers)) : imports[k]? = some i ∧
      i.hasNames = true ∧ relistedSpecifiers c needs imports k i ≠ [] ∧
      specifiers = (relistedSpecifiers c needs imports k i).map (·.text) := by
  obtain ⟨hi, hchange⟩ : imports[k]? = some i ∧
      importChange c.conventions needs.dropMarkers (addedTo c.documentation needs imports k) i = .relisted specifiers := by
    rw [importChanges, List.getElem?_map, List.getElem?_zipIdx, Option.map_map] at h
    obtain ⟨i', hi, heq⟩ := Option.map_eq_some_iff.mp h
    obtain ⟨rfl, hchange⟩ := Prod.mk.inj heq
    rw [Nat.zero_add] at hchange
    exact ⟨hi, hchange⟩
  have hkept : ¬(i.hasOtherBindings = true ∨ i.specifiers = [] ∧ addedTo c.documentation needs imports k = []) := fun hkept => by
    rw [importChange_kept hkept] at hchange
    cases hchange
  rw [not_or, Bool.not_eq_true] at hkept
  obtain ⟨hother, hsome⟩ := hkept
  have hnames : i.hasNames = true := by
    by_contra hnone
    rw [Bool.not_eq_true] at hnone
    exact hsome ⟨hlists i (List.mem_of_getElem? hi) hnone, addedTo_of_other hi (.inr hnone)⟩
  have hbare : (relistedSpecifiers c needs imports k i).map (·.text) =
      remainingSpecifiers c.conventions needs.dropMarkers i ++ addedTo c.documentation needs imports k := by
    rw [remainingSpecifiers_eq _ _ hother, relistedSpecifiers, List.map_append, List.map_map]
    exact congrArg (_ ++ ·) (List.map_id' _)
  unfold importChange at hchange
  dsimp only at hchange
  rw [← hbare] at hchange
  split at hchange
  · cases hchange
  · split at hchange
    · cases hchange
    · rename_i hempty
      refine ⟨hi, hnames, fun hnil => hempty (by rw [hnil]; rfl), ?_⟩
      exact (ImportChange.relisted.inj hchange).symm

theorem isRead_of_ofText? {text : String} (hs : Source.ofText? text = some s) :
    ∀ n ∈ s.root.childrenOf .importStatement, IsRead s.text n := by
  obtain ⟨root, hroot, rfl⟩ := Option.map_eq_some_iff.mp hs
  exact isRead_of_parse? hroot

/-- What stays was read as a specifier, and a decorator is one by its name. -/
theorem listed_relistedSpecifiers (hread : IsRead s.text n) (hdecorators : ∀ name ∈ needs.decorators, IsWord name.toList) :
    ∀ q ∈ relistedSpecifiers c needs s.imports k (s.importOf n), Listed q := by
  intro q hq
  rcases List.mem_append.mp hq with hq | hq
  · exact listed_of_isRead hread q ((staying_sublist _ _ _).subset hq)
  · obtain ⟨name, hname, rfl⟩ := List.mem_map.mp hq
    refine listed_word (hdecorators name ?_)
    unfold addedTo at hname
    split at hname
    · exact hname
    · cases hname

/-- A semicolon is written if the old text is found to end with one. -/
theorem ends_of_semicolon {found : Prop} [Decidable found] (h : closing = if found then [';'] else []) :
    StatementEnd closing [] ∧ (closing = ";".toList ↔ found) := by
  subst h
  split
  · exact ⟨.inl rfl, fun _ => ‹_›, fun _ => rfl⟩
  · exact ⟨.inr ⟨rfl, rfl⟩, fun h => absurd h.symm (List.cons_ne_nil _ _), fun h => absurd h ‹_›⟩

/-- Without attributes and without a comment at its end, an import is terminated iff its text ends with a semicolon. -/
theorem terminated_iff_of_plain {clause : Node} (hread : IsRead s.text n) (hclause : clause ∈ n.children)
    (hkind : clause.kind = .importClause)
    (hplain : ∀ m ∈ n.children, m.kind ≠ .importAttribute ∧ (m.kind = .comment → m.stop ≠ n.stop)) :
    (Text.dropEndWhile Text.isBlank (s.charsOf n)).getLast? = some ';' ↔ s.Terminated n := by
  obtain ⟨front, d, hchars, hd⟩ := hread.ending clause hclause hkind hplain
  have hwhole : Text.dropEndWhile Text.isBlank (s.charsOf n) = s.charsOf n := by
    rw [show s.charsOf n = front ++ [d] from hchars]
    simp [Text.dropEndWhile, hd]
  rw [hwhole]
  exact ⟨fun h => ⟨h, fun x hx => (hplain x hx).2⟩, fun h => h.1⟩

/-- What an import that is written anew is read as: an import from the same module of the specifiers that stay and the names
    that come to it, without a word for types and without attributes. It ends with a semicolon if the old text does, so it
    is terminated as before unless attributes or a comment end the old statement. -/
theorem relisted_reread {text : String} (hs : Source.ofText? text = some s)
    (hdecorators : ∀ name ∈ needs.decorators, IsWord name.toList)
    (h : (importChanges c needs s.imports)[k]? = some (i, .relisted specifiers)) :
    { start := i.node.start, stop := i.node.stop, replacement := relistedText s i specifiers } ∈ importEdits c s needs ∧
    ∃ s' i' m m', Source.ofText? (String.ofList (relistedText s i specifiers)) = some s' ∧ s'.imports = [i'] ∧
      i.node.child? .source = some m ∧ i'.node.child? .source = some m' ∧ s'.charsOf m' = s.charsOf m ∧
      i'.source = i.source ∧ i'.specifiers = relistedSpecifiers c needs s.imports k i ∧
      (∀ n ∈ i'.node.children, n.kind = .importClause ∨ n.kind = .string) ∧
      (s'.Terminated i'.node ↔ (Text.dropEndWhile Text.isBlank (s.charsOf i.node)).getLast? = some ';') ∧
      ((∀ n ∈ i.node.children, n.kind ≠ .importAttribute ∧ (n.kind = .comment → n.stop ≠ i.node.stop)) →
        (s'.Terminated i'.node ↔ s.Terminated i.node)) := by
  have hedit : { start := i.node.start, stop := i.node.stop, replacement := relistedText s i specifiers } ∈ importEdits c s needs :=
    List.mem_append_left _ (List.mem_filterMap.mpr ⟨_, List.mem_of_getElem? h, rfl⟩)
  have hlists : ∀ i ∈ s.imports, i.hasNames = false → i.specifiers = [] :=
    List.forall_mem_map.mpr fun _ _ => specifiers_of_hasNames
  obtain ⟨hi, hnames, hsome, hspecifiers⟩ := relisted_of_importChanges hlists h
  obtain ⟨n, hn, rfl⟩ := List.mem_map.mp (List.mem_of_getElem? hi)
  have hread := isRead_of_ofText? hs n hn
  obtain ⟨clause, hclause, hkind⟩ := exists_clause hnames
  obtain ⟨m, hm, hmodule⟩ := hread.source clause hclause hkind
  have hlisted := listed_relistedSpecifiers (c := c) (k := k) hread hdecorators
  obtain ⟨q, qs, hqs⟩ := List.exists_cons_of_ne_nil hsome
  rw [hqs] at hspecifiers hlisted
  obtain ⟨hq, hrest⟩ := List.forall_mem_cons.mp hlisted
  obtain ⟨closing, hclosing⟩ : ∃ closing, closing =
    if (Text.dropEndWhile Text.isBlank (s.charsOf n)).getLast? = some ';' then [';'] else [] := ⟨_, rfl⟩
  obtain ⟨hends, hclosed⟩ := ends_of_semicolon hclosing
  obtain ⟨s', i', m', hs', himports, hm', hmodule', hsource, hnew, hparts, hterminated⟩ :=
    reread_namesImport hq hrest hmodule hends
  have htext : relistedText s (s.importOf n) specifiers = namesImport q qs (s.charsOf m) closing := by
    rw [hspecifiers]
    exact relistedText_eq hm hclosing
  refine ⟨hedit, s', i', m, m', htext ▸ hs', himports, hm, hm', hmodule', ?_, hnew.trans hqs.symm, hparts,
    hterminated.trans hclosed,
    fun hplain => hterminated.trans (hclosed.trans (terminated_iff_of_plain hread hclause hkind hplain))⟩
  rw [hsource]
  simp [Source.importOf, hm, Source.stringValue, Source.charsOf, Source.slice]

namespace Users

/-- An import for types only, with a marker and without a semicolon of its own. -/
def typed : String :=
  "import type \x7b InferAPIResponse, Cached /* kept */ as cached \x7d from './infer' // end;\nimport fs from 'fs';\n"

/-- All markers go, and one decorator comes in. -/
def typedNeeds : ImportNeeds :=
  { dropMarkers := true, decorators := ["ApiOkResponse"], lookups := [] }

end Users

theorem relisted_reread_typed : ∃ s i, Source.ofText? Users.typed = some s ∧
    (∀ name ∈ Users.typedNeeds.decorators, IsWord name.toList) ∧
    (importChanges Users.settings Users.typedNeeds s.imports)[0]? = some (i, .relisted ["Cached /* kept */ as cached"]) ∧
    ∃ s' i', Source.ofText? (String.ofList (relistedText s i ["Cached /* kept */ as cached"])) = some s' ∧ s'.imports = [i'] ∧
      i'.specifiers = relistedSpecifiers Users.settings Users.typedNeeds s.imports 0 i ∧ s'.Terminated i'.node ∧
      ¬ s.Terminated i.node := by
  have hsource : (Source.ofText? Users.typed).any (fun s => decide
      (((importChanges Users.settings Users.typedNeeds s.imports)[0]?.map (·.2)) = some (.relisted ["Cached /* kept */ as cached"]) ∧
        ∀ i ∈ s.imports.head?, (Text.dropEndWhile Text.isBlank (s.charsOf i.node)).getLast? = some ';' ∧
          i.node.children.any (fun m => m.kind = .comment && m.stop = i.node.stop) = true)) = true := by decide +kernel
  obtain ⟨s, hs, hall⟩ := (Option.any_eq_true _ _).mp hsource
  obtain ⟨hchange, hend⟩ := of_decide_eq_true hall
  obtain ⟨⟨i, change⟩, hget, rfl⟩ := Option.map_eq_some_iff.mp hchange
  have hdecorators : ∀ name ∈ Users.typedNeeds.decorators, IsWord name.toList :=
    List.forall_mem_singleton.mpr (isWord_of_all (by decide) (by decide))
  obtain ⟨-, s', i', m, m', hs', himports, -, -, -, -, hspecifiers, -, hterminated, -⟩ := relisted_reread hs hdecorators hget
  have hi : i ∈ s.imports.head? := by
    have hlists : ∀ i ∈ s.imports, i.hasNames = false → i.specifiers = [] :=
      List.forall_mem_map.mpr fun _ _ => specifiers_of_hasNames
    rw [List.head?_eq_getElem?]
    exact (relisted_of_importChanges hlists hget).1
  obtain ⟨hsemicolon, hcomment⟩ := hend i hi
  refine ⟨s, i, hs, hdecorators, hget, s', i', hs', himports, hspecifiers, hterminated.mpr hsemicolon, fun hold => ?_⟩
  obtain ⟨m, hm, hstop⟩ := List.any_eq_true.mp hcomment
  obtain ⟨hkind, hstop⟩ := Bool.and_eq_true_iff.mp hstop
  exact hold.2 m hm (of_decide_eq_true hkind) (of_decide_eq_true hstop)

end ResponseShapes
