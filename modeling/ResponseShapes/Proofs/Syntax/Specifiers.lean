import ResponseShapes.Proofs.Syntax.Objects
import ResponseShapes.Proofs.Syntax.Taken
import ResponseShapes.Syntax.Module

/-! # Specifiers of imports

How a specifier is written in a list of names (`Listed`) does not depend on what stands around it: what the grammar took
for a specifier is written so (`listed_of_specifier`), and what is written so is read as the same specifier in front of
whatever closes it (`Reads.listed`), with its name, the name it is given and its text. -/

namespace ResponseShapes.Syntax

open Syntax.Parser Grammar

variable {text rest gap w name mark behind before after : List Char} {breakable : Bool} {p : ImportSpecifier}
  {c c' : Cursor} {r : Role} {rename : Option String} {n : Node} {ns marks names renames : List Node}

/-! ### How specifiers are written -/

/-- A name in a list: a word, or a string. -/
def IsListName (w : List Char) : Prop :=
  IsWord w ∨ IsString w

theorem IsListName.solid (h : IsListName w) (rest : List Char) : Solid (w ++ rest) :=
  h.elim (·.solid rest) (·.solid rest)

theorem IsListName.ne_nil (h : IsListName w) : w ≠ [] :=
  h.elim (·.nonempty) (·.ne_nil)

theorem endsWord_append (hne : w ≠ []) (rest : List Char) : endsWord (w ++ rest) = endsWord w := by
  obtain ⟨d, w, rfl⟩ := List.exists_cons_of_ne_nil hne
  rfl

/-- What stands in front of a name: nothing, or a word that tells what is named, and a gap. -/
inductive Marks (name : List Char) : List Char → List Char → Prop
  | none : Marks name [] []
  | word {mark gap : List Char} (hmark : IsWord mark) (hmem : String.ofList mark ∈ ["type", "typeof"]) (hgap : IsGap gap)
      (hend : endsWord (gap ++ name) = true)
      (hstart : (name.head?.any fun c => isWordStart c || c == '\x27' || c == '\x22') = true) (hname : name ≠ "as".toList) :
      Marks name mark gap

/-- What stands behind a name: nothing, or another name that it is given. -/
inductive Renames (name : List Char) : List Char → Option String → Prop
  | none : Renames name [] .none
  | word {gap gap' : List Char} {rename : String} (hgap : IsGap gap) (hend : IsWord name → endsWord (gap ++ "as".toList) = true)
      (hgap' : IsGap gap') (hend' : endsWord (gap' ++ rename.toList) = true) (hrename : IsListName rename.toList) :
      Renames name (gap ++ ("as".toList ++ (gap' ++ rename.toList))) (some rename)

/-- The specifier is written in a list of names. -/
structure Listed (p : ImportSpecifier) : Prop where
  isListName : IsListName p.name.toList
  written : ∃ mark gap behind, p.text.toList = mark ++ (gap ++ p.name.toList ++ behind) ∧
    Marks p.name.toList mark gap ∧ Renames p.name.toList behind p.rename

/-- A word names itself. -/
theorem listed_word {name : String} (h : IsWord name.toList) : Listed { name, rename := none, text := name } :=
  ⟨.inl h, [], [], [], (List.append_nil _).symm, .none, .none⟩

theorem isWord_as : IsWord "as".toList :=
  isWord_of_all (by decide) (by decide)

theorem Marks.isGap (h : Marks name mark gap) : IsGap gap := by
  cases h with
  | none => exact isGap_blanks rfl
  | word _ _ hgap => exact hgap

/-- Nothing of a name goes on behind it. -/
theorem Renames.endsWord (h : Renames name behind rename) (hname : IsWord name) (hrest : Syntax.endsWord rest = true) :
    Syntax.endsWord (behind ++ rest) = true := by
  cases h with
  | none => exact hrest
  | @word gap gap' rename _ hend =>
    have hne : gap ++ "as".toList ≠ [] := List.append_ne_nil_of_right_ne_nil _ (List.cons_ne_nil _ _)
    rw [← List.append_assoc gap, List.append_assoc, endsWord_append hne]
    exact hend hname

/-! ### Nodes of specifiers -/

/-- The latest node plays the part and covers the characters; the others are comments. -/
def PartOf (text : List Char) (r : Role) (w : List Char) (ns : List Node) : Prop :=
  ∃ x comments, ns = x :: comments ∧ Notes comments ∧ x.role = some r ∧ (text.drop x.start).take (x.stop - x.start) = w

/-- The name, behind whatever plays no part, and the name it is given are the children of the specifier, the latest first. -/
def SpecifierParts (text : List Char) (p : ImportSpecifier) (ns : List Node) : Prop :=
  ∃ marks names renames, ns = renames ++ (names ++ marks) ∧ (∀ m ∈ marks, m.role = none) ∧
    PartOf text .name p.name.toList names ∧
    p.rename.elim (renames = []) fun rename => PartOf text .rename rename.toList renames

/-- The node is the specifier. -/
def IsSpecifier (text : List Char) (p : ImportSpecifier) (n : Node) : Prop :=
  n.kind = .importSpecifier ∧ ∀ root, (Source.mk text root).importSpecifier n = p

theorem PartOf.append_notes {comments : List Node} (h : PartOf text r w ns) (hnotes : Notes comments) :
    PartOf text r w (ns ++ comments) := by
  obtain ⟨x, others, rfl, hothers, hx⟩ := h
  exact ⟨x, others ++ comments, rfl, List.forall_mem_append.mpr ⟨hothers, hnotes⟩, hx⟩

/-- A node that is read for a part, behind comments. -/
theorem PartOf.of_role {comments : List Node} (hcomments : Notes comments) (hkind : n.kind ≠ .comment) (hrole : n.role = none)
    (hn : (text.drop n.start).take (n.stop - n.start) = w) :
    PartOf text r w ((n :: comments).map fun n => if n.kind = .comment then n else n.withRole r) := by
  have hnotes : (comments.map fun n => if n.kind = .comment then n else n.withRole r) = comments :=
    (List.map_congr_left fun m hm => if_pos (hcomments m hm).1).trans (List.map_id' _)
  refine ⟨n.withRole r, comments, ?_, hcomments, Node.role_withRole hrole r, by simpa using hn⟩
  rw [List.map_cons, hnotes, if_neg hkind]

/-- The part among the children of a node, of which the earlier ones play no such part. -/
theorem PartOf.child? {earlier later : List Node} (h : PartOf text r w ns)
    (hchildren : n.children.reverse = later ++ (ns ++ earlier)) (hearlier : ∀ m ∈ earlier, m.role ≠ some r) :
    ∃ x, n.child? r = some x ∧ (text.drop x.start).take (x.stop - x.start) = w := by
  obtain ⟨x, comments, rfl, hcomments, hrole, hw⟩ := h
  have hother : ∀ m ∈ (comments ++ earlier).reverse, m.role ≠ some r := fun m hm => by
    rcases List.mem_append.mp (List.mem_reverse.mp hm) with hm | hm
    · rw [(hcomments m hm).2]
      exact (Option.some_ne_none _).symm
    · exact hearlier m hm
  have hsplit : n.children = (comments ++ earlier).reverse ++ x :: later.reverse := by
    rw [← n.children.reverse_reverse, hchildren]
    simp
  refine ⟨x, ?_, hw⟩
  rw [Node.child?, hsplit, List.find?_append, List.find?_eq_none.mpr fun m hm => by simpa using hother m hm,
    Option.none_or, List.find?_cons_of_pos (by simpa using hrole)]

theorem isSpecifier_of_parts (h : Covers text p.text.toList (IsConstruct .importSpecifier (SpecifierParts text p)) n) :
    IsSpecifier text p n := by
  obtain ⟨htext, hkind, -, marks, names, renames, hchildren, hmarks, hname, hrename⟩ := h
  have hunnamed : ∀ {r}, ∀ m ∈ marks, m.role ≠ some r := fun m hm => by
    rw [hmarks m hm]
    exact (Option.some_ne_none _).symm
  obtain ⟨x, hx, hxname⟩ := hname.child? hchildren hunnamed
  refine ⟨hkind, fun root => ?_⟩
  have hspelled : ∀ {m : Node} {w : String}, (text.drop m.start).take (m.stop - m.start) = w.toList →
      (Source.mk text root).textOf m = w := fun hm => (congrArg String.ofList hm).trans String.ofList_toList
  -- The name is the only child in front of the other name that plays a part.
  have hothers : ∀ m ∈ names ++ marks, m.role ≠ some .rename := fun m hm => by
    obtain ⟨y, comments, rfl, hcomments, hrole, -⟩ := hname
    rcases List.mem_append.mp hm with hm | hm
    · rcases List.mem_cons.mp hm with rfl | hm
      · rw [hrole]
        decide
      · rw [(hcomments m hm).2]
        exact (Option.some_ne_none _).symm
    · exact hunnamed m hm
  have hrenamed : (n.child? .rename).map (Source.mk text root).textOf = p.rename := by
    cases hp : p.rename with
    | none =>
      obtain rfl : renames = [] := by simpa [hp] using hrename
      have hnone : n.child? .rename = none := List.find?_eq_none.mpr fun m hm => by
        simpa using hothers m (by simpa [hchildren] using List.mem_reverse.mpr hm)
      rw [hnone]
      rfl
    | some rename =>
      rw [hp] at hrename
      have hlast : n.children.reverse = [] ++ (renames ++ (names ++ marks)) := hchildren
      obtain ⟨y, hy, hyname⟩ := PartOf.child? hrename hlast hothers
      rw [hy, Option.map_some, hspelled hyname]
  rw [Source.importSpecifier, hrenamed, Source.partText, hx, hspelled htext]
  exact congrArg (ImportSpecifier.mk · _ _) (hspelled hxname)

/-! ### Reading specifiers -/

/-- The word in front of a name that tells what is named. -/
def nameMark : Parser Unit := do
  keptWord .token ["type", "typeof"]
  guard ((← Parser.ahead).head?.any fun c => isWordStart c || c == '\x27' || c == '\x22')
  guard (wordAt (← Parser.ahead) != "as")

/-- The name that a name is given. -/
def nameRename : Parser Unit := do
  Parser.word "as"
  Parser.role .rename moduleName

theorem specifier_eq (kind : Kind) : specifier kind = node kind (do
    Parser.optional nameMark
    Parser.role .name moduleName
    Parser.optional nameRename) := rfl

theorem Reads.listName (hgap : IsGap gap) (hw : IsListName w) (hrest : IsWord w → endsWord rest = true) :
    Reads text (Parser.role r moduleName) breakable (gap ++ w) rest () (PartOf text r w) := by
  have hread : ∃ kind, kind ≠ .comment ∧ Reads text moduleName breakable (gap ++ w) rest () fun ns =>
      ∃ n comments, ns = n :: comments ∧ Notes comments ∧ IsLeaf text kind w n := by
    rcases hw with hw | hw
    · exact ⟨.identifier, by decide, oneOf_here
        (leaf_commented hgap hw.nonempty (hw.solid _) (hw.length_eq _ (hrest hw))) _⟩
    · refine ⟨.string, by decide, oneOf_skip ?_ (oneOf_here
        (leaf_commented hgap hw.ne_nil (hw.solid _) (hw.length_eq _)) _)⟩
      rw [List.append_assoc]
      exact (Guarded.leaf _ _).rejects (hgap.skips (hw.solid _)) (by rw [hw.wordLength_eq_zero]; rfl)
  obtain ⟨kind, hkind, hread⟩ := hread
  refine (hread.role r).imp ?_
  rintro _ ⟨_, ⟨n, comments, rfl, hcomments, hn⟩, rfl⟩
  exact .of_role hcomments (hn.kind_eq ▸ hkind) hn.role_eq hn.spelled

theorem Rejects.check {holds : Prop} [Decidable holds] (h : ¬ holds) (cs : List Char) :
    Rejects (guard holds : Parser Unit) cs :=
  fun _ _ _ => by rw [guard_apply, if_neg h]

theorem isWordStart_closer : ∀ d ∈ closers, ¬ (isWordStart d || d == '\x27' || d == '\x22') = true :=
  forall_closers (by decide) (by decide) (by decide) (by decide)

/-- Nothing is read in front of a name without a word there: the name may be such a word itself, but no other name stands
    behind it. -/
theorem rejects_nameMark (hname : IsListName name) (hrename : Renames name behind rename) (hrest : Closes rest) :
    Rejects nameMark (name ++ (behind ++ rest)) := by
  have hskips : Skips (name ++ (behind ++ rest)) (name ++ (behind ++ rest)) := .of_solid (hname.solid _)
  rcases hname with hword | hstring
  · have hlength := hword.length_eq _ (hrename.endsWord hword hrest.endsWord)
    by_cases hmem : ["type", "typeof"].contains (wordAt (name ++ (behind ++ rest))) = true
    · refine .of_reads (fun text breakable => (Reads.leaf_bare hword.nonempty (hword.solid _) ?_).any) ?_
      · rw [if_pos hmem, hlength]
      cases hrename with
      | none =>
        obtain ⟨ws, d, cs, hws, rfl, hd⟩ := hrest
        exact .after_stay (.ahead ((isGap_blanks hws).skips (solid_closer hd cs)))
          (.bind (.check (isWordStart_closer d hd) _) _)
      | @word gap gap' rename hgap _ _ hend' hrename =>
        have has : Skips (gap ++ ("as".toList ++ (gap' ++ rename.toList)) ++ rest)
            ("as".toList ++ (gap' ++ rename.toList ++ rest)) := by
          rw [List.append_assoc, List.append_assoc]
          exact hgap.skips (isWord_as.solid _)
        have hword : wordAt ("as".toList ++ (gap' ++ rename.toList ++ rest)) = "as" := by
          rw [isWord_as.wordAt_append, String.ofList_toList]
          rwa [endsWord_append (List.append_ne_nil_of_right_ne_nil _ hrename.ne_nil)]
        exact .after_stay (.ahead has) (.after_stay (.check rfl _)
          (.after_stay (.ahead has) (.check (by rw [hword]; decide) _)))
    · exact ((Guarded.keptWord _ _).rejects hskips (Bool.eq_false_iff.mpr hmem)).bind _
  · refine ((Guarded.keptWord _ _).rejects hskips ?_).bind _
    rw [wordAt, hstring.wordLength_eq_zero]
    rfl

theorem Reads.before_name (hmark : Marks name mark gap) (hname : IsListName name) (hrename : Renames name behind rename)
    (hrest : Closes rest) : Reads text (Parser.optional nameMark) breakable mark (gap ++ name ++ (behind ++ rest)) ()
      fun ns => ∀ m ∈ ns, m.role = none := by
  cases hmark with
  | none => exact (of_stays (.optional (rejects_nameMark hname hrename hrest))).imp fun ns hns => by simp [hns]
  | @word mark gap hword hmem hgap hend hstart hne =>
    have hskips : Skips (gap ++ name ++ (behind ++ rest)) (name ++ (behind ++ rest)) := by
      rw [List.append_assoc]
      exact hgap.skips (hname.solid _)
    have hends : endsWord (gap ++ name ++ (behind ++ rest)) = true := by
      rwa [endsWord_append (List.append_ne_nil_of_right_ne_nil _ hname.ne_nil)]
    have hhead : (name ++ (behind ++ rest)).head? = name.head? := by
      obtain ⟨d, ds, rfl⟩ := List.exists_cons_of_ne_nil hname.ne_nil
      rfl
    have hwordAt : wordAt (name ++ (behind ++ rest)) ≠ "as" := by
      rcases hname with hword | hstring
      · rw [hword.wordAt_append (hrename.endsWord hword hrest.endsWord)]
        rintro heq
        exact hne (by rw [← heq, String.toList_ofList])
      · rw [wordAt, hstring.wordLength_eq_zero]
        exact ne_of_beq_false rfl
    have hread : Reads text (keptWord .token ["type", "typeof"]) breakable mark (gap ++ name ++ (behind ++ rest)) ()
        fun ns => ∃ n, ns = [n] ∧ IsLeaf text .token mark n := by
      refine leaf_bare hword.nonempty (hword.solid _) ?_
      rw [hword.wordAt_append hends, List.contains_iff_mem.mpr hmem, if_pos rfl, hword.length_eq _ hends]
    have hstay : Stays (do
        guard ((← Parser.ahead).head?.any fun c => isWordStart c || c == '\x27' || c == '\x22')
        guard (wordAt (← Parser.ahead) != "as")) () (gap ++ name ++ (behind ++ rest)) :=
      (Stays.ahead hskips).bind ((Stays.check (by rwa [hhead]) _).bind
        ((Stays.ahead hskips).bind (.check (bne_iff_ne.mpr hwordAt) _)))
    refine ((hread.then_stay hstay).optional).imp ?_
    rintro _ ⟨n, rfl, hn⟩
    exact List.forall_mem_singleton.mpr hn.role_eq

theorem Reads.behind_name (hrename : Renames name behind rename) (hrest : Closes rest) :
    Reads text (Parser.optional nameRename) breakable behind rest ()
      fun ns => rename.elim (ns = []) fun rename => PartOf text .rename rename.toList ns := by
  cases hrename with
  | none =>
    obtain ⟨ws, d, cs, hws, rfl, hd⟩ := hrest
    have hword : ∀ d ∈ closers, decide (wordAt (d :: cs) = "as") = false := forall_closers rfl rfl rfl rfl
    exact of_stays (.optional
      (((Guarded.word "as").rejects ((isGap_blanks hws).skips (solid_closer hd cs)) (hword d hd)).bind _))
  | @word gap gap' rename hgap _ hgap' hend' hrename =>
    have hends : endsWord (gap' ++ rename.toList ++ rest) = true := by
      rwa [endsWord_append (List.append_ne_nil_of_right_ne_nil _ hrename.ne_nil)]
    have hread : Reads text nameRename breakable (gap ++ "as".toList ++ (gap' ++ rename.toList)) rest ()
        (PartOf text .rename rename.toList) :=
      (word_commented hgap isWord_as hends).bind (listName hgap' hrename fun _ => hrest.endsWord)
        fun comments ns hcomments hns => hns.append_notes hcomments
    exact (hread.of_eq (List.append_assoc _ _ _).symm).optional

/-- A specifier is read as it is written, in front of what closes it. -/
theorem Reads.listed (hp : Listed p) (hrest : Closes rest) :
    Reads text (specifier .importSpecifier) breakable (" ".toList ++ p.text.toList) rest () (One (IsSpecifier text p)) := by
  obtain ⟨mark, gap, behind, hwritten, hmark, hrename⟩ := hp.written
  have hsolid : Solid (p.text.toList ++ rest) := by
    rw [hwritten]
    cases hmark with
    | none => simpa using hp.isListName.solid _
    | word hword => simpa using hword.solid _
  have hnamed : Reads text (do Parser.role .name moduleName; Parser.optional nameRename : Parser Unit) breakable
      (gap ++ p.name.toList ++ behind) rest () fun ns => ∃ names renames, ns = renames ++ names ∧
        PartOf text .name p.name.toList names ∧
        p.rename.elim (renames = []) fun rename => PartOf text .rename rename.toList renames :=
    (listName hmark.isGap hp.isListName fun hword => hrename.endsWord hword hrest.endsWord).bind (behind_name hrename hrest)
      fun names renames hnames hrenames => ⟨names, renames, rfl, hnames, hrenames⟩
  have hfront : Reads text (Parser.optional nameMark) breakable mark (gap ++ p.name.toList ++ behind ++ rest) ()
      fun ns => ∀ m ∈ ns, m.role = none := by
    rw [List.append_assoc _ behind]
    exact before_name hmark hp.isListName hrename hrest
  have hparts : Reads text (do
        Parser.optional nameMark
        Parser.role .name moduleName
        Parser.optional nameRename : Parser Unit) breakable (mark ++ (gap ++ p.name.toList ++ behind)) rest ()
        (SpecifierParts text p) := by
    refine hfront.bind hnamed ?_
    rintro marks _ hmarks ⟨names, renames, rfl, hnames, hrenames⟩
    exact ⟨marks, names, renames, List.append_assoc _ _ _, hmarks, hnames, hrenames⟩
  rw [specifier_eq]
  refine (node_covering (by decide) hsolid (hparts.of_eq hwritten)).imp ?_
  rintro _ ⟨n, rfl, hn⟩
  exact ⟨n, rfl, isSpecifier_of_parts hn⟩

/-! ### What specifiers were read from -/

theorem IsWord.wordTail_eq_zero (hw : IsWord w) (h : wordLength (w ++ rest) = w.length) : wordTail false rest = 0 := by
  obtain ⟨d, w, rfl⟩ := List.exists_cons_of_ne_nil hw.nonempty
  rw [List.cons_append, wordLength] at h
  split at h
  · rw [← List.cons_append, hw.goesOn.wordTail_append] at h
    exact Nat.add_eq_left.mp h
  · cases h

/-- A name behind a word stands behind a gap, or it is no word. -/
theorem endsWord_of_wordTail (h : wordTail false (gap ++ (w ++ rest)) = 0) (hgap : IsGap gap) (hw : IsListName w) :
    endsWord (gap ++ w) = true := by
  rcases eq_or_ne gap [] with rfl | hne
  · rcases hw with hw | hw
    · rw [List.nil_append, hw.goesOn.wordTail_append] at h
      exact absurd (List.length_eq_zero_iff.mp (Nat.add_eq_zero_iff.mp h).1) hw.nonempty
    · obtain ⟨q, cs, rfl, rfl | rfl⟩ := hw.quoted <;> rfl
  · exact hgap.endsWord hne w

theorem step_role_leaf {kind : Kind} {length : List Char → Nat} (hkind : kind ≠ .comment)
    (hlength : ∀ cs, length cs ≤ cs.length) (htext : c.rest = text.drop c.position)
    (h : Parser.role r (leaf kind length) c = some ((), c')) :
    ∃ gap w ns, Step c c' (gap ++ w) ns ∧ IsGap gap ∧ PartOf text r w ns ∧ (∀ n ∈ ns, n.kind = kind ∨ n.kind = .comment) ∧
      0 < w.length ∧ length (w ++ c'.rest) = w.length := by
  obtain ⟨c₁, hread, rfl⟩ := of_role h
  obtain ⟨gap, w, comments, hstep, hnotes, hgap, hpos, hread⟩ := step_leaf hlength hread
  have hslice : (text.drop (c.position + gap.length)).take (c.position + gap.length + w.length - (c.position + gap.length)) = w := by
    rw [← List.drop_drop, ← htext, show c.rest = _ from hstep.rest, List.append_assoc, List.drop_left,
      Nat.add_sub_cancel_left, List.take_left]
  refine ⟨gap, w, _, ⟨hstep.rest, hstep.position, rfl⟩, hgap, ?_, ?_, hpos, hread⟩ <;> rw [hstep.children, List.append_nil]
  · exact .of_role hnotes hkind rfl hslice
  · refine List.forall_mem_map.mpr fun n hn => ?_
    have hkinds : n.kind = kind ∨ n.kind = .comment := by
      rcases List.mem_cons.mp hn with rfl | hn
      · exact .inl rfl
      · exact .inr (hnotes n hn).1
    split
    · exact hkinds
    · rwa [Node.kind_withRole]

theorem role_oneOf {ps : List (Parser Unit)} (h : Parser.role r (oneOf ps) c = some ((), c')) :
    ∃ p ∈ ps, Parser.role r p c = some ((), c') := by
  obtain ⟨c₁, hread, rfl⟩ := of_role h
  obtain ⟨p, hp, hpc⟩ := oneOf_eq_some hread
  refine ⟨p, hp, ?_⟩
  change (p { c with children := [] }).bind _ = _
  rw [hpc]
  rfl

theorem step_listName (htext : c.rest = text.drop c.position) (h : Parser.role r moduleName c = some ((), c')) :
    ∃ gap w ns, Step c c' (gap ++ w) ns ∧ IsGap gap ∧ IsListName w ∧ PartOf text r w ns ∧
      (IsWord w → wordTail false c'.rest = 0) := by
  obtain ⟨p, hp, hpc⟩ := role_oneOf h
  simp only [List.mem_cons, List.not_mem_nil, or_false] at hp
  rcases hp with rfl | rfl
  · obtain ⟨gap, w, ns, hstep, hgap, hpart, -, hpos, hlength⟩ := step_role_leaf (by decide) wordLength_le htext hpc
    have hword := isWord_of_read hpos hlength
    exact ⟨gap, w, ns, hstep, hgap, .inl hword, hpart, fun _ => hword.wordTail_eq_zero hlength⟩
  · obtain ⟨gap, w, ns, hstep, hgap, hpart, -, hpos, hlength⟩ := step_role_leaf (by decide) stringLength_le htext hpc
    refine ⟨gap, w, ns, hstep, hgap, .inr (isString_of_read hpos hlength), hpart, fun hword => ?_⟩
    exact absurd (hword.stringLength_eq_zero c'.rest) (by rw [hlength]; exact Nat.pos_iff_ne_zero.mp hpos)

/-- A word is taken in front of a name if a name that is not the word for renaming stands behind it. -/
theorem step_mark (h : nameMark c = some ((), c')) (hsolid : Solid c.rest) : ∃ mark ns, Step c c' mark ns ∧
    (∀ m ∈ ns, m.role = none) ∧ IsWord mark ∧ String.ofList mark ∈ ["type", "typeof"] ∧ wordTail false c'.rest = 0 ∧
      ((skipGap c'.rest).head?.any fun c => isWordStart c || c == '\x27' || c == '\x22') = true ∧
      wordAt (skipGap c'.rest) ≠ "as" := by
  have hle : ∀ cs, (if ["type", "typeof"].contains (wordAt cs) then wordLength cs else 0) ≤ cs.length := fun cs => by
    split
    · exact wordLength_le cs
    · exact Nat.zero_le _
  obtain ⟨_, c₁, hkept, hguards⟩ := bind_eq_some.mp h
  obtain ⟨gap, mark, comments, hstep, hnotes, hgap, hpos, hread⟩ := step_leaf hle hkept
  obtain ⟨_, c₂, hahead, hstarts⟩ := bind_eq_some.mp hguards
  obtain ⟨rfl, rfl⟩ := ahead_eq_some hahead
  obtain ⟨_, c₃, hguard, hnames⟩ := bind_eq_some.mp hstarts
  obtain ⟨hstart, rfl⟩ := guard_eq_some hguard
  obtain ⟨_, c₄, hahead', hguard'⟩ := bind_eq_some.mp hnames
  obtain ⟨rfl, rfl⟩ := ahead_eq_some hahead'
  obtain ⟨hnot, rfl⟩ := guard_eq_some hguard'
  obtain ⟨hmem, hlength⟩ : ["type", "typeof"].contains (wordAt (mark ++ c'.rest)) = true ∧
      wordLength (mark ++ c'.rest) = mark.length := by
    split at hread
    · exact ⟨‹_›, hread⟩
    · exact absurd hpos (by rw [← hread]; exact Nat.lt_irrefl 0)
  have hmark := isWord_of_read hpos hlength
  have hwordAt : wordAt (mark ++ c'.rest) = String.ofList mark := by rw [wordAt, hlength, List.take_left]
  rw [hwordAt, List.contains_iff_mem] at hmem
  rw [hstep.rest, List.append_assoc] at hsolid
  obtain rfl := hgap.eq_nil (hmark.solid c'.rest) hsolid
  exact ⟨mark, _, hstep, List.forall_mem_cons.mpr ⟨rfl, fun m hm => (hnotes m hm).2⟩, hmark, hmem,
    hmark.wordTail_eq_zero hlength, hstart, bne_iff_ne.mp hnot⟩

/-- What is taken in front of the name that stands behind it. -/
theorem step_nameMark (h : Parser.optional nameMark c = some ((), c')) (hsolid : Solid c.rest) :
    ∃ mark ns, Step c c' mark ns ∧ (∀ m ∈ ns, m.role = none) ∧
      ∀ {gap name rest}, c'.rest = gap ++ (name ++ rest) → IsGap gap → IsListName name →
        (IsWord name → wordTail false rest = 0) → Marks name mark gap := by
  rcases optional_eq_some h with h | ⟨-, rfl⟩
  · obtain ⟨mark, ns, hstep, hroles, hmark, hmem, hend, hstart, hnot⟩ := step_mark h hsolid
    refine ⟨mark, ns, hstep, hroles, ?_⟩
    intro gap name rest hrest hgap hname htail
    have hskip : skipGap c'.rest = name ++ rest := by
      rw [hrest]
      exact (hgap.skips (hname.solid rest)).skipGap_eq
    have hhead : (name ++ rest).head? = name.head? := by
      obtain ⟨d, ds, rfl⟩ := List.exists_cons_of_ne_nil hname.ne_nil
      rfl
    have hne : name ≠ "as".toList := by
      rintro rfl
      have hlength : wordLength ("as".toList ++ rest) = 2 :=
        (isWord_as.goesOn.wordTail_append rest).trans (congrArg (2 + ·) (htail isWord_as))
      rw [hskip, wordAt, hlength, show List.take 2 ("as".toList ++ rest) = "as".toList from rfl, String.ofList_toList] at hnot
      exact hnot rfl
    rw [hrest] at hend
    exact .word hmark hmem hgap (endsWord_of_wordTail hend hgap hname) (by rwa [hskip, hhead] at hstart) hne
  · refine ⟨[], [], .refl c', List.forall_mem_nil _, ?_⟩
    intro gap name rest hrest hgap hname _
    rw [hrest] at hsolid
    obtain rfl := hgap.eq_nil (hname.solid rest) hsolid
    exact .none

theorem step_nameRename (htext : c.rest = text.drop c.position) (h : Parser.optional nameRename c = some ((), c'))
    (htail : IsWord name → wordTail false c.rest = 0) : ∃ behind rename ns, Step c c' behind ns ∧
      Renames name behind rename ∧ rename.elim (ns = []) fun rename => PartOf text .rename rename.toList ns := by
  rcases optional_eq_some h with h | ⟨-, rfl⟩
  · obtain ⟨_, c₁, has, hrename⟩ := bind_eq_some.mp h
    obtain ⟨gap, comments, hstep, hnotes, hgap, hlength⟩ := step_word (by decide) has
    obtain ⟨gap', w, ns, hstep', hgap', hw, hpart, -⟩ := step_listName (hstep.drop htext) hrename
    have htail' := isWord_as.wordTail_eq_zero hlength
    rw [hstep'.rest, List.append_assoc] at htail'
    refine ⟨gap ++ ("as".toList ++ (gap' ++ w)), some (String.ofList w), ns ++ comments, ?_, ?_, ?_⟩
    · have := hstep.trans hstep'
      rwa [List.append_assoc] at this
    · have hw' : IsListName (String.ofList w).toList := by rwa [String.toList_ofList]
      have hend : IsWord name → endsWord (gap ++ "as".toList) = true := fun hname => by
        have hzero := htail hname
        rw [hstep.rest, List.append_assoc] at hzero
        exact endsWord_of_wordTail hzero hgap (.inl isWord_as)
      have hend' : endsWord (gap' ++ (String.ofList w).toList) = true := by
        rw [String.toList_ofList]
        exact endsWord_of_wordTail htail' hgap' hw
      have hrenames := Renames.word hgap hend hgap' hend' hw'
      rwa [String.toList_ofList (l := w)] at hrenames
    · rw [Option.elim_some, String.toList_ofList]
      exact hpart.append_notes hnotes
  · exact ⟨[], none, [], .refl c', .none, rfl⟩

/-- What is taken for a specifier is written as one. -/
theorem listed_of_specifier (htext : c.rest = text.drop c.position) (h : specifier .importSpecifier c = some ((), c')) :
    ∃ cs n comments p, Step c c' cs (n :: comments) ∧ Notes comments ∧ Listed p ∧ IsSpecifier text p n := by
  obtain ⟨c₁, c₂, front, comments, hfront, hnotes, hsolid, hbody, hnode⟩ := step_node h
  have htext₁ := hfront.drop htext
  obtain ⟨_, c₃, hread, hlater⟩ := bind_eq_some.mp hbody
  obtain ⟨_, c₄, hread', hread''⟩ := bind_eq_some.mp hlater
  obtain ⟨mark, marks, hstep, hmarks, hmark⟩ := step_nameMark hread hsolid
  obtain ⟨gap, name, names, hstep', hgap, hname, hpart, htail⟩ := step_listName (hstep.drop htext₁) hread'
  obtain ⟨behind, rename, renames, hstep'', hrename, hrenamed⟩ :=
    step_nameRename (hstep'.drop (hstep.drop htext₁)) hread'' htail
  have hsteps := hstep.trans (hstep'.trans hstep'')
  have hrest : c₃.rest = gap ++ (name ++ c₄.rest) := by rw [hstep'.rest, List.append_assoc]
  let p : ImportSpecifier :=
    { name := String.ofList name, rename, text := String.ofList (mark ++ (gap ++ name ++ behind)) }
  have hlisted : Listed p := by
    refine ⟨?_, mark, gap, behind, ?_, ?_, ?_⟩
    · rwa [String.toList_ofList (l := name)]
    · rw [String.toList_ofList, String.toList_ofList]
    · rw [String.toList_ofList (l := name)]
      exact hmark hrest hgap hname htail
    · rwa [String.toList_ofList (l := name)]
  refine ⟨_, _, comments, p, hnode _ _ hsteps, hnotes, hlisted, isSpecifier_of_parts ?_⟩
  refine ⟨?_, rfl, rfl, marks, names, renames, ?_, hmarks, ?_, hrenamed⟩
  · rw [String.toList_ofList]
    exact hsteps.slice htext₁
  · rw [Node.children, List.reverse_reverse, List.append_assoc]
  · rwa [String.toList_ofList (l := name)]

end ResponseShapes.Syntax
