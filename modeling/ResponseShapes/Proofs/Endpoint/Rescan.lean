import ResponseShapes.Endpoint.Scan
import ResponseShapes.Proofs.Marker.Settled

/-! # Scanning a rewritten source

A rewrite takes away markers and puts in decorators that document. As long as none of their names is a verb, a handler
has the same verbs afterwards, in the same order (`Reread.verbs_eq`), and its name and its class are the same. Nothing
else is read from it, so scanning the rewritten text adds to a table what scanning the text before adds
(`Rewritten.ofSource_scans_alike`). -/

namespace ResponseShapes

open Syntax Syntax.Node

/-- Neither markers nor new decorators name a verb. -/
def Settings.VerblessNames (c : Settings) : Prop :=
  ∀ name ∈ c.conventions.markers ++ c.documentation.newNames, name ∉ c.conventions.verbs

instance (c : Settings) : Decidable c.VerblessNames :=
  inferInstanceAs (Decidable (∀ _ ∈ _, _))

/-- The verb that a decorator names. -/
def Syntax.Decorator.verb? (verbs : List String) (d : Decorator) : Option String :=
  d.name.filter verbs.contains

theorem Syntax.Method.verb?_eq_head? (m : Method) (verbs : List String) :
    m.verb? verbs = (m.decorators.filterMap (Decorator.verb? verbs)).head? := by
  unfold Method.verb? Method.decoratorNames
  rw [← List.head?_filter, List.filter_filterMap]
  rfl

theorem Syntax.Decorator.verb?_eq_none {verbs : List String} {d : Decorator}
    (h : ∀ name, d.name = some name → name ∉ verbs) : d.verb? verbs = none := by
  unfold Decorator.verb?
  rw [Option.filter_eq_none_iff]
  exact fun name hname => by simpa using h name hname

/-! ### The verbs among spliced decorators -/

section Verbs
variable {es : List (Edit Char)} {names verbs : List String} {s s' : Source} {ns ns' : List Node}

theorem covered_of_pieceOf {n : Node} (h : pieceOf es n = .dropped ∨ pieceOf es n = .replaced) : n.Covered es := by
  by_contra hnot
  by_cases hkind : n.kind = .decorator
  · rw [pieceOf_of_not_covered hkind hnot] at h
    split at h <;> rcases h with h | h <;> cases h
  · rw [pieceOf_of_kind_ne hkind] at h
    rcases h with h | h <;> cases h

theorem verb?_of_fresh {d : Node} (hnew : ∀ name ∈ names, name ∉ verbs) (hd : d.Fresh names s') :
    (s'.decorator d).verb? verbs = none := by
  refine Decorator.verb?_eq_none fun name hname => ?_
  obtain ⟨-, -, ⟨name', hmem, hread⟩ | ⟨hread, -⟩⟩ := hd
  · obtain rfl := Option.some.inj (hname.symm.trans hread)
    exact hnew name hmem
  · rw [hread] at hname
    cases hname

/-- A decorator that stays names the verb that it named, and one that goes names none. -/
structure Node.KeepsVerb (es : List (Edit Char)) (names verbs : List String) (s s' : Source) (n : Node) : Prop where
  isNote : n.isNote = false
  goes : pieceOf es n = .dropped ∨ pieceOf es n = .replaced → (s.decorator n).verb? verbs = none
  stays : ∀ n', pieceOf es n = .kept ∨ pieceOf es n = .followed → n.Spliced es names s' n' →
    (s'.decorator n').verb? verbs = (s.decorator n).verb? verbs

/-- Where decorators keep their verbs and new ones name none, the verbs stay in order. -/
theorem verbs_spliced (h : SplicedAll es names s' ns ns') (hnew : ∀ name ∈ names, name ∉ verbs)
    (hkeep : ∀ n ∈ ns, Node.KeepsVerb es names verbs s s' n) :
    (ns'.map s'.decorator).filterMap (Decorator.verb? verbs) = (ns.map s.decorator).filterMap (Decorator.verb? verbs) := by
  induction h using SplicedAll.induction with
  | nil => rfl
  | note n ns ns' hnote _ _ =>
    rw [(hkeep n List.mem_cons_self).isNote] at hnote
    cases hnote
  | kept n n' ns ns' _ hp hn _ ih =>
    obtain ⟨hfirst, hrest⟩ := List.forall_mem_cons.mp hkeep
    simp only [List.map_cons, List.filterMap_cons, hfirst.stays n' (.inl hp) hn, ih hrest]
  | dropped n ns ns' hp _ ih =>
    obtain ⟨hfirst, hrest⟩ := List.forall_mem_cons.mp hkeep
    simp only [List.map_cons, List.filterMap_cons, hfirst.goes (.inl hp), ih hrest]
  | replaced n d ns ns' hp hd _ ih =>
    obtain ⟨hfirst, hrest⟩ := List.forall_mem_cons.mp hkeep
    simp only [List.map_cons, List.filterMap_cons, hfirst.goes (.inr hp), verb?_of_fresh hnew hd, ih hrest]
  | followed n n' d ns ns' hp hn hd _ ih =>
    obtain ⟨hfirst, hrest⟩ := List.forall_mem_cons.mp hkeep
    simp only [List.map_cons, List.filterMap_cons, hfirst.stays n' (.inr hp) hn, verb?_of_fresh hnew hd, ih hrest]

end Verbs

/-! ### Handlers that read the same -/

/-- Handlers with the same name and the same verbs. -/
structure Syntax.Method.SameHandler (verbs : List String) (m m' : Method) : Prop where
  name : m'.name = m.name
  verb : m'.verb? verbs = m.verb? verbs
  isAnalyzable : m'.isAnalyzable = m.isAnalyzable

/-- Classes of the same name, with the same handlers. -/
structure Syntax.ClassDeclaration.SameHandlers (verbs : List String) (cls cls' : ClassDeclaration) : Prop where
  name : cls'.name = cls.name
  methods : List.Forall₂ (Method.SameHandler verbs) cls.methods cls'.methods

theorem foldl_related {α β γ : Type} {R : α → β → Prop} {f : γ → α → γ} {g : γ → β → γ} {xs : List α} {ys : List β}
    (h : List.Forall₂ R xs ys) (hfg : ∀ acc x y, R x y → g acc y = f acc x) (acc : γ) :
    ys.foldl g acc = xs.foldl f acc := by
  induction h generalizing acc with
  | nil => rfl
  | cons hxy _ ih => rw [List.foldl_cons, List.foldl_cons, hfg acc _ _ hxy, ih]

section Scanning
variable {conventions : Conventions} {m m' : Method} {cls cls' : ClassDeclaration} {s s' : Source}

theorem addHandler_eq (className : String) (d : DeclaredUnit) (acc : EndpointUnit × List LogRow)
    (h : m.SameHandler conventions.verbs m') :
    addHandler conventions className d acc m' = addHandler conventions className d acc m := by
  unfold addHandler
  rw [h.verb, h.name]

theorem addClass_eq (path : Path) (acc : LookupTable × List LogRow) (h : cls.SameHandlers conventions.verbs cls') :
    addClass conventions path acc cls' = addClass conventions path acc cls := by
  have hfold : ∀ className d acc, (cls'.methods.filter Method.isAnalyzable).foldl (addHandler conventions className d) acc =
      (cls.methods.filter Method.isAnalyzable).foldl (addHandler conventions className d) acc := fun className d acc =>
    foldl_related (filter_related h.methods fun _ _ hm => hm.isAnalyzable.symm)
      (fun acc _ _ hm => addHandler_eq className d acc hm) acc
  unfold addClass
  simp only [h.name, hfold]

theorem scanSource_eq (path : Path) (t : LookupTable)
    (h : List.Forall₂ (ClassDeclaration.SameHandlers conventions.verbs) s.classes s'.classes) :
    scanSource conventions s' path t = scanSource conventions s path t :=
  foldl_related h (fun acc _ _ hcls => addClass_eq path acc hcls) (t, [])

end Scanning

/-! ### Rewriting -/

namespace Rewritten

variable {c : Settings} {t : LookupTable} {path : Option Path} {s s' : Source} {cls cls' : ClassDeclaration} {m m' : Method}
  {ds ds' : List Decorator} (hlaid : s.Laid) (h : Reread c t path s s') (hverbs : c.VerblessNames)
include hlaid h hverbs

theorem Reread.keepsVerb {n : Node} (hcls : cls ∈ s.classes) (hn : s.decorator n ∈ cls.allDecorators) :
    Node.KeepsVerb (edits c path s (Plan.ofSource c t s)) c.documentation.newNames c.conventions.verbs s s' n where
  isNote := by
    obtain ⟨statement, outer, -, -, -, hat⟩ := Source.exists_classAt hcls
    have hkind := (hat.stands hn).1
    rw [Source.decorator_node] at hkind
    exact isNote_of_decorator hkind
  goes hp := by
    -- Only markers go.
    have hcover : n.Covered (edits c path s (Plan.ofSource c t s)) := covered_of_pieceOf hp
    have hgiven : GivenUp c t path s (s.decorator n).node :=
      (covered_iff_givenUp hlaid hcls hn).mp (by rwa [Source.decorator_node])
    have hmark := (hgiven.of_decorator hlaid hcls hn).1
    refine Decorator.verb?_eq_none fun name hname => hverbs name (List.mem_append_left _ ?_)
    rwa [isMarker, hname, Option.any_some, List.contains_iff_mem] at hmark
  stays n' hp hrel := by
    have hkept : ¬GivenUp c t path s (s.decorator n).node := fun hgiven => by
      have hpiece := pieceOf_of_givenUp hlaid hcls hn hgiven
      rw [Source.decorator_node] at hpiece
      rcases hp with hp | hp <;> rw [hp] at hpiece <;> rcases hpiece with h | h <;> cases h
    have halike := h.alike hlaid hcls hn hkept (by rwa [Source.decorator_node])
    rw [Decorator.verb?, Decorator.verb?, halike.name]

/-- The decorators of a class or a method of it name the same verbs. -/
theorem Reread.verbs_eq (hcls : cls ∈ s.classes) (hds : ∀ d ∈ ds, d ∈ cls.allDecorators)
    (hspliced : DecoratorsSpliced (edits c path s (Plan.ofSource c t s)) c.documentation.newNames s s' ds ds') :
    ds'.filterMap (Decorator.verb? c.conventions.verbs) = ds.filterMap (Decorator.verb? c.conventions.verbs) := by
  obtain ⟨ns, ns', rfl, rfl, hns⟩ := hspliced
  exact verbs_spliced hns (fun name hname => hverbs name (List.mem_append_right _ hname)) fun n hn =>
    h.keepsVerb hlaid hverbs hcls (hds _ (List.mem_map_of_mem hn))

theorem Reread.sameHandler (hcls : cls ∈ s.classes) (hm : m ∈ cls.methods)
    (hrel : Method.Spliced (edits c path s (Plan.ofSource c t s)) c.documentation.newNames s s' m m') :
    m.SameHandler c.conventions.verbs m' where
  name := hrel.name
  verb := by
    rw [Method.verb?_eq_head?, Method.verb?_eq_head?, h.verbs_eq hlaid hverbs hcls
      (fun d hd => mem_allDecorators_of_method hm hd) hrel.decorators]
  isAnalyzable := by
    unfold Method.isAnalyzable Method.isConstructor Method.isPrivate
    rw [hrel.name, hrel.accessibility, hrel.isAccessor, hrel.hasPlainName]

/-- The classes of the rewritten text have the handlers of those before. -/
theorem Reread.sameHandlers :
    List.Forall₂ (ClassDeclaration.SameHandlers c.conventions.verbs) s.classes s'.classes := by
  have hclasses := (List.forall₂_and_left _ _).mpr ⟨fun _ h => h, h.classes hlaid⟩
  refine hclasses.imp fun cls cls' ⟨hcls, hrel⟩ => ⟨hrel.name, ?_⟩
  have hmethods := (List.forall₂_and_left _ _).mpr ⟨fun _ h => h, hrel.methods⟩
  exact hmethods.imp fun m m' ⟨hm, hrelm⟩ => h.sameHandler hlaid hverbs hcls hm hrelm

omit h in
/-- A source can be rewritten, and scanning the rewritten text, once it is read, adds to any table what scanning the
    source adds: the same endpoints, each with the same handlers and mappings. -/
theorem ofSource_scans_alike [Recovery] (t : LookupTable) (path : Option Path) :
    ∃ r, ofSource c t path s = .ok r ∧
      (∀ s', Reread c t path s s' → s'.text = r.text.toList ∧ ∀ p t',
        scanSource c.conventions s' p t' = scanSource c.conventions s p t') ∧
      ∀ text, Source.ofText? text = some s → ofText c t path text = .ok (r, rows r.unresolved) ∧
        ∀ s', Source.ofText? r.text = some s' → Reread c t path s s' → ∀ p t',
          scanSource c.conventions (Source.ofText r.text) p t' = scanSource c.conventions (Source.ofText text) p t' := by
  obtain ⟨r, hr⟩ : ∃ r, ofSource c t path s = .ok r := exists_ofSource hlaid
  obtain ⟨htext, -, -⟩ := ofSource_eq_ok.mp hr
  have hscan : ∀ s', Reread c t path s s' → ∀ p t',
      scanSource c.conventions s' p t' = scanSource c.conventions s p t' := fun s' h p t' =>
    scanSource_eq p t' (h.sameHandlers hlaid hverbs)
  refine ⟨r, hr, fun s' h => ⟨Except.ok.inj (h.text.symm.trans htext), hscan s' h⟩, fun text hs => ⟨?_, fun s' hs' h p t' => ?_⟩⟩
  · rw [ofText_eq_ofSource hs, hr]
    rfl
  · unfold Source.ofText
    rw [hs, hs']
    exact hscan s' h p t'

end Rewritten

namespace Users

set_option maxRecDepth 8000 in
/-- The endpoint that is read from the controller, with its handlers, when it is documented. -/
theorem scanSource_documented : (scanSource settings.conventions (Source.ofText documented)
    (Path.mk "/" ["users.ts"]) (table ["findOne"])).1.endpoints.map (fun e => (e.1, e.2.handlers.map (·.1))) =
      [("Users", ["findOne"])] := by
  obtain ⟨s, hs, hscan⟩ : ∃ s, Source.ofText? documented = some s ∧ (scanSource settings.conventions s
      (Path.mk "/" ["users.ts"]) (table ["findOne"])).1.endpoints.map (fun e => (e.1, e.2.handlers.map (·.1))) =
        [("Users", ["findOne"])] :=
    Source.exists_of_spelled (.append (.append (.append .piece .piece) .piece) .piece) _ (by decide +kernel)
  rw [Source.ofText, hs]
  exact hscan

end Users

namespace Rewritten

/-- Scanning finds the handler as well before it is documented. -/
theorem ofSource_scans_alike_users : Users.settings.VerblessNames ∧ ∃ s s', Source.ofText? Users.needed = some s ∧
    s.Laid ∧ Reread Users.settings (Users.table ["findOne"]) none s s' ∧ Source.ofText? Users.documented = some s' ∧
    (∀ p t', scanSource Users.settings.conventions (Source.ofText Users.documented) p t' =
      scanSource Users.settings.conventions (Source.ofText Users.needed) p t') ∧
    (scanSource Users.settings.conventions (Source.ofText Users.needed) (Path.mk "/" ["users.ts"])
      (Users.table ["findOne"])).1.endpoints.map (fun e => (e.1, e.2.handlers.map (·.1))) = [("Users", ["findOne"])] := by
  have hverbs : Users.settings.VerblessNames := by decide
  obtain ⟨s, s', hs, hs', hlaid, hreread, -⟩ := Users.reread_documented
  obtain ⟨r, -, hscans, htexts⟩ := ofSource_scans_alike hlaid hverbs (Users.table ["findOne"]) none
  have hsame : r.text = Users.documented := by
    have htext := (hscans s' hreread).1
    rw [Source.text_of_ofText? hs'] at htext
    exact (String.toList_injective htext).symm
  have halike := (htexts Users.needed hs).2 s' (hsame ▸ hs') hreread
  rw [hsame] at halike
  exact ⟨hverbs, s, s', hs, hlaid, hreread, hs', halike, halike _ _ ▸ Users.scanSource_documented⟩

end Rewritten

end ResponseShapes
