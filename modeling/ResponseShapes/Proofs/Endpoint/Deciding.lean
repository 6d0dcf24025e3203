import ResponseShapes.Proofs.Endpoint.Agreement
import ResponseShapes.Proofs.Endpoint.Scanned

/-! # Which verb decides

A table holds one entry for all handlers of one name under one key, whatever classes and sources they stand in: that of
the first one that was scanned (`LookupTable.get?_scanned`). A handler that is resolved to the unit and the member of
the entry takes its status from it. So its status follows the verb of the first handler of the name, not its own, and
the two may differ; the list flag follows from the name of the member alone, where no two handlers can differ. -/

namespace ResponseShapes

open Syntax

variable {conventions : Conventions} {t : LookupTable} {key name : String} {d : DeclaredUnit}

/-! ### Handlers that are scanned -/

/-- The verbs of the handlers of a name, in the order of the methods. -/
def verbsNamed (conventions : Conventions) (name : String) (ms : List Method) : List String :=
  (ms.filter (·.name = name)).filterMap (·.verb? conventions.verbs)

/-- The verbs of the handlers of a name that a class adds to the endpoint of a key. -/
def Syntax.ClassDeclaration.verbsFor (conventions : Conventions) (key name : String) (c : ClassDeclaration) :
    List String :=
  if stem? conventions.endpointSuffix c.name = some key then
    verbsNamed conventions name (c.methods.filter Method.isAnalyzable)
  else []

/-- The verbs of the handlers of a name that sources add to the endpoint of a key, in the order of the scan. -/
def scannedVerbs (conventions : Conventions) (key name : String) (sources : List (Source × Path)) : List String :=
  sources.flatMap fun source => source.1.classes.flatMap (·.verbsFor conventions key name)

/-- The mapping of a handler of one of the verbs, the first one that has a mapping. -/
def firstMapping? (conventions : Conventions) (declared : Entries DeclaredUnit) (key name : String)
    (verbs : List String) : Option Mapping :=
  (Entries.get? (key ++ conventions.unitSuffix) declared).bind fun d =>
    verbs.findSome? fun verb => mapHandler? conventions key name (some verb) d

section FirstMapping
variable {declared : Entries DeclaredUnit} {verbs verbs' : List String}

theorem firstMapping?_nil : firstMapping? conventions declared key name [] = none := by
  unfold firstMapping?
  cases Entries.get? (key ++ conventions.unitSuffix) declared <;> rfl

theorem firstMapping?_append : firstMapping? conventions declared key name (verbs ++ verbs') =
    (firstMapping? conventions declared key name verbs).or (firstMapping? conventions declared key name verbs') := by
  unfold firstMapping?
  cases Entries.get? (key ++ conventions.unitSuffix) declared with
  | none => rfl
  | some d => exact List.findSome?_append

/-- The first verb decides: whether a verb leads to a mapping does not depend on the verb. -/
theorem firstMapping?_eq : firstMapping? conventions declared key name verbs =
    (Entries.get? (key ++ conventions.unitSuffix) declared).bind fun d =>
      verbs.head?.bind fun verb => mapHandler? conventions key name (some verb) d := by
  refine congrArg (Option.bind _) (funext fun d => ?_)
  cases verbs with
  | nil => rfl
  | cons verb verbs =>
    rw [List.head?_cons, Option.bind_some, List.findSome?_cons]
    cases hmapping : mapHandler? conventions key name (some verb) d with
    | some mapping => rfl
    | none =>
      have hmember : Entries.get? name d.members = none := Option.map_eq_none_iff.mp hmapping
      exact List.findSome?_eq_none_iff.mpr fun verb' _ => by rw [mapHandler?, hmember, Option.map_none]

end FirstMapping

/-! ### One step and the whole scan -/

theorem get?_addHandler (className : String) (acc : EndpointUnit × List LogRow) (m : Method) :
    Entries.get? name (addHandler conventions className d acc m).1.handlers =
      (Entries.get? name acc.1.handlers).or ((verbsNamed conventions name [m]).findSome? fun verb =>
        mapHandler? conventions acc.1.key name (some verb) d) := by
  unfold addHandler verbsNamed
  cases hverb : m.verb? conventions.verbs with
  | none =>
    by_cases hname : m.name = name <;> simp [hname, hverb]
  | some verb =>
    by_cases hname : m.name = name
    · subst hname
      cases hmapping : mapHandler? conventions acc.1.key m.name (some verb) d with
      | none => simp [hverb, hmapping]
      | some mapping => simp [hverb, hmapping, Entries.get?_putNew]
    · cases hmapping : mapHandler? conventions acc.1.key m.name (some verb) d with
      | none => simp [hname, hmapping]
      | some mapping => simp [hname, Ne.symm hname, hmapping, Entries.get?_putNew]

theorem get?_foldl_addHandler (className : String) (ms : List Method) (acc : EndpointUnit × List LogRow) :
    Entries.get? name (ms.foldl (addHandler conventions className d) acc).1.handlers =
      (Entries.get? name acc.1.handlers).or ((verbsNamed conventions name ms).findSome? fun verb =>
        mapHandler? conventions acc.1.key name (some verb) d) := by
  induction ms generalizing acc with
  | nil => exact Option.or_none.symm
  | cons m ms ih =>
    have hkey : (addHandler conventions className d acc m).1.key = acc.1.key := by
      rw [(addHandler_within className d acc m).1]
    have hverbs : verbsNamed conventions name (m :: ms) =
        verbsNamed conventions name [m] ++ verbsNamed conventions name ms := by
      rw [verbsNamed, ← List.singleton_append, List.filter_append, List.filterMap_append]
      rfl
    rw [List.foldl_cons, ih, hkey, get?_addHandler, hverbs, List.findSome?_append, Option.or_assoc]

theorem LookupTable.get?_put (key' : String) (e : EndpointUnit) :
    LookupTable.get? { t with endpoints := t.endpoints.put key' e } key name =
      if key = key' then Entries.get? name e.handlers else t.get? key name := by
  unfold LookupTable.get?
  rw [Entries.get?_put]
  by_cases hkey : key = key'
  · rw [if_pos hkey, if_pos hkey]
  · rw [if_neg hkey, if_neg hkey]

theorem get?_addClass (path : Path) (c : ClassDeclaration) {acc : LookupTable × List LogRow}
    (h : acc.1.Consistent conventions) :
    (addClass conventions path acc c).1.get? key name =
      (acc.1.get? key name).or
        (firstMapping? conventions acc.1.declared key name (c.verbsFor conventions key name)) := by
  obtain ⟨t, rows⟩ := acc
  unfold addClass Syntax.ClassDeclaration.verbsFor
  cases hstem : stem? conventions.endpointSuffix c.name with
  | none => rw [if_neg (by simp), firstMapping?_nil, Option.or_none]
  | some key' =>
    by_cases hkey : key = key'
    case neg =>
      rw [if_neg (by simpa using Ne.symm hkey), firstMapping?_nil, Option.or_none]
      dsimp only
      split
      · rfl
      · rw [LookupTable.get?_put, if_neg hkey]
    subst hkey
    rw [if_pos rfl]
    dsimp only
    cases hd : t.unit? (key ++ conventions.unitSuffix) with
    | none =>
      rw [firstMapping?, show Entries.get? (key ++ conventions.unitSuffix) t.declared = none from hd, Option.bind_none,
        Option.or_none]
    | some d =>
      dsimp only
      rw [LookupTable.get?_put, if_pos rfl, firstMapping?,
        show Entries.get? (key ++ conventions.unitSuffix) t.declared = some d from hd, Option.bind_some,
        get?_foldl_addHandler, LookupTable.get?]
      -- The handlers are added to the endpoint that is there, or to a new one without handlers.
      cases hold : Entries.get? key t.endpoints with
      | none => rfl
      | some e =>
        dsimp only
        rw [(h.paired key e hold).key_eq]

theorem get?_foldl_addClass (path : Path) (cs : List ClassDeclaration) {acc : LookupTable × List LogRow}
    (h : acc.1.Consistent conventions) :
    (cs.foldl (addClass conventions path) acc).1.get? key name =
      (acc.1.get? key name).or
        (firstMapping? conventions acc.1.declared key name (cs.flatMap (·.verbsFor conventions key name))) := by
  induction cs generalizing acc with
  | nil => rw [List.flatMap_nil, firstMapping?_nil, Option.or_none, List.foldl_nil]
  | cons c cs ih =>
    obtain ⟨hdeclared, hconsistent⟩ := addClass_consistent path c h
    rw [List.foldl_cons, ih hconsistent, hdeclared, get?_addClass path c h, List.flatMap_cons, firstMapping?_append,
      Option.or_assoc]

/-- Scanning sources adds one entry for all handlers of a name under a key, that of the first one with a mapping,
    unless the table has one. -/
theorem LookupTable.get?_scanned (sources : List (Source × Path)) (h : t.Consistent conventions) :
    (t.scanned conventions sources).get? key name =
      (t.get? key name).or
        (firstMapping? conventions t.declared key name (scannedVerbs conventions key name sources)) := by
  induction sources generalizing t with
  | nil => rw [scannedVerbs, List.flatMap_nil, firstMapping?_nil, Option.or_none, scanned, List.foldl_nil]
  | cons source sources ih =>
    obtain ⟨hdeclared, hconsistent⟩ := scanSource_consistent source.1 source.2 h
    have hfirst : (scanSource conventions source.1 source.2 t).1.get? key name =
        (t.get? key name).or (firstMapping? conventions t.declared key name
          (source.1.classes.flatMap (·.verbsFor conventions key name))) := get?_foldl_addClass source.2 _ h
    have hscanned : t.scanned conventions (source :: sources) =
        (scanSource conventions source.1 source.2 t).1.scanned conventions sources := List.foldl_cons ..
    rw [hscanned, ih hconsistent, hdeclared, hfirst, scannedVerbs, scannedVerbs, List.flatMap_cons,
      firstMapping?_append, Option.or_assoc]

/-! ### Resolving -/

/-- The verb that the status of a handler follows from when it is resolved to a member of a unit: that of the first
    handler of its name under its key, if the table pairs it with this member, and its own if there is none. -/
def decidingVerb (conventions : Conventions) (sources : List (Source × Path)) (key : Option String) (m : Method)
    (unit member : String) : Option String :=
  (key.bind fun key =>
    if unit = key ++ conventions.unitSuffix ∧ member = m.name then (scannedVerbs conventions key m.name sources).head?
    else none).or (m.verb? conventions.verbs)

section Resolving
variable {declared : Entries DeclaredUnit} {endpoint : Option String} {m : Method} {o : MarkerOptions}
  {mapping : Mapping} {unit member declaration : String}

theorem Status.ofVerb_eq_created_iff {verb : Option String} {createVerb : String} :
    Status.ofVerb verb createVerb = .created ↔ verb = some createVerb := by
  unfold ofVerb
  split <;> simp [*]

/-- The list flag and the status that follow for a handler in a scanned table. -/
theorem impliedAnswer_scanned (hnames : DeclaredUnit.OwnNames declared) (sources : List (Source × Path))
    (hd : Entries.get? unit declared = some d) (hmember : Entries.get? member d.members = some declaration) :
    impliedAnswer conventions (LookupTable.scanned conventions { declared, endpoints := [] } sources) endpoint m unit
        member =
      (returnsList member, Status.ofVerb (decidingVerb conventions sources endpoint m unit member)
        conventions.createVerb) := by
  unfold impliedAnswer decidingVerb
  cases endpoint with
  | none => rfl
  | some key =>
    have hentry : (LookupTable.scanned conventions { declared, endpoints := [] } sources).get? key m.name =
        (Entries.get? (key ++ conventions.unitSuffix) declared).bind fun d =>
          (scannedVerbs conventions key m.name sources).head?.bind fun verb =>
            mapHandler? conventions key m.name (some verb) d := by
      rw [LookupTable.get?_scanned sources (LookupTable.consistent_of_empty conventions declared), firstMapping?_eq]
      exact Option.none_or
    rw [Option.bind_some, Option.bind_some, hentry]
    by_cases hsame : unit = key ++ conventions.unitSuffix ∧ member = m.name
    · rw [if_pos hsame]
      obtain ⟨rfl, rfl⟩ := hsame
      rw [hd, Option.bind_some]
      cases (scannedVerbs conventions key m.name sources).head? with
      | none => rfl
      | some verb =>
        rw [Option.bind_some, mapHandler?, hmember, Option.map_some, Option.some_or]
        simp [hnames.unit_eq hd]
    · -- The entry, if there is one, is of another member.
      rw [if_neg hsame, Option.none_or]
      split
      · rename_i known hknown
        obtain ⟨d', hd', hknown⟩ := Option.bind_eq_some_iff.mp hknown
        obtain ⟨verb, -, hknown⟩ := Option.bind_eq_some_iff.mp hknown
        obtain ⟨declaration', -, rfl⟩ := Option.map_eq_some_iff.mp hknown
        refine if_neg fun hknown => hsame ?_
        rw [Bool.and_eq_true, decide_eq_true_iff, decide_eq_true_iff] at hknown
        exact ⟨hknown.1.symm.trans (hnames.unit_eq hd'), hknown.2.symm⟩
      · rfl

/-- What is documented for a handler that is resolved. -/
theorem resolve?_cases (h : resolve? conventions t endpoint m o = some mapping) :
    ∃ d, t.unit? mapping.unit = some d ∧ Entries.get? mapping.member d.members = some mapping.declaration ∧
      mapping.isList = o.isList.getD (impliedAnswer conventions t endpoint m mapping.unit mapping.member).1 ∧
      mapping.status = (o.status.bind Status.requested?).getD
        (impliedAnswer conventions t endpoint m mapping.unit mapping.member).2 := by
  unfold resolve? at h
  obtain ⟨unit, -, h⟩ := Option.bind_eq_some_iff.mp h
  obtain ⟨d, hd, h⟩ := Option.bind_eq_some_iff.mp h
  obtain ⟨declaration, hdeclaration, h⟩ := Option.bind_eq_some_iff.mp h
  obtain rfl := Option.some.inj h
  exact ⟨d, hd, hdeclaration, rfl, rfl⟩

/-- A handler whose marker asks for neither is listed by the name of its member, and its status follows from the verb
    that decides. So the status is that of the handler's own verb as long as both verbs, or neither, create. -/
theorem resolve?_classifies (hnames : DeclaredUnit.OwnNames declared) (sources : List (Source × Path))
    (hlist : o.isList = none) (hstatus : o.status.bind Status.requested? = none)
    (hresolve : resolve? conventions (LookupTable.scanned conventions { declared, endpoints := [] } sources) endpoint m
      o = some mapping) :
    let deciding := decidingVerb conventions sources endpoint m mapping.unit mapping.member
    mapping.isList = returnsList mapping.member ∧
    mapping.status = Status.ofVerb deciding conventions.createVerb ∧
    ((mapping.status = .created ↔ m.verb? conventions.verbs = some conventions.createVerb) ↔
      (deciding = some conventions.createVerb ↔ m.verb? conventions.verbs = some conventions.createVerb)) := by
  intro deciding
  obtain ⟨d, hd, hmember, hisList, hanswer⟩ := resolve?_cases hresolve
  obtain ⟨hdeclared, -⟩ := LookupTable.scanned_consistent sources
    (LookupTable.consistent_of_empty conventions declared)
  rw [LookupTable.unit?, hdeclared] at hd
  rw [impliedAnswer_scanned hnames sources hd hmember] at hisList hanswer
  simp only [hlist, Option.getD_none] at hisList
  simp only [hstatus, Option.getD_none] at hanswer
  refine ⟨hisList, hanswer, ?_⟩
  rw [hanswer, Status.ofVerb_eq_created_iff]

/-- The second source has a handler that is documented as created, though its verb does not create. -/
theorem resolve?_classifies_orders : DeclaredUnit.OwnNames Orders.declared ∧
    ∃ m ∈ Orders.sources.flatMap fun source => source.1.classes.flatMap (·.methods),
      m.verb? Orders.settings.conventions.verbs = some "Get" ∧ ∃ mapping,
        resolve? Orders.settings.conventions (LookupTable.scanned Orders.settings.conventions
          { declared := Orders.declared, endpoints := [] } Orders.sources) (some "Orders") m .empty = some mapping ∧
        decidingVerb Orders.settings.conventions Orders.sources (some "Orders") m mapping.unit mapping.member =
          some "Post" ∧
        mapping.status = .created := by
  have hnames : DeclaredUnit.OwnNames Orders.declared := by decide
  obtain ⟨m, hm, hname, hverb⟩ :
      ∃ m ∈ Orders.sources.flatMap fun source => source.1.classes.flatMap (·.methods),
        m.name = "create" ∧ m.verb? Orders.settings.conventions.verbs = some "Get" := by decide +kernel
  have hverbs : scannedVerbs Orders.settings.conventions "Orders" "create" Orders.sources = ["Post", "Get"] := by
    decide +kernel
  obtain ⟨hdeclared, hconsistent⟩ := LookupTable.scanned_consistent Orders.sources
    (LookupTable.consistent_of_empty Orders.settings.conventions Orders.declared)
  have hentry : (LookupTable.scanned Orders.settings.conventions { declared := Orders.declared, endpoints := [] }
      Orders.sources).get? "Orders" m.name = some Orders.created := by
    rw [LookupTable.get?_scanned Orders.sources (LookupTable.consistent_of_empty _ _), firstMapping?_eq, hname, hverbs]
    decide +kernel
  have hnames' : DeclaredUnit.OwnNames (LookupTable.scanned Orders.settings.conventions
      { declared := Orders.declared, endpoints := [] } Orders.sources).declared := by
    rw [hdeclared]
    exact hnames
  obtain ⟨mapping, hresolve, hunit, hmember, -⟩ := resolve?_of_entry hconsistent hnames' hentry
  obtain ⟨-, hstatus, -⟩ := resolve?_classifies hnames Orders.sources rfl rfl hresolve
  have hdeciding : decidingVerb Orders.settings.conventions Orders.sources (some "Orders") m mapping.unit
      mapping.member = some "Post" := by
    rw [hunit, hmember, decidingVerb, Option.bind_some, if_pos ⟨by decide +kernel, hname.symm⟩, hname, hverbs]
    rfl
  have hcreated : mapping.status = .created := by
    rw [hstatus, hdeciding, Status.ofVerb_eq_created_iff]
    decide
  exact ⟨hnames, m, hm, hverb, mapping, hresolve, hdeciding, hcreated⟩

end Resolving

end ResponseShapes
