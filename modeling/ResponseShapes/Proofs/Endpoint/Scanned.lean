import ResponseShapes.Proofs.Endpoint.Agreement

/-! # What scanned tables hold

A table that is made by scanning sources says of each handler what follows from the handler's name, its verb and the
declared unit that its endpoint is paired with (`LookupTable.scanned_answers`). Scanning on only adds: further endpoints
come behind those that are there, and further handlers behind those of their endpoint. -/

namespace ResponseShapes

open Syntax

variable {conventions : Conventions} {declared : Entries DeclaredUnit} {key handler : String} {d : DeclaredUnit}
  {e : EndpointUnit} {t t' t'' : LookupTable}

/-! ### Mappings -/

/-- The mapping says that the handler of the endpoint `key` is answered by the member of `d` that has its name. -/
structure Mapping.Answers (conventions : Conventions) (d : DeclaredUnit) (key handler : String) (m : Mapping) : Prop where
  endpoint_eq : m.endpoint = key
  handler_eq : m.handler = handler
  unit_eq : m.unit = key ++ conventions.unitSuffix
  member_eq : m.member = handler
  declared : Entries.get? handler d.members = some m.declaration
  reference_eq : m.reference = d.lookup ++ "." ++ handler
  isList_eq : m.isList = returnsList handler
  verb_mem : ∃ verb ∈ conventions.verbs, m.verb = some verb
  created_iff : m.status = .created ↔ m.verb = some conventions.createVerb
  ok_iff : m.status = .ok ↔ m.verb ≠ some conventions.createVerb

theorem Mapping.answers_of_mapHandler {verb : String} {m : Mapping} (hverb : verb ∈ conventions.verbs)
    (hunit : d.unit = key ++ conventions.unitSuffix) (h : mapHandler? conventions key handler (some verb) d = some m) :
    m.Answers conventions d key handler := by
  obtain ⟨declaration, hdeclaration, rfl⟩ := Option.map_eq_some_iff.mp h
  refine ⟨rfl, rfl, hunit, rfl, hdeclaration, rfl, rfl, ⟨verb, hverb, rfl⟩, ?_, ?_⟩
  all_goals
    by_cases hcreate : verb = conventions.createVerb <;> simp [Status.ofVerb, hcreate]

/-! ### Growing tables -/

theorem Entries.prefix_putNew {α : Type} (es : Entries α) (key : String) (v : α) : es <+: es.putNew key v := by
  unfold Entries.putNew
  split
  · exact List.prefix_rfl
  · exact List.prefix_append _ _

theorem Entries.keys_prefix_put {α : Type} (es : Entries α) (key : String) (v : α) : es.keys <+: (es.put key v).keys := by
  by_cases hkey : key ∈ es.keys
  · exact ⟨[], by rw [List.append_nil, Entries.keys_put_of_has hkey]⟩
  · rw [Entries.put_of_not_has hkey, Entries.keys, Entries.keys, List.map_append]
    exact List.prefix_append _ _

/-- The endpoint with further handlers behind its own. -/
def EndpointUnit.Within (e e' : EndpointUnit) : Prop :=
  e' = { e with handlers := e'.handlers } ∧ e.handlers <+: e'.handlers

namespace EndpointUnit.Within

variable {e e' e'' : EndpointUnit}

theorem refl (e : EndpointUnit) : e.Within e :=
  ⟨rfl, List.prefix_rfl⟩

theorem trans (h : e.Within e') (h' : e'.Within e'') : e.Within e'' := by
  obtain ⟨hsame, hhandlers⟩ := h
  obtain ⟨hsame', hhandlers'⟩ := h'
  refine ⟨?_, hhandlers.trans hhandlers'⟩
  rw [hsame', hsame]

end EndpointUnit.Within

/-- All that the first table holds is in the second one, in its order, and only handlers were added to endpoints. -/
structure LookupTable.Grows (t t' : LookupTable) : Prop where
  declared : t'.declared = t.declared
  keys : t.endpoints.keys <+: t'.endpoints.keys
  endpoints : ∀ key e, Entries.get? key t.endpoints = some e →
    ∃ e', Entries.get? key t'.endpoints = some e' ∧ e.Within e'

namespace LookupTable.Grows

theorem refl (t : LookupTable) : t.Grows t :=
  ⟨rfl, List.prefix_rfl, fun _ e he => ⟨e, he, .refl e⟩⟩

theorem trans (h : t.Grows t') (h' : t'.Grows t'') : t.Grows t'' where
  declared := h'.declared.trans h.declared
  keys := h.keys.trans h'.keys
  endpoints := fun key e he => by
    obtain ⟨e', he', hwithin⟩ := h.endpoints key e he
    obtain ⟨e'', he'', hwithin'⟩ := h'.endpoints key e' he'
    exact ⟨e'', he'', hwithin.trans hwithin'⟩

theorem put (h : ∀ old, Entries.get? key t.endpoints = some old → old.Within e) :
    t.Grows { t with endpoints := t.endpoints.put key e } where
  declared := rfl
  keys := t.endpoints.keys_prefix_put key e
  endpoints := fun key' old hold => by
    by_cases hkey : key' = key
    · subst hkey
      exact ⟨e, Entries.get?_put_self, h old hold⟩
    · exact ⟨old, by rw [Entries.get?_put_of_ne hkey, hold], .refl old⟩

end LookupTable.Grows

/-! ### Scanning -/

theorem addHandler_within (className : String) (d : DeclaredUnit) (acc : EndpointUnit × List LogRow) (m : Method) :
    acc.1.Within (addHandler conventions className d acc m).1 := by
  unfold addHandler
  split
  · exact .refl _
  · split
    · exact .refl _
    · exact ⟨rfl, acc.1.handlers.prefix_putNew _ _⟩

theorem foldl_addHandler_within (className : String) (d : DeclaredUnit) (ms : List Method)
    (acc : EndpointUnit × List LogRow) : acc.1.Within (ms.foldl (addHandler conventions className d) acc).1 := by
  induction ms generalizing acc with
  | nil => exact .refl _
  | cons m ms ih => exact (addHandler_within className d acc m).trans (ih _)

theorem addClass_grows (path : Path) (acc : LookupTable × List LogRow) (c : ClassDeclaration) :
    acc.1.Grows (addClass conventions path acc c).1 := by
  obtain ⟨t, rows⟩ := acc
  unfold addClass
  cases stem? conventions.endpointSuffix c.name with
  | none => exact .refl t
  | some key =>
    dsimp only
    cases hd : t.unit? (key ++ conventions.unitSuffix) with
    | none => exact .refl t
    | some d =>
      refine .put fun old hold => ?_
      rw [hold]
      exact foldl_addHandler_within c.name d _ (old, [])

theorem scanSource_grows (s : Source) (path : Path) (t : LookupTable) : t.Grows (scanSource conventions s path t).1 := by
  have hclasses (cs : List ClassDeclaration) (acc : LookupTable × List LogRow) :
      acc.1.Grows (cs.foldl (addClass conventions path) acc).1 := by
    induction cs generalizing acc with
    | nil => exact .refl _
    | cons c cs ih => exact (addClass_grows path acc c).trans (ih _)
  exact hclasses s.classes (t, [])

theorem LookupTable.scanned_grows (conventions : Conventions) (t : LookupTable) (sources : List (Source × Path)) :
    t.Grows (t.scanned conventions sources) := by
  induction sources generalizing t with
  | nil => exact .refl t
  | cons source sources ih => exact (scanSource_grows source.1 source.2 t).trans (ih _)

/-- Whatever sources are scanned into a table without endpoints, in whatever order: the declared units stay, each
    endpoint stands under its own key and is paired by it with a declared unit, each of its handlers is mapped to the
    member of its name, and what later sources bring leaves all that is there as it is. -/
theorem LookupTable.scanned_answers (conventions : Conventions) {declared : Entries DeclaredUnit}
    (hnames : DeclaredUnit.OwnNames declared) (sources later : List (Source × Path)) :
    let t := LookupTable.scanned conventions { declared, endpoints := [] } sources
    t.declared = declared ∧ t.endpoints.Keyed ∧
    (∀ key e, (key, e) ∈ t.endpoints → e.key = key ∧ e.unit = key ++ conventions.unitSuffix ∧ e.handlers.Keyed ∧
      ∃ d, t.unit? e.unit = some d ∧
        ∀ handler mapping, (handler, mapping) ∈ e.handlers → mapping.Answers conventions d key handler) ∧
    t.Grows (t.scanned conventions later) := by
  intro t
  obtain ⟨hdeclared, hconsistent⟩ := LookupTable.scanned_consistent sources
    (LookupTable.consistent_of_empty conventions declared)
  refine ⟨hdeclared, hconsistent.keyed, fun key e he => ?_, t.scanned_grows conventions later⟩
  obtain ⟨hkey, hunit, d, hd, hkeyed, hmaps⟩ := hconsistent.paired key e (Entries.get?_of_mem hconsistent.keyed he)
  have hown : d.unit = key ++ conventions.unitSuffix := by
    rw [hdeclared] at hd
    exact hnames.unit_eq hd
  refine ⟨hkey, hunit, hkeyed, d, by rw [hunit]; exact hd, fun handler mapping hmem => ?_⟩
  obtain ⟨verb, hverb, hmapping⟩ := hmaps handler mapping (Entries.get?_of_mem hkeyed hmem)
  exact Mapping.answers_of_mapHandler hverb hown hmapping

theorem LookupTable.scanned_answers_orders : DeclaredUnit.OwnNames Orders.declared ∧
    ∃ e, ("Orders", e) ∈ (LookupTable.scanned Orders.settings.conventions
        { declared := Orders.declared, endpoints := [] } (Orders.sources.take 1)).endpoints ∧
      ("create", Orders.created) ∈ e.handlers ∧
      ∃ d, Entries.get? "OrdersService" Orders.declared = some d ∧
        Orders.created.Answers Orders.settings.conventions d "Orders" "create" := by
  have hnames : DeclaredUnit.OwnNames Orders.declared := by decide
  have hentry : (LookupTable.scanned Orders.settings.conventions { declared := Orders.declared, endpoints := [] }
      (Orders.sources.take 1)).get? "Orders" "create" = some Orders.created := by decide +kernel
  obtain ⟨hdeclared, -, hpaired, -⟩ := LookupTable.scanned_answers Orders.settings.conventions hnames
    (Orders.sources.take 1) (Orders.sources.drop 1)
  obtain ⟨e, he, hentry⟩ := LookupTable.exists_of_get? hentry
  have hmem := Entries.mem_of_get? hentry
  obtain ⟨-, hunit, -, d, hd, hanswers⟩ := hpaired "Orders" e (Entries.mem_of_get? he)
  rw [hunit, LookupTable.unit?, hdeclared] at hd
  exact ⟨hnames, e, Entries.mem_of_get? he, hmem, d, hd, hanswers "create" _ hmem⟩

end ResponseShapes
