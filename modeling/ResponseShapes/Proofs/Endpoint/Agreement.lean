import ResponseShapes.Marker.Plan
import ResponseShapes.Proofs.Endpoint.Layout
import ResponseShapes.Proofs.Endpoint.Reachable
import ResponseShapes.Syntax.Parse

/-! # Wiring and rewriting agree

The wiring module takes the mapping of a handler from the table; a rewritten source resolves the handler anew. For a
handler that the table holds, both say the same as long as its marker asks for nothing: the unit and the member that
resolving finds by the names are those of the entry (`LookupTable.Consistent`), so the list flag and the status are
taken from the entry, and the declaration and the reference are looked up in the same declared unit. What the new
decorator is written with is what stands under the handler's name in the wiring module. -/

namespace ResponseShapes

open Syntax

/-! ### Entries of the wiring -/

namespace Wiring

variable {t : LookupTable} {key handler : String} {handlers : Entries Mapping} {mapping : Mapping} {w : Wiring}

theorem keys_blocksOf_sublist (h : ∀ key e, (key, e) ∈ t.endpoints → e.key = key) :
    (Entries.keys (blocksOf t)).Sublist t.endpoints.keys := by
  have hkeys : Entries.keys (blocksOf t) =
      ((t.endpoints.filter fun e => !e.2.handlers.isEmpty).map (·.1)) := by
    unfold blocksOf Entries.keys Entries.values
    rw [List.filter_map, List.map_map, List.map_map]
    refine List.map_congr_left fun e he => ?_
    exact h e.1 e.2 (List.mem_filter.mp he).1
  rw [hkeys]
  exact List.filter_sublist.map _

theorem mem_blocksOf {e : EndpointUnit} (he : Entries.get? key t.endpoints = some e)
    (hentry : Entries.get? handler e.handlers = some mapping) : (e.key, e.handlers) ∈ blocksOf t := by
  refine List.mem_map.mpr ⟨e, List.mem_filter.mpr ⟨List.mem_map_of_mem (Entries.mem_of_get? he), ?_⟩, rfl⟩
  cases hhandlers : e.handlers with
  | nil =>
    rw [hhandlers] at hentry
    cases hentry
  | cons => rfl

theorem ne_nil_of_mem_blocksOf {b : String × Entries Mapping} (h : b ∈ blocksOf t) : b.2 ≠ [] := by
  obtain ⟨e, he, rfl⟩ := List.mem_map.mp h
  simpa using (List.mem_filter.mp he).2

end Wiring

/-! ### Resolving -/

variable {conventions : Conventions} {t : LookupTable} {key : String} {entry : Mapping} {m : Method}

/-- A handler with an entry in a consistent table, whose marker asks for nothing, is resolved to what the entry says. -/
theorem resolve?_of_entry (h : t.Consistent conventions) (hnames : DeclaredUnit.OwnNames t.declared)
    (hentry : t.get? key m.name = some entry) :
    ∃ mapping, resolve? conventions t (some key) m .empty = some mapping ∧ mapping.unit = entry.unit ∧
      mapping.member = entry.member ∧ mapping.declaration = entry.declaration ∧
      mapping.reference = entry.reference ∧ mapping.isList = entry.isList ∧ mapping.status = entry.status := by
  have hknown := hentry
  obtain ⟨e, he, hentry⟩ := LookupTable.exists_of_get? hentry
  obtain ⟨-, -, d, hd, -, hmaps⟩ := h.paired key e he
  obtain ⟨verb, -, hmapping⟩ := hmaps m.name entry hentry
  obtain ⟨declaration, hdeclaration, rfl⟩ := Option.map_eq_some_iff.mp hmapping
  -- The unit that the key gives is the one that the entry names, so the entry decides.
  have hunit : d.unit = key ++ conventions.unitSuffix := hnames.unit_eq hd
  rw [← hunit] at hd
  have howner : owningUnit? conventions (some key) .empty = some d.unit := congrArg some hunit.symm
  have hanswer : impliedAnswer conventions t (some key) m d.unit m.name =
      (returnsList m.name, Status.ofVerb (some verb) conventions.createVerb) := by
    simp [impliedAnswer, hknown]
  refine ⟨{ endpoint := (givenName (some key)).getD d.unit, handler := m.name, unit := d.unit, member := m.name
            declaration, reference := d.lookup ++ "." ++ m.name, isList := returnsList m.name
            status := Status.ofVerb (some verb) conventions.createVerb, verb := m.verb? conventions.verbs },
    ?_, rfl, rfl, rfl, rfl, rfl, rfl⟩
  have hmember : (givenName MarkerOptions.empty.member).getD m.name = m.name := rfl
  have hdeclared : t.unit? d.unit = some d := hd
  simp only [resolve?, howner, hmember, hdeclared, hdeclaration, hanswer, Option.bind_eq_bind, Option.bind_some]
  rfl

theorem Documentation.decoratorFor_eq (docs : Documentation) (status : Status) :
    docs.decoratorFor status = if status = .created then docs.createdDecorator else docs.okDecorator := by
  cases status <;> rfl

/-- The decorator says the reference and the list flag of the mapping, and the description if one is given. -/
theorem decoratorText_eq (docs : Documentation) (mapping : Mapping) (o : MarkerOptions) :
    decoratorText docs mapping o = "@" ++ docs.decoratorFor mapping.status ++ "(\x7b type: " ++ mapping.reference ++
      (if mapping.isList then ", isArray: true" else "") ++
      ((givenName o.description).elim "" fun d => ", description: " ++ literal d) ++ " \x7d)" := by
  unfold decoratorText
  cases mapping.isList <;> cases givenName o.description <;>
    simp [String.intercalate_cons_cons, ← String.toList_inj]

/-- The decorator for a marker that asks for nothing says the reference and the list flag of the mapping. -/
theorem decoratorText_empty (docs : Documentation) (mapping : Mapping) :
    decoratorText docs mapping .empty = "@" ++ docs.decoratorFor mapping.status ++ "(\x7b type: " ++
      mapping.reference ++ (if mapping.isList then ", isArray: true" else "") ++ " \x7d)" := by
  have hnone : givenName MarkerOptions.empty.description = none := rfl
  rw [decoratorText_eq, hnone, Option.elim_none, String.append_empty]

/-- The entry of a handler in a consistent table says that it is created or that it is found. -/
theorem entryLiteral_of_entry (h : t.Consistent conventions) (hentry : t.get? key m.name = some entry) :
    Wiring.entryLiteral entry = objectLiteral "    "
      [("type", entry.reference), ("isArray", if entry.isList then "true" else "false"),
        ("status", if entry.status = .created then "'created'" else "'ok'")] := by
  obtain ⟨e, he, hentry⟩ := LookupTable.exists_of_get? hentry
  obtain ⟨-, -, d, -, -, hmaps⟩ := h.paired key e he
  obtain ⟨verb, -, hmapping⟩ := hmaps m.name entry hentry
  obtain ⟨declaration, -, rfl⟩ := Option.map_eq_some_iff.mp hmapping
  unfold Wiring.entryLiteral
  by_cases hcreate : verb = conventions.createVerb <;> simp [Status.ofVerb, Status.word, hcreate]

/-- For a handler that a scanned table holds, resolving a marker that asks for nothing gives the unit, the member, the
    declaration, the reference, the list flag and the status of the entry. So the new decorator says what the wiring
    module says: there the endpoint has one property, in whose value the handler has one, and its value holds the
    reference, the list flag and the status. -/
theorem resolve?_agrees (c : Settings) (directory : String) {declared : Entries DeclaredUnit}
    (hnames : DeclaredUnit.OwnNames declared) (sources : List (Source × Path))
    (hentry : (LookupTable.scanned c.conventions { declared, endpoints := [] } sources).get? key m.name =
      some entry) :
    let t := LookupTable.scanned c.conventions { declared, endpoints := [] } sources
    let docs := c.documentation
    (∃ mapping, resolve? c.conventions t (some key) m .empty = some mapping ∧
      mapping.unit = entry.unit ∧ mapping.member = entry.member ∧ mapping.declaration = entry.declaration ∧
      mapping.reference = entry.reference ∧ mapping.isList = entry.isList ∧ mapping.status = entry.status ∧
      decoratorText docs mapping .empty =
        "@" ++ (if entry.status = .created then docs.createdDecorator else docs.okDecorator) ++ "(\x7b type: " ++
          entry.reference ++ (if entry.isList then ", isArray: true" else "") ++ " \x7d)") ∧
    ∃ (before after : String) (endpoints handlers : List (String × String)),
      (Wiring.ofTable directory t).text docs =
        before ++ "export const RESPONSE_CONFIG = " ++ objectLiteral "" endpoints ++ " as const;" ++ after ∧
      (endpoints.map fun p => propertyKey p.1).Nodup ∧ (key, objectLiteral "  " handlers) ∈ endpoints ∧
      (handlers.map fun p => propertyKey p.1).Nodup ∧
      (m.name, objectLiteral "    "
        [("type", entry.reference), ("isArray", if entry.isList then "true" else "false"),
          ("status", if entry.status = .created then "'created'" else "'ok'")]) ∈ handlers := by
  intro t docs
  obtain ⟨hdeclared, hconsistent⟩ := LookupTable.scanned_consistent sources
    (LookupTable.consistent_of_empty c.conventions declared)
  refine ⟨?_, ?_⟩
  · obtain ⟨mapping, hresolve, hunit, hmember, hdeclaration, hreference, hlist, hstatus⟩ :=
      resolve?_of_entry hconsistent (hdeclared ▸ hnames) hentry
    refine ⟨mapping, hresolve, hunit, hmember, hdeclaration, hreference, hlist, hstatus, ?_⟩
    rw [decoratorText_empty, hreference, hlist, hstatus, Documentation.decoratorFor_eq]
  · have hvalue := entryLiteral_of_entry hconsistent hentry
    have hkey : ∀ key e, (key, e) ∈ t.endpoints → e.key = key := fun key e he =>
      (hconsistent.paired key e (Entries.get?_of_mem hconsistent.keyed he)).key_eq
    have hkeyed : Entries.Keyed (Wiring.ofTable directory t).blocks :=
      (Wiring.keys_blocksOf_sublist hkey).nodup hconsistent.keyed
    obtain ⟨e, he, hentry⟩ := LookupTable.exists_of_get? hentry
    obtain ⟨hsame, -, d, -, hhandlers, -⟩ := hconsistent.paired key e he
    have hblock : (key, e.handlers) ∈ (Wiring.ofTable directory t).blocks := hsame ▸ Wiring.mem_blocksOf he hentry
    obtain ⟨before, after, htext⟩ :=
      Wiring.exists_text (w := .ofTable directory t) docs fun _ => Wiring.ne_nil_of_mem_blocksOf
    refine ⟨before, after, _, e.handlers.map fun e => (e.1, Wiring.entryLiteral e.2), htext, ?_,
      List.mem_map.mpr ⟨_, hblock, rfl⟩, ?_, List.mem_map.mpr ⟨_, Entries.mem_of_get? hentry, by rw [hvalue]⟩⟩
    · rw [List.map_map]
      exact Wiring.nodup_propertyKeys hkeyed
    · rw [List.map_map]
      exact Wiring.nodup_propertyKeys hhandlers

/-! ### Two controllers of one key -/

namespace Orders

def settings : Settings :=
  .standard (Path.ofString "/project")

def declared : Entries DeclaredUnit :=
  [("OrdersService",
    { unit := "OrdersService", lookup := "OrdersServiceResponse"
      module := Path.ofString "/project/ordersservice.response.ts"
      members := [("findAll", "OrdersServiceFindAllResponse"), ("create", "OrdersServiceCreateResponse")] })]

/-- A controller whose handlers have the given decorators. -/
def controller (create findAll : String) : String :=
  "export class OrdersController \x7b\n  " ++ create ++ "\n  create() \x7b\x7d\n  " ++ findAll ++
    "\n  findAll() \x7b\x7d\n\x7d\n"

/-- Two sources that declare the same endpoint; in the second one the verbs are exchanged. -/
def sources : List (Source × Path) :=
  [(Source.ofText (controller "@Post()" "@Get()"), Path.ofString "/project/a.controller.ts"),
    (Source.ofText (controller "@Get()" "@Post()"), Path.ofString "/project/b.controller.ts")]

/-- The handler as the second source has it. -/
def create : Method :=
  { node := .mk .program none 0 0 [], name := "create", accessibility := none, isAccessor := false, hasPlainName := true
    decorators := [{ node := .mk .program none 0 0 [], name := some "Get", isCall := true, arguments := [] }] }

/-- The entry of the handler, made by the first source. -/
def created : Mapping :=
  { endpoint := "Orders", handler := "create", unit := "OrdersService", member := "create"
    declaration := "OrdersServiceCreateResponse", reference := "OrdersServiceResponse.create", isList := false
    status := .created, verb := some "Post" }

end Orders

theorem resolve?_agrees_orders : DeclaredUnit.OwnNames Orders.declared ∧ ∃ mapping,
    resolve? Orders.settings.conventions (LookupTable.scanned Orders.settings.conventions
      { declared := Orders.declared, endpoints := [] } Orders.sources) (some "Orders") Orders.create .empty =
        some mapping ∧
    mapping.status = .created ∧ decoratorText Orders.settings.documentation mapping .empty =
      "@ApiCreatedResponse(\x7b type: OrdersServiceResponse.create \x7d)" ∧
    ∃ handlers, ("create", "\x7b\n      type: OrdersServiceResponse.create,\n      isArray: false,\n" ++
      "      status: 'created',\n    \x7d") ∈ handlers ∧ ∃ before after endpoints,
        (Wiring.ofTable "./responses" (LookupTable.scanned Orders.settings.conventions
          { declared := Orders.declared, endpoints := [] } Orders.sources)).text Orders.settings.documentation =
            before ++ "export const RESPONSE_CONFIG = " ++ objectLiteral "" endpoints ++ " as const;" ++ after ∧
        ("Orders", objectLiteral "  " handlers) ∈ endpoints := by
  have hnames : DeclaredUnit.OwnNames Orders.declared := by decide
  have hentry : (LookupTable.scanned Orders.settings.conventions { declared := Orders.declared, endpoints := [] }
      Orders.sources).get? "Orders" Orders.create.name = some Orders.created := by decide +kernel
  obtain ⟨⟨mapping, hresolve, -, -, -, -, -, hstatus, htext⟩, before, after, endpoints, handlers, hmodule, -, hendpoint, -,
    hhandler⟩ := resolve?_agrees Orders.settings "./responses" hnames Orders.sources hentry
  exact ⟨hnames, mapping, hresolve, hstatus, htext, handlers, hhandler, before, after, endpoints, hmodule, hendpoint⟩

end ResponseShapes
