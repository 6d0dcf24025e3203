import ResponseShapes.Endpoint.Scan
import ResponseShapes.Proofs.Entries

/-! # Tables made by scanning

Every endpoint that a scan puts into the table stands under its own key, is paired by that key with a declared unit,
and maps each of its handlers to the member of the handler's name. Scanning a further source keeps this, whatever
endpoints the table holds already: an endpoint that is declared again keeps its key and its unit, so the handlers that
are merged into it are mapped to the members of the same unit. -/

namespace ResponseShapes

open Syntax

variable {conventions : Conventions} {declared : Entries DeclaredUnit} {key handler : String} {d : DeclaredUnit}
  {e : EndpointUnit} {t : LookupTable}

/-- Each unit stands under its own name. -/
def DeclaredUnit.OwnNames (declared : Entries DeclaredUnit) : Prop :=
  ∀ entry ∈ declared, entry.2.unit = entry.1

instance (declared : Entries DeclaredUnit) : Decidable (DeclaredUnit.OwnNames declared) :=
  inferInstanceAs (Decidable (∀ entry ∈ declared, entry.2.unit = entry.1))

theorem DeclaredUnit.OwnNames.unit_eq (h : DeclaredUnit.OwnNames declared) {name : String}
    (hd : Entries.get? name declared = some d) : d.unit = name :=
  h (name, d) (Entries.mem_of_get? hd)

/-! ### Handlers -/

/-- The mapping of each handler is that to the member of its name, for one of the verbs. -/
def MapsHandlers (conventions : Conventions) (key : String) (d : DeclaredUnit) (handlers : Entries Mapping) : Prop :=
  handlers.Keyed ∧ ∀ handler mapping, Entries.get? handler handlers = some mapping →
    ∃ verb ∈ conventions.verbs, mapHandler? conventions key handler (some verb) d = some mapping

theorem MapsHandlers.nil : MapsHandlers conventions key d [] :=
  ⟨List.nodup_nil, fun _ _ h => nomatch h⟩

theorem Syntax.Method.verb?_mem {m : Method} {verbs : List String} {verb : String} (h : m.verb? verbs = some verb) :
    verb ∈ verbs :=
  List.contains_iff_mem.mp (List.find?_some h)

theorem MapsHandlers.putNew {handlers : Entries Mapping} {mapping : Mapping} {verb : String}
    (h : MapsHandlers conventions key d handlers) (hverb : verb ∈ conventions.verbs)
    (hmapping : mapHandler? conventions key handler (some verb) d = some mapping) :
    MapsHandlers conventions key d (handlers.putNew handler mapping) := by
  refine ⟨h.1.putNew, fun handler' mapping' hget => ?_⟩
  rw [Entries.get?_putNew] at hget
  cases hold : Entries.get? handler' handlers with
  | some old =>
    rw [hold, Option.some_or] at hget
    exact h.2 handler' mapping' (hold.trans hget)
  | none =>
    rw [hold, Option.none_or] at hget
    split at hget
    · rename_i hname
      rw [hname, ← Option.some.inj hget]
      exact ⟨verb, hverb, hmapping⟩
    · cases hget

/-- Adding a handler changes nothing of its endpoint but the handlers, and keeps them mapped. -/
theorem addHandler_kept (className : String) (m : Method) {acc : EndpointUnit × List LogRow}
    (h : MapsHandlers conventions acc.1.key d acc.1.handlers) :
    let acc' := addHandler conventions className d acc m
    acc'.1 = { acc.1 with handlers := acc'.1.handlers } ∧ MapsHandlers conventions acc.1.key d acc'.1.handlers := by
  unfold addHandler
  cases hverb : m.verb? conventions.verbs with
  | none => exact ⟨rfl, h⟩
  | some verb =>
    dsimp only
    cases hmapping : mapHandler? conventions acc.1.key m.name (some verb) d with
    | none => exact ⟨rfl, h⟩
    | some mapping => exact ⟨rfl, h.putNew (Method.verb?_mem hverb) hmapping⟩

theorem foldl_addHandler_kept (className : String) (ms : List Method) (acc : EndpointUnit × List LogRow)
    (h : MapsHandlers conventions acc.1.key d acc.1.handlers) :
    let acc' := ms.foldl (addHandler conventions className d) acc
    acc'.1 = { acc.1 with handlers := acc'.1.handlers } ∧ MapsHandlers conventions acc.1.key d acc'.1.handlers := by
  induction ms generalizing acc with
  | nil => exact ⟨rfl, h⟩
  | cons m ms ih =>
    obtain ⟨hsame, hmaps⟩ := addHandler_kept className m h
    have hkey : (addHandler conventions className d acc m).1.key = acc.1.key := by rw [hsame]
    rw [← hkey] at hmaps
    obtain ⟨hsame', hmaps'⟩ := ih _ hmaps
    rw [hkey] at hmaps'
    refine ⟨?_, hmaps'⟩
    rw [List.foldl_cons, hsame', hsame]

/-! ### Endpoints -/

/-- An endpoint under the key: it has the key, and its handlers are mapped to the declared unit that the key gives. -/
structure EndpointUnit.Paired (conventions : Conventions) (declared : Entries DeclaredUnit) (key : String)
    (e : EndpointUnit) : Prop where
  key_eq : e.key = key
  unit_eq : e.unit = key ++ conventions.unitSuffix
  maps : ∃ d, Entries.get? (key ++ conventions.unitSuffix) declared = some d ∧
    MapsHandlers conventions key d e.handlers

/-- No key stands twice in the table, and each endpoint is paired. -/
structure LookupTable.Consistent (conventions : Conventions) (t : LookupTable) : Prop where
  keyed : t.endpoints.Keyed
  paired : ∀ key e, Entries.get? key t.endpoints = some e → e.Paired conventions t.declared key

namespace LookupTable

/-- A mapping in the table is that of a handler of an endpoint. -/
theorem exists_of_get? {mapping : Mapping} (h : t.get? key handler = some mapping) :
    ∃ e, Entries.get? key t.endpoints = some e ∧ Entries.get? handler e.handlers = some mapping := by
  unfold get? at h
  split at h
  · exact ⟨_, ‹_›, h⟩
  · cases h

theorem consistent_of_empty (conventions : Conventions) (declared : Entries DeclaredUnit) :
    Consistent conventions { declared, endpoints := [] } where
  keyed := List.nodup_nil
  paired := fun _ _ h => nomatch h

theorem Consistent.put (h : t.Consistent conventions) (he : e.Paired conventions t.declared key) :
    Consistent conventions { t with endpoints := t.endpoints.put key e } where
  keyed := h.keyed.put
  paired := fun key' e' hget => by
    rw [Entries.get?_put] at hget
    split at hget
    · rename_i hkey
      rw [hkey, ← Option.some.inj hget]
      exact he
    · exact h.paired key' e' hget

end LookupTable

theorem addClass_consistent (path : Path) (c : ClassDeclaration) {acc : LookupTable × List LogRow}
    (h : acc.1.Consistent conventions) :
    (addClass conventions path acc c).1.declared = acc.1.declared ∧
      (addClass conventions path acc c).1.Consistent conventions := by
  obtain ⟨t, rows⟩ := acc
  unfold addClass
  cases stem? conventions.endpointSuffix c.name with
  | none => exact ⟨rfl, h⟩
  | some key =>
    dsimp only
    cases hd : t.unit? (key ++ conventions.unitSuffix) with
    | none => exact ⟨rfl, h⟩
    | some d =>
      refine ⟨rfl, LookupTable.Consistent.put h ?_⟩
      -- The endpoint before its handlers are added: the one that is there, or a new one without handlers.
      cases hold : Entries.get? key t.endpoints with
      | none =>
        have hnil : MapsHandlers conventions key d [] := MapsHandlers.nil
        obtain ⟨hsame, hmaps⟩ := foldl_addHandler_kept c.name (c.methods.filter Method.isAnalyzable)
          ({ key, className := c.name, unit := key ++ conventions.unitSuffix, path, handlers := [] }, []) hnil
        exact ⟨congrArg EndpointUnit.key hsame, congrArg EndpointUnit.unit hsame, d, hd, hmaps⟩
      | some e =>
        obtain ⟨hkey, hunit, d', hd', hmaps⟩ := h.paired key e hold
        obtain rfl : d = d' := Option.some.inj (hd.symm.trans hd')
        rw [← hkey] at hmaps
        obtain ⟨hsame, hmaps⟩ := foldl_addHandler_kept c.name (c.methods.filter Method.isAnalyzable) (e, []) hmaps
        rw [hkey] at hmaps
        exact ⟨(congrArg EndpointUnit.key hsame).trans hkey, (congrArg EndpointUnit.unit hsame).trans hunit, d, hd,
          hmaps⟩

/-! ### Sources -/

theorem scanSource_consistent (s : Source) (path : Path) (h : t.Consistent conventions) :
    (scanSource conventions s path t).1.declared = t.declared ∧
      (scanSource conventions s path t).1.Consistent conventions := by
  unfold scanSource
  have hclasses : ∀ (cs : List ClassDeclaration) (acc : LookupTable × List LogRow),
      acc.1.declared = t.declared ∧ acc.1.Consistent conventions →
      (cs.foldl (addClass conventions path) acc).1.declared = t.declared ∧
        (cs.foldl (addClass conventions path) acc).1.Consistent conventions := by
    intro cs
    induction cs with
    | nil => exact fun _ hacc => hacc
    | cons c cs ih =>
      intro acc hacc
      obtain ⟨hdeclared, hconsistent⟩ := addClass_consistent path c hacc.2
      exact ih _ ⟨hdeclared.trans hacc.1, hconsistent⟩
  exact hclasses s.classes (t, []) ⟨rfl, h⟩

/-- The table after the sources were scanned one after the other. -/
def LookupTable.scanned (conventions : Conventions) (t : LookupTable) (sources : List (Source × Path)) : LookupTable :=
  sources.foldl (fun t source => (scanSource conventions source.1 source.2 t).1) t

theorem LookupTable.scanned_consistent (sources : List (Source × Path)) (h : t.Consistent conventions) :
    (t.scanned conventions sources).declared = t.declared ∧
      (t.scanned conventions sources).Consistent conventions := by
  induction sources generalizing t with
  | nil => exact ⟨rfl, h⟩
  | cons source sources ih =>
    obtain ⟨hdeclared, hconsistent⟩ := scanSource_consistent source.1 source.2 h
    obtain ⟨hdeclared', hconsistent'⟩ := ih hconsistent
    exact ⟨hdeclared'.trans hdeclared, hconsistent'⟩

end ResponseShapes
