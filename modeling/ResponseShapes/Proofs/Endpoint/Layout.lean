import ResponseShapes.Endpoint.Wiring
import ResponseShapes.Proofs.Declaration.Properties

/-! # The wiring module as it is written

The module holds its imports, one object literal, the helper and the shorthands, each on lines of its own (`text_eq`).
The literal has a property for each endpoint with handlers, whose value is a literal with a property for each handler,
whose value in turn says what the handler answers. -/

namespace ResponseShapes

/-- A text among joined ones stands between others. -/
theorem Text.exists_intercalate {x separator : String} {xs : List String} (h : x ∈ xs) :
    ∃ before after : String, String.intercalate separator xs = before ++ x ++ after := by
  obtain ⟨ys, zs, rfl⟩ := List.append_of_mem h
  obtain ⟨after, hafter⟩ : ∃ after, String.intercalate separator (x :: zs) = x ++ after := by
    cases zs with
    | nil => exact ⟨"", by rw [String.intercalate_singleton, String.append_empty]⟩
    | cons z zs => exact ⟨_, by rw [String.intercalate_cons_cons, String.append_assoc]⟩
  cases ys with
  | nil => exact ⟨"", after, by rw [List.nil_append, hafter, String.empty_append]⟩
  | cons y ys =>
    rw [String.intercalate_append_of_ne_nil (List.cons_ne_nil _ _) (List.cons_ne_nil _ _), hafter]
    exact ⟨_, after, (String.append_assoc ..).symm⟩

namespace Wiring

/-- The value of a handler. -/
def entryLiteral (m : Mapping) : String :=
  objectLiteral "    "
    [("type", m.reference), ("isArray", if m.isList then "true" else "false"), ("status", "'" ++ m.status.word ++ "'")]

/-- The value of an endpoint. -/
def handlersLiteral (handlers : Entries Mapping) : String :=
  objectLiteral "  " (handlers.map fun e => (e.1, entryLiteral e.2))

/-- The value of the whole configuration. -/
def configLiteral (blocks : List (String × Entries Mapping)) : String :=
  objectLiteral "" (blocks.map fun b => (b.1, handlersLiteral b.2))

/-- An import of some names as it is written. -/
def importText (names : List String) (module : String) : String :=
  "import \x7b " ++ String.intercalate ", " names ++ " \x7d from '" ++ module ++ "';"

variable {docs : Documentation} {w : Wiring} {blocks : List (String × Entries Mapping)} {handlers : Entries Mapping}
  {key : String}

theorem entryText_eq (e : String × Mapping) :
    entryText e = "    " ++ propertyKey e.1 ++ ": " ++ entryLiteral e.2 ++ "," := by
  have htype : propertyKey "type" = "type" := by decide
  have hlist : propertyKey "isArray" = "isArray" := by decide
  have hstatus : propertyKey "status" = "status" := by decide
  simp [entryText, entryLiteral, objectLiteral, htype, hlist, hstatus, String.intercalate_cons_cons, ← String.toList_inj]

theorem blockText_eq (h : handlers ≠ []) :
    blockText (key, handlers) = "  " ++ propertyKey key ++ ": " ++ handlersLiteral handlers ++ "," := by
  have hentries : handlers.map entryText =
      (handlers.map fun e => (e.1, entryLiteral e.2)).map fun p => "  " ++ "  " ++ propertyKey p.1 ++ ": " ++ p.2 ++ "," := by
    rw [List.map_map]
    exact List.map_congr_left fun e _ => entryText_eq e
  rw [blockText, handlersLiteral, objectLiteral, if_neg (by simpa using h), hentries]
  simp only [String.append_assoc]
  rfl

theorem objectText_eq (h : ∀ b ∈ blocks, b.2 ≠ []) :
    objectText blocks = "export const RESPONSE_CONFIG = " ++ configLiteral blocks ++ " as const;" := by
  have hblocks : blocks.map blockText =
      (blocks.map fun b => (b.1, handlersLiteral b.2)).map fun p => "" ++ "  " ++ propertyKey p.1 ++ ": " ++ p.2 ++ "," := by
    rw [List.map_map]
    exact List.map_congr_left fun b hb => blockText_eq (h b hb)
  rw [objectText, configLiteral, objectLiteral, hblocks]
  cases blocks with
  | nil => rfl
  | cons b blocks =>
    simp only [List.map_cons, List.isEmpty_cons, Bool.false_eq_true, if_false, String.append_assoc]
    rfl

/-- The lines below the imports. -/
def bodyLines (docs : Documentation) (blocks : List (String × Entries Mapping)) : List String :=
  ["", "export const RESPONSE_CONFIG = " ++ configLiteral blocks ++ " as const;", ""] ++ helperLines docs ++
    (if blocks.isEmpty then []
      else "" :: blocks.map fun b =>
        "export const " ++ b.1 ++ "InferredResponse = (options: InferredResponseOptions = \x7b\x7d) =>\n" ++
          "  InferredAPIResponse('" ++ b.1 ++ "', options);")

/-- The module from its parts. -/
theorem text_eq (h : ∀ b ∈ w.blocks, b.2 ≠ []) :
    w.text docs = String.intercalate "\n" (banner ::
      importText [docs.okDecorator, docs.createdDecorator, "ApiResponseOptions"] docs.module ::
      w.imports.map (fun i => importText [i.name] i.specifier) ++ bodyLines docs w.blocks) ++ "\n" := by
  have himports : w.imports.map NameImport.line = w.imports.map fun i => importText [i.name] i.specifier :=
    List.map_congr_left fun i _ => by rw [NameImport.line, importText, String.intercalate_singleton]
  have hframework : importText [docs.okDecorator, docs.createdDecorator, "ApiResponseOptions"] docs.module =
      "import \x7b " ++ docs.okDecorator ++ ", " ++ docs.createdDecorator ++ ", ApiResponseOptions \x7d from '" ++
        docs.module ++ "';" := by
    simp [importText, String.intercalate_cons_cons, ← String.toList_inj]
  rw [text, lines, objectText_eq h, himports, hframework, bodyLines]
  simp only [List.append_assoc]
  rfl

/-- The line begins with another character than an import. -/
def BeginsApart (line : String) : Prop :=
  ∃ c cs, line.toList = c :: cs ∧ c ≠ 'i'

theorem BeginsApart.piece {c : Char} {cs : List Char} (h : c ≠ 'i') : BeginsApart (String.ofList (c :: cs)) :=
  ⟨c, cs, String.toList_ofList, h⟩

theorem BeginsApart.append {line : String} (h : BeginsApart line) (rest : String) : BeginsApart (line ++ rest) := by
  obtain ⟨c, cs, hline, hc⟩ := h
  exact ⟨c, cs ++ rest.toList, by rw [String.toList_append, hline, List.cons_append], hc⟩

theorem BeginsApart.not_import {line : String} (h : BeginsApart line) : ¬"import".toList <+: line.toList := by
  obtain ⟨c, cs, hline, hc⟩ := h
  rw [hline]
  intro himport
  exact hc (List.cons_prefix_cons.mp himport).1.symm

theorem apart_of_mem_helperLines {line : String} (h : line ∈ helperLines docs) : line = "" ∨ BeginsApart line := by
  revert line
  simp only [helperLines, List.forall_mem_cons, List.not_mem_nil, IsEmpty.forall_iff, implies_true, true_or, and_true,
    true_and]
  and_intros
  all_goals
    refine .inr ?_
    -- Told more than reducibly, a text could be unfolded down to its bytes.
    with_reducible
      repeat refine .append ?_ _
      exact .piece (by decide)

/-- No line below the imports begins like an import. -/
theorem not_import_of_mem_bodyLines {line : String} (h : line ∈ bodyLines docs blocks) :
    ¬"import".toList <+: line.toList := by
  have hapart : line = "" ∨ BeginsApart line := by
    rcases List.mem_append.mp h with h | h
    · rcases List.mem_append.mp h with h | h
      · rcases List.mem_cons.mp h with rfl | h
        · exact .inl rfl
        rcases List.mem_cons.mp h with rfl | h
        · exact .inr (((BeginsApart.piece (by decide)).append _).append _)
        · exact .inl (List.mem_singleton.mp h)
      · exact apart_of_mem_helperLines h
    · split at h
      · cases h
      rcases List.mem_cons.mp h with rfl | h
      · exact .inl rfl
      · obtain ⟨b, -, rfl⟩ := List.mem_map.mp h
        refine .inr ?_
        with_reducible
          repeat refine .append ?_ _
          exact .piece (by decide)
  rcases hapart with rfl | hapart
  · decide
  · exact hapart.not_import

/-- The configuration in the module. -/
theorem exists_text (docs : Documentation) (h : ∀ b ∈ w.blocks, b.2 ≠ []) : ∃ before after : String,
    w.text docs = before ++ "export const RESPONSE_CONFIG = " ++ configLiteral w.blocks ++ " as const;" ++ after := by
  obtain ⟨before, after, hlines⟩ : ∃ before after : String,
      String.intercalate "\n" (lines docs w) = before ++ objectText w.blocks ++ after :=
    Text.exists_intercalate (by simp [lines])
  refine ⟨before, after ++ "\n", ?_⟩
  rw [text, hlines, objectText_eq h]
  simp only [String.append_assoc]

/-! ### Keys -/

/-- Names that differ have keys that differ. -/
theorem nodup_propertyKeys {α : Type} {es : Entries α} (h : es.Keyed) : (es.map fun e => propertyKey e.1).Nodup := by
  have hkeys := List.Nodup.map propertyKey_injective h
  rwa [Entries.keys, List.map_map] at hkeys

end Wiring

end ResponseShapes
