import Mathlib.Data.List.Perm.Basic
import ResponseShapes.Proofs.Endpoint.Closed

/-! # The order of sources

A class changes the endpoint of its own key and no other one, and what becomes of that endpoint depends only on what
the table holds under the key (`get?_endpoints_addClass`). So what a table holds under a key after a scan is told by a
fold over the sources in which those without the key do nothing, and sources that have no key in common can be scanned in
any order: the same endpoints with the same handlers come of it, and the wiring imports the same
(`LookupTable.scanned_permuted`). -/

namespace ResponseShapes

open Syntax

/-- The keys of the endpoint classes of a source, whether or not their units are declared. -/
def Syntax.Source.endpointKeys (conventions : Conventions) (s : Source) : List String :=
  s.classes.filterMap fun c => stem? conventions.endpointSuffix c.name

/-- No endpoint class of the one source has the key of one of the other. -/
def EndpointsApart (conventions : Conventions) (a b : Source × Path) : Prop :=
  ∀ key ∈ a.1.endpointKeys conventions, key ∉ b.1.endpointKeys conventions

variable {conventions : Conventions} {declared : Entries DeclaredUnit} {key : String} {t t' : LookupTable}
  {old : Option EndpointUnit} {path : Path} {a b : Source × Path}

instance : Decidable (EndpointsApart conventions a b) :=
  inferInstanceAs (Decidable (∀ _ ∈ _, _))

instance : Std.Symm (EndpointsApart conventions) :=
  ⟨fun _ _ h key hb ha => h key ha hb⟩

/-! ### What a key holds -/

/-- The endpoint under a key after a class of the file `path`, by the one before. -/
def endpointAfter (conventions : Conventions) (declared : Entries DeclaredUnit) (key : String) (path : Path)
    (old : Option EndpointUnit) (c : ClassDeclaration) : Option EndpointUnit :=
  if stem? conventions.endpointSuffix c.name = some key then
    match Entries.get? (key ++ conventions.unitSuffix) declared with
    | none => old
    | some d =>
      let e := old.getD
        { key, className := c.name, unit := key ++ conventions.unitSuffix, path, handlers := [] }
      some ((c.methods.filter Method.isAnalyzable).foldl (addHandler conventions c.name d) (e, [])).1
  else old

/-- The endpoint under a key after all classes of a source. -/
def endpointAfterSource (conventions : Conventions) (declared : Entries DeclaredUnit) (key : String)
    (old : Option EndpointUnit) (source : Source × Path) : Option EndpointUnit :=
  source.1.classes.foldl (endpointAfter conventions declared key source.2) old

theorem get?_endpoints_addClass (path : Path) (acc : LookupTable × List LogRow) (c : ClassDeclaration) :
    Entries.get? key (addClass conventions path acc c).1.endpoints =
      endpointAfter conventions acc.1.declared key path (Entries.get? key acc.1.endpoints) c := by
  obtain ⟨t, rows⟩ := acc
  unfold addClass endpointAfter
  cases hstem : stem? conventions.endpointSuffix c.name with
  | none => rw [if_neg (by simp)]
  | some key' =>
    dsimp only
    by_cases hkey : key' = key
    · subst hkey
      rw [if_pos rfl, show Entries.get? (key' ++ conventions.unitSuffix) t.declared =
        t.unit? (key' ++ conventions.unitSuffix) from rfl]
      cases t.unit? (key' ++ conventions.unitSuffix) with
      | none => rfl
      | some d =>
        dsimp only
        rw [Entries.get?_put_self]
        -- A class that is declared again adds to the endpoint that is there.
        cases Entries.get? key' t.endpoints <;> rfl
    · rw [if_neg (by simpa using hkey)]
      cases t.unit? (key' ++ conventions.unitSuffix) with
      | none => rfl
      | some d => exact Entries.get?_put_of_ne (Ne.symm hkey)

theorem get?_endpoints_scanSource (source : Source × Path) (t : LookupTable) :
    Entries.get? key (scanSource conventions source.1 source.2 t).1.endpoints =
      endpointAfterSource conventions t.declared key (Entries.get? key t.endpoints) source := by
  have hclasses (cs : List ClassDeclaration) (acc : LookupTable × List LogRow) (hacc : acc.1.declared = t.declared) :
      Entries.get? key (cs.foldl (addClass conventions source.2) acc).1.endpoints =
        cs.foldl (endpointAfter conventions t.declared key source.2) (Entries.get? key acc.1.endpoints) := by
    induction cs generalizing acc with
    | nil => rfl
    | cons c cs ih =>
      rw [List.foldl_cons, List.foldl_cons, ih _ ((addClass_grows source.2 acc c).declared.trans hacc),
        get?_endpoints_addClass, hacc]
  exact hclasses source.1.classes (t, []) rfl

theorem get?_endpoints_scanned (sources : List (Source × Path)) (t : LookupTable) :
    Entries.get? key (t.scanned conventions sources).endpoints =
      sources.foldl (endpointAfterSource conventions t.declared key) (Entries.get? key t.endpoints) := by
  induction sources generalizing t with
  | nil => rfl
  | cons source sources ih =>
    have hdeclared : (scanSource conventions source.1 source.2 t).1.declared = t.declared := (scanSource_grows _ _ t).declared
    rw [List.foldl_cons, ← get?_endpoints_scanSource, ← hdeclared]
    exact ih _

/-! ### Sources without a key -/

theorem endpointAfter_of_ne {c : ClassDeclaration} (h : stem? conventions.endpointSuffix c.name ≠ some key) :
    endpointAfter conventions declared key path old c = old :=
  if_neg h

theorem endpointAfterSource_of_notMem (h : key ∉ a.1.endpointKeys conventions) (old : Option EndpointUnit) :
    endpointAfterSource conventions declared key old a = old := by
  have hclasses : ∀ c ∈ a.1.classes, stem? conventions.endpointSuffix c.name ≠ some key := fun c hc hstem =>
    h (List.mem_filterMap.mpr ⟨c, hc, hstem⟩)
  unfold endpointAfterSource
  generalize a.1.classes = cs at hclasses
  induction cs with
  | nil => rfl
  | cons c cs ih =>
    obtain ⟨hc, hcs⟩ := List.forall_mem_cons.mp hclasses
    rw [List.foldl_cons, endpointAfter_of_ne hc, ih hcs]

/-- Under a key, one of two sources that have no key in common changes nothing. -/
theorem EndpointsApart.comm (h : EndpointsApart conventions a b) (old : Option EndpointUnit) :
    endpointAfterSource conventions declared key (endpointAfterSource conventions declared key old a) b =
      endpointAfterSource conventions declared key (endpointAfterSource conventions declared key old b) a := by
  by_cases hkey : key ∈ a.1.endpointKeys conventions
  · rw [endpointAfterSource_of_notMem (h key hkey), endpointAfterSource_of_notMem (h key hkey)]
  · rw [endpointAfterSource_of_notMem hkey, endpointAfterSource_of_notMem hkey]

/-! ### Tables with the same endpoints -/

theorem Entries.perm_of_get?_eq {α : Type} {es es' : Entries α} (h : es.Keyed) (h' : es'.Keyed)
    (hget : ∀ key, get? key es = get? key es') : es.Perm es' := by
  refine (List.perm_ext_iff_of_nodup (List.Nodup.of_map _ h) (List.Nodup.of_map _ h')).mpr fun e => ?_
  constructor
  · exact fun he => mem_of_get? ((hget e.1).symm.trans (get?_of_mem h he))
  · exact fun he => mem_of_get? ((hget e.1).trans (get?_of_mem h' he))

theorem addClass_keyed (path : Path) (c : ClassDeclaration) {acc : LookupTable × List LogRow}
    (h : acc.1.endpoints.Keyed) : (addClass conventions path acc c).1.endpoints.Keyed := by
  unfold addClass
  split
  · exact h
  · dsimp only
    split
    · exact h
    · exact h.put

theorem LookupTable.scanned_keyed (sources : List (Source × Path)) (h : t.endpoints.Keyed) :
    (t.scanned conventions sources).endpoints.Keyed := by
  have hclasses (path : Path) (cs : List ClassDeclaration) (acc : LookupTable × List LogRow)
      (hacc : acc.1.endpoints.Keyed) : (cs.foldl (addClass conventions path) acc).1.endpoints.Keyed := by
    induction cs generalizing acc with
    | nil => exact hacc
    | cons c cs ih => exact ih _ (addClass_keyed path c hacc)
  induction sources generalizing t with
  | nil => exact h
  | cons source sources ih => exact ih (hclasses source.2 source.1.classes (t, []) h)

/-! ### Imports of the wiring -/

namespace Wiring

/-- What is imported depends on which endpoints there are, and not on their order. -/
theorem referencedUnits_congr (hdeclared : t.declared = t'.declared) (h : t.endpoints.Perm t'.endpoints) :
    referencedUnits t = referencedUnits t' := by
  let mentioned (t : LookupTable) := t.endpoints.values.flatMap fun e => e.handlers.values.map (·.unit)
  have hmentioned : (mentioned t).Perm (mentioned t') := (h.map _).flatMap_right _
  have hnames : sortedNames (mentioned t) = sortedNames (mentioned t') := by
    have hperm : (sortedNames (mentioned t)).Perm (sortedNames (mentioned t')) := by
      refine (List.perm_ext_iff_of_nodup (nodup_sortedNames _) (nodup_sortedNames _)).mpr fun name => ?_
      rw [mem_sortedNames, mem_sortedNames, hmentioned.mem_iff]
    exact hperm.eq_of_pairwise (fun _ _ _ _ hlt hgt => absurd hgt (lt_asymm hlt)) (pairwise_sortedNames _)
      (pairwise_sortedNames _)
  have hunits : t.unit? = t'.unit? := by
    unfold LookupTable.unit?
    rw [hdeclared]
  change (sortedNames (mentioned t)).filterMap t.unit? = (sortedNames (mentioned t')).filterMap t'.unit?
  rw [hnames, hunits]

/-- The lines in front of the first empty one. -/
def opening (docs : Documentation) (w : Wiring) : List String :=
  (lines docs w).takeWhile (· ≠ "")

/-- The module opens with its banner, the import of the framework and the imports of lookup objects. -/
theorem opening_eq (docs : Documentation) (w : Wiring) : opening docs w =
    [banner, "import \x7b " ++ docs.okDecorator ++ ", " ++ docs.createdDecorator ++ ", ApiResponseOptions \x7d from '" ++
      docs.module ++ "';"] ++ w.imports.map NameImport.line := by
  have himport (rest : String) : "import \x7b " ++ rest ≠ "" := fun h =>
    absurd (congrArg String.toList h) (by simp)
  have hframework : "import \x7b " ++ docs.okDecorator ++ ", " ++ docs.createdDecorator ++
      ", ApiResponseOptions \x7d from '" ++ docs.module ++ "';" ≠ "" := by
    simpa only [String.append_assoc] using himport _
  have hlines : ∀ line ∈ w.imports.map NameImport.line, decide (line ≠ "") = true := by
    intro line hline
    obtain ⟨i, -, rfl⟩ := List.mem_map.mp hline
    unfold NameImport.line
    simpa only [String.append_assoc, decide_eq_true_eq] using himport _
  unfold opening lines
  rw [List.append_assoc, List.append_assoc, List.append_assoc, List.takeWhile_append_of_pos]
  · rw [List.takeWhile_append_of_pos hlines]
    simp
  · refine List.forall_mem_cons.mpr ⟨by decide, List.forall_mem_singleton.mpr (decide_eq_true hframework)⟩

end Wiring

/-- Sources of which no two have a key in common come to the same in every order, whatever the table held before: each
    key has the same endpoint, with its handlers in the same order, so only the order of the endpoints may change. The
    wiring imports the same and opens with the same lines. -/
theorem LookupTable.scanned_permuted (conventions : Conventions) {t : LookupTable} (hkeyed : t.endpoints.Keyed)
    {sources more : List (Source × Path)} (hapart : sources.Pairwise (EndpointsApart conventions))
    (hperm : sources.Perm more) :
    let scanned := t.scanned conventions sources
    let permuted := t.scanned conventions more
    scanned.declared = permuted.declared ∧
    (∀ key, Entries.get? key scanned.endpoints = Entries.get? key permuted.endpoints) ∧
    scanned.endpoints.Perm permuted.endpoints ∧
    ∀ directory, (Wiring.ofTable directory scanned).imports = (Wiring.ofTable directory permuted).imports ∧
      ∀ docs, (Wiring.ofTable directory scanned).opening docs = (Wiring.ofTable directory permuted).opening docs := by
  intro scanned permuted
  have hdeclared : scanned.declared = permuted.declared :=
    (t.scanned_grows conventions sources).declared.trans (t.scanned_grows conventions more).declared.symm
  have hget : ∀ key, Entries.get? key scanned.endpoints = Entries.get? key permuted.endpoints := by
    intro key
    rw [get?_endpoints_scanned, get?_endpoints_scanned]
    refine hperm.foldl_eq' (fun a ha b hb old => ?_) _
    by_cases hab : a = b
    · rw [hab]
    · exact (hapart.forall ha hb hab).comm old
  have hendpoints : scanned.endpoints.Perm permuted.endpoints :=
    Entries.perm_of_get?_eq (t.scanned_keyed sources hkeyed) (t.scanned_keyed more hkeyed) hget
  have himports : ∀ directory,
      (Wiring.ofTable directory scanned).imports = (Wiring.ofTable directory permuted).imports := fun directory => by
    unfold Wiring.ofTable
    rw [Wiring.referencedUnits_congr hdeclared hendpoints]
  refine ⟨hdeclared, hget, hendpoints, fun directory => ⟨himports directory, fun docs => ?_⟩⟩
  rw [Wiring.opening_eq, Wiring.opening_eq, himports directory]

/-! ### Two controllers of different keys -/

namespace Shop

/-- Users are declared as well as orders. -/
def table : LookupTable :=
  { declared := Orders.declared ++
      [("UsersService",
        { unit := "UsersService", lookup := "UsersServiceResponse"
          module := Path.ofString "/project/usersservice.response.ts"
          members := [("findOne", "UsersServiceFindOneResponse"), ("remove", "UsersServiceRemoveResponse")] })]
    endpoints := [] }

/-- A source that declares one endpoint twice, and another one whose unit is not declared. -/
def users : String :=
  "class UsersController \x7b @Get() findOne() \x7b\x7d \x7d\nclass GhostsController \x7b\x7d\n" ++
    "class UsersController \x7b @Post() findOne() \x7b\x7d @Delete() remove() \x7b\x7d \x7d\n"

def orders : String :=
  "class OrdersController \x7b @Post() create() \x7b\x7d \x7d\n"

def sources : List (Source × Path) :=
  [(Source.ofText orders, Path.ofString "/project/orders.controller.ts"),
    (Source.ofText users, Path.ofString "/project/users.controller.ts")]

end Shop

/-- The endpoints change places, and the handlers of the second one keep their order. -/
theorem LookupTable.scanned_permuted_shop : Shop.table.endpoints.Keyed ∧
    Shop.sources.Pairwise (EndpointsApart Orders.settings.conventions) ∧ Shop.sources.Perm Shop.sources.reverse ∧
    let scanned := Shop.table.scanned Orders.settings.conventions Shop.sources
    let permuted := Shop.table.scanned Orders.settings.conventions Shop.sources.reverse
    scanned.endpoints.keys = ["Orders", "Users"] ∧ permuted.endpoints.keys = ["Users", "Orders"] ∧
    (Entries.get? "Users" permuted.endpoints).map (fun e => e.handlers.keys) = some ["findOne", "remove"] ∧
    (Wiring.ofTable "./responses" permuted).imports.map NameImport.name =
      ["OrdersServiceResponse", "UsersServiceResponse"] := by
  have hkeyed : Shop.table.endpoints.Keyed := List.nodup_nil
  have hperm : Shop.sources.Perm Shop.sources.reverse := (List.reverse_perm _).symm
  obtain ⟨hapart, hkeys, hkeys', hhandlers, hunits⟩ :
      Shop.sources.Pairwise (EndpointsApart Orders.settings.conventions) ∧
      (Shop.table.scanned Orders.settings.conventions Shop.sources).endpoints.keys = ["Orders", "Users"] ∧
      (Shop.table.scanned Orders.settings.conventions Shop.sources.reverse).endpoints.keys = ["Users", "Orders"] ∧
      (Entries.get? "Users" (Shop.table.scanned Orders.settings.conventions Shop.sources).endpoints).map
        (fun e => e.handlers.keys) = some ["findOne", "remove"] ∧
      Wiring.unitNames (Shop.table.scanned Orders.settings.conventions Shop.sources) =
        ["OrdersService", "UsersService"] := by decide +kernel
  obtain ⟨-, hget, -, himports⟩ := LookupTable.scanned_permuted Orders.settings.conventions hkeyed hapart hperm
  refine ⟨hkeyed, hapart, hperm, hkeys, hkeys', ?_, ?_⟩
  · rw [← hget "Users", hhandlers]
  · have hdeclared := (Shop.table.scanned_grows Orders.settings.conventions Shop.sources).declared
    rw [← (himports "./responses").1, Wiring.imports_ofTable, Wiring.referencedUnits, hunits,
      List.mergeSort_of_pairwise (by decide), show LookupTable.unit? _ = fun name => Entries.get? name _ from rfl,
      hdeclared]
    rfl

end ResponseShapes
