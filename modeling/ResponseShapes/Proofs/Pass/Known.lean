import ResponseShapes.Proofs.Pass.Writes

/-! # What wiring knows of units

Wiring asks for declared units by their names alone. So it does not matter in which order they became known: tables in
which the same names have the same units stay so while endpoints are added (`LookupTable.SameUnits.addClass`), and wiring
comes to the same and leaves the same files (`wire_eq_of_units`). -/

namespace ResponseShapes

open Syntax

/-- The tables have the same endpoints, and the same unit for every name. -/
structure LookupTable.SameUnits (t t' : LookupTable) : Prop where
  endpoints : t.endpoints = t'.endpoints
  units : ∀ unit, t.unit? unit = t'.unit? unit

variable {conventions : Conventions} {s : Settings} {d : Disk} {p : Path} {t t' : LookupTable} {rows : List LogRow}

/-! ### Adding endpoints -/

namespace LookupTable.SameUnits

theorem addClass (conventions : Conventions) (p : Path) (rows : List LogRow) (h : t.SameUnits t') (c : ClassDeclaration) :
    (ResponseShapes.addClass conventions p (t, rows) c).1.SameUnits (ResponseShapes.addClass conventions p (t', rows) c).1 ∧
      (ResponseShapes.addClass conventions p (t, rows) c).2 = (ResponseShapes.addClass conventions p (t', rows) c).2 := by
  obtain ⟨hendpoints, hunits⟩ := h
  unfold ResponseShapes.addClass
  dsimp only
  cases stem? conventions.endpointSuffix c.name with
  | none => exact ⟨⟨hendpoints, hunits⟩, rfl⟩
  | some key =>
    dsimp only
    rw [hunits, hendpoints]
    cases t'.unit? (key ++ conventions.unitSuffix) with
    | none => exact ⟨⟨hendpoints, hunits⟩, rfl⟩
    | some d => exact ⟨⟨rfl, hunits⟩, rfl⟩

theorem scanSource (h : t.SameUnits t') (source : Source) :
    (ResponseShapes.scanSource conventions source p t).1.SameUnits (ResponseShapes.scanSource conventions source p t').1 := by
  unfold ResponseShapes.scanSource
  generalize ([] : List LogRow) = rows
  induction source.classes generalizing t t' rows with
  | nil => exact h
  | cons c classes ih =>
    obtain ⟨hhead, hrows⟩ := addClass conventions p rows h c
    have hadded : ResponseShapes.addClass conventions p (t, rows) c =
        ((ResponseShapes.addClass conventions p (t, rows) c).1, (ResponseShapes.addClass conventions p (t', rows) c).2) :=
      Prod.ext rfl hrows
    rw [List.foldl_cons, List.foldl_cons, hadded]
    exact ih hhead _

theorem withEndpointsAt [Recovery] (h : t.SameUnits t') (p : Path) :
    (ResponseShapes.withEndpointsAt s d t p).SameUnits (ResponseShapes.withEndpointsAt s d t' p) := by
  unfold ResponseShapes.withEndpointsAt
  split
  · exact h.scanSource _
  · exact h

theorem wired_eq (h : t.SameUnits t') : t.wired = t'.wired := by
  rw [wired, wired, h.endpoints]

theorem wiringText_eq (h : t.SameUnits t') (output declarations : Path) :
    wiringText s output declarations t = wiringText s output declarations t' := by
  have hreferenced : Wiring.referencedUnits t = Wiring.referencedUnits t' := by
    rw [Wiring.referencedUnits, Wiring.referencedUnits, Wiring.unitNames, Wiring.unitNames, h.endpoints]
    exact List.filterMap_congr fun unit _ => h.units unit
  rw [wiringText, wiringText, Wiring.ofTable, Wiring.ofTable, Wiring.blocksOf, Wiring.blocksOf, hreferenced, h.endpoints]

end LookupTable.SameUnits

theorem sameUnits_wiringTable [Recovery] {declared declared' : Entries DeclaredUnit}
    (h : ∀ unit, Entries.get? unit declared = Entries.get? unit declared') (ps : List Path) :
    (wiringTable s d declared ps).SameUnits (wiringTable s d declared' ps) := by
  have hfold : ∀ t t' : LookupTable, t.SameUnits t' →
      (ps.foldl (withEndpointsAt s d) t).SameUnits (ps.foldl (withEndpointsAt s d) t') := by
    induction ps with
    | nil => exact fun t t' ht => ht
    | cons p ps ih => exact fun t t' ht => ih _ _ (ht.withEndpointsAt p)
  exact hfold _ _ ⟨rfl, h⟩

/-! ### Wiring -/

/-- What wiring the endpoints below a directory comes to and leaves, by the units that it asks for. -/
theorem wireIn_eq_of_units [Recovery] (root : Path) {k k' : Progress} (habs : s.root.isAbsolute)
    (h : ∀ unit, Entries.get? unit (unitsFor s d s.declarationsDir k) = Entries.get? unit (unitsFor s d s.declarationsDir k')) :
    ∃ r d₁ k₁ k₁', (wireIn s root).Reaches d k r d₁ k₁ ∧ (wireIn s root).Reaches d k' r d₁ k₁' := by
  obtain ⟨r, hlist⟩ := listSources_does root s.controllerPattern s.excludePaths d
  cases r with
  | error i => exact ⟨_, _, _, _, .generateWiring_error _ _ hlist k, .generateWiring_error _ _ hlist k'⟩
  | ok ps =>
    have hsame := sameUnits_wiringTable (s := s) (d := d) h ps
    obtain ⟨x, d₁, hwrite, -⟩ := Pass.writeOutput_writes (· = s.outputRoot.home ++ [wiringFile])
      (s.isAbsolute_outputRoot habs) (show wiringFile ≠ ".." by decide) rfl
      (wiringText s s.outputRoot s.declarationsDir (wiringTable s d (unitsFor s d s.declarationsDir k) ps)) d
    obtain ⟨written, hreaches⟩ := Pass.Reaches.generateWiring_ok (k := k) hlist rfl hwrite
    rw [hsame.wiringText_eq] at hwrite
    obtain ⟨written', hreaches'⟩ := Pass.Reaches.generateWiring_ok (k := k') hlist rfl hwrite
    rw [← hsame.wired_eq] at hreaches'
    exact ⟨_, _, _, _, hreaches, hreaches'⟩

/-- Wiring a project comes to the same and leaves the same files whatever else is known but the units. -/
theorem wire_eq_of_units [Recovery] {path : String} {σ σ' : PassState}
    (hs : (projectSettings path).Does σ.disk (.ok s) σ.disk)
    (hdisk : σ'.disk = σ.disk) (h : ∀ unit, Entries.get? unit (unitsFor s σ.disk s.declarationsDir σ.progress) =
      Entries.get? unit (unitsFor s σ.disk s.declarationsDir σ'.progress)) :
    ((wire path).run σ').1 = ((wire path).run σ).1 ∧ ((wire path).run σ').2.disk = ((wire path).run σ).2.disk := by
  obtain ⟨r, d₁, k₁, k₁', hwire, hwire'⟩ :=
    wireIn_eq_of_units (searchedRoot s σ.disk) (projectSettings_root hs).1 h
  have hreach : ∀ {k k₁}, (wireIn s (searchedRoot s σ.disk)).Reaches σ.disk k r d₁ k₁ →
      (wire path).Reaches σ.disk k r d₁ k₁ := fun hwire =>
    (hs.reaches _).bind (((Pass.Does.searchRoot s σ.disk).reaches _).bind hwire)
  obtain ⟨hresult, hleft, -⟩ := (hreach hwire).run (σ := σ)
  obtain ⟨disk', rows', k'⟩ := σ'
  obtain rfl : disk' = σ.disk := hdisk
  obtain ⟨hresult', hleft', -⟩ := (hreach hwire').run (σ := { disk := σ.disk, rows := rows', progress := k' })
  exact ⟨hresult'.trans hresult.symm, hleft'.trans hleft.symm⟩

end ResponseShapes
