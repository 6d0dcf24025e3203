import ResponseShapes.Pass.Wiring
import ResponseShapes.Proofs.Pass.Sources

/-! # Wiring endpoints

The wiring that is written depends on the units that are known, or else on those that are read back from their modules
(`loadedUnits`), and on the texts of the endpoint sources (`wiringTable`). Nothing but the wiring is written
(`Pass.Reaches.generateWiring_ok`). -/

namespace ResponseShapes

open Syntax

variable {s : Settings} {root output declarations p : Path} {ps : List Path} {pattern : String} {d d' : Disk} {k : Progress}
  {declared : Entries DeclaredUnit}

section Tables

variable [Recovery]

/-! ### Units that are read back -/

/-- The unit that the module at a path declares. -/
def declaredAt? (s : Settings) (d : Disk) (p : Path) : Option DeclaredUnit :=
  match d.readText p with
  | .ok cs => readDeclaredUnit? s.conventions.responseSuffix (Source.ofText (String.ofList cs)) p
  | .error _ => none

/-- The units with that of a module. -/
def withDeclaredAt (s : Settings) (d : Disk) (units : Entries DeclaredUnit) (p : Path) : Entries DeclaredUnit :=
  match declaredAt? s d p with
  | some u => units.put u.unit u
  | none => units

/-- The units whose modules lie in a directory. -/
def loadedUnits (s : Settings) (d : Disk) (directory : Path) : Entries DeclaredUnit :=
  if d.hasDirectory directory then (moduleEntries d directory).foldl (withDeclaredAt s d) [] else []

namespace Pass.Does

theorem addDeclaredUnit (s : Settings) (units : Entries DeclaredUnit) (p : Path) (d : Disk) :
    (addDeclaredUnit s units p).Does d (.ok (withDeclaredAt s d units p)) d := by
  refine (readSource p d).bind ?_
  unfold withDeclaredAt declaredAt?
  cases d.readText p with
  | error e => exact say_bind _ _ _ (pure units d)
  | ok cs =>
    dsimp only
    cases readDeclaredUnit? s.conventions.responseSuffix (Source.ofText (String.ofList cs)) p with
    | none => exact say_bind _ _ _ (pure units d)
    | some u => exact pure _ d

theorem loadDeclaredUnits (s : Settings) (directory : Path) (d : Disk) :
    (loadDeclaredUnits s directory).Does d (.ok (loadedUnits s d directory)) d := by
  refine disk_bind ?_
  unfold loadedUnits
  split
  · exact foldlM_ok (fun units p _ => addDeclaredUnit s units p d) []
  · exact say_bind _ _ _ (pure [] d)

end Pass.Does

/-- The units that a step knows, or else reads back. -/
def unitsFor (s : Settings) (d : Disk) (declarations : Path) (k : Progress) : Entries DeclaredUnit :=
  if k.declared.isEmpty then loadedUnits s d declarations else k.declared

theorem Pass.Reaches.knownUnits (s : Settings) (declarations : Path) (d : Disk) (k : Progress) :
    (knownUnits s declarations).Reaches d k (.ok (unitsFor s d declarations k)) d
      { k with declared := unitsFor s d declarations k } := by
  refine progress_bind ?_
  unfold unitsFor
  dsimp only
  split
  · refine ((Pass.Does.loadDeclaredUnits s declarations d).reaches k).bind (learn_bind ?_)
    exact (Pass.Does.pure _ d).reaches _
  · exact (Pass.Does.pure k.declared d).reaches k

/-! ### The table -/

/-- A table with the endpoints in a source. -/
def withEndpointsAt (s : Settings) (d : Disk) (t : LookupTable) (p : Path) : LookupTable :=
  match d.readText p with
  | .ok cs => (scanSource s.conventions (Source.ofText (String.ofList cs)) p t).1
  | .error _ => t

theorem withEndpointsAt_of_read {text : String} (h : d.readText p = .ok text.toList) (t : LookupTable) :
    withEndpointsAt s d t p = (scanSource s.conventions (Source.ofText text) p t).1 := by
  rw [withEndpointsAt, h]
  dsimp only
  rw [String.ofList_toList]

/-- The table of the endpoints in sources. -/
def wiringTable (s : Settings) (d : Disk) (declared : Entries DeclaredUnit) (ps : List Path) : LookupTable :=
  ps.foldl (withEndpointsAt s d) { declared, endpoints := [] }

theorem Pass.Does.addEndpoints (s : Settings) (t : LookupTable) (p : Path) (d : Disk) :
    (addEndpoints s t p).Does d (.ok (withEndpointsAt s d t p)) d := by
  refine (readSource p d).bind ?_
  unfold withEndpointsAt
  cases d.readText p with
  | error e => exact say_bind _ _ _ (pure t d)
  | ok cs => exact report_bind _ (pure _ d)

theorem Pass.Does.scanEndpoints {r : Except Interruption (List Path)}
    (hlist : (ResponseShapes.listSources root pattern s.excludePaths).Does d r d) (declared : Entries DeclaredUnit) :
    (scanEndpoints s root pattern declared).Does d (r.map (wiringTable s d declared)) d := by
  cases r with
  | error i => exact hlist.bind_error
  | ok ps => exact hlist.bind (foldlM_ok (fun t p _ => addEndpoints s t p d) _)

end Tables

/-! ### The wiring -/

/-- The text of the wiring of a table. -/
def wiringText (s : Settings) (output declarations : Path) (t : LookupTable) : String :=
  (Wiring.ofTable (Path.specifier output declarations) t).text s.documentation

/-- What wiring does with the table of the endpoints. -/
def writeTable (s : Settings) (output declarations : Path) (t : LookupTable) : Pass Nat := do
  Pass.learn fun k => { k with table := t }
  let target := output.child wiringFile
  match ← Pass.writeOutput target (wiringText s output declarations t) with
  | .error f =>
    Pass.say .error .pipeline f.message
    return 0
  | .ok _ =>
    Pass.learn fun k => { k with written := k.written ++ [target] }
    Pass.say .info .pipeline (s!"Wired {t.wired} endpoint units into " ++ target.toString)
    return t.wired

theorem generateWiring_eq [Recovery] (s : Settings) (root : Path) (pattern : String) (output declarations : Path) :
    generateWiring s root pattern output declarations = knownUnits s declarations >>= fun declared =>
      scanEndpoints s root pattern declared >>= writeTable s output declarations := rfl

/-- Writing comes to the number of endpoints in the table, unless the wiring cannot be written. -/
theorem Pass.Reaches.writeTable {x : Except Interruption (Except Failure Bool)} {t : LookupTable}
    (hwrite : (Pass.writeOutput (output.child wiringFile) (wiringText s output declarations t)).Does d x d') (k : Progress) :
    ∃ written, (writeTable s output declarations t).Reaches d k (x.map fun x => if x.isOk then t.wired else 0) d'
      { declared := k.declared, table := t, written } := by
  cases x with
  | error i => exact ⟨_, learn_bind (hwrite.reaches _).bind_error⟩
  | ok x =>
    cases x with
    | error f =>
      exact ⟨_, learn_bind ((hwrite.reaches _).bind ((Pass.Does.say_bind _ _ _ (.pure 0 d')).reaches _))⟩
    | ok changed =>
      exact ⟨_, learn_bind ((hwrite.reaches _).bind
        (learn_bind ((Pass.Does.say_bind _ _ _ (.pure t.wired d')).reaches _)))⟩

/-- Nothing is wired if the sources cannot be listed. -/
theorem Pass.Reaches.generateWiring_error [Recovery] {i : Interruption} (output declarations : Path)
    (hlist : (listSources root pattern s.excludePaths).Does d (.error i) d) (k : Progress) :
    (generateWiring s root pattern output declarations).Reaches d k (.error i) d
      { k with declared := unitsFor s d declarations k } :=
  (knownUnits s declarations d k).bind
    (bind_error ((Pass.Does.scanEndpoints hlist (unitsFor s d declarations k)).reaches _))

/-- Wiring comes to what writing the table of the listed sources comes to, and leaves what that leaves. -/
theorem Pass.Reaches.generateWiring_ok [Recovery] {x : Except Interruption (Except Failure Bool)} {t : LookupTable}
    (hlist : (listSources root pattern s.excludePaths).Does d (.ok ps) d)
    (ht : wiringTable s d (unitsFor s d declarations k) ps = t)
    (hwrite : (Pass.writeOutput (output.child wiringFile) (wiringText s output declarations t)).Does d x d') :
    ∃ written, (generateWiring s root pattern output declarations).Reaches d k
      (x.map fun x => if x.isOk then t.wired else 0) d'
      { declared := unitsFor s d declarations k, table := t, written } := by
  have htable := Pass.Does.scanEndpoints hlist (unitsFor s d declarations k)
  rw [Except.map, ht] at htable
  obtain ⟨written, hwritten⟩ := writeTable hwrite { k with declared := unitsFor s d declarations k }
  exact ⟨written, (knownUnits s declarations d k).bind ((htable.reaches _).bind hwritten)⟩

end ResponseShapes
