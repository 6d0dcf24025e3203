import ResponseShapes.Build.Signature
import ResponseShapes.Proofs.Pass.Output

/-! # What a signature does

Leaving a signature writes its file and makes the directories on the way to it (`Signature.record_spec`); looking at one
writes nothing (`Signature.isStale_does`). -/

namespace ResponseShapes

namespace Signature

variable {directory : Path} {sources : List Path} {d d' : Disk}

/-- The place of the signature in a directory. -/
def place (directory : Path) : List String :=
  directory.home ++ [signatureFile]

/-- What a signature of sources holds. -/
def bytes (d : Disk) (sources : List Path) : List UInt8 :=
  Text.encode (text d.clock sources.length (fingerprint d sources)).toList

/-- Leaving a signature succeeds if its directory can be made and no directory stands in its place. -/
theorem record_spec (habs : directory.isAbsolute) (sources : List Path) (d : Disk) :
    ∃ r d', (record directory sources).Does d r d' ∧
      Disk.Regenerated (· = place directory) directory.OnTheWay d d' ∧
      (r = .ok () ↔ d'.stands directory = .directory ∧ d'.tree.standing (place directory) ≠ .directory) ∧
      ((d.makeDirectories directory).2 = none → d'.stands directory = .directory) ∧
      (r = .ok () → d'.tree.file? (place directory) = some (bytes d sources, d.clock)) := by
  have hname : signatureFile ≠ ".." := by decide
  obtain ⟨d₁, failure, hmake⟩ := d.makeDirectories_spec (· = place directory) habs
  have hclock := (d.makeDirectoriesFrom_regenerated directory.parts.length directory).2.1
  rw [hmake.result] at hclock
  obtain ⟨rfl, hdoes⟩ | ⟨e, rfl, hdoes⟩ := Pass.Does.makeDirectories hmake.result
  · have hdir := hmake.success.mp rfl
    obtain ⟨hold, e, hwrite⟩ | ⟨hold, hwrite⟩ := Disk.writeText_output habs hdir hname
      (text d.clock sources.length (fingerprint d sources))
    · refine ⟨_, d₁, .disk_bind (hdoes.bind (.change_error hwrite)), hmake.regenerated,
        iff_of_false nofun fun h => h.2 hold, fun _ => hdir, nofun⟩
    · obtain ⟨hregen, hset⟩ := Disk.putOutput_spec (· = place directory) directory.OnTheWay habs hdir hname rfl
        hold (text d.clock sources.length (fingerprint d sources))
      obtain ⟨hhome, -, -⟩ := Disk.place_output habs hdir hname
      refine ⟨.ok (), _, .disk_bind (hdoes.bind (.change_ok hwrite)), hmake.regenerated.trans hregen,
        iff_of_true rfl ⟨hregen.stands_directory hdir, ?_⟩, fun _ => hregen.stands_directory hdir, fun _ => ?_⟩
      · rw [hset, place, if_pos rfl]
        exact Standing.noConfusion
      · refine (Tree.file?_set hhome (Tree.bare_file _ _) (Tree.bare_of_standing hold) _).trans ?_
        rw [place, if_pos rfl, hclock]
        rfl
  · have hfailed : (d.makeDirectories directory).2 = some e := congrArg Prod.snd hmake.result
    refine ⟨_, d₁, .disk_bind hdoes.bind_error, hmake.regenerated, iff_of_false nofun fun h => ?_, fun h => ?_, nofun⟩
    · exact absurd (hmake.success.mpr h.1) (Option.some_ne_none e)
    · exact absurd (hfailed.symm.trans h) (Option.some_ne_none e)

/-- Leaving a signature succeeds if no file stands on the way to its directory and no directory in its place. -/
theorem record_of_open (habs : directory.isAbsolute) (sources : List Path) (hroot : d.tree.standing [] = .directory)
    (hopen : ∀ q, directory.OnTheWay q → q ≠ place directory ∧ ∀ content, d.tree.standing q ≠ .file content)
    (hold : d.tree.standing (place directory) ≠ .directory) :
    ∃ d', (record directory sources).Does d (.ok ()) d' := by
  obtain ⟨r, d', hdoes, hregen, hok, hmade, -⟩ := record_spec habs sources d
  have hdir := hmade (Disk.makeDirectories_of_open habs hroot fun q hq => (hopen q hq).2)
  obtain rfl := hok.mpr ⟨hdir, fun hnew => (hregen.new _ hnew).elim hold fun h => (hopen _ h).1 rfl⟩
  exact ⟨d', hdoes⟩

/-! ### Looking at a signature -/

/-- The signature that is found in a directory. -/
def found (d : Disk) (directory : Path) : Except Interruption (Option Json) :=
  match d.readText (directory.child signatureFile) with
  | .error (.disk _) => .ok none
  | .error (.encoding e) => .error (.encoding e)
  | .ok cs =>
    match Json.ofText cs with
    | .ok v => .ok (if isCurrent v then some v else none)
    | .error .malformed => .ok none
    | .error (.digits count) => .error (.digits count)

/-- Whether one of the sources is missing or newer than a time. -/
def newer (d : Disk) (time : Int) (sources : List Path) : Bool :=
  sources.any fun p =>
    match d.entry p with
    | .error _ => true
    | .ok t => time < t.time

/-- Whether a signature does not stand for the sources as they are. -/
def outdated (d : Disk) (directory : Path) (sources : List Path) (v : Json) : Bool :=
  match d.entry (directory.child signatureFile) with
  | .error _ => true
  | .ok t => newer d t.time sources || !(v.get? "fingerprint").any (Json.isText (fingerprint d sources))

theorem load?_does (directory : Path) (d : Disk) : (load? directory).Does d (found d directory) d := by
  refine .disk_bind ?_
  unfold found
  rcases d.readText (directory.child signatureFile) with (_ | e) | cs
  · exact .pure none d
  · exact .interrupt _ d
  · dsimp only
    rcases Json.ofText cs with (_ | count) | v
    · exact .pure none d
    · exact .interrupt _ d
    · exact .pure _ d

theorem anyChangedSince_does (time : Int) (sources : List Path) (d : Disk) :
    (anyChangedSince time sources).Does d (.ok (newer d time sources)) d := by
  induction sources with
  | nil => exact .pure false d
  | cons p ps ih =>
    refine .disk_bind ?_
    rw [newer, List.any_cons, ← newer]
    cases d.entry p with
    | error e => exact .pure true d
    | ok t =>
      dsimp only
      split
      · rename_i h
        rw [decide_eq_true h, Bool.true_or]
        exact .say_bind _ _ _ (.pure true d)
      · rename_i h
        rw [decide_eq_false h, Bool.false_or]
        exact ih

/-- A signature is stale if there is none or it is outdated. -/
theorem isStale_does (directory : Path) (sources : List Path) (d : Disk) : (isStale directory sources).Does d
    ((found d directory).map fun v => v.all (outdated d directory sources)) d := by
  have hload := load?_does directory d
  cases hfound : found d directory with
  | error i => exact (hfound ▸ hload).bind_error
  | ok v =>
    refine (hfound ▸ hload).bind ?_
    cases v with
    | none => exact .pure true d
    | some v =>
      refine .disk_bind ?_
      rw [Except.map, Option.all_some, outdated]
      cases d.entry (directory.child signatureFile) with
      | error e => exact .pure true d
      | ok t =>
        refine (anyChangedSince_does t.time sources d).bind ?_
        dsimp only
        cases newer d t.time sources with
        | true => exact .pure true d
        | false => exact .disk_bind (.pure _ d)

end Signature

end ResponseShapes
