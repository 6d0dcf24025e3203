import ResponseShapes.Proofs.Build.Course
import ResponseShapes.Proofs.Project.Spelling

/-! # When a signature is stale

What is hashed of sources stands for the multiset of their paths with sizes and times: the lines are in the order of the
paths, those that are missing have none, and each line is told from the others (`stats_eq_iff`). A signature is found
again wherever the file that was left is found, and then it is not stale exactly if no source is missing or newer than
the file and that multiset is the same (`isStale_exact`). -/

namespace ResponseShapes

namespace Signature

variable {d d' d₁ : Disk} {ps qs sources sources' : List Path} {p directory : Path}

/-! ### What is recorded of sources -/

/-- The path, the size and the time of a source, if it is there. -/
def record? (d : Disk) (p : Path) : Option (Path × Nat × Int) :=
  match d.entry p with
  | .ok t => some (p, t.size, t.time)
  | .error _ => none

/-- The paths, the sizes and the times of those sources that are there. -/
def records (d : Disk) (sources : List Path) : List (Path × Nat × Int) :=
  sources.filterMap (record? d)

theorem eq_of_record? {e : Path × Nat × Int} (h : record? d p = some e) : e = (p, sizeAndTime d p) := by
  unfold record? at h
  unfold sizeAndTime
  cases hentry : d.entry p with
  | error _ =>
    rw [hentry] at h
    cases h
  | ok t =>
    rw [hentry] at h
    exact (Option.some.inj h).symm

theorem of_mem_records {e : Path × Nat × Int} (h : e ∈ records d ps) : e.1 ∈ ps ∧ e.2 = sizeAndTime d e.1 := by
  obtain ⟨p, hp, he⟩ := List.mem_filterMap.mp h
  obtain rfl := eq_of_record? he
  exact ⟨hp, rfl⟩

theorem perm_records_sort (d : Disk) (ps : List Path) : (records d (Path.sort ps)).Perm (records d ps) :=
  (Path.perm_sort ps).filterMap _

theorem pairwise_records_sort (d : Disk) (ps : List Path) :
    (records d (Path.sort ps)).Pairwise fun e f => Path.le e.1 f.1 = true := by
  refine (Path.pairwise_sort ps).filterMap _ fun p q hpq e he f hf => ?_
  obtain rfl := eq_of_record? he
  obtain rfl := eq_of_record? hf
  exact hpq

/-- The line for a record. -/
def recordLine (e : Path × Nat × Int) : List Char × List Char :=
  (e.1.toString.toList, value e.2)

theorem stats_eq_lines (d : Disk) (ps : List Path) :
    stats d ps = ((records d (Path.sort ps)).map recordLine).flatMap line := by
  unfold stats records
  induction Path.sort ps with
  | nil => rfl
  | cons p ps ih =>
    rw [List.flatMap_cons, ih]
    cases hentry : d.entry p with
    | error _ =>
      have hnone : record? d p = none := by rw [record?, hentry]
      rw [List.filterMap_cons_none hnone]
      rfl
    | ok t =>
      have hsome : record? d p = some (p, t.size, t.time) := by rw [record?, hentry]
      rw [List.filterMap_cons_some hsome, List.map_cons, List.flatMap_cons]
      exact congrArg (· ++ _) (sourceLine_eq p t)

theorem eq_of_recordLine {e f : Path × Nat × Int} (he : e.1.Spelled) (hf : f.1.Spelled)
    (h : recordLine e = recordLine f) : e = f := by
  obtain ⟨hpath, hvalue⟩ := Prod.mk.inj h
  exact Prod.ext (Path.eq_of_text he hf (String.toList_inj.mp hpath)) (value_injective hvalue)

theorem clear_recordLine {e : Path × Nat × Int} (he : e.1.Spelled) : Clear (recordLine e) :=
  ⟨Path.zero_notMem_text he, newline_notMem_value _⟩

/-- What is hashed of sources stands for their paths, sizes and times, whatever the order in which they are given. -/
theorem stats_eq_iff (hps : ∀ p ∈ ps, p.Spelled) (hqs : ∀ q ∈ qs, q.Spelled) :
    stats d ps = stats d' qs ↔ (records d ps).Perm (records d' qs) := by
  have hspelled : ∀ {d : Disk} {ps : List Path}, (∀ p ∈ ps, p.Spelled) → ∀ e ∈ records d (Path.sort ps), e.1.Spelled :=
    fun hps e he => hps _ ((Path.perm_sort _).mem_iff.mp (of_mem_records he).1)
  have hrecords : stats d ps = stats d' qs ↔ records d (Path.sort ps) = records d' (Path.sort qs) := by
    rw [stats_eq_lines, stats_eq_lines]
    refine ⟨fun h => ?_, fun h => by rw [h]⟩
    have hlines := eq_of_lines (List.forall_mem_map.mpr fun e he => clear_recordLine (hspelled hps e he))
      (List.forall_mem_map.mpr fun e he => clear_recordLine (hspelled hqs e he)) h
    exact eq_of_map_eq (fun e he f hf => eq_of_recordLine (hspelled hps e he) (hspelled hqs f hf)) hlines
  rw [hrecords]
  refine ⟨fun h => (perm_records_sort d ps).symm.trans (h ▸ perm_records_sort d' qs), fun h => ?_⟩
  -- The order tells any two of the paths apart, so equal multisets of records are sorted alike.
  have hsorted := (perm_records_sort d ps).trans (h.trans (perm_records_sort d' qs).symm)
  refine hsorted.eq_of_pairwise (fun e f he hf hef hfe => ?_) (pairwise_records_sort d ps) (pairwise_records_sort d' qs)
  have hf' := hsorted.mem_iff.mpr hf
  have hpath := Path.eq_of_le (hspelled hps e he) (hspelled hps f hf') hef hfe
  exact Prod.ext hpath (by rw [(of_mem_records he).2, (of_mem_records hf').2, hpath])

theorem fingerprint_eq_iff (hps : ∀ p ∈ ps, p.Spelled) (hqs : ∀ q ∈ qs, q.Spelled)
    (hhash : Sha256.digest (Text.encode (stats d ps)) = Sha256.digest (Text.encode (stats d' qs)) →
      Text.encode (stats d ps) = Text.encode (stats d' qs)) :
    fingerprint d ps = fingerprint d' qs ↔ (records d ps).Perm (records d' qs) := by
  rw [← stats_eq_iff hps hqs, fingerprint_eq, fingerprint_eq]
  refine ⟨fun h => ?_, fun h => by rw [h]⟩
  have hdecode := congrArg Text.decode (hhash h)
  rw [Text.decode_encode, Text.decode_encode] at hdecode
  exact Except.ok.inj hdecode

theorem newer_eq_false_iff {time : Int} :
    newer d time ps = false ↔ ∀ p ∈ ps, ∃ t, d.entry p = .ok t ∧ t.time ≤ time := by
  rw [newer, List.any_eq_false]
  refine forall₂_congr fun p _ => ?_
  cases d.entry p with
  | error _ => simp
  | ok t => simp

end Signature

/-! ### Finding what was left -/

namespace Disk

variable {d d' : Disk} {p : Path} {name : String} {place : List String}

theorem stands_of_entry {content : List UInt8} {time : Int} (h : d.entry p = .ok (.file content time)) :
    d.stands p = .file content := by
  have hentry := d.entry_cases p
  rw [h] at hentry
  split at hentry
  · obtain ⟨e, hentry⟩ := hentry
    cases hentry
  · obtain ⟨time, children, hentry, -⟩ := hentry
    cases hentry
  · rename_i hstands
    obtain ⟨time, hentry⟩ := hentry
    cases hentry
    exact hstands

theorem entry_of_file? {content : List UInt8} {time : Int} (hplace : d.place p = .ok place)
    (hfile : d.tree.file? place = some (content, time)) : d.entry p = .ok (.file content time) := by
  unfold Tree.file? at hfile
  split at hfile
  · rename_i hfind
    cases hfile
    simp [entry, about, hplace, hfind, bind, Except.bind, pure, Except.pure]
  · cases hfile

/-- A name other than two dots leads into a directory that is there. -/
theorem exists_of_place_child (hname : name ≠ "..") (h : d.place (p.child name) = .ok place) :
    ∃ around, place = around ++ [name] ∧ d.tree.standing around = .directory ∧ ".." ∉ place := by
  have hdots : ".." ∉ place := dots_notMem_follow List.not_mem_nil h
  rw [place_child] at h
  cases hplace : d.place p with
  | error cause =>
    rw [hplace] at h
    cases h
  | ok around =>
    rw [hplace] at h
    dsimp only at h
    cases hstanding : d.tree.standing around with
    | nothing =>
      rw [hstanding] at h
      cases h
    | file content =>
      rw [hstanding] at h
      cases h
    | directory =>
      rw [hstanding, if_neg hname] at h
      exact ⟨around, (Except.ok.inj h).symm, hstanding, hdots⟩

/-- A text that is written is found where it was written. -/
theorem entry_of_writeText {text : List Char} (hname : name ≠ "..") (h : d.writeText (p.child name) text = .ok d') :
    d'.entry (p.child name) = .ok (.file (Text.encode text) d.clock) := by
  unfold writeText writeBytes at h
  cases hplace : d.place (p.child name) with
  | error cause =>
    rw [hplace] at h
    cases h
  | ok place =>
    obtain ⟨around, rfl, haround, hdots⟩ := exists_of_place_child hname hplace
    have hput : d.tree.standing (around ++ [name]) ≠ .directory ∧
        d' = d.put (around ++ [name]) (some (.file (Text.encode text) d.clock)) := by
      unfold Tree.standing
      rcases hfind : d.tree.find? (around ++ [name]) with _ | ⟨_ | _⟩ <;>
        simp [about, bind, Except.bind, hplace, hfind, pure, Except.pure, Standing.of] at h ⊢
      · exact h.symm
      · exact h.symm
    obtain ⟨hold, rfl⟩ := hput
    have hbare := Tree.bare_file (Text.encode text) d.clock
    have hregen : Regenerated (fun _ => True) (fun _ => False) d
        (d.put (around ++ [name]) (some (.file (Text.encode text) d.clock))) :=
      .put haround hdots hbare hold (fun hdir => by cases hdir) fun _ => trivial
    refine entry_of_file? (hregen.place_eq hplace) ?_
    exact (Tree.file?_set haround hbare (Tree.bare_of_standing hold) _).trans (if_pos rfl)

end Disk

namespace Signature

variable {d d' d₁ : Disk} {sources : List Path} {directory : Path}

/-- A signature that was left is found where it was left. -/
theorem entry_of_record (h : (record directory sources).Does d (.ok ()) d₁) :
    d₁.entry (directory.child signatureFile) = .ok (.file (bytes d sources) d.clock) := by
  obtain ⟨-, hclock, -⟩ := d.makeDirectoriesFrom_regenerated directory.parts.length directory
  obtain ⟨d₂, failure, hmake⟩ : ∃ d₂ failure, d.makeDirectories directory = (d₂, failure) := ⟨_, _, rfl⟩
  rw [← Disk.makeDirectories, hmake] at hclock
  obtain ⟨rfl, hdoes⟩ | ⟨e, rfl, hdoes⟩ := Pass.Does.makeDirectories hmake
  · cases hwrite : d₂.writeText (directory.child signatureFile) (text d.clock sources.length (fingerprint d sources)).toList with
    | error e =>
      have hrecord : (record directory sources).Does d (.error (.disk e)) d₂ := .disk_bind (hdoes.bind (.change_error hwrite))
      cases (h.unique hrecord).1
    | ok d₃ =>
      have hrecord : (record directory sources).Does d (.ok ()) d₃ := .disk_bind (hdoes.bind (.change_ok hwrite))
      obtain ⟨-, rfl⟩ := h.unique hrecord
      rw [Disk.entry_of_writeText (by decide) hwrite, hclock, bytes]
  · have hrecord : (record directory sources).Does d (.error (.disk e)) d₂ := .disk_bind hdoes.bind_error
    cases (h.unique hrecord).1

/-- Where the file is found that was left, the signature is found that was left. -/
theorem found_of_entry {time : Int} (hcount : sources.length.repr.toList.length ≤ Json.mostDigits)
    (h : d'.entry (directory.child signatureFile) = .ok (.file (bytes d sources) time)) :
    ∃ v, found d' directory = .ok (some v) ∧ v.get? "fingerprint" = some (.text (fingerprint d sources)) := by
  have hplain := plain_fingerprint d sources
  have hnumber : ∃ count, Json.numberOf false sources.length.repr.toList [] [] = .ok count :=
    ⟨_, by rw [Json.numberOf, List.isEmpty_nil, Bool.and_self, if_pos rfl, if_neg (Nat.not_lt.mpr hcount)]⟩
  obtain ⟨count, hnumber⟩ := hnumber
  rw [found, Disk.readText_of_file (Disk.stands_of_entry h), bytes, Text.decode_encode]
  dsimp only
  rw [Text.normalizeLineEnds_eq (return_notMem_text _ _ hplain), ofText_text _ _ hplain, hnumber]
  exact ⟨_, rfl, rfl⟩

/-- A signature was left for sources, and its file is as it was left. Then the signature is stale for other sources, or
    for the same ones at another time, unless each of them is there and not newer than the file, and the multiset of
    their paths, sizes and times is that of the sources for which the signature was left. -/
theorem isStale_exact {sources' : List Path} (hrecord : (record directory sources).Does d (.ok ()) d₁)
    (hkept : d'.entry (directory.child signatureFile) = d₁.entry (directory.child signatureFile))
    (hsources : ∀ p ∈ sources, p.Spelled) (hsources' : ∀ p ∈ sources', p.Spelled)
    (hcount : sources.length.repr.toList.length ≤ Json.mostDigits)
    (hhash : Sha256.digest (Text.encode (stats d' sources')) = Sha256.digest (Text.encode (stats d sources)) →
      Text.encode (stats d' sources') = Text.encode (stats d sources)) :
    ∃ stale file, (isStale directory sources').Does d' (.ok stale) d' ∧
      d'.entry (directory.child signatureFile) = .ok file ∧
      (stale = false ↔ (∀ p ∈ sources', ∃ t, d'.entry p = .ok t ∧ t.time ≤ file.time) ∧
        (records d' sources').Perm (records d sources)) := by
  have hentry := hkept.trans (entry_of_record hrecord)
  obtain ⟨v, hfound, hfingerprint⟩ := found_of_entry hcount hentry
  have hdoes := isStale_does directory sources' d'
  rw [hfound, Except.map, Option.all_some] at hdoes
  refine ⟨_, _, hdoes, hentry, ?_⟩
  rw [outdated, hentry, hfingerprint, ← newer_eq_false_iff, ← fingerprint_eq_iff hsources' hsources hhash]
  dsimp only
  rw [Bool.or_eq_false_iff, Option.any_some, Json.isText, Bool.not_eq_false', decide_eq_true_iff, eq_comm (a := fingerprint d sources)]

/-! ### Two sources in another order -/

namespace Reordered

/-- Two sources and a directory for the signature. -/
def unsigned : Disk :=
  { tree := .directory 0 [("a.ts", .file [65] 1), ("b.ts", .file [66, 67] 2), ("out", .directory 0 [])]
    here := Path.ofString "/", clock := 9 }

def output : Path :=
  Path.ofString "/out"

def listed : List Path :=
  [Path.ofString "/b.ts", Path.ofString "a.ts", Path.ofString "/b.ts"]

def again : List Path :=
  [Path.ofString "a.ts", Path.ofString "/b.ts", Path.ofString "/b.ts"]

theorem holds_unsigned : unsigned.Holds (Path.ofString "a.ts") [65] 1 ∧ unsigned.Holds (Path.ofString "/b.ts") [66, 67] 2 :=
  ⟨⟨by decide +kernel, by decide +kernel⟩, ⟨by decide +kernel, by decide +kernel⟩⟩

theorem exists_signed : ∃ d₁, (record output listed).Does unsigned (.ok ()) d₁ ∧
    Disk.Regenerated (· = place output) output.OnTheWay unsigned d₁ := by
  have hway : ∀ q, output.OnTheWay q → q = [] ∨ q = ["out"] := by
    rintro q ⟨_ | k, rfl⟩
    · exact .inl rfl
    · exact .inr (by simp [output, show (Path.ofString "/out").parts = ["out"] by decide, Path.withoutDots])
  have hopen : ∀ q, output.OnTheWay q → q ≠ place output ∧ ∀ content, unsigned.tree.standing q ≠ .file content := by
    intro q hq
    obtain rfl | rfl := hway q hq
    · exact ⟨by decide +kernel, fun content h => by cases h⟩
    · have hdir : unsigned.tree.standing ["out"] = .directory := by decide +kernel
      exact ⟨by decide +kernel, fun content h => by cases hdir.symm.trans h⟩
  have habs : output.isAbsolute := by decide
  obtain ⟨d₁, hrecord⟩ := record_of_open habs listed rfl hopen (by decide +kernel)
  obtain ⟨r, d₂, hdoes, hregen, -⟩ := record_spec habs listed unsigned
  obtain ⟨-, rfl⟩ := hrecord.unique hdoes
  exact ⟨d₁, hrecord, hregen⟩

end Reordered

theorem isStale_exact_reordered : ∃ d₁, (record Reordered.output Reordered.listed).Does Reordered.unsigned (.ok ()) d₁ ∧
    (isStale Reordered.output Reordered.again).Does d₁ (.ok false) d₁ := by
  obtain ⟨d₁, hrecord, hregen⟩ := Reordered.exists_signed
  obtain ⟨ha, hb⟩ := Reordered.holds_unsigned
  have ha' := (ha.regenerated hregen (by decide +kernel)).entry
  have hb' := (hb.regenerated hregen (by decide +kernel)).entry
  have hspelled : ∀ p ∈ Reordered.listed, p.Spelled := by
    simp only [Reordered.listed, List.forall_mem_cons]
    exact ⟨Path.spelled_ofString (by decide), Path.spelled_ofString (by decide), Path.spelled_ofString (by decide),
      List.forall_mem_nil _⟩
  have hspelled' : ∀ p ∈ Reordered.again, p.Spelled := by
    simp only [Reordered.again, List.forall_mem_cons]
    exact ⟨Path.spelled_ofString (by decide), Path.spelled_ofString (by decide), Path.spelled_ofString (by decide),
      List.forall_mem_nil _⟩
  have hrecords : (records d₁ Reordered.again).Perm (records Reordered.unsigned Reordered.listed) := by
    have hagain : records d₁ Reordered.again =
        [(Path.ofString "a.ts", 1, 1), (Path.ofString "/b.ts", 2, 2), (Path.ofString "/b.ts", 2, 2)] := by
      simp [records, record?, Reordered.again, ha', hb', Tree.size, Tree.time]
    have hlisted : records Reordered.unsigned Reordered.listed =
        [(Path.ofString "/b.ts", 2, 2), (Path.ofString "a.ts", 1, 1), (Path.ofString "/b.ts", 2, 2)] := by
      simp [records, record?, Reordered.listed, ha.entry, hb.entry, Tree.size, Tree.time]
    rw [hagain, hlisted]
    exact List.Perm.swap _ _ _
  have hstats : stats d₁ Reordered.again = stats Reordered.unsigned Reordered.listed :=
    (stats_eq_iff hspelled' hspelled).mpr hrecords
  obtain ⟨stale, file, hdoes, hfile, hstale⟩ := isStale_exact hrecord rfl hspelled hspelled' (by decide) fun _ => by rw [hstats]
  have htime : file = .file _ 9 := Except.ok.inj (hfile.symm.trans (entry_of_record hrecord))
  rw [hstale.mpr ⟨?_, hrecords⟩] at hdoes
  · exact ⟨d₁, hrecord, hdoes⟩
  · rw [htime]
    simp only [Reordered.again, List.forall_mem_cons]
    exact ⟨⟨_, ha', by decide⟩, ⟨_, hb', by decide⟩, ⟨_, hb', by decide⟩, List.forall_mem_nil _⟩

end Signature

end ResponseShapes
