import ResponseShapes.Declaration.Naming
import ResponseShapes.Proofs.Pass.Basic
import ResponseShapes.Proofs.Project.Directories
import ResponseShapes.Proofs.Text.Utf8

/-! # Writing an output

What `Pass.writeOutput` does to the files, told by what stands at the place of the output. In a directory that is there
(`writeOutput_open`) a text is written over anything but a directory and the same text, and a file that is no text
interrupts the pass. If the directory is not there, it is made first (`writeOutput_closed`). Writing the same texts in
the same order once more leaves what they left (`foldl_holding_again`). -/

namespace ResponseShapes

namespace Text

theorem normalizeLineEnds_idem (cs : List Char) : normalizeLineEnds (normalizeLineEnds cs) = normalizeLineEnds cs := by
  fun_induction normalizeLineEnds cs with
  | case1 cs ih => simpa [normalizeLineEnds] using ih
  | case2 cs _ ih => simpa [normalizeLineEnds] using ih
  | case3 c cs hcrlf hcr ih =>
    have hc : c ≠ '\r' := hcr
    rw [normalizeLineEnds, ih]
    · exact fun _ h => absurd h hc
    · exact fun h => absurd h hc
  | case4 => rfl

theorem normalizeLineEnds_eq {cs : List Char} (h : '\r' ∉ cs) : normalizeLineEnds cs = cs := by
  induction cs with
  | nil => rfl
  | cons c cs ih =>
    rw [List.mem_cons, not_or] at h
    rw [normalizeLineEnds, ih h.2]
    · exact fun _ heq _ => h.1 heq.symm
    · exact fun heq => h.1 heq.symm

end Text

namespace Standing

/-- The text in the file that stands at a place. -/
def text? : Standing → Option (List Char)
  | file content => (Text.decode content).toOption.map Text.normalizeLineEnds
  | _ => none

/-- Why the file that stands at a place is no text. -/
def fault? : Standing → Option Text.EncodingError
  | file content =>
    match Text.decode content with
    | .ok _ => none
    | .error e => some e
  | _ => none

/-- What stands at a place after a text was written there: a directory stays, and so does a file with that text. -/
def holding (text : List Char) (s : Standing) : Standing :=
  if s = directory ∨ s.text? = some text then s else file (Text.encode text)

/-- What stands at a place after a text was written there regardless: only a directory stays. -/
def replaced (text : List Char) (s : Standing) : Standing :=
  if s = directory then s else file (Text.encode text)

theorem text?_encode (text : List Char) : (file (Text.encode text)).text? = some (Text.normalizeLineEnds text) := by
  rw [text?, Text.decode_encode]
  rfl

theorem fault?_encode (text : List Char) : (file (Text.encode text)).fault? = none := by
  rw [fault?, Text.decode_encode]

theorem normalize_of_text? {s : Standing} {cs : List Char} (h : s.text? = some cs) : Text.normalizeLineEnds cs = cs := by
  cases s with
  | file content =>
    obtain ⟨cs', -, rfl⟩ := Option.map_eq_some_iff.mp h
    exact Text.normalizeLineEnds_idem cs'
  | nothing => cases h
  | directory => cases h

theorem holding_cases (text : List Char) (s : Standing) :
    (s.holding text = s ∧ (s = directory ∨ s.text? = some text)) ∨
      (s.holding text = file (Text.encode text) ∧ s ≠ directory ∧ s.text? ≠ some text) := by
  unfold holding
  split
  · rename_i h
    exact Or.inl ⟨rfl, h⟩
  · rename_i h
    exact Or.inr ⟨rfl, not_or.mp h⟩

@[simp] theorem holding_eq_directory {text : List Char} {s : Standing} : s.holding text = directory ↔ s = directory := by
  obtain ⟨h, -⟩ | ⟨h, hdir, -⟩ := s.holding_cases text <;> simp_all

@[simp] theorem replaced_eq_directory {text : List Char} {s : Standing} :
    s.replaced text = directory ↔ s = directory := by
  unfold replaced
  split <;> simp_all

theorem fault?_holding {text : List Char} {s : Standing} (h : s.fault? = none) : (s.holding text).fault? = none := by
  obtain ⟨hs, -⟩ | ⟨hs, -⟩ := s.holding_cases text
  · rw [hs, h]
  · rw [hs, fault?_encode]

theorem fault?_replaced (text : List Char) (s : Standing) : (s.replaced text).fault? = none := by
  unfold replaced
  split
  · rename_i h
    rw [h]
    rfl
  · exact fault?_encode text

@[simp] theorem holding_holding (text : List Char) (s : Standing) : (s.holding text).holding text = s.holding text := by
  obtain ⟨hs, h⟩ | ⟨hs, -⟩ := s.holding_cases text
  · rw [hs, hs]
  · rw [hs, holding]
    split <;> rfl

@[simp] theorem holding_replaced (text : List Char) (s : Standing) :
    (s.replaced text).holding text = s.replaced text := by
  unfold replaced holding
  split <;> simp_all

/-! ### Several texts for one place -/

/-- Files with one text stay apart only as long as nothing else is written over them. -/
theorem foldl_holding_eq_or {s s' : Standing} (hs : s ≠ directory) (hs' : s' ≠ directory) (htext : s.text? = s'.text?)
    (texts : List (List Char)) :
    texts.foldl (fun s text => s.holding text) s = texts.foldl (fun s text => s.holding text) s' ∨
      (texts.foldl (fun s text => s.holding text) s = s ∧ texts.foldl (fun s text => s.holding text) s' = s') := by
  induction texts with
  | nil => exact Or.inr ⟨rfl, rfl⟩
  | cons text texts ih =>
    rw [List.foldl_cons, List.foldl_cons]
    unfold holding at ih ⊢
    by_cases h : s.text? = some text
    · rw [if_pos (Or.inr h), if_pos (Or.inr (htext ▸ h))]
      exact ih
    · rw [if_neg (not_or.mpr ⟨hs, h⟩), if_neg (not_or.mpr ⟨hs', htext ▸ h⟩)]
      exact Or.inl rfl

theorem foldl_holding_directory (texts : List (List Char)) :
    texts.foldl (fun s text => s.holding text) directory = directory := by
  induction texts with
  | nil => rfl
  | cons text texts ih => simpa [holding] using ih

/-- Writing texts behind each other once more, after a first text that was written, leaves what they left. -/
theorem foldl_holding_again {text : List Char} {s : Standing} (h : s.holding text = s) (texts : List (List Char)) :
    texts.foldl (fun s text => s.holding text) ((texts.foldl (fun s text => s.holding text) s).holding text) =
      texts.foldl (fun s text => s.holding text) s := by
  induction texts generalizing text s with
  | nil => exact h
  | cons text' texts ih =>
    have hlast : (text' :: texts).foldl (fun s text => s.holding text)
        ((text' :: texts).foldl (fun s text => s.holding text) s) =
        (text' :: texts).foldl (fun s text => s.holding text) s := ih (holding_holding text' s)
    generalize hend : (text' :: texts).foldl (fun s text => s.holding text) s = last at hlast ⊢
    obtain ⟨hkept, -⟩ | ⟨hwritten, hnot, hother⟩ := last.holding_cases text
    · rw [hkept, hlast]
    -- The first text is written over the last one, so it is not the text that was left.
    rw [hwritten]
    have hs : s ≠ directory := by
      rintro rfl
      exact hnot (hend ▸ foldl_holding_directory _)
    obtain ⟨-, hsame⟩ | ⟨hfile, -, -⟩ := s.holding_cases text
    · have hsame' := hsame.resolve_left hs
      have htext : (file (Text.encode text)).text? = s.text? := by
        rw [text?_encode, normalize_of_text? hsame', hsame']
      obtain heq | ⟨-, heq⟩ := foldl_holding_eq_or Standing.noConfusion hs htext (text' :: texts)
      · rw [heq, hend]
      · rw [hend] at heq
        exact absurd (heq ▸ hsame') hother
    · rw [← hfile, h, hend]

end Standing

namespace Path

/-- The place of the directory that a path leads to, if it is there. -/
def home (p : Path) : List String :=
  withoutDots p.parts

/-- The places of modules in a directory. -/
def HoldsModule (output : Path) (place : List String) : Prop :=
  ∃ name, Text.endsWith name moduleSuffix = true ∧ place = output.home ++ [name]

end Path

theorem ne_dots_of_endsWith {name : String} (h : Text.endsWith name moduleSuffix = true) : name ≠ ".." := by
  rintro rfl
  exact absurd h (by decide)

/-! ### Writing in a directory -/

section Writing

variable {d d₁ : Disk} {output : Path} {name : String} {modules made : List String → Prop}

/-- A directory that is there is at home, and its names lead into it. -/
theorem Disk.place_output (habs : output.isAbsolute) (hdir : d.stands output = .directory) (hname : name ≠ "..") :
    d.tree.standing output.home = .directory ∧ ".." ∉ output.home ++ [name] ∧
      d.place (output.child name) = .ok (output.home ++ [name]) := by
  obtain ⟨place, hplace, hstanding⟩ := exists_place_of_stands (p := output) (by rw [hdir]; exact Standing.noConfusion)
  obtain rfl : place = output.home := place_eq habs hplace
  have hfollow := hplace
  rw [place_of_isAbsolute habs] at hfollow
  refine ⟨hstanding.trans hdir, ?_, place_child_of_directory hplace (hstanding.trans hdir) hname⟩
  rw [List.mem_append, List.mem_singleton, not_or]
  exact ⟨dots_notMem_follow List.not_mem_nil hfollow, hname.symm⟩

/-- The files after a text was written to an output. -/
def Disk.putOutput (d : Disk) (output : Path) (name : String) (text : String) : Disk :=
  d.put (output.home ++ [name]) (some (.file (Text.encode text.toList) d.clock))

/-- Writing over anything but a directory changes nothing else. -/
theorem Disk.putOutput_spec (modules made : List String → Prop) (habs : output.isAbsolute) (hdir : d.stands output = .directory)
    (hname : name ≠ "..") (hmodule : modules (output.home ++ [name]))
    (hold : d.tree.standing (output.home ++ [name]) ≠ .directory) (text : String) :
    Regenerated modules made d (d.putOutput output name text) ∧
      ∀ q, (d.putOutput output name text).tree.standing q =
        if q = output.home ++ [name] then .file (Text.encode text.toList) else d.tree.standing q := by
  obtain ⟨hhome, hdots, -⟩ := place_output habs hdir hname
  refine ⟨.put hhome hdots (Tree.bare_file _ _) hold (fun h => nomatch h) fun _ => hmodule, fun q => ?_⟩
  exact Tree.standing_set hhome (Tree.bare_file _ _) (Tree.bare_of_standing hold) q

theorem Disk.writeText_output (habs : output.isAbsolute) (hdir : d.stands output = .directory) (hname : name ≠ "..") (text : String) :
    (d.tree.standing (output.home ++ [name]) = .directory ∧ ∃ e, d.writeText (output.child name) text.toList = .error e) ∨
    (d.tree.standing (output.home ++ [name]) ≠ .directory ∧
      d.writeText (output.child name) text.toList = .ok (d.putOutput output name text)) := by
  obtain ⟨-, -, hplace⟩ := place_output habs hdir hname
  unfold writeText writeBytes Tree.standing
  rw [hplace]
  cases hfind : d.tree.find? (output.home ++ [name]) with
  | none =>
    refine Or.inr ⟨Standing.noConfusion, ?_⟩
    simp [about, bind, Except.bind, hfind, pure, Except.pure, putOutput]
  | some t =>
    cases t with
    | file _ _ =>
      refine Or.inr ⟨Standing.noConfusion, ?_⟩
      simp [about, bind, Except.bind, hfind, pure, Except.pure, putOutput]
    | directory _ _ =>
      refine Or.inl ⟨rfl, { cause := .isDirectory, path := output.child name }, ?_⟩
      simp [about, bind, Except.bind, hfind]

/-- Writing with the directories around it, by what making them came to. -/
theorem Pass.written_output (habs : output.isAbsolute) (hname : name ≠ "..") (text : String)
    {failure : Option DiskError} (hmake : Disk.MakesDirectories modules output.parts.length output d d₁ failure) :
    ∃ d₂ failure₂, written (output.child name) text d = (d₂, failure₂) ∧
      (failure ≠ none → d₂ = d₁ ∧ failure₂ ≠ none) ∧
      (failure = none → d₁.tree.standing (output.home ++ [name]) = .directory → d₂ = d₁ ∧ failure₂ ≠ none) ∧
      (failure = none → d₁.tree.standing (output.home ++ [name]) ≠ .directory →
        d₂ = d₁.putOutput output name text ∧ failure₂ = none) := by
  unfold written
  rw [Path.parent_child, Disk.makeDirectories, hmake.result]
  cases failure with
  | some e =>
    exact ⟨d₁, some e, rfl, fun _ => ⟨rfl, Option.some_ne_none e⟩, fun h => absurd h (Option.some_ne_none e),
      fun h => absurd h (Option.some_ne_none e)⟩
  | none =>
    have hdir := hmake.success.mp rfl
    obtain ⟨hold, e, hwrite⟩ | ⟨hold, hwrite⟩ := Disk.writeText_output habs hdir hname text
    · refine ⟨d₁, some e, by simp [hwrite], fun h => absurd rfl h, fun _ _ => ⟨rfl, Option.some_ne_none e⟩,
        fun _ h => absurd hold h⟩
    · refine ⟨_, none, by simp [hwrite], fun h => absurd rfl h, fun _ h => absurd h hold, fun _ _ => ⟨rfl, rfl⟩⟩

/-! ### The five ways of writing an output -/

namespace Pass

variable {p : Path} {text : String} {d₂ : Disk} {failure : Option DiskError} {cs : List Char}

/-- What writing comes to once nothing keeps it from being tried. -/
theorem does_written (h : written p text d = (d₂, failure)) :
    ∃ x : Except Failure Bool, Does (do
      let (d, failure) := written p text d
      modify fun s => { s with disk := d }
      match failure with
      | none => return .ok true
      | some e => return .error (.output p e.message)) d (.ok x) d₂ ∧ (x.isOk = true ↔ failure = none) := by
  rw [h]
  cases failure with
  | none => exact ⟨.ok true, (Does.setDisk d₂ d).bind (Does.pure _ _), iff_of_true rfl rfl⟩
  | some e => exact ⟨.error _, (Does.setDisk d₂ d).bind (Does.pure _ _), iff_of_false nofun nofun⟩

theorem writeOutput_fresh (hhas : d.has p = false) (h : written p text d = (d₂, failure)) :
    ∃ x, Does (writeOutput p text) d (.ok x) d₂ ∧ (x.isOk = true ↔ failure = none) := by
  obtain ⟨x, hx, hok⟩ := does_written h
  refine ⟨x, Does.disk_bind ?_, hok⟩
  rw [hhas]
  exact hx

theorem writeOutput_over (hhas : d.has p = true) (hread : d.readText p = .ok cs) (hne : cs ≠ text.toList)
    (h : written p text d = (d₂, failure)) :
    ∃ x, Does (writeOutput p text) d (.ok x) d₂ ∧ (x.isOk = true ↔ failure = none) := by
  obtain ⟨x, hx, hok⟩ := does_written h
  refine ⟨x, Does.disk_bind ?_, hok⟩
  have hother : ¬((some (Except.ok cs : Except TextError (List Char))).any fun r =>
      decide (r.toOption = some text.toList)) = true := by simp [Except.toOption, hne]
  rw [hhas, hread, if_pos (rfl : true = true)]
  dsimp only
  rw [if_neg hother]
  exact hx

theorem writeOutput_same (hhas : d.has p = true) (hread : d.readText p = .ok text.toList) :
    Does (writeOutput p text) d (.ok (.ok false)) d := by
  refine Does.disk_bind ?_
  rw [hhas, hread]
  simpa [Except.toOption] using Does.pure _ d

theorem writeOutput_refused {e : DiskError} (hhas : d.has p = true) (hread : d.readText p = .error (.disk e)) :
    Does (writeOutput p text) d (.ok (.error (.output p e.message))) d := by
  refine Does.disk_bind ?_
  rw [hhas, hread]
  exact Does.pure _ d

theorem writeOutput_unreadable {e : Text.EncodingError} (hhas : d.has p = true)
    (hread : d.readText p = .error (.encoding e)) : Does (writeOutput p text) d (.error (.encoding e)) d := by
  refine Does.disk_bind ?_
  rw [hhas, hread]
  exact Does.interrupt _ d

end Pass

/-- Writing in a directory that is there. -/
theorem Pass.writeOutput_open (modules : List String → Prop) (habs : output.isAbsolute) (hdir : d.stands output = .directory)
    (hname : name ≠ "..") (hmodule : modules (output.home ++ [name])) (text : String)
    (hfault : (d.tree.standing (output.home ++ [name])).fault? = none) :
    ∃ x d', Does (writeOutput (output.child name) text) d (.ok x) d' ∧ Disk.Regenerated modules made d d' ∧
      (x.isOk = true ↔ d.tree.standing (output.home ++ [name]) ≠ .directory) ∧
      ∀ q, d'.tree.standing q =
        if q = output.home ++ [name] then (d.tree.standing q).holding text.toList else d.tree.standing q := by
  obtain ⟨-, -, hplace⟩ := Disk.place_output habs hdir hname
  have hstands := Disk.stands_of_place hplace
  obtain ⟨d₂, failure, hwritten, -, hrefused, hwrote⟩ := written_output habs hname text (.of_found modules _ hdir)
  cases hold : d.tree.standing (output.home ++ [name]) with
  | nothing =>
    obtain ⟨rfl, rfl⟩ := hwrote rfl (by rw [hold]; exact Standing.noConfusion)
    have hhas : d.has (output.child name) = false := by
      rw [Bool.eq_false_iff, ne_eq, Disk.has_iff, hstands, hold]
      exact fun h => h rfl
    obtain ⟨x, hx, hok⟩ := writeOutput_fresh hhas hwritten
    obtain ⟨hregen, hset⟩ := Disk.putOutput_spec modules made habs hdir hname hmodule (by rw [hold]; exact Standing.noConfusion) text
    refine ⟨x, _, hx, hregen, iff_of_true (hok.mpr rfl) Standing.noConfusion, fun q => ?_⟩
    rw [hset]
    split
    · rename_i hq
      rw [hq, hold]
      rfl
    · rfl
  | directory =>
    have hhas := Disk.has_of_directory (hstands.trans hold)
    have hread := Disk.readText_of_directory (hstands.trans hold)
    refine ⟨_, d, writeOutput_refused hhas hread, .refl _ _ d, iff_of_false nofun (fun h => h rfl), fun q => ?_⟩
    split
    · rename_i hq
      rw [hq, hold]
      rfl
    · rfl
  | file content =>
    have hhas := Disk.has_of_file (hstands.trans hold)
    have hread := Disk.readText_of_file (hstands.trans hold)
    rw [hold, Standing.fault?] at hfault
    cases hdecode : Text.decode content with
    | error e => simp [hdecode] at hfault
    | ok cs =>
      rw [hdecode] at hread
      have htext : (Standing.file content).text? = some (Text.normalizeLineEnds cs) := by
        rw [Standing.text?, hdecode]
        rfl
      by_cases hsame : Text.normalizeLineEnds cs = text.toList
      · refine ⟨_, d, writeOutput_same hhas (hsame ▸ hread), .refl _ _ d, iff_of_true rfl Standing.noConfusion,
          fun q => ?_⟩
        split
        · rename_i hq
          rw [hq, hold, Standing.holding, if_pos (Or.inr (htext.trans (congrArg some hsame)))]
        · rfl
      · obtain ⟨rfl, rfl⟩ := hwrote rfl (by rw [hold]; exact Standing.noConfusion)
        obtain ⟨x, hx, hok⟩ := writeOutput_over hhas hread hsame hwritten
        obtain ⟨hregen, hset⟩ := Disk.putOutput_spec modules made habs hdir hname hmodule (by rw [hold]; exact Standing.noConfusion) text
        refine ⟨x, _, hx, hregen, iff_of_true (hok.mpr rfl) Standing.noConfusion, fun q => ?_⟩
        rw [hset]
        split
        · rename_i hq
          rw [hq, hold, Standing.holding, if_neg]
          rintro (h | h)
          · cases h
          · exact hsame (Option.some.inj (htext.symm.trans h))
        · rfl

/-- A file that is no text interrupts the pass. -/
theorem Pass.writeOutput_fault (habs : output.isAbsolute) (hdir : d.stands output = .directory)
    (hname : name ≠ "..") (text : String) {e : Text.EncodingError}
    (hfault : (d.tree.standing (output.home ++ [name])).fault? = some e) :
    Does (writeOutput (output.child name) text) d (.error (.encoding e)) d := by
  obtain ⟨-, -, hplace⟩ := Disk.place_output habs hdir hname
  have hstands := Disk.stands_of_place hplace
  cases hold : d.tree.standing (output.home ++ [name]) with
  | nothing => simp [hold, Standing.fault?] at hfault
  | directory => simp [hold, Standing.fault?] at hfault
  | file content =>
    have hhas := Disk.has_of_file (hstands.trans hold)
    have hread := Disk.readText_of_file (hstands.trans hold)
    rw [hold, Standing.fault?] at hfault
    cases hdecode : Text.decode content with
    | ok cs => simp [hdecode] at hfault
    | error e' =>
      rw [hdecode] at hread hfault
      obtain rfl := Option.some.inj hfault
      exact writeOutput_unreadable hhas hread

/-- Writing in a directory that is not there: the directory is made, and nothing keeps the text from being
    written but a directory in its place. -/
theorem Pass.writeOutput_closed (made : List String → Prop) (habs : output.isAbsolute) (hdir : d.stands output ≠ .directory)
    (hname : name ≠ "..") (hmodule : modules (output.home ++ [name])) (text : String) {failure : Option DiskError}
    (hmake : Disk.MakesDirectories modules output.parts.length output d d₁ failure) :
    ∃ x d', Does (writeOutput (output.child name) text) d (.ok x) d' ∧
      (failure ≠ none → d' = d₁ ∧ x.isOk = false) ∧
      (failure = none → Disk.Regenerated modules made d₁ d' ∧
        (x.isOk = true ↔ d₁.tree.standing (output.home ++ [name]) ≠ .directory) ∧
        ∀ q, d'.tree.standing q =
          if q = output.home ++ [name] then (d₁.tree.standing q).replaced text.toList else d₁.tree.standing q) := by
  have hhas : d.has (output.child name) = false := by
    rw [Bool.eq_false_iff, ne_eq, Disk.has_iff]
    intro hstands
    obtain ⟨place, hplace, -⟩ := Disk.exists_place_of_stands hstands
    exact hdir (Disk.stands_of_place_child hplace)
  obtain ⟨d₂, failure₂, hwritten, hfailed, hrefused, hwrote⟩ := written_output habs hname text hmake
  obtain ⟨x, hx, hok⟩ := writeOutput_fresh hhas hwritten
  refine ⟨x, d₂, hx, fun h => ?_, fun h => ?_⟩
  · obtain ⟨rfl, h₂⟩ := hfailed h
    exact ⟨rfl, Bool.eq_false_iff.mpr fun htrue => h₂ (hok.mp htrue)⟩
  · by_cases hold : d₁.tree.standing (output.home ++ [name]) = .directory
    · obtain ⟨rfl, h₂⟩ := hrefused h hold
      refine ⟨.refl _ _ d₂, iff_of_false (fun htrue => h₂ (hok.mp htrue)) (fun h => h hold), fun q => ?_⟩
      split
      · rename_i hq
        rw [hq, hold]
        rfl
      · rfl
    · obtain ⟨rfl, rfl⟩ := hwrote h hold
      obtain ⟨hregen, hset⟩ := Disk.putOutput_spec modules made habs (hmake.success.mp h) hname hmodule hold text
      refine ⟨hregen, iff_of_true (hok.mpr rfl) hold, fun q => ?_⟩
      rw [hset]
      split
      · rename_i hq
        rw [hq, Standing.replaced, if_neg hold]
      · rfl

end Writing

end ResponseShapes
