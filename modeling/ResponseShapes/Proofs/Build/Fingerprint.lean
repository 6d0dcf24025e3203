import Mathlib.Data.Bool.AllAny
import ResponseShapes.Proofs.Build.Signature
import ResponseShapes.Proofs.Entries
import ResponseShapes.Proofs.Json.Reader
import ResponseShapes.Proofs.Project.Path

/-! # What a fingerprint stands for

A fingerprint is the hash of a text with a line for each source (`fingerprint_eq`). The text tells the sources, and the
size and the time of each one (`eq_of_stats`). -/

namespace ResponseShapes.Signature

variable {d d' : Disk} {ps qs : List Path} {p : Path}

/-! ### Lines -/

/-- What stands before the first mark, and behind it. -/
theorem eq_of_marked {α : Type} {mark : α} {a a' b b' : List α} (h : a ++ mark :: b = a' ++ mark :: b') (ha : mark ∉ a)
    (ha' : mark ∉ a') : a = a' ∧ b = b' := by
  induction a generalizing a' with
  | nil =>
    cases a' with
    | nil => exact ⟨rfl, (List.cons.inj h).2⟩
    | cons c a' => exact absurd (List.cons.inj h).1 (List.ne_of_not_mem_cons ha')
  | cons c a ih =>
    cases a' with
    | nil => exact absurd (List.cons.inj h).1.symm (List.ne_of_not_mem_cons ha)
    | cons c' a' =>
      obtain ⟨rfl, htail⟩ := List.cons.inj h
      obtain ⟨rfl, rfl⟩ := ih htail (List.not_mem_of_not_mem_cons ha) (List.not_mem_of_not_mem_cons ha')
      exact ⟨rfl, rfl⟩

/-- A line with a key and a value. -/
def line (e : List Char × List Char) : List Char :=
  e.1 ++ '\x00' :: (e.2 ++ ['\n'])

/-- The key and the value can be read off their line. -/
def Clear (e : List Char × List Char) : Prop :=
  '\x00' ∉ e.1 ∧ '\n' ∉ e.2

theorem eq_of_lines {es fs : List (List Char × List Char)} (hes : ∀ e ∈ es, Clear e) (hfs : ∀ f ∈ fs, Clear f)
    (h : es.flatMap line = fs.flatMap line) : es = fs := by
  have hne : ∀ (e : List Char × List Char) (rest : List Char), line e ++ rest ≠ [] := fun e rest => by simp [line]
  induction es generalizing fs with
  | nil =>
    cases fs with
    | nil => rfl
    | cons f fs => exact absurd h.symm (hne f _)
  | cons e es ih =>
    cases fs with
    | nil => exact absurd h (hne e _)
    | cons f fs =>
      obtain ⟨he, hes⟩ := List.forall_mem_cons.mp hes
      obtain ⟨hf, hfs⟩ := List.forall_mem_cons.mp hfs
      simp only [List.flatMap_cons, line, List.append_assoc, List.cons_append, List.nil_append] at h
      obtain ⟨hkey, h⟩ := eq_of_marked h he.1 hf.1
      obtain ⟨hvalue, h⟩ := eq_of_marked h he.2 hf.2
      rw [ih hes hfs h, Prod.ext hkey hvalue]

/-! ### The lines of sources -/

/-- The text that is hashed. -/
def stats (d : Disk) (sources : List Path) : List Char :=
  (Path.sort sources).flatMap fun p =>
    match d.entry p with
    | .ok t => sourceLine p t
    | .error _ => []

theorem fingerprint_eq (d : Disk) (sources : List Path) :
    fingerprint d sources = Sha256.digest (Text.encode (stats d sources)) := rfl

/-- The size and the time of what stands at a path. -/
def sizeAndTime (d : Disk) (p : Path) : Nat × Int :=
  match d.entry p with
  | .ok t => (t.size, t.time)
  | .error _ => (0, 0)

/-- A size and a time in a line. -/
def value (v : Nat × Int) : List Char :=
  v.1.repr.toList ++ '\x00' :: v.2.repr.toList

theorem notMem_repr {c : Char} (hc : c.isDigit = false) (n : Nat) : c ∉ n.repr.toList := fun h => by
  rw [Nat.toList_repr] at h
  exact absurd (Nat.isDigit_of_mem_toDigits (by decide) (by decide) h) (by rw [hc]; exact Bool.false_ne_true)

theorem notMem_repr_int {c : Char} (hc : c.isDigit = false) (hsign : c ≠ '-') (n : Int) : c ∉ n.repr.toList := by
  cases n with
  | ofNat n => exact notMem_repr hc n
  | negSucc n =>
    rw [Int.repr, String.toList_append, List.mem_append, not_or]
    exact ⟨List.not_mem_cons_of_ne_of_not_mem hsign List.not_mem_nil, notMem_repr hc _⟩

theorem newline_notMem_value (v : Nat × Int) : '\n' ∉ value v := by
  rw [value, List.mem_append, List.mem_cons, not_or, not_or]
  exact ⟨notMem_repr (by decide) _, by decide, notMem_repr_int (by decide) (by decide) _⟩

theorem eq_of_repr {m n : Nat} (h : m.repr.toList = n.repr.toList) : m = n := by
  rw [Nat.toList_repr, Nat.toList_repr] at h
  rw [← Nat.ofDigitChars_ten_toDigits (n := m), h, Nat.ofDigitChars_ten_toDigits]

theorem eq_of_repr_int {m n : Int} (h : m.repr.toList = n.repr.toList) : m = n := by
  have hneg : ∀ m : Nat, (Int.negSucc m).repr.toList = '-' :: (m + 1).repr.toList := fun m => by
    rw [Int.repr, String.toList_append]
    rfl
  have hsign : ∀ m n : Nat, (Int.negSucc m).repr.toList ≠ (Int.ofNat n).repr.toList := fun m n h =>
    notMem_repr (c := '-') (by decide) n (h ▸ hneg m ▸ List.mem_cons_self)
  cases m with
  | ofNat m =>
    cases n with
    | ofNat n => rw [eq_of_repr h]
    | negSucc n => exact absurd h.symm (hsign n m)
  | negSucc m =>
    cases n with
    | ofNat n => exact absurd h (hsign m n)
    | negSucc n =>
      rw [hneg, hneg] at h
      rw [Nat.succ.inj (eq_of_repr (List.cons.inj h).2)]

theorem value_injective {v w : Nat × Int} (h : value v = value w) : v = w := by
  obtain ⟨hsize, htime⟩ := eq_of_marked h (notMem_repr (by decide) _) (notMem_repr (by decide) _)
  exact Prod.ext (eq_of_repr hsize) (eq_of_repr_int htime)

theorem sourceLine_eq (p : Path) (t : Tree) : sourceLine p t = line (p.toString.toList, value (t.size, t.time)) := by
  simp only [sourceLine, line, value, String.toList_append, List.append_assoc, List.cons_append]
  rfl

theorem stats_eq (h : ∀ p ∈ ps, ∃ t, d.entry p = .ok t) :
    stats d ps = ((Path.sort ps).map fun p => (p.toString.toList, value (sizeAndTime d p))).flatMap line := by
  rw [stats, List.flatMap_map]
  refine List.flatMap_congr fun p hp => ?_
  obtain ⟨t, ht⟩ := h p ((Path.perm_sort ps).mem_iff.mp hp)
  rw [sizeAndTime, ht]
  exact sourceLine_eq p t

theorem eq_of_map_eq {α β : Type} {f g : α → β} {as bs : List α} (hfg : ∀ a ∈ as, ∀ b ∈ bs, f a = g b → a = b)
    (h : as.map f = bs.map g) : as = bs := by
  induction as generalizing bs with
  | nil => exact (List.map_eq_nil_iff.mp h.symm).symm
  | cons a as ih =>
    cases bs with
    | nil => cases h
    | cons b bs =>
      obtain ⟨hhead, htail⟩ := List.cons.inj h
      rw [hfg a List.mem_cons_self b List.mem_cons_self hhead,
        ih (fun a ha b hb => hfg a (List.mem_cons_of_mem _ ha) b (List.mem_cons_of_mem _ hb)) htail]

/-- The text that is hashed tells the sources, and the size and the time of each one. -/
theorem eq_of_stats (hps : ∀ p ∈ ps, p.Named ∧ ∃ t, d.entry p = .ok t) (hqs : ∀ q ∈ qs, q.Named ∧ ∃ t, d'.entry q = .ok t)
    (h : stats d ps = stats d' qs) : ps.Perm qs ∧ ∀ p ∈ ps, sizeAndTime d p = sizeAndTime d' p := by
  have hclear : ∀ {d : Disk} {ps : List Path}, (∀ p ∈ ps, p.Named ∧ ∃ t, d.entry p = .ok t) →
      ∀ e ∈ (Path.sort ps).map fun p => (p.toString.toList, value (sizeAndTime d p)), Clear e := fun {d ps} hps e he => by
    obtain ⟨p, hp, rfl⟩ := List.mem_map.mp he
    exact ⟨Path.zero_notMem_toString (hps p ((Path.perm_sort ps).mem_iff.mp hp)).1, newline_notMem_value _⟩
  rw [stats_eq fun p hp => (hps p hp).2, stats_eq fun q hq => (hqs q hq).2] at h
  have hlines := eq_of_lines (hclear hps) (hclear hqs) h
  have hsort : Path.sort ps = Path.sort qs := eq_of_map_eq (fun p hp q hq hpq => ?_) hlines
  · rw [hsort, List.map_inj_left] at hlines
    refine ⟨(Path.perm_sort ps).symm.trans (hsort ▸ Path.perm_sort qs), fun p hp => ?_⟩
    have hmem : p ∈ Path.sort qs := hsort ▸ (Path.perm_sort ps).mem_iff.mpr hp
    exact value_injective (Prod.mk.inj (hlines p hmem)).2
  · exact Path.eq_of_toString (hps p ((Path.perm_sort ps).mem_iff.mp hp)).1 (hqs q ((Path.perm_sort qs).mem_iff.mp hq)).1
      (String.toList_inj.mp (Prod.mk.inj hpq).1)

/-! ### Reading a signature back -/

section Reading

open Json

theorem plain_hex (width n : Nat) : ∀ c ∈ Text.hex width n, Plain c := by
  have hdigit : ∀ m < 16, Plain (Text.hexDigit m) := by decide
  induction width generalizing n with
  | zero => exact List.forall_mem_nil _
  | succ width ih =>
    rw [Text.hex]
    exact List.forall_mem_append.mpr ⟨ih _, List.forall_mem_singleton.mpr (hdigit _ (Nat.mod_lt _ (by decide)))⟩

theorem plain_fingerprint (d : Disk) (sources : List Path) : ∀ c ∈ (fingerprint d sources).toList, Plain c := by
  rw [fingerprint_eq, Sha256.digest, String.toList_ofList]
  intro c hc
  obtain ⟨w, -, hc⟩ := List.mem_flatMap.mp hc
  exact plain_hex 8 w.toNat c hc

theorem plain_padded (width n : Nat) : ∀ c ∈ (padded width n).toList, Plain c := by
  rw [padded, String.toList_ofList]
  refine List.forall_mem_append.mpr ⟨fun c hc => ?_, fun c hc => ?_⟩
  · rw [List.eq_of_mem_replicate hc]
    decide
  · exact plain_of_isDigit (Nat.isDigit_of_mem_toDigits (by decide) (by decide) hc)

theorem plain_instantText (time : Int) : ∀ c ∈ (instantText time).toList, Plain c := by
  have hmarks : ∀ mark ∈ ["-", "T", ":", "Z", "", "."], mark.toList.all (Plain ·) = true := by decide
  have hmark : ∀ mark ∈ ["-", "T", ":", "Z", "", "."], ∀ c ∈ mark.toList, Plain c := fun mark hmem =>
    List.all_iff_forall_prop.mp (hmarks mark hmem)
  have hjoin : ∀ {a b : String}, (∀ c ∈ a.toList, Plain c) → (∀ c ∈ b.toList, Plain c) → ∀ c ∈ (a ++ b).toList, Plain c :=
    fun ha hb => by
      rw [String.toList_append]
      exact List.forall_mem_append.mpr ⟨ha, hb⟩
  unfold instantText
  dsimp only
  refine hjoin (hjoin ?_ ?_) (hmark _ (by decide))
  · iterate 5 refine hjoin (hjoin ?_ (hmark _ (by decide))) (plain_padded _ _)
    exact plain_padded _ _
  · split
    · exact hmark _ (by decide)
    · exact hjoin (hmark _ (by decide)) (plain_padded _ _)

/-- An entry of a signature on a line of its own. -/
def entryText (key : List Char) (rest : List Char) : List Char :=
  '\n' :: ' ' :: ' ' :: '\x22' :: (key ++ '\x22' :: ':' :: ' ' :: rest)

theorem toList_text (time : Int) (n : Nat) {fingerprint : String} (hplain : ∀ c ∈ fingerprint.toList, Plain c) :
    (text time n fingerprint).toList = '\x7b' :: entryText "fingerprint".toList ('\x22' :: (fingerprint.toList ++ '\x22' ::
      ',' :: entryText "generated_at".toList ('\x22' :: ((instantText time).toList ++ '\x22' :: ',' ::
        entryText "sources".toList (n.repr.toList ++ ',' :: entryText "version".toList ['1', '\n', '\x7d']))))) := by
  have hopen : "\x7b\n  \"fingerprint\": ".toList = '\x7b' :: entryText "fingerprint".toList [] := by decide
  have htime : ",\n  \"generated_at\": ".toList = ',' :: entryText "generated_at".toList [] := by decide
  have hcount : ",\n  \"sources\": ".toList = ',' :: entryText "sources".toList [] := by decide
  have hversion : ",\n  \"version\": 1\n\x7d".toList = ',' :: entryText "version".toList ['1', '\n', '\x7d'] := by decide
  have hentry : ∀ key cs rest, entryText key cs ++ rest = entryText key (cs ++ rest) :=
    fun key cs rest => by simp only [entryText, List.cons_append, List.append_assoc]
  unfold text
  rw [String.toList_append, String.toList_append, String.toList_append, String.toList_append, String.toList_append,
    String.toList_append, hopen, htime, hcount, hversion, toList_jsonString hplain, toList_jsonString (plain_instantText time)]
  generalize "fingerprint".toList = first, "generated_at".toList = second, "sources".toList = third, "version".toList = last
  simp only [List.append_assoc, List.cons_append, List.nil_append, hentry]
  rfl

theorem readEntries_text {fuel : Nat} {key body rest : List Char} (hkey : ∀ c ∈ key, Plain c) (hbody : ∀ c ∈ body, Plain c) :
    readEntries (fuel + 2) (skipSpace (entryText key ('\x22' :: (body ++ '\x22' :: ',' :: rest)))) =
      (readEntries (fuel + 1) (skipSpace rest)).map fun r => ((String.ofList key, .text (String.ofList body)) :: r.1, r.2) :=
  readEntries_next hkey (readValue_text hbody fuel (',' :: rest))

/-- The object that a signature is. -/
theorem readValue_signature (fuel : Nat) (time : Int) (n : Nat) {fingerprint : String}
    (hplain : ∀ c ∈ fingerprint.toList, Plain c) : readValue (fuel + 6) (text time n fingerprint).toList =
      (numberOf false n.repr.toList [] []).map fun count => (.object (Entries.ofList [("fingerprint", .text fingerprint),
        ("generated_at", .text (instantText time)), ("sources", count), ("version", .int 1)]), []) := by
  have hversion : readEntries (fuel + 2) (skipSpace (entryText "version".toList ['1', '\n', '\x7d'])) =
      .ok ([("version", .int 1)], []) := readEntries_last (List.all_iff_forall_prop.mp rfl) (v := .int 1) rfl
  have hsources : readEntries (fuel + 3) (skipSpace (entryText "sources".toList
      (n.repr.toList ++ ',' :: entryText "version".toList ['1', '\n', '\x7d']))) =
      (numberOf false n.repr.toList [] []).map fun count => ([("sources", count), ("version", .int 1)], []) := by
    have hvalue := readValue_repr (fuel + 1) n (entryText "version".toList ['1', '\n', '\x7d'])
    rw [← skipSpace_repr] at hvalue
    cases hcount : numberOf false n.repr.toList [] [] with
    | error e =>
      rw [hcount] at hvalue
      exact readEntries_error (List.all_iff_forall_prop.mp rfl) hvalue
    | ok count =>
      rw [hcount] at hvalue
      refine (readEntries_next (show ∀ c ∈ "sources".toList, Plain c from List.all_iff_forall_prop.mp rfl) hvalue).trans ?_
      rw [hversion]
      rfl
  rw [toList_text time n hplain]
  change (readEntries (fuel + 5) (skipSpace (entryText "fingerprint".toList _)) >>= fun r => _) = _
  rw [readEntries_text (List.all_iff_forall_prop.mp rfl) hplain,
    readEntries_text (List.all_iff_forall_prop.mp rfl) (plain_instantText time), hsources]
  cases numberOf false n.repr.toList [] [] with
  | error e => rfl
  | ok count =>
    simp only [String.ofList_toList, Except.map]
    generalize instantText time = t
    rfl

/-- A signature is read back unless it counts too many sources. -/
theorem ofText_text (time : Int) (n : Nat) {fingerprint : String} (hplain : ∀ c ∈ fingerprint.toList, Plain c) :
    Json.ofText (text time n fingerprint).toList = (numberOf false n.repr.toList [] []).map fun count =>
      .object (Entries.ofList [("fingerprint", .text fingerprint), ("generated_at", .text (instantText time)),
        ("sources", count), ("version", .int 1)]) := by
  obtain ⟨rest, hrest⟩ : ∃ rest, (text time n fingerprint).toList = '\x7b' :: '\n' :: ' ' :: ' ' :: '\x22' :: rest := by
    rw [toList_text time n hplain]
    exact ⟨_, rfl⟩
  obtain ⟨fuel, hfuel⟩ : ∃ fuel, (text time n fingerprint).toList.length + 1 = fuel + 6 := ⟨rest.length, by rw [hrest]; rfl⟩
  have hspace : skipSpace (text time n fingerprint).toList = (text time n fingerprint).toList := by
    rw [hrest]
    rfl
  rw [Json.ofText, hspace, hfuel, readValue_signature fuel time n hplain]
  cases numberOf false n.repr.toList [] [] <;> rfl

/-- A signature that is read back has the fingerprint that was written. -/
theorem fingerprint_of_text {time : Int} {n : Nat} {fingerprint : String} {v : Json} (hplain : ∀ c ∈ fingerprint.toList, Plain c)
    (h : Json.ofText (text time n fingerprint).toList = .ok v) : v.get? "fingerprint" = some (.text fingerprint) := by
  rw [ofText_text time n hplain] at h
  cases hcount : numberOf false n.repr.toList [] [] with
  | error e =>
    rw [hcount] at h
    cases h
  | ok count =>
    rw [hcount] at h
    obtain rfl := Except.ok.inj h
    rfl

end Reading

end ResponseShapes.Signature
