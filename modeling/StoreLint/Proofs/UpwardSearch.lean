import Mathlib.Logic.Function.Iterate
import StoreLint.Proofs.Discovery

/-!
# Going up from a path

Settings are looked for by going up: in a directory, then in the directory that holds it, and so on
until a path is its own directory.  There is no counter, and taking the directory of a path does not
always make it shorter: the directory of an empty path is a dot.  After one step the path is clean,
though, and then each step drops a name.

* `Path.above` is one step up from a written path, and `Path.join` puts written paths together.
* `Path.above_iterate_iff`: from `Path.stepsUp` steps on, and not before, a step changes nothing.
* `find?_step` is one round of the search: the names in the directory, and then the directory above.
* `find?_eq_some_iff` and `find?_eq_none_iff` follow for all rounds: the search finds the first
  candidate that is there, by the number of steps and then by the order of the names.
* `load_first_candidate` puts these together.
-/

namespace StoreLint

namespace Path

/-- One step up: the directory that holds what a written path names. -/
def above (text : String) : String :=
  (directoryOf text).text

/-- Written paths put together with slashes in between, and cleaned.  Empty ones are left out. -/
def join (parts : List String) : String :=
  if parts.filter (· ≠ "") = [] then ""
  else (clean ("/".intercalate (parts.filter (· ≠ "")))).text

/-! ## Joining -/

theorem segments_append (first second : String) :
    segments (first ++ "/" ++ second) = segments first ++ segments second := by
  have hchars : (first ++ "/" ++ second).toList = first.toList ++ '/' :: second.toList := by simp
  rw [segments, hchars, List.splitOn_append_cons_self, List.map_append]
  rfl

theorem segments_of_proper {name : String} (h : Proper name) : segments name = [name] := by
  rw [segments, List.splitOn_eq_singleton h.not_slash]
  simp

theorem isRooted_append {first : String} (h : first ≠ "") (second : String) :
    isRooted (first ++ second) = isRooted first := by
  obtain ⟨c, cs, hcs⟩ := List.exists_cons_of_ne_nil (mt String.toList_eq_nil_iff.1 h)
  simp [isRooted, hcs]

/-- A name that is put behind a directory is pushed onto its path. -/
theorem join_pair (directory : String) {name : String} (h : Proper name) :
    join [directory, name] = ((clean directory).push name).text := by
  by_cases hempty : directory = ""
  · subst hempty
    have hrooted : isRooted name = false :=
      decide_eq_false fun hslash => h.not_slash (List.mem_of_head? hslash)
    have hclean : clean name = (clean "").push name := by
      rw [clean, segments_of_proper h, hrooted]
      rfl
    simp [join, h.nonempty, hclean]
  · have hclean : clean (directory ++ "/" ++ name) = (clean directory).push name := by
      rw [clean, mk, segments_append, segments_of_proper h, List.foldl_append, String.append_assoc,
        isRooted_append hempty]
      rfl
    simp [join, h.nonempty, hempty, hclean]

/-! ## Steps -/

theorem above_text (p : Path) : above p.text = p.parent.text := by
  rw [above, directoryOf_text]

theorem text_inj {p q : Path} : p.text = q.text ↔ p = q := by
  constructor
  · intro h
    rw [← clean_text p, h, clean_text]
  · exact congrArg text

/-- Only a path without names is its own directory. -/
theorem above_text_iff {p : Path} : above p.text = p.text ↔ p.names = [] := by
  rw [above_text, text_inj]
  constructor
  · intro hparent
    have hlength := congrArg (fun q : Path => q.names.length) hparent
    simp only [names_parent, List.length_dropLast] at hlength
    exact List.eq_nil_of_length_eq_zero (by omega)
  · exact parent_of_nil

theorem above_iterate_text (p : Path) (k : Nat) : above^[k] p.text = (parent^[k] p).text := by
  induction k generalizing p with
  | zero => rfl
  | succ k ih => rw [Function.iterate_succ_apply, above_text, ih, Function.iterate_succ_apply]

theorem length_names_iterate_parent (p : Path) (k : Nat) :
    (parent^[k] p).names.length = p.names.length - k := by
  induction k generalizing p with
  | zero => rfl
  | succ k ih =>
    rw [Function.iterate_succ_apply, ih]
    simp only [names_parent, List.length_dropLast]
    omega

/-- The number of steps up after which a path does not change any more. -/
def stepsUp (start : String) : Nat :=
  if above start = start then 0 else (directoryOf start).names.length + 1

/-- **Going up ends:** a step changes nothing from a certain number of steps on, and not before. -/
theorem above_iterate_iff (start : String) (k : Nat) :
    above (above^[k] start) = above^[k] start ↔ stepsUp start ≤ k := by
  by_cases hfixed : above start = start
  · simp [stepsUp, hfixed, Function.iterate_fixed hfixed]
  · rw [stepsUp, if_neg hfixed]
    cases k with
    | zero => simpa using hfixed
    | succ k =>
      -- after the first step the path is clean, and each further one drops a name
      have hsteps : above^[k + 1] start = (parent^[k] (directoryOf start)).text :=
        above_iterate_text (directoryOf start) k
      rw [hsteps, above_text_iff, ← List.length_eq_zero_iff, length_names_iterate_parent]
      omega

theorem length_names_push_le (p : Path) (name : String) :
    (p.push name).names.length ≤ p.names.length + 1 := by
  unfold push
  split
  · unfold up
    split
    · rw [names_parent, List.length_dropLast]
      omega
    · split
      · exact Nat.le_succ _
      · simp only [names, List.length_append, List.length_replicate]
        omega
  · split
    · simp [names, down, Nat.add_assoc]
    · exact Nat.le_succ _

theorem length_names_mk_le (rooted : Bool) (names : List String) :
    (mk rooted names).names.length ≤ names.length := by
  induction names using List.reverseRecOn with
  | nil => exact Nat.le_refl 0
  | append_singleton names last ih =>
      have hpush := length_names_push_le (mk rooted names) last
      rw [mk, List.foldl_append, ← mk, List.length_append, List.length_singleton]
      exact hpush.trans (Nat.add_le_add_right ih 1)

/-- There are at most as many steps as there are pieces between slashes. -/
theorem stepsUp_le (start : String) : stepsUp start ≤ (segments start).length := by
  have hsome : 0 < (segments start).length := by
    rw [segments, List.length_map]
    exact List.length_pos_iff.2 (List.splitOnP_ne_nil (· == '/') start.toList)
  have hnames := length_names_mk_le (isRooted start) (segments start).dropLast
  rw [List.length_dropLast, ← directoryOf] at hnames
  unfold stepsUp
  split <;> omega

end Path

open StoreLint.Path

namespace Settings

/-! ## One round -/

/-- The first settings file of a directory that is there. -/
def inDirectory? (files : Files) (directory : String) : Option String :=
  (fileNames.map fun name => join [directory, name]).find? fun path => (files path).isPresent

theorem map_join_fileNames (directory : String) :
    (fileNames.map fun name => join [directory, name]) =
      fileNames.map fun name => ((clean directory).push name).text := by
  apply List.map_congr_left
  intro name hname
  exact join_pair directory (proper_of_mem_fileNames hname)

/-- One round of the search: the settings files of a directory, and then the directory above. -/
theorem find?_step (files : Files) (start : String) :
    find? files start = (inDirectory? files start).or (find? files (above start)) := by
  have hrest : find? files (above start) =
      ((tried (directoryOf start)).map Path.text).find? fun path => (files path).isPresent := by
    rw [above, find?_text, List.find?_map]
    rfl
  rw [hrest, find?, candidates_eq, List.find?_append, inDirectory?, map_join_fileNames]

/-- The last round: a path that is its own directory. -/
theorem find?_of_fixed (files : Files) {start : String} (h : above start = start) :
    find? files start = inDirectory? files start := by
  have hstart : start = (directoryOf start).text := h.symm
  have hnames : (directoryOf start).names = [] := by
    rw [← above_text_iff, ← hstart, h]
  rw [inDirectory?, map_join_fileNames, hstart, find?_text, tried_of_nil hnames, clean_text,
    List.find?_map, List.find?_map, Option.map_map]
  rfl

/-! ## All rounds -/

/-- The path that is tried after a number of steps up, for one of the names. -/
def candidateAt (start : String) (steps : Nat) (i : Fin fileNames.length) : String :=
  join [above^[steps] start, fileNames.get i]

/-- A candidate is there, and none that is tried before it is: none after fewer steps, and none for
an earlier name after as many. -/
structure FirstAt (files : Files) (start : String) (steps : Nat) (i : Fin fileNames.length) :
    Prop where
  present : (files (candidateAt start steps i)).isPresent = true
  earlier : ∀ steps' i', steps' < steps ∨ steps' = steps ∧ i' < i →
    (files (candidateAt start steps' i')).isPresent = false

variable {files : Files} {start path : String}

theorem inDirectory?_eq_none_iff :
    inDirectory? files start = none ↔ ∀ i, (files (candidateAt start 0 i)).isPresent = false := by
  rw [inDirectory?, List.find?_eq_none]
  constructor
  · intro h i
    exact Bool.eq_false_iff.2 (h _ (List.mem_map_of_mem (List.get_mem fileNames i)))
  · intro h path hpath
    obtain ⟨name, hname, rfl⟩ := List.mem_map.1 hpath
    obtain ⟨i, rfl⟩ := List.get_of_mem hname
    exact Bool.eq_false_iff.1 (h i)

theorem inDirectory?_eq_some_iff :
    inDirectory? files start = some path ↔
      ∃ i, FirstAt files start 0 i ∧ path = candidateAt start 0 i := by
  rw [inDirectory?, List.find?_eq_some_iff_getElem]
  constructor
  · rintro ⟨hpresent, i, hi, rfl, hearlier⟩
    rw [List.length_map] at hi
    rw [List.getElem_map] at hpresent ⊢
    refine ⟨⟨i, hi⟩, ⟨hpresent, ?_⟩, rfl⟩
    rintro steps' i' (hsteps | ⟨rfl, hi'⟩)
    · exact absurd hsteps (Nat.not_lt_zero _)
    · simpa [candidateAt] using hearlier i' hi'
  · rintro ⟨i, hfirst, rfl⟩
    refine ⟨hfirst.present, i, by simp, by simp [candidateAt], ?_⟩
    intro j hj
    simpa [candidateAt] using hfirst.earlier 0 ⟨j, hj.trans i.isLt⟩ (.inr ⟨rfl, hj⟩)

theorem candidateAt_succ (steps : Nat) (i : Fin fileNames.length) :
    candidateAt start (steps + 1) i = candidateAt (above start) steps i := by
  rw [candidateAt, candidateAt, Function.iterate_succ_apply]

/-- A candidate further up is the first if and only if it is from the directory above on, and there
is nothing in the directory itself. -/
theorem firstAt_succ {steps : Nat} {i : Fin fileNames.length} :
    FirstAt files start (steps + 1) i ↔
      inDirectory? files start = none ∧ FirstAt files (above start) steps i := by
  rw [inDirectory?_eq_none_iff]
  constructor
  · intro h
    refine ⟨fun i' => h.earlier 0 i' (.inl (Nat.succ_pos steps)), ?_, ?_⟩
    · rw [← candidateAt_succ]
      exact h.present
    · intro steps' i' hbefore
      rw [← candidateAt_succ]
      refine h.earlier (steps' + 1) i' ?_
      omega
  · rintro ⟨hnone, hfirst⟩
    refine ⟨?_, ?_⟩
    · rw [candidateAt_succ]
      exact hfirst.present
    · intro steps' i' hbefore
      cases steps' with
      | zero => exact hnone i'
      | succ steps' =>
        rw [candidateAt_succ]
        refine hfirst.earlier steps' i' ?_
        omega

/-- **What the search finds:** the first candidate that is there. -/
theorem find?_eq_some_iff {last : Nat} (hlast : above (above^[last] start) = above^[last] start) :
    find? files start = some path ↔
      ∃ steps ≤ last, ∃ i, FirstAt files start steps i ∧ path = candidateAt start steps i := by
  induction last generalizing start with
  | zero =>
    have hfixed : above start = start := hlast
    rw [find?_of_fixed files hfixed, inDirectory?_eq_some_iff]
    simp
  | succ last ih =>
    rw [find?_step, Option.or_eq_some_iff, ih hlast, inDirectory?_eq_some_iff]
    constructor
    · rintro (⟨i, hfirst, hpath⟩ | ⟨hnone, steps, hsteps, i, hfirst, hpath⟩)
      · exact ⟨0, Nat.zero_le _, i, hfirst, hpath⟩
      · refine ⟨steps + 1, Nat.succ_le_succ hsteps, i, firstAt_succ.2 ⟨hnone, hfirst⟩, ?_⟩
        rw [candidateAt_succ, hpath]
    · rintro ⟨steps, hsteps, i, hfirst, hpath⟩
      cases steps with
      | zero => exact .inl ⟨i, hfirst, hpath⟩
      | succ steps =>
        obtain ⟨hnone, hfirst'⟩ := firstAt_succ.1 hfirst
        rw [candidateAt_succ] at hpath
        exact .inr ⟨hnone, steps, Nat.le_of_succ_le_succ hsteps, i, hfirst', hpath⟩

theorem find?_eq_none_iff {last : Nat} (hlast : above (above^[last] start) = above^[last] start) :
    find? files start = none ↔
      ∀ steps ≤ last, ∀ i, (files (candidateAt start steps i)).isPresent = false := by
  induction last generalizing start with
  | zero =>
    have hfixed : above start = start := hlast
    rw [find?_of_fixed files hfixed, inDirectory?_eq_none_iff]
    simp
  | succ last ih =>
    rw [find?_step, Option.or_eq_none_iff, ih hlast, inDirectory?_eq_none_iff]
    constructor
    · rintro ⟨hnone, habove⟩ steps hsteps i
      cases steps with
      | zero => exact hnone i
      | succ steps =>
        rw [candidateAt_succ]
        exact habove steps (Nat.le_of_succ_le_succ hsteps) i
    · intro h
      refine ⟨h 0 (Nat.zero_le _), fun steps hsteps i => ?_⟩
      rw [← candidateAt_succ]
      exact h (steps + 1) (Nat.succ_le_succ hsteps) i

/-- **Settings are loaded from the first candidate that is there.**  From every path, going up ends
at a path that is its own directory, after no more steps than the path has pieces between slashes.
The settings are what is loaded from the first candidate that is there, by the number of steps up
and then by the order of the names, even if that cannot be loaded.  There are none if and only if no
candidate is there. -/
theorem load_first_candidate (start : String) :
    ∃ last ≤ (segments start).length,
      (∀ steps, above (above^[steps] start) = above^[steps] start ↔ last ≤ steps) ∧
      ∀ (files : Files) (readers : Readers),
        (∀ path outcome, load files start readers = some (path, outcome) ↔
          ∃ steps ≤ last, ∃ i, FirstAt files start steps i ∧ path = candidateAt start steps i ∧
            outcome = loadFile files path readers) ∧
        (load files start readers = none ↔
          ∀ steps ≤ last, ∀ i, (files (candidateAt start steps i)).isPresent = false) := by
  refine ⟨stepsUp start, stepsUp_le start, above_iterate_iff start, fun files readers => ⟨?_, ?_⟩⟩
  · intro path outcome
    have hlast := (above_iterate_iff start (stepsUp start)).2 le_rfl
    rw [load, Option.map_eq_some_iff]
    constructor
    · rintro ⟨found, hfound, hload⟩
      cases hload
      obtain ⟨steps, hsteps, i, hfirst, hpath⟩ := (find?_eq_some_iff hlast).1 hfound
      exact ⟨steps, hsteps, i, hfirst, hpath, rfl⟩
    · rintro ⟨steps, hsteps, i, hfirst, hpath, rfl⟩
      exact ⟨path, (find?_eq_some_iff hlast).2 ⟨steps, hsteps, i, hfirst, hpath⟩, rfl⟩
  · rw [load, Option.map_eq_none_iff, find?_eq_none_iff ((above_iterate_iff start _).2 le_rfl)]

end Settings

end StoreLint
