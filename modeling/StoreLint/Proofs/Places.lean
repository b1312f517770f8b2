import Mathlib.Data.List.Infix
import StoreLint.Files.Tree

/-!
# Where written paths lead

A file tree knows places: a place is given by the names that lead to it from the root.  A path is
cleaned by looking at its names alone.  This file shows that the two go together: a cleaned path
leads to the same place as the path it was cleaned from, as long as all directories on the way are
there.

* `Path.mk_names`: a path is what its names lead to, so it is read back from its text (`clean_text`,
  `directoryOf_text`).
* `Path.place` is the place that names lead to, with a double dot for the directory above.
* `names_upward`: the directories above a path are its beginnings, the longest first.
* `place_mk`: cleaning does not change the place.
* `follow_of_directories`: names lead to what is at their place, if there are directories on the
  way.  `home_of_file` gives the directory that holds a file.
-/

namespace StoreLint

namespace Path

/-! ## One name further -/

theorem push_of_proper (p : Path) {name : String} (h : Proper name) :
    p.push name = p.down name h := by
  rw [push, if_neg h.not_double, dif_pos h]

theorem names_push_of_proper (p : Path) {name : String} (h : Proper name) :
    (p.push name).names = p.names ++ [name] := by
  rw [push_of_proper p h]
  simp [names, down]

theorem rooted_push (p : Path) (name : String) : (p.push name).rooted = p.rooted := by
  unfold push up
  split
  · split
    · rfl
    · split <;> rfl
  · split <;> rfl

theorem rooted_mk (rooted : Bool) (names : List String) : (mk rooted names).rooted = rooted := by
  refine List.foldlRecOn (motive := fun p : Path => p.rooted = rooted) names push rfl ?_
  intro p hp name _
  rw [rooted_push, hp]

/-! ## A path and its names -/

theorem mk_double (climbs : Nat) :
    mk false (List.replicate climbs "..") = ⟨false, climbs, [], by simp, by simp⟩ := by
  induction climbs with
  | zero => rfl
  | succ climbs ih =>
      rw [List.replicate_succ', mk, List.foldl_append, ← mk, ih]
      rfl

theorem foldl_push_proper {names : List String} (h : ∀ name ∈ names, Proper name) (p : Path) :
    names.foldl push p =
      { p with
        below := p.below ++ names
        proper := fun n hn => (List.mem_append.1 hn).elim (p.proper n) (h n) } := by
  induction names generalizing p with
  | nil => simp
  | cons name names ih =>
      rw [List.foldl_cons, push_of_proper p (h name (by simp)), ih fun n hn => h n (by simp [hn])]
      simp [down]

/-- A path is what its names lead to. -/
theorem mk_names (p : Path) : mk p.rooted p.names = p := by
  obtain ⟨rooted, climbs, below, hrooted, hproper⟩ := p
  have hclimbs :
      mk rooted (List.replicate climbs "..") = ⟨rooted, climbs, [], hrooted, by simp⟩ := by
    cases rooted with
    | true =>
        obtain rfl := hrooted rfl
        rfl
    | false => exact mk_double climbs
  show mk rooted (List.replicate climbs ".." ++ below) = _
  rw [mk, List.foldl_append, ← mk, hclimbs, foldl_push_proper hproper]
  simp

theorem eq_of_names_eq {p q : Path} (hrooted : p.rooted = q.rooted) (hnames : p.names = q.names) :
    p = q := by
  rw [← mk_names p, ← mk_names q, hrooted, hnames]

theorem names_mk {rooted : Bool} {names : List String} (h : ∀ name ∈ names, Proper name) :
    (mk rooted names).names = names := by
  rw [mk, foldl_push_proper h]
  simp [start, Path.names]

theorem parent_of_nil {p : Path} (h : p.names = []) : p.parent = p := by
  refine eq_of_names_eq rfl ?_
  rw [names_parent, h, List.dropLast_nil]

theorem double_or_proper {p : Path} {name : String} (h : name ∈ p.names) :
    name = ".." ∨ Proper name :=
  (List.mem_append.1 h).imp List.eq_of_mem_replicate (p.proper name)

/-- The directories above a path are its beginnings, the longest first. -/
theorem names_upward (p : Path) : p.upward.map names = p.names.inits.reverse := by
  fun_induction upward p with
  | case1 p hnames => simp [hnames]
  | case2 p hnames ih =>
      obtain ⟨above, last, hlast⟩ := List.eq_nil_or_concat' p.names |>.resolve_left hnames
      rw [List.map_cons, ih, names_parent, hlast, List.dropLast_concat, List.inits_append]
      simp

theorem rooted_of_mem_upward {p q : Path} (h : q ∈ p.upward) : q.rooted = p.rooted := by
  fun_induction upward p with
  | case1 p hnames => rw [List.mem_singleton.1 h]
  | case2 p hnames ih =>
      rcases List.mem_cons.1 h with rfl | h
      · rfl
      · exact ih h

/-! ## Texts -/

theorem not_slash_of_mem_segments {text name : String} (h : name ∈ segments text) :
    '/' ∉ name.toList := by
  obtain ⟨piece, hpiece, rfl⟩ := List.mem_map.1 h
  rw [String.toList_ofList]
  exact not_mem_of_mem_splitOn hpiece

/-- The names of a text that was made of names. -/
theorem segments_intercalate {names : List String} (hsome : names ≠ [])
    (h : ∀ name ∈ names, '/' ∉ name.toList) : segments ("/".intercalate names) = names := by
  have hpieces : ("/".intercalate names).toList.splitOn '/' = names.map String.toList := by
    rw [String.toList_intercalate]
    refine List.splitOn_intercalate '/' ?_ (by simpa using hsome)
    simpa using h
  rw [segments, hpieces, List.map_map]
  simp

theorem not_slash_of_mem_names {p : Path} {name : String} (h : name ∈ p.names) :
    name ≠ "" ∧ '/' ∉ name.toList := by
  rcases double_or_proper h with rfl | hproper
  · decide
  · exact ⟨hproper.nonempty, hproper.not_slash⟩

theorem segments_text {p : Path} (hsome : p.names ≠ []) :
    segments p.text = if p.rooted then "" :: p.names else p.names := by
  have hslash : ∀ name ∈ p.names, '/' ∉ name.toList := fun _ h => (not_slash_of_mem_names h).2
  cases hroot : p.rooted with
  | true =>
      have htext : p.text = "/".intercalate ("" :: p.names) := by
        rw [String.intercalate_cons_of_ne_nil hsome]
        simp [text, hroot]
      rw [htext, segments_intercalate (by simp) (by simpa using hslash)]
      rfl
  | false =>
      have htext : p.text = "/".intercalate p.names := by simp [text, hroot, hsome]
      rw [htext, segments_intercalate hsome hslash]
      rfl

theorem isRooted_text (p : Path) : isRooted p.text = p.rooted := by
  cases hroot : p.rooted with
  | true => simp [isRooted, text, hroot]
  | false =>
      cases hnames : p.names with
      | nil => simp [isRooted, text, hroot, hnames]
      | cons name names =>
          have hmem : name ∈ p.names := by simp [hnames]
          obtain ⟨hname, hslash⟩ := not_slash_of_mem_names hmem
          obtain ⟨c, cs, hcs⟩ := List.exists_cons_of_ne_nil (mt String.toList_eq_nil_iff.1 hname)
          have hhead : p.text.toList.head? = some c := by
            cases names <;> simp [text, hroot, hnames, hcs, List.intercalate]
          have hc : c ≠ '/' := by
            rintro rfl
            exact hslash (by simp [hcs])
          simp [isRooted, hhead, hc]

/-- A blank name in front does not lead any further. -/
theorem mk_blank_cons (rooted : Bool) (names : List String) :
    mk rooted ("" :: names) = mk rooted names := rfl

theorem eq_start_of_nil {p : Path} (h : p.names = []) : p = start p.rooted := by
  rw [← mk_names p, h, rooted_mk]
  rfl

/-- A path is read back from its text. -/
theorem clean_text (p : Path) : clean p.text = p := by
  rw [clean, isRooted_text]
  by_cases hsome : p.names = []
  · rw [eq_start_of_nil hsome]
    cases p.rooted <;> decide
  · rw [segments_text hsome]
    cases hroot : p.rooted with
    | true => rw [if_pos rfl, mk_blank_cons, ← hroot, mk_names]
    | false => rw [if_neg (by simp), ← hroot, mk_names]

/-- The directory that holds what a path names is the path without its last name. -/
theorem directoryOf_text (p : Path) : directoryOf p.text = p.parent := by
  rw [directoryOf, isRooted_text]
  have hparent : mk p.rooted p.names.dropLast = p.parent := by
    rw [← names_parent]
    exact mk_names p.parent
  by_cases hsome : p.names = []
  · rw [eq_start_of_nil hsome]
    cases p.rooted <;> decide
  · rw [segments_text hsome]
    cases hroot : p.rooted with
    | true => rw [if_pos rfl, List.dropLast_cons_of_ne_nil hsome, mk_blank_cons, ← hroot, hparent]
    | false => rw [if_neg (by simp), ← hroot, hparent]

/-! ## Places -/

/-- The place one name further. -/
def advance (here : List String) (name : String) : List String :=
  if name = "" ∨ name = "." then here
  else if name = ".." then here.dropLast
  else here ++ [name]

/-- The place that names lead to from a place. -/
def place (here names : List String) : List String :=
  names.foldl advance here

/-- The place where a path starts: the root or the working directory. -/
def origin (rooted : Bool) (workingDirectory : List String) : List String :=
  if rooted then [] else workingDirectory

/-- The place that a written path names. -/
def placeOf (workingDirectory : List String) (path : String) : List String :=
  place (origin (isRooted path) workingDirectory) (segments path)

theorem advance_of_proper (here : List String) {name : String} (h : Proper name) :
    advance here name = here ++ [name] := by
  simp [advance, h.nonempty, h.not_dot, h.not_double]

theorem place_append (here first second : List String) :
    place here (first ++ second) = place (place here first) second :=
  List.foldl_append

theorem place_of_proper {names : List String} (h : ∀ name ∈ names, Proper name)
    (here : List String) : place here names = here ++ names := by
  induction names generalizing here with
  | nil => simp [place]
  | cons name names ih =>
      have hrest := ih (fun n hn => h n (by simp [hn])) (here ++ [name])
      rw [place, List.foldl_cons, advance_of_proper here (h name (by simp))]
      simpa [place] using hrest

theorem place_double (here : List String) (n : Nat) :
    place here (List.replicate n "..") = here.take (here.length - n) := by
  induction n generalizing here with
  | zero => simp [place]
  | succ n ih =>
      have hdouble : advance here ".." = here.dropLast := by simp [advance]
      have hrest := ih here.dropLast
      rw [place] at hrest ⊢
      rw [List.replicate_succ, List.foldl_cons, hdouble, hrest, List.dropLast_eq_take,
        List.take_take, List.length_take]
      congr 1
      omega

theorem place_up (p : Path) (wd : List String) :
    place (origin p.rooted wd) p.up.names = (place (origin p.rooted wd) p.names).dropLast := by
  by_cases hbelow : p.below = []
  · cases hrooted : p.rooted with
    | true =>
        have hnames : p.names = [] := by simp [names, hbelow, p.climbs_of_rooted hrooted]
        simp [up, hbelow, hrooted, hnames, place, origin]
    | false =>
        have hnames : p.up.names = p.names ++ [".."] := by
          simp [up, hbelow, hrooted, names, List.replicate_succ']
        rw [hnames, place_append]
        rfl
  · obtain ⟨before, last, hlast⟩ := List.eq_nil_or_concat' p.below |>.resolve_left hbelow
    have hproper : Proper last := p.proper last (by simp [hlast])
    have hnames : p.names = p.parent.names ++ [last] := by
      rw [names_parent, names, hlast, ← List.append_assoc, List.dropLast_concat]
    have hlast : place (origin p.rooted wd) p.names =
        place (origin p.rooted wd) p.parent.names ++ [last] := by
      rw [hnames, place_append]
      exact advance_of_proper _ hproper
    rw [hlast, List.dropLast_concat, up, if_pos hbelow]

/-- Cleaning one more name changes the place as the name itself does. -/
theorem place_push (p : Path) (wd : List String) {name : String} (hname : '/' ∉ name.toList) :
    place (origin p.rooted wd) (p.push name).names =
      advance (place (origin p.rooted wd) p.names) name := by
  by_cases hdouble : name = ".."
  · subst hdouble
    rw [push, if_pos rfl, place_up]
    rfl
  · by_cases hproper : Proper name
    · rw [names_push_of_proper p hproper, place_append]
      rfl
    · have hsame : name = "" ∨ name = "." := by
        by_contra hne
        rw [not_or] at hne
        exact hproper ⟨hne.1, hne.2, hdouble, hname⟩
      rw [push, if_neg hdouble, dif_neg hproper, advance, if_pos hsame]

/-- **Cleaning does not change the place.** -/
theorem place_mk (rooted : Bool) {names : List String} (h : ∀ name ∈ names, '/' ∉ name.toList)
    (wd : List String) :
    place (origin rooted wd) (mk rooted names).names = place (origin rooted wd) names := by
  induction names using List.reverseRecOn with
  | nil => rfl
  | append_singleton names last ih =>
      have hpush := place_push (mk rooted names) wd (h last (by simp))
      rw [rooted_mk, ih fun name hname => h name (by simp [hname])] at hpush
      rw [mk, List.foldl_append, ← mk, place_append]
      exact hpush

theorem place_directoryOf (wd : List String) (text : String) :
    place (origin (isRooted text) wd) (directoryOf text).names =
      place (origin (isRooted text) wd) (segments text).dropLast := by
  refine place_mk (isRooted text) ?_ wd
  intro name hname
  exact not_slash_of_mem_segments (List.dropLast_subset _ hname)

end Path

/-! ## Trees -/

namespace FileTree

open StoreLint.Path

/-- There is a directory at a place. -/
def IsDirectory (root : FileTree) (here : List String) : Prop :=
  ∃ children, root.find? here = some (.directory children)

theorem find?_append (t : FileTree) (first second : List String) :
    t.find? (first ++ second) = (t.find? first).bind fun inner => inner.find? second := by
  induction first generalizing t with
  | nil => rfl
  | cons name first ih =>
      rw [List.cons_append, find?, find?]
      cases t.child? name with
      | none => rfl
      | some inner => exact ih inner

/-- What is above a directory is a directory. -/
theorem IsDirectory.of_isPrefix {root : FileTree} {here above : List String}
    (h : root.IsDirectory here) (habove : above <+: here) : root.IsDirectory above := by
  obtain ⟨children, hfind⟩ := h
  obtain ⟨below, rfl⟩ := habove
  rw [find?_append] at hfind
  obtain ⟨inner, hinner, hbelow⟩ := Option.bind_eq_some_iff.1 hfind
  cases inner with
  | directory children' => exact ⟨children', hinner⟩
  | file content => cases below <;> simp [find?, child?] at hbelow

theorem follow_cons {root : FileTree} {here : List String} (h : root.IsDirectory here)
    (name : String) (names : List String) :
    root.follow here (name :: names) = root.follow (advance here name) names := by
  obtain ⟨children, hfind⟩ := h
  rw [follow, hfind, advance]
  dsimp only
  split
  · rfl
  · split <;> rfl

/-- **Names lead to what is at their place,** if there is a directory at every place on the way. -/
theorem follow_of_directories {root : FileTree} {here names : List String}
    (h : ∀ above, above <+: names → above ≠ names → root.IsDirectory (place here above)) :
    root.follow here names = root.follow (place here names) [] := by
  induction names generalizing here with
  | nil => rfl
  | cons name names ih =>
      have hhere : root.IsDirectory here := h [] (List.nil_prefix) (by simp)
      rw [follow_cons hhere, ih]
      · rfl
      intro above habove hne
      exact h (name :: above) (List.prefix_cons_inj name |>.2 habove) (by simpa using hne)

theorem isPresent_follow_nil (root : FileTree) (here : List String) :
    (root.follow here []).isPresent = (root.find? here).isSome := by
  rw [follow]
  cases root.find? here with
  | none => rfl
  | some t => cases t <;> rfl

theorem isDirectory_of_follow_cons {root : FileTree} {here names : List String} {name : String}
    {content : Bytes} (h : root.follow here (name :: names) = .file content) :
    root.IsDirectory here := by
  rw [follow] at h
  cases hfind : root.find? here with
  | none => simp [hfind] at h
  | some t =>
      cases t with
      | file content' => simp [hfind] at h
      | directory children => exact ⟨children, hfind⟩

/-- A file that names lead to is in a directory, under the last of the names. -/
theorem place_of_file {root : FileTree} {here names : List String} {last : String} {content : Bytes}
    (h : root.follow here (names ++ [last]) = .file content) :
    root.IsDirectory (place here names) ∧
      place here (names ++ [last]) = place here names ++ [last] := by
  induction names generalizing here with
  | nil =>
      have hhere := isDirectory_of_follow_cons h
      refine ⟨hhere, ?_⟩
      -- a blank name or a dot leads to a directory, and so does a double dot
      have hdirectory : ∀ above, root.IsDirectory above → root.follow above [] = .directory := by
        rintro above ⟨children, hfind⟩
        simp [follow, hfind]
      rw [List.nil_append, follow_cons hhere] at h
      show advance here last = here ++ [last]
      unfold advance at h ⊢
      split at h
      · rw [hdirectory here hhere] at h
        cases h
      · split at h
        · rw [hdirectory _ (hhere.of_isPrefix (List.dropLast_prefix here))] at h
          cases h
        · rename_i hsame hdouble
          rw [if_neg hsame, if_neg hdouble]
  | cons name names ih =>
      have hhere := isDirectory_of_follow_cons h
      rw [List.cons_append, follow_cons hhere] at h
      exact ih h

/-- The directory that holds a file is where the cleaned path without the last name leads. -/
theorem home_of_file {root : FileTree} {wd : List String} {path : String} {content : Bytes}
    (h : root.files wd path = .file content) :
    root.IsDirectory (placeOf wd path).dropLast ∧
      (placeOf wd path).dropLast =
        place (origin (isRooted path) wd) (directoryOf path).names := by
  have hfollow : root.follow (origin (isRooted path) wd) (segments path) = .file content := by
    unfold files at h
    split at h
    · cases h
    · exact h
  have hsome : segments path ≠ [] := by
    simp [segments, List.splitOn, List.splitOnP_ne_nil]
  rw [← List.dropLast_append_getLast hsome] at hfollow
  obtain ⟨hdirectory, hplace⟩ := place_of_file hfollow
  rw [List.dropLast_append_getLast hsome] at hplace
  rw [placeOf, hplace, List.dropLast_concat, place_directoryOf]
  exact ⟨hdirectory, rfl⟩

/-- What the text of a path leads to. -/
theorem files_text {root : FileTree} {wd : List String} (hroot : root.IsDirectory [])
    {p : Path} (hsome : p.names ≠ []) :
    root.files wd p.text = root.follow (origin p.rooted wd) p.names := by
  have hsegments := segments_text hsome
  have htext : p.text ≠ "" := by
    intro hempty
    have hblank : segments p.text = [""] := by rw [hempty]; rfl
    rw [hsegments] at hblank
    cases hrooted : p.rooted with
    | true => simp [hrooted, hsome] at hblank
    | false =>
        have hnames : p.names = [""] := by simpa [hrooted] using hblank
        have hmem : "" ∈ p.names := by simp [hnames]
        exact (not_slash_of_mem_names hmem).1 rfl
  rw [files, if_neg htext, isRooted_text, hsegments]
  cases hrooted : p.rooted with
  | true => simpa [origin, advance] using follow_cons hroot "" p.names
  | false => rfl

theorem placeOf_text {p : Path} (wd : List String) (hsome : p.names ≠ []) :
    placeOf wd p.text = place (origin p.rooted wd) p.names := by
  rw [placeOf, isRooted_text, segments_text hsome]
  cases hrooted : p.rooted with
  | true => simp [origin, place, advance]
  | false => rfl

end FileTree

end StoreLint
