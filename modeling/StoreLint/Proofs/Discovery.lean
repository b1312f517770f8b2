import Mathlib.Data.List.Find
import StoreLint.Command.Run
import StoreLint.Proofs.Places

/-!
# Which settings are found

Settings are meant to be those of the nearest directory that has any: the directory of the first
program, or else one above it.  They are looked for along a path as it is written, by dropping one
name after the other.  Below the working directory, and along a path from the root, this goes up.
But a relative path has no names left at the working directory, and dropping a double dot goes back
down.

* `FileTree.nearestSettings?` are the settings that are meant.
* `find?_places` says at which places the search looks.
* `nearest_iff` compares the two for a path, and `settings_nearest_iff` for a command.
* `parent_settings_missed` is the smallest case in which they differ.
-/

namespace StoreLint

open StoreLint.Path

/-! ## Settings at a place -/

namespace FileTree

/-- The place of the settings in a directory: under the first of the names that is there. -/
def settingsIn? (root : FileTree) (directory : List String) : Option (List String) :=
  (Settings.fileNames.map fun name => directory ++ [name]).find? fun place =>
    (root.find? place).isSome

/-- The place of the settings in a directory, or else in the nearest directory above that has
any. -/
def nearestSettings? (root : FileTree) (directory : List String) : Option (List String) :=
  directory.inits.reverse.findSome? root.settingsIn?

theorem dropLast_of_settingsIn? {root : FileTree} {directory place : List String}
    (h : root.settingsIn? directory = some place) : place.dropLast = directory := by
  obtain ⟨name, -, rfl⟩ := List.mem_map.1 (List.mem_of_find?_eq_some h)
  exact List.dropLast_concat

end FileTree

/-! ## The paths that are tried -/

namespace Settings

theorem proper_of_mem_fileNames {name : String} (h : name ∈ fileNames) : Proper name := by
  have hall : ∀ name ∈ fileNames, name ≠ "" ∧ name ≠ "." ∧ name ≠ ".." ∧ '/' ∉ name.toList := by
    decide
  obtain ⟨hnonempty, hdot, hdouble, hslash⟩ := hall name h
  exact ⟨hnonempty, hdot, hdouble, hslash⟩

/-- The paths that are tried from a path on. -/
def tried (p : Path) : List Path :=
  p.upward.flatMap fun directory => fileNames.map directory.push

theorem names_tried (p : Path) :
    (tried p).map Path.names = p.names.inits.reverse.flatMap fun above =>
      fileNames.map fun name => above ++ [name] := by
  rw [tried, ← names_upward, List.map_flatMap, List.flatMap_map]
  apply List.flatMap_congr
  intro directory _
  rw [List.map_map]
  apply List.map_congr_left
  intro name hname
  exact names_push_of_proper directory (proper_of_mem_fileNames hname)

theorem exists_of_mem_tried {p q : Path} (h : q ∈ tried p) :
    q.rooted = p.rooted ∧ ∃ above, above <+: p.names ∧ ∃ name, q.names = above ++ [name] := by
  obtain ⟨directory, hdirectory, hq⟩ := List.mem_flatMap.1 h
  obtain ⟨name, hname, rfl⟩ := List.mem_map.1 hq
  have habove : directory.names ∈ p.upward.map Path.names := List.mem_map_of_mem hdirectory
  rw [names_upward, List.mem_reverse, List.mem_inits] at habove
  refine ⟨(rooted_push _ _).trans (rooted_of_mem_upward hdirectory), directory.names, habove, name,
    ?_⟩
  exact names_push_of_proper directory (proper_of_mem_fileNames hname)

theorem tried_of_nil {p : Path} (h : p.names = []) : tried p = fileNames.map p.push := by
  rw [tried, Path.upward, if_pos h, List.flatMap_singleton]

theorem candidates_eq (start : String) :
    candidates start =
      (fileNames.map fun name => ((clean start).push name).text) ++
        (tried (directoryOf start)).map Path.text := by
  simp [candidates, searched, tried, List.map_flatMap, Function.comp_def]

/-- Looking twice into the directory without names makes no difference. -/
theorem find?_text (files : Files) (p : Path) :
    find? files p.text =
      ((tried p).find? fun q => (files q.text).isPresent).map Path.text := by
  have hfirst : (fileNames.map fun name => (p.push name).text) =
      (fileNames.map p.push).map Path.text := by
    rw [List.map_map]
    rfl
  rw [find?, candidates_eq, clean_text, directoryOf_text, hfirst, ← List.map_append,
    List.find?_map]
  congr 1
  by_cases hnone : p.names = []
  · rw [parent_of_nil hnone, tried_of_nil hnone, List.find?_append, Option.or_self]
    rfl
  · have htried : tried p = fileNames.map p.push ++ tried p.parent := by
      rw [tried, Path.upward, if_neg hnone, List.flatMap_cons, tried]
    rw [htried]
    rfl

variable {root : FileTree} {wd : List String} {p : Path}

theorem places_tried (here : List String) :
    (tried p).map (fun q => place here q.names) =
      (p.names.inits.reverse.map (place here)).flatMap fun directory =>
        fileNames.map fun name => directory ++ [name] := by
  have hplaces : (tried p).map (fun q => place here q.names) =
      ((tried p).map Path.names).map (place here) := by
    rw [List.map_map]
    rfl
  rw [hplaces, names_tried, List.map_flatMap, List.flatMap_map]
  apply List.flatMap_congr
  intro above _
  rw [List.map_map]
  apply List.map_congr_left
  intro name hname
  show place here (above ++ [name]) = place here above ++ [name]
  rw [place_append]
  exact advance_of_proper _ (proper_of_mem_fileNames hname)

/-- What a path that is tried leads to. -/
theorem isPresent_of_mem_tried
    (hdirectory : ∀ above, above <+: p.names →
      root.IsDirectory (place (origin p.rooted wd) above)) {q : Path} (hq : q ∈ tried p) :
    (root.files wd q.text).isPresent =
        (root.find? (place (origin p.rooted wd) q.names)).isSome ∧
      placeOf wd q.text = place (origin p.rooted wd) q.names := by
  obtain ⟨hrooted, above, habove, name, hnames⟩ := exists_of_mem_tried hq
  have hsome : q.names ≠ [] := by simp [hnames]
  have hroot : root.IsDirectory [] :=
    (hdirectory [] List.nil_prefix).of_isPrefix List.nil_prefix
  refine ⟨?_, hrooted ▸ FileTree.placeOf_text wd hsome⟩
  rw [FileTree.files_text hroot hsome, hrooted, FileTree.follow_of_directories,
    FileTree.isPresent_follow_nil]
  intro before hbefore hne
  rw [hnames] at hbefore hne
  rcases List.prefix_concat_iff.1 hbefore with hsame | hbefore
  · exact absurd hsame hne
  · exact hdirectory before (hbefore.trans habove)

/-- **Where the search looks:** at the places to which the beginnings of the path lead. -/
theorem find?_places
    (hdirectory : ∀ above, above <+: p.names →
      root.IsDirectory (place (origin p.rooted wd) above)) :
    (find? (root.files wd) p.text).map (placeOf wd) =
      (p.names.inits.reverse.map (place (origin p.rooted wd))).findSome? root.settingsIn? := by
  have htried := fun {q : Path} => isPresent_of_mem_tried hdirectory (q := q)
  have hplaces := List.find?_map (p := fun place => (root.find? place).isSome)
    (f := fun q : Path => place (origin p.rooted wd) q.names) (l := tried p)
  rw [places_tried, List.find?_flatMap] at hplaces
  refine Eq.trans ?_ hplaces.symm
  rw [find?_text, Option.map_map, List.find?_congr fun q hq => (htried hq).1]
  apply Option.map_congr
  intro q hq
  exact (htried (List.mem_of_find?_eq_some hq)).2

end Settings

/-! ## Up and down -/

/-- The place up to which a path climbs before it goes down. -/
def Path.summit (here : List String) (p : Path) : List String :=
  place here (List.replicate p.climbs "..")

/-- Climbing passes the places between the summit and where it started. -/
theorem climb_iff {here directory : List String} {climbs : Nat} :
    (∃ above, above <+: List.replicate climbs ".." ∧ place here above = directory) ↔
      place here (List.replicate climbs "..") <+: directory ∧ directory <+: here := by
  constructor
  · rintro ⟨above, habove, rfl⟩
    obtain ⟨hle, hsame⟩ := List.prefix_replicate_iff.1 habove
    rw [hsame, place_double, place_double]
    exact ⟨List.take_prefix_take_left (by omega), List.take_prefix _ _⟩
  · rintro ⟨hsummit, hhere⟩
    have hlength := hsummit.length_le
    rw [place_double, List.length_take] at hlength
    refine ⟨List.replicate (here.length - directory.length) "..", ?_, ?_⟩
    · rw [List.prefix_replicate_iff, List.length_replicate]
      exact ⟨by omega, rfl⟩
    · have hle := hhere.length_le
      rw [place_double, Nat.sub_sub_self hle, ← List.prefix_iff_eq_take.1 hhere]

theorem head?_inits_reverse (names : List String) : names.inits.reverse.head? = some names := by
  rw [List.head?_reverse]
  induction names with
  | nil => rfl
  | cons name names ih =>
      rw [List.inits_cons, List.getLast?_cons, List.getLast?_map, ih]
      rfl

/-- A path climbs to its summit and goes down from there. -/
theorem Path.place_below (p : Path) (here : List String) {down : List String}
    (h : down <+: p.below) :
    place here (List.replicate p.climbs ".." ++ down) = p.summit here ++ down := by
  rw [summit, place_append]
  exact place_of_proper (fun name hname => p.proper name (h.subset hname)) _

theorem Path.place_names (p : Path) (here : List String) :
    place here p.names = p.summit here ++ p.below :=
  p.place_below here List.prefix_rfl

variable {root : FileTree} {here : List String} {p : Path}

/-- All beginnings of a path lead to directories, if the path does and starts in one. -/
theorem isDirectory_of_isPrefix (hhere : root.IsDirectory here)
    (hhome : root.IsDirectory (place here p.names)) {above : List String}
    (habove : above <+: p.names) : root.IsDirectory (place here above) := by
  rw [p.place_names] at hhome
  rcases List.prefix_or_prefix_of_prefix habove (List.prefix_append _ p.below) with hup | hpast
  · exact hhere.of_isPrefix (climb_iff.1 ⟨above, hup, rfl⟩).2
  · obtain ⟨down, rfl⟩ := hpast
    have hdown : down <+: p.below := (List.prefix_append_right_inj _).1 habove
    rw [p.place_below here hdown]
    exact hhome.of_isPrefix ((List.prefix_append_right_inj _).2 hdown)

/-- The places along a path and the places above its end are the same as far up as its summit. -/
theorem Path.places (p : Path) (here : List String) :
    ∃ below, p.names.inits.reverse.map (place here) =
        below ++ (List.replicate p.climbs "..").inits.reverse.map (place here) ∧
      (place here p.names).inits.reverse = below ++ (p.summit here).inits.reverse ∧
      ∀ directory ∈ below, p.summit here <+: directory := by
  refine ⟨(p.below.inits.tail.map (p.summit here ++ ·)).reverse, ?_, ?_, ?_⟩
  · rw [names, List.inits_append, List.reverse_append, List.map_append, List.map_reverse,
      List.map_map]
    congr 2
    apply List.map_congr_left
    intro down hdown
    exact p.place_below here ((List.mem_inits _ _).1 (List.mem_of_mem_tail hdown))
  · rw [p.place_names, List.inits_append, List.reverse_append]
  · intro directory hdirectory
    obtain ⟨down, -, rfl⟩ := List.mem_map.1 (List.mem_reverse.1 hdirectory)
    exact List.prefix_append _ _

theorem findSome?_of_head? {α β : Type} {f : α → Option β} {xs : List α} {x : α} {y : β}
    (hhead : xs.head? = some x) (hx : f x = some y) : xs.findSome? f = some y := by
  obtain ⟨rest, rfl⟩ := List.head?_eq_some_iff.1 hhead
  simp [hx]

/-- Two ways that part at a top and do not meet again lead to the same find if and only if there is
one on the way to the top, or none at all. -/
theorem findSome?_eq_iff_of_parting {α β : Type} {f : α → Option β} {below down up : List α}
    {top : α} (hf : ∀ x x' y, f x = some y → f x' = some y → x = x')
    (hdown : down.head? = some top) (hup : up.head? = some top)
    (hpart : ∀ x ∈ down, x ∈ up → x = top) :
    (below ++ down).findSome? f = (below ++ up).findSome? f ↔
      (∃ x, (x ∈ below ∨ x = top) ∧ f x ≠ none) ∨
      ∀ x, (x ∈ below ∨ x ∈ up) ∨ x ∈ down → f x = none := by
  rw [List.findSome?_append, List.findSome?_append]
  cases hbelow : below.findSome? f with
  | some y =>
      obtain ⟨x, hx, hy⟩ := List.exists_of_findSome?_eq_some hbelow
      have hfound : ∃ x, (x ∈ below ∨ x = top) ∧ f x ≠ none := ⟨x, .inl hx, by simp [hy]⟩
      simp only [Option.some_or, hfound, true_or]
  | none =>
      rw [Option.none_or, Option.none_or]
      rw [List.findSome?_eq_none_iff] at hbelow
      cases htop : f top with
      | some y =>
          have hfound : ∃ x, (x ∈ below ∨ x = top) ∧ f x ≠ none := ⟨top, .inr rfl, by simp [htop]⟩
          rw [findSome?_of_head? hdown htop, findSome?_of_head? hup htop]
          simp only [hfound, true_or]
      | none =>
          constructor
          · intro hsame
            -- a find on both ways is at the top, where there is none
            have hnone : down.findSome? f = none := by
              by_contra hne
              obtain ⟨y, hy⟩ := Option.ne_none_iff_exists'.1 hne
              obtain ⟨x, hx, hxy⟩ := List.exists_of_findSome?_eq_some hy
              obtain ⟨x', hx', hxy'⟩ := List.exists_of_findSome?_eq_some (hsame.symm.trans hy)
              obtain rfl := hf x x' y hxy hxy'
              rw [hpart x hx hx', htop] at hxy
              cases hxy
            rw [hnone, eq_comm, List.findSome?_eq_none_iff] at hsame
            rw [List.findSome?_eq_none_iff] at hnone
            right
            rintro x ((hx | hx) | hx)
            · exact hbelow x hx
            · exact hsame x hx
            · exact hnone x hx
          · rintro (⟨x, hx | rfl, hne⟩ | hnone)
            · exact absurd (hbelow x hx) hne
            · exact absurd htop hne
            · rw [List.findSome?_eq_none_iff.2 fun x hx => hnone x (.inr hx),
                List.findSome?_eq_none_iff.2 fun x hx => hnone x (.inl (.inr hx))]

/-- **When the nearest settings are found.**  The search and the way up from the place of the path
agree as far as the summit.  From there the search goes back to where the path starts. -/
theorem nearest_iff :
    (p.names.inits.reverse.map (place here)).findSome? root.settingsIn? =
        root.nearestSettings? (place here p.names) ↔
      (∃ directory, p.summit here <+: directory ∧ directory <+: place here p.names ∧
        root.settingsIn? directory ≠ none) ∨
      ∀ directory, directory <+: place here p.names ∨
          p.summit here <+: directory ∧ directory <+: here →
        root.settingsIn? directory = none := by
  obtain ⟨below, hsearch, hupward, hbelow⟩ := p.places here
  have hclimb : ∀ directory,
      directory ∈ (List.replicate p.climbs "..").inits.reverse.map (place here) ↔
        p.summit here <+: directory ∧ directory <+: here := by
    intro directory
    rw [summit, ← climb_iff]
    simp
  have hhome : ∀ directory, directory <+: place here p.names ↔
      directory ∈ below ∨ directory <+: p.summit here := by
    intro directory
    rw [← List.mem_inits, ← List.mem_reverse, hupward]
    simp
  have hbetween : ∀ directory, directory ∈ below ∨ directory = p.summit here ↔
      p.summit here <+: directory ∧ directory <+: place here p.names := by
    intro directory
    rw [hhome]
    constructor
    · rintro (hdirectory | rfl)
      · exact ⟨hbelow directory hdirectory, .inl hdirectory⟩
      · exact ⟨List.prefix_rfl, .inr List.prefix_rfl⟩
    · rintro ⟨habove, hdirectory | hdirectory⟩
      · exact .inl hdirectory
      · exact .inr (hdirectory.eq_of_length_le habove.length_le)
  have hfirst : ((List.replicate p.climbs "..").inits.reverse.map (place here)).head? =
      some (p.summit here) := by
    rw [List.head?_map, head?_inits_reverse]
    rfl
  rw [FileTree.nearestSettings?, hsearch, hupward,
    findSome?_eq_iff_of_parting ?_ hfirst (head?_inits_reverse _) ?_]
  · simp only [hbetween, hclimb, List.mem_reverse, List.mem_inits, ← hhome, and_assoc]
  · intro directory directory' found hfound hfound'
    rw [← FileTree.dropLast_of_settingsIn? hfound, FileTree.dropLast_of_settingsIn? hfound']
  · intro directory hdown hup
    have hup' : directory <+: p.summit here := by simpa using hup
    exact hup'.eq_of_length_le ((hclimb directory).1 hdown).1.length_le

/-- The search along a path, from a working directory to a directory. -/
theorem find?_along {wd : List String} (hwd : root.IsDirectory wd)
    (hhome : root.IsDirectory (place (origin p.rooted wd) p.names)) :
    (Settings.find? (root.files wd) p.text).map (placeOf wd) =
      (p.names.inits.reverse.map (place (origin p.rooted wd))).findSome? root.settingsIn? := by
  have horigin : root.IsDirectory (origin p.rooted wd) := by
    rw [origin]
    split
    · exact hwd.of_isPrefix List.nil_prefix
    · exact hwd
  apply Settings.find?_places
  intro above habove
  exact isDirectory_of_isPrefix horigin hhome habove

/-- Along a path from the root the nearest settings are always found. -/
theorem find?_nearest_of_rooted {wd : List String} (hrooted : p.rooted = true)
    (hwd : root.IsDirectory wd) (hhome : root.IsDirectory (place [] p.names)) :
    (Settings.find? (root.files wd) p.text).map (placeOf wd) =
      root.nearestSettings? (place [] p.names) := by
  have horigin : origin p.rooted wd = [] := by simp [origin, hrooted]
  have hsummit : p.summit [] = [] := by
    rw [summit, p.climbs_of_rooted hrooted]
    rfl
  rw [find?_along hwd (horigin ▸ hhome), horigin, nearest_iff, hsummit]
  by_cases hsome : ∃ directory, [] <+: directory ∧ directory <+: place [] p.names ∧
      root.settingsIn? directory ≠ none
  · exact .inl hsome
  right
  intro directory hdirectory
  by_contra hne
  refine hsome ⟨directory, List.nil_prefix, ?_, hne⟩
  rcases hdirectory with hdirectory | ⟨-, hdirectory⟩
  · exact hdirectory
  · exact hdirectory.trans List.nil_prefix

/-! ## Commands -/

namespace World

/-- A command that sees a file tree from one of its directories. -/
structure At (w : World) (root : FileTree) (wd : List String) : Prop where
  files : w.files = root.files wd
  workingDirectory : w.workingDirectory = (Path.mk true wd).text
  isDirectory : root.IsDirectory wd
  proper : ∀ name ∈ wd, Proper name

/-- The path of the settings that are found for a command. -/
def settingsPath? (w : World) (files : List String) : Option String :=
  Settings.find? w.files (w.searchStart files)

/-- The settings at a path that was found, or those that hold if none was. -/
def loaded (w : World) : Option String → Except Bytes Loaded
  | none => .ok ⟨{}, none⟩
  | some path =>
    match Settings.loadFile w.files path w.libraries.readers with
    | .error e => .error (utf8 "loading config: " ++ e.message)
    | .ok s => .ok ⟨s, some path⟩

/-- The directory of the first program, or the working directory if no files are given. -/
def home (wd : List String) : List String → List String
  | [] => wd
  | file :: _ => (placeOf wd file).dropLast

variable {w : World} {root : FileTree} {wd : List String}

theorem settings_eq_loaded {flags : Flags} (files : List String) (hsearch : flags.noConfig = false)
    (hconfig : flags.config = "") : w.settings flags files = w.loaded (w.settingsPath? files) := by
  rw [settings, if_neg (by simp [hsearch]), if_neg (by simp [hconfig]), settingsPath?,
    Settings.load]
  cases Settings.find? w.files (w.searchStart files) with
  | none => rfl
  | some path =>
      rw [Option.map_some, loaded]
      cases Settings.loadFile w.files path w.libraries.readers <;> rfl

theorem file_of_sources {file : String} {files : List String} {sources : List Source}
    (h : w.sources (file :: files) = .ok sources) : ∃ content, w.files file = .file content := by
  rw [World.sources, if_neg (by simp), List.mapM_cons, Files.read] at h
  cases hfile : w.files file with
  | file content => exact ⟨content, rfl⟩
  | directory | absent | blocked => simp [hfile, Except.map, bind, Except.bind] at h

end World

/-- A tree with settings at its root, and a directory that holds a program and no settings. -/
def FileTree.nested : FileTree :=
  .directory
    [("deadstore.json", .file (utf8 "\x7b\"failOnDeadStore\": true\x7d")),
      ("sub", .directory [("p.ds", .file (utf8 "x = a"))])]

/-- A command in that directory. -/
def World.nested (arguments : List String) : World where
  arguments := arguments
  input := utf8 "x = a"
  workingDirectory := "/sub"
  files := FileTree.nested.files ["sub"]
  toolchain := ""

theorem World.nested_at (arguments : List String) :
    (World.nested arguments).At FileTree.nested ["sub"] where
  files := rfl
  workingDirectory := by
    show "/sub" = (Path.mk true ["sub"]).text
    decide
  isDirectory := ⟨_, rfl⟩
  proper := by decide

open World

/-- **Which settings a command runs with.**  They are the nearest ones for a program from the
standard input and for a file that is named from the root.  For a file that is named from the
working directory they are if and only if a directory between the summit of its path and the file
has settings, or if none above the file has any, and none between the summit and the working
directory. -/
theorem settings_nearest_iff {w : World} {root : FileTree} {wd : List String} (hw : w.At root wd)
    {a : Arguments} {sources : List Source} (hread : w.sources a.files = .ok sources)
    (hsearch : a.flags.noConfig = false) (hconfig : a.flags.config = "") :
    w.settings a.flags a.files = w.loaded (w.settingsPath? a.files) ∧
      ((w.settingsPath? a.files).map (placeOf wd) = root.nearestSettings? (home wd a.files) ↔
        ∀ file ∈ a.files.head?, isRooted file = false →
          (∃ directory, (directoryOf file).summit wd <+: directory ∧
            directory <+: home wd a.files ∧ root.settingsIn? directory ≠ none) ∨
          ∀ directory, directory <+: home wd a.files ∨
              (directoryOf file).summit wd <+: directory ∧ directory <+: wd →
            root.settingsIn? directory = none) := by
  refine ⟨settings_eq_loaded a.files hsearch hconfig, ?_⟩
  generalize a.files = files at hread
  rw [settingsPath?, hw.files]
  cases files with
  | nil =>
      have hplace : place [] (Path.mk true wd).names = wd := by
        rw [names_mk hw.proper]
        exact place_of_proper hw.proper []
      have hfound := find?_nearest_of_rooted (rooted_mk true wd) hw.isDirectory
        (hplace.symm ▸ hw.isDirectory)
      simp only [hplace, ← hw.workingDirectory] at hfound
      simpa [searchStart, home] using hfound
  | cons file rest =>
      obtain ⟨content, hfile⟩ := file_of_sources hread
      rw [hw.files] at hfile
      obtain ⟨hdirectory, hplace⟩ := FileTree.home_of_file hfile
      have hrooted : (directoryOf file).rooted = isRooted file := rooted_mk _ _
      rw [searchStart, home]
      rw [hplace] at hdirectory ⊢
      rw [← hrooted] at hdirectory ⊢
      cases hcase : (directoryOf file).rooted with
      | true =>
          rw [hcase] at hdirectory
          have hfound := find?_nearest_of_rooted hcase hw.isDirectory hdirectory
          simpa [origin, hcase, ← hrooted] using hfound
      | false =>
          rw [find?_along hw.isDirectory hdirectory, hcase, nearest_iff]
          simp [origin, hcase, ← hrooted]

/-- The settings at the summit of a path are found. -/
theorem settings_nearest_iff_summit :
    (World.nested []).At FileTree.nested ["sub"] ∧
      (World.nested []).sources ["../sub/p.ds"] = .ok [⟨"../sub/p.ds", utf8 "x = a"⟩] ∧
      (World.nested []).settings {} ["../sub/p.ds"] =
        (World.nested []).loaded ((World.nested []).settingsPath? ["../sub/p.ds"]) ∧
      ((World.nested []).settingsPath? ["../sub/p.ds"]).map (placeOf ["sub"]) =
        FileTree.nested.nearestSettings? (home ["sub"] ["../sub/p.ds"]) := by
  have hread : (World.nested []).sources ["../sub/p.ds"] =
      .ok [⟨"../sub/p.ds", utf8 "x = a"⟩] := by
    decide +kernel
  have hsummit : (directoryOf "../sub/p.ds").summit ["sub"] = [] := by decide +kernel
  obtain ⟨hloaded, hiff⟩ :=
    settings_nearest_iff (World.nested_at []) (a := ⟨{}, ["../sub/p.ds"]⟩) hread rfl rfl
  refine ⟨World.nested_at [], hread, hloaded, hiff.2 ?_⟩
  intro file hfile _
  obtain rfl : "../sub/p.ds" = file := by simpa using hfile
  left
  refine ⟨[], ?_, List.nil_prefix, by decide +kernel⟩
  rw [hsummit]

/-- **Settings above the working directory are missed** for a file that is named from there.  They
are found when the same file is named from the root or read from the standard input. -/
theorem parent_settings_missed :
    FileTree.nested.nearestSettings? (home ["sub"] ["p.ds"]) = some ["deadstore.json"] ∧
      (World.nested []).settingsPath? ["p.ds"] = none ∧
      (World.nested ["check", "p.ds"]).run.status = 0 ∧
      (World.nested ["check", "/sub/p.ds"]).run.status = 1 ∧
      (World.nested ["check"]).run.status = 1 := by
  decide +kernel

end StoreLint
