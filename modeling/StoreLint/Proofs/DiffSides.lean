import StoreLint.Text.LineDiff
import StoreLint.Token.Scanner

/-!
# The two sides of a comparison

A comparison of two texts is meant to show all of both: the lines with a blank or a minus in front
are the expected text, and those with a blank or a plus the actual one.  But a line that is not
there is compared as if it were an empty one.  So an empty line behind the end of the other text
counts as the same in both, and is shown on both sides.

* `EqualUpTo`: two lists differ in copies of one item at the end only.
* `shown` reads the lines with certain marks back from a comparison.
* `marked_compareLine` says which lines the comparison of one number adds, for any marks (`added`).
* `marked_expected`, `marked_actual`, `marked_changes`: what follows for each side of two lists of
  lines, and for the lines that are shown as different.
* `lineDiff_sides` puts these together for two texts, and `final_feed_unshown` has two texts whose
  difference is not shown.
-/

namespace StoreLint

/-! ## Lines -/

theorem lines_append_lineFeed {line : Bytes} (h : lineFeed ∉ line) (rest : Bytes) :
    lines (line ++ lineFeed :: rest) = line :: lines rest :=
  List.splitOn_append_cons_self_of_not_mem h rest

/-- No line holds a line feed. -/
def Unbroken (ls : List Bytes) : Prop :=
  ∀ line ∈ ls, lineFeed ∉ line

theorem unbroken_lines (text : Bytes) : Unbroken (lines text) :=
  fun _ hline => not_mem_of_mem_splitOn hline

theorem Unbroken.head {line : Bytes} {ls : List Bytes} (h : Unbroken (line :: ls)) :
    ∀ l ∈ some line, lineFeed ∉ l := by
  intro l hl
  cases hl
  exact h line (by simp)

theorem Unbroken.tail {line : Bytes} {ls : List Bytes} (h : Unbroken (line :: ls)) : Unbroken ls :=
  fun l hl => h l (by simp [hl])

/-- One list is the other one, with some copies of an item behind it. -/
def EqualUpTo {α : Type} (filler : α) (xs ys : List α) : Prop :=
  ∃ n, xs = ys ++ List.replicate n filler ∨ ys = xs ++ List.replicate n filler

namespace EqualUpTo

variable {α : Type} {filler x y : α} {xs ys : List α}

theorem comm : EqualUpTo filler xs ys ↔ EqualUpTo filler ys xs :=
  exists_congr fun _ => or_comm

theorem nil_right : EqualUpTo filler xs [] ↔ ∀ z ∈ xs, z = filler := by
  constructor
  · rintro ⟨n, hxs | hnil⟩
    · simp [hxs]
    · simp [List.append_eq_nil_iff.1 hnil.symm]
  · intro h
    exact ⟨xs.length, .inl (by simpa [List.eq_replicate_iff] using h)⟩

theorem cons_cons : EqualUpTo filler (x :: xs) (y :: ys) ↔ x = y ∧ EqualUpTo filler xs ys := by
  by_cases hxy : x = y
  · simp [EqualUpTo, hxy]
  · simp [EqualUpTo, hxy, Ne.symm hxy]

end EqualUpTo

/-- Line feeds at the end of a text are empty lines at the end of its lines. -/
theorem lines_append_replicate (text : Bytes) (n : Nat) :
    lines (text ++ List.replicate n lineFeed) = lines text ++ List.replicate n [] := by
  induction n generalizing text with
  | zero => simp
  | succ n ih =>
    have hone : lines (text ++ [lineFeed]) = lines text ++ [[]] :=
      List.splitOn_append_cons_self text []
    rw [List.replicate_succ, List.append_cons, ih, hone]
    simp [List.replicate_succ]

theorem lines_inj {text text' : Bytes} : lines text = lines text' ↔ text = text' := by
  constructor
  · intro h
    calc text = [lineFeed].intercalate (lines text) := (List.intercalate_splitOn lineFeed).symm
      _ = [lineFeed].intercalate (lines text') := by rw [h]
      _ = text' := List.intercalate_splitOn lineFeed
  · exact congrArg lines

theorem equalUpTo_lines {e a : Bytes} :
    EqualUpTo [] (lines e) (lines a) ↔ EqualUpTo lineFeed e a := by
  simp [EqualUpTo, ← lines_append_replicate, lines_inj]

namespace Comparison

/-! ## Reading a comparison -/

/-- The mark of a line that is the same in both texts. -/
def sameMark : UInt8 := 0x20

/-- The mark of a line of the expected text. -/
def expectedMark : UInt8 := 0x2D

/-- The mark of a line of the actual text. -/
def actualMark : UInt8 := 0x2B

/-- What stands behind the mark of a line, if it has one of the marks. -/
def unmarked? (marks : Bytes) : Bytes → Option Bytes
  | [] => none
  | mark :: line => if mark ∈ marks then some line else none

/-- The lines of a text that have one of the marks, without it. -/
def marked (marks text : Bytes) : List Bytes :=
  (lines text).filterMap (unmarked? marks)

/-- The lines of a comparison that have one of the marks, without it and without the head. -/
def shown (marks comparison : Bytes) : List Bytes :=
  ((lines comparison).drop 2).filterMap (unmarked? marks)

/-- A line that is shown if its mark is one of the marks. -/
def kept (marks : Bytes) (mark : UInt8) (line : Option Bytes) : List Bytes :=
  if mark ∈ marks then line.toList else []

@[simp] theorem marked_nil (marks : Bytes) : marked marks [] = [] := rfl

/-- A marked line is read back, whatever follows it. -/
theorem marked_markedLine (marks : Bytes) {sign : String} (mark : UInt8)
    (hsign : utf8 sign = [mark]) (hmark : mark ≠ lineFeed) {line : Bytes}
    (hline : lineFeed ∉ line) (rest : Bytes) :
    marked marks (markedLine sign line ++ rest) =
      kept marks mark (some line) ++ marked marks rest := by
  have htext : markedLine sign line ++ rest = (mark :: line) ++ lineFeed :: rest := by
    have hend : utf8 "\n" = [lineFeed] := rfl
    simp [markedLine, hsign, hend]
  have hfirst : lineFeed ∉ mark :: line := by simp [hline, Ne.symm hmark]
  rw [marked, htext, lines_append_lineFeed hfirst, List.filterMap_cons]
  by_cases hmem : mark ∈ marks <;> simp [unmarked?, kept, marked, hmem]

/-! ## One number -/

/-- The marked lines that the comparison of the lines with one number adds: the line that is the
same in both texts, or the line of each text that has one. -/
def added (marks : Bytes) (expected actual : Option Bytes) : List Bytes :=
  if expected.getD [] = actual.getD [] then kept marks sameMark (some (expected.getD []))
  else kept marks expectedMark expected ++ kept marks actualMark actual

theorem marked_compareLine (marks : Bytes) {expected actual : Option Bytes}
    (hexpected : ∀ line ∈ expected, lineFeed ∉ line) (hactual : ∀ line ∈ actual, lineFeed ∉ line)
    (rest : Bytes) :
    marked marks (compareLine expected actual ++ rest) =
      added marks expected actual ++ marked marks rest := by
  unfold compareLine added
  by_cases hsame : expected.getD [] = actual.getD []
  · have hline : lineFeed ∉ expected.getD [] := by
      cases expected with
      | none => simp
      | some line => exact hexpected line rfl
    rw [if_pos hsame, if_pos hsame, marked_markedLine marks sameMark rfl (by decide) hline]
  · rw [if_neg hsame, if_neg hsame]
    cases expected with
    | none =>
      cases actual with
      | none => exact absurd rfl hsame
      | some a =>
        have ha :=
          marked_markedLine marks actualMark (rfl : utf8 "+" = _) (by decide) (hactual a rfl)
        simp [ha, kept]
    | some e =>
      have he :=
        marked_markedLine marks expectedMark (rfl : utf8 "-" = _) (by decide) (hexpected e rfl)
      cases actual with
      | none => simp [he, kept]
      | some a =>
        have ha :=
          marked_markedLine marks actualMark (rfl : utf8 "+" = _) (by decide) (hactual a rfl)
        simp [he, ha]

/-- A line of the expected text is on the expected side. -/
theorem added_expected_some (e : Bytes) (actual : Option Bytes) :
    added [sameMark, expectedMark] (some e) actual = [e] := by
  by_cases h : e = actual.getD [] <;> simp [added, kept, h, sameMark, expectedMark, actualMark]

/-- Where the expected text has ended, an empty line is on the expected side, and no other. -/
theorem added_expected_none (a : Bytes) :
    added [sameMark, expectedMark] none (some a) = if a = [] then [[]] else [] := by
  by_cases h : a = []
  · simp [added, kept, h]
  · simp [added, kept, h, Ne.symm h, sameMark, expectedMark, actualMark]

/-- Exchanging the texts exchanges the sides. -/
theorem added_actual (expected actual : Option Bytes) :
    added [sameMark, actualMark] expected actual =
      added [sameMark, expectedMark] actual expected := by
  by_cases h : expected.getD [] = actual.getD []
  · simp [added, kept, h]
  · simp [added, kept, h, Ne.symm h, sameMark, expectedMark, actualMark]

/-- Lines that differ are shown as different. -/
theorem added_changes_eq_nil_iff (expected actual : Option Bytes) :
    added [expectedMark, actualMark] expected actual = [] ↔ expected.getD [] = actual.getD [] := by
  by_cases h : expected.getD [] = actual.getD []
  · simp [added, kept, h, sameMark, expectedMark, actualMark]
  · have hsome : ¬ (expected = none ∧ actual = none) := by
      rintro ⟨rfl, rfl⟩
      exact h rfl
    simpa [added, kept, h] using hsome

/-! ## All numbers -/

variable {es as : List Bytes}

/-- The expected side has the expected lines, and then the empty ones that the actual text has
behind their end. -/
theorem marked_expected (hes : Unbroken es) (has : Unbroken as) :
    marked [sameMark, expectedMark] (compareLines es as) =
      es ++ (as.drop es.length).filter (· = []) := by
  fun_induction compareLines es as with
  | case1 => rfl
  | case2 e es ih =>
    rw [marked_compareLine _ hes.head (by simp), ih hes.tail has, added_expected_some]
    simp
  | case3 a as ih =>
    rw [marked_compareLine _ (by simp) has.head, ih hes has.tail, added_expected_none]
    by_cases ha : a = [] <;> simp [ha]
  | case4 e es a as ih =>
    rw [marked_compareLine _ hes.head has.head, ih hes.tail has.tail, added_expected_some]
    simp

theorem marked_exchanged (hes : Unbroken es) (has : Unbroken as) :
    marked [sameMark, actualMark] (compareLines es as) =
      marked [sameMark, expectedMark] (compareLines as es) := by
  fun_induction compareLines es as with
  | case1 => simp [compareLines]
  | case2 e es ih =>
    rw [compareLines, marked_compareLine _ hes.head (by simp),
      marked_compareLine _ (by simp) hes.head, added_actual, ih hes.tail has]
  | case3 a as ih =>
    rw [compareLines, marked_compareLine _ (by simp) has.head,
      marked_compareLine _ has.head (by simp), added_actual, ih hes has.tail]
  | case4 e es a as ih =>
    rw [compareLines, marked_compareLine _ hes.head has.head,
      marked_compareLine _ has.head hes.head, added_actual, ih hes.tail has.tail]

/-- The actual side has the actual lines, and then the empty ones that the expected text has behind
their end. -/
theorem marked_actual (hes : Unbroken es) (has : Unbroken as) :
    marked [sameMark, actualMark] (compareLines es as) =
      as ++ (es.drop as.length).filter (· = []) := by
  rw [marked_exchanged hes has, marked_expected has hes]

/-- Nothing is shown as different if and only if the lists of lines differ in empty lines at the end
only. -/
theorem marked_changes (hes : Unbroken es) (has : Unbroken as) :
    marked [expectedMark, actualMark] (compareLines es as) = [] ↔ EqualUpTo [] es as := by
  fun_induction compareLines es as with
  | case1 => simp [EqualUpTo.nil_right]
  | case2 e es ih =>
    rw [marked_compareLine _ hes.head (by simp), List.append_eq_nil_iff, added_changes_eq_nil_iff,
      ih hes.tail has, EqualUpTo.nil_right, EqualUpTo.nil_right]
    simp
  | case3 a as ih =>
    rw [marked_compareLine _ (by simp) has.head, List.append_eq_nil_iff, added_changes_eq_nil_iff,
      ih hes has.tail, EqualUpTo.comm, EqualUpTo.nil_right, EqualUpTo.comm, EqualUpTo.nil_right,
      List.forall_mem_cons]
    exact and_congr_left' eq_comm
  | case4 e es a as ih =>
    rw [marked_compareLine _ hes.head has.head, List.append_eq_nil_iff, added_changes_eq_nil_iff,
      ih hes.tail has.tail, EqualUpTo.cons_cons]
    simp

/-! ## Texts -/

/-- Below its head of two lines, a comparison is that of the lines. -/
theorem lines_lineDiff (e a : Bytes) :
    lines (lineDiff e a) =
      utf8 "--- expected" :: utf8 "+++ actual" :: lines (compareLines (lines e) (lines a)) := by
  have hhead : lineDiff e a = utf8 "--- expected" ++ lineFeed ::
      (utf8 "+++ actual" ++ lineFeed :: compareLines (lines e) (lines a)) := rfl
  rw [hhead, lines_append_lineFeed (by decide), lines_append_lineFeed (by decide)]

theorem shown_lineDiff (marks e a : Bytes) :
    shown marks (lineDiff e a) = marked marks (compareLines (lines e) (lines a)) := by
  rw [shown, lines_lineDiff]
  rfl

/-- **What a comparison of two texts shows.**  Below the head, the lines with a blank or a minus are
the lines of the expected text, followed by an empty line for each empty line that the actual text
has behind its end; and the other way round for a blank or a plus.  So a text is read back if and
only if the other one has no empty line behind its end.  No line is shown as different if and only
if the texts differ in line feeds at the end only. -/
theorem lineDiff_sides (e a : Bytes) :
    (lines (lineDiff e a)).take 2 = [utf8 "--- expected", utf8 "+++ actual"] ∧
      shown [sameMark, expectedMark] (lineDiff e a) =
        lines e ++ ((lines a).drop (lines e).length).filter (· = []) ∧
      shown [sameMark, actualMark] (lineDiff e a) =
        lines a ++ ((lines e).drop (lines a).length).filter (· = []) ∧
      (shown [sameMark, expectedMark] (lineDiff e a) = lines e ↔
        [] ∉ (lines a).drop (lines e).length) ∧
      (shown [sameMark, actualMark] (lineDiff e a) = lines a ↔
        [] ∉ (lines e).drop (lines a).length) ∧
      (shown [expectedMark, actualMark] (lineDiff e a) = [] ↔ EqualUpTo lineFeed e a) := by
  have hexpected := marked_expected (unbroken_lines e) (unbroken_lines a)
  have hactual := marked_actual (unbroken_lines e) (unbroken_lines a)
  have hchanges := marked_changes (unbroken_lines e) (unbroken_lines a)
  rw [← shown_lineDiff] at hexpected hactual hchanges
  have hkept : ∀ ls : List Bytes, ls.filter (· = []) = [] ↔ [] ∉ ls := by
    intro ls
    rw [List.filter_eq_nil_iff]
    exact ⟨fun h hmem => h [] hmem rfl,
      fun h line hline hempty => h (of_decide_eq_true hempty ▸ hline)⟩
  refine ⟨by simp [lines_lineDiff], hexpected, hactual, ?_, ?_, hchanges.trans equalUpTo_lines⟩
  · rw [hexpected, List.append_right_eq_self, hkept]
  · rw [hactual, List.append_right_eq_self, hkept]

/-- **A line feed at the end is not shown.**  The texts differ, but every line counts as the same in
both, and the expected text seems to have the empty line too. -/
theorem final_feed_unshown :
    utf8 "a" ≠ utf8 "a\n" ∧
      shown [sameMark, expectedMark] (lineDiff (utf8 "a") (utf8 "a\n")) ≠ lines (utf8 "a") ∧
      shown [expectedMark, actualMark] (lineDiff (utf8 "a") (utf8 "a\n")) = [] := by
  refine ⟨by decide, ?_, ?_⟩
  · rw [shown_lineDiff, marked_expected (unbroken_lines _) (unbroken_lines _)]
    decide
  · rw [shown_lineDiff, marked_changes (unbroken_lines _) (unbroken_lines _), equalUpTo_lines]
    exact ⟨1, .inr rfl⟩

end Comparison

end StoreLint
