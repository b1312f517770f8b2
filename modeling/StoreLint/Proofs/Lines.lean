import StoreLint.Diagnostic.Listing
import StoreLint.Proofs.Lexemes

/-!
# Lines and columns of a text

The scanner counts lines and columns while it goes through a text, and a listing cuts the text into
lines of its own to show them.  This file defines the lines of a text once, apart from both, and
compares the two with it.

* `numberedLines`: the lines of a text.  A line ends at a line feed, at a carriage return, or at the
  two together.
* `TextAt`: from a place on, a certain text is left.  The scanner keeps its place in this sense
  (`Scanner.PlacedIn`) when it skips blanks and when it reads a token.  So every token stands where
  it says, and so does the piece that an error is about (`stands_of_tokens`, `stands_of_error`).
* `LinesAgree`: no carriage return comes between the lines that a listing shows and these.  Then the
  listing shows the line with the given number (`LinesAgree.sourceLine_eq`).
-/

namespace StoreLint

/-- The lines of a text.  Behind the last line end there is one more line, which may be empty. -/
def numberedLines : Bytes → List Bytes
  | [] => [[]]
  | b :: rest =>
    if b = lineFeed then [] :: numberedLines rest
    else if b = carriageReturn then
      match rest with
      | [] => [[], []]
      | c :: rest' =>
        if c = lineFeed then [] :: numberedLines rest' else [] :: numberedLines (c :: rest')
    else (numberedLines rest).modifyHead (b :: ·)

/-- Is the byte none of those that end a line? -/
def InLine (b : UInt8) : Prop :=
  b ≠ lineFeed ∧ b ≠ carriageReturn

theorem inLine_of_not_blank {b : UInt8} (h : isBlank b = false) : InLine b := by
  simp only [isBlank, Bool.or_eq_false_iff, beq_eq_false_iff_ne] at h
  exact ⟨h.1.2, h.2⟩

theorem numberedLines_lineFeed (rest : Bytes) :
    numberedLines (lineFeed :: rest) = [] :: numberedLines rest := by
  rw [numberedLines.eq_def]
  exact if_pos rfl

theorem numberedLines_both (rest : Bytes) :
    numberedLines (carriageReturn :: lineFeed :: rest) = [] :: numberedLines rest := by
  rw [numberedLines.eq_def]
  rfl

/-- A carriage return ends a line unless a line feed behind it does. -/
theorem numberedLines_return {rest : Bytes} (h : rest.head? ≠ some lineFeed) :
    numberedLines (carriageReturn :: rest) = [] :: numberedLines rest := by
  cases rest with
  | nil => rfl
  | cons c rest =>
      rw [numberedLines.eq_def]
      exact if_neg fun hc => h (congrArg some hc)

theorem numberedLines_cons {b : UInt8} (h : InLine b) (rest : Bytes) :
    numberedLines (b :: rest) = (numberedLines rest).modifyHead (b :: ·) := by
  rw [numberedLines.eq_def]
  simp [h.1, h.2]

theorem numberedLines_append {piece : Bytes} (h : ∀ b ∈ piece, InLine b) (rest : Bytes) :
    numberedLines (piece ++ rest) = (numberedLines rest).modifyHead (piece ++ ·) := by
  induction piece with
  | nil => exact congrFun List.modifyHead_id.symm _
  | cons b piece ih =>
      obtain ⟨hb, hpiece⟩ := List.forall_mem_cons.1 h
      rw [List.cons_append, numberedLines_cons hb, ih hpiece, List.modifyHead_modifyHead]
      rfl

theorem exists_numberedLines (text : Bytes) :
    ∃ line below, numberedLines text = line :: below := by
  fun_induction numberedLines text with
  | case6 b rest hfeed hreturn ih =>
      obtain ⟨line, below, h⟩ := ih
      exact ⟨b :: line, below, by rw [h, List.modifyHead_cons]⟩
  | _ => exact ⟨_, _, rfl⟩

theorem length_le_of_mem_numberedLines {text line : Bytes} (h : line ∈ numberedLines text) :
    line.length ≤ text.length := by
  fun_induction numberedLines text generalizing line with
  | case6 b rest hfeed hreturn ih =>
      obtain ⟨first, below, hlines⟩ := exists_numberedLines rest
      rw [hlines] at h ih
      rcases List.mem_cons.1 h with rfl | hbelow
      · simpa using ih (List.mem_cons_self ..)
      · exact Nat.le_succ_of_le (ih (List.mem_cons_of_mem _ hbelow))
  | case1 => simp_all
  | case3 => simp_all
  | _ =>
      rename_i ih
      rcases List.mem_cons.1 h with rfl | hbelow
      · exact Nat.zero_le _
      · have := ih hbelow
        simp only [List.length_cons] at this ⊢
        omega

/-! ## Places -/

/-- The piece stands in a line of the text, from the place on. -/
def Stands (source piece : Bytes) (p : Position) : Prop :=
  ∃ (row column : Nat) (line : Bytes), p = ⟨row + 1, column + 1⟩ ∧
    (numberedLines source)[row]? = some line ∧ piece ≠ [] ∧ piece <+: line.drop column

/-- From the place on, the text goes on with `rest`. -/
def TextAt (source : Bytes) (p : Position) (rest : Bytes) : Prop :=
  ∃ above before line below, numberedLines rest = line :: below ∧
    numberedLines source = above ++ (before ++ line) :: below ∧
    p = ⟨above.length + 1, before.length + 1⟩

namespace TextAt

variable {source rest piece : Bytes} {p : Position}

theorem start (source : Bytes) : TextAt source .start source := by
  obtain ⟨line, below, h⟩ := exists_numberedLines source
  exact ⟨[], [], line, below, h, h, rfl⟩

/-- A piece without line ends is part of the line. -/
theorem exists_of_append (h : TextAt source p (piece ++ rest)) (hpiece : ∀ b ∈ piece, InLine b) :
    ∃ above before line below, numberedLines rest = line :: below ∧
      numberedLines source = above ++ (before ++ (piece ++ line)) :: below ∧
      p = ⟨above.length + 1, before.length + 1⟩ := by
  obtain ⟨above, before, line, below, hlines, hsource, hp⟩ := h
  obtain ⟨line', below', hrest⟩ := exists_numberedLines rest
  rw [numberedLines_append hpiece, hrest, List.modifyHead_cons] at hlines
  obtain ⟨rfl, rfl⟩ := List.cons.inj hlines
  exact ⟨above, before, line', below', hrest, hsource, hp⟩

/-- Behind bytes that end no line, the column has moved by their number. -/
theorem right_append (h : TextAt source p (piece ++ rest)) (hpiece : ∀ b ∈ piece, InLine b) :
    TextAt source (p.right piece.length) rest := by
  obtain ⟨above, before, line, below, hrest, hsource, rfl⟩ := h.exists_of_append hpiece
  refine ⟨above, before ++ piece, line, below, hrest, by rw [hsource, List.append_assoc], ?_⟩
  simp only [Position.right, List.length_append]
  congr 1
  omega

/-- Bytes that end no line stand in a line. -/
theorem stands (h : TextAt source p (piece ++ rest)) (hpiece : ∀ b ∈ piece, InLine b)
    (nonempty : piece ≠ []) : Stands source piece p := by
  obtain ⟨above, before, line, below, hrest, hsource, rfl⟩ := h.exists_of_append hpiece
  refine ⟨above.length, before.length, before ++ (piece ++ line), rfl, ?_, nonempty, ?_⟩
  · simp [hsource]
  · simp

/-- Behind the end of a line, the next line starts. -/
theorem nextLine {text : Bytes} (h : TextAt source p text)
    (hends : numberedLines text = [] :: numberedLines rest) : TextAt source p.nextLine rest := by
  obtain ⟨above, before, line, below, hlines, hsource, rfl⟩ := h
  obtain ⟨line', below', hrest⟩ := exists_numberedLines rest
  rw [hends, hrest] at hlines
  obtain ⟨rfl, rfl⟩ := List.cons.inj hlines
  refine ⟨above ++ [before], [], line', below', hrest, ?_, ?_⟩
  · simp [hsource]
  · simp [Position.nextLine]

theorem skipGap (h : TextAt source p rest) :
    TextAt source (Scanner.skipGap rest p).position (Scanner.skipGap rest p).rest := by
  fun_induction Scanner.skipGap rest p with
  | case1 p => exact h
  | case2 b rest p hspace ih =>
      have hb : ∀ c ∈ [b], InLine c := by
        rcases hspace with rfl | rfl <;> simp [InLine, lineFeed, carriageReturn]
      exact ih (right_append (show TextAt source p ([b] ++ rest) from h) hb)
  | case3 rest p hspace ih => exact ih (h.nextLine (numberedLines_lineFeed rest))
  | case4 p => exact h.nextLine rfl
  | case5 p rest hspace hfeed ih => exact ih (h.nextLine (numberedLines_both rest))
  | case6 p c rest hc hspace hfeed ih =>
      exact ih (h.nextLine (numberedLines_return (by simpa using hc)))
  | case7 b rest p hspace hfeed hreturn => exact h

end TextAt

/-! ## Tokens stand at their places -/

theorem not_blank_of_word {b : UInt8} (h : isLetter b = true ∨ isDigit b = true) :
    isBlank b = false := by
  cases hblank : isBlank b with
  | false => rfl
  | true =>
      simp only [isBlank, Bool.or_eq_true, beq_iff_eq] at hblank
      rcases hblank with ((rfl | rfl) | rfl) | rfl <;> exact absurd h (by decide)

theorem Numeral.not_blank {text : Bytes} (h : Numeral text) : ∀ b ∈ text, isBlank b = false := by
  cases h with
  | whole _ all => exact fun b hb => not_blank_of_word (.inr (all b hb))
  | fraction _ all _ all' =>
      intro b hb
      rcases List.mem_append.1 hb with hb | hb
      · exact not_blank_of_word (.inr (all b hb))
      · rcases List.mem_cons.1 hb with rfl | hb
        · rfl
        · exact not_blank_of_word (.inr (all' b hb))

/-- There are no blanks in a token. -/
theorem Lexical.not_blank {kind : Token.Kind} {value : Bytes} (h : Lexical kind value) :
    ∀ b ∈ value, isBlank b = false := by
  cases h with
  | letter letter => simpa using not_blank_of_word (.inl letter)
  | keyword known =>
    exact fun b hb => not_blank_of_word (.inl (Lexeme.isLetter_of_keyword known b hb))
  | numeral numeral => exact numeral.not_blank
  | sign known => simpa using Lexeme.not_blank_of_read (Lexeme.read_sign known [])

namespace LexicalCause

/-- The piece of the text that an error is about. -/
def piece : LexicalCause → Bytes
  | .unrecognized byte => [byte]
  | .malformedNumber text => text
  | .longIdentifier word => word

end LexicalCause

namespace Lexeme

theorem piece_of_word_error {text : Bytes} {cause : LexicalCause}
    (h : (word text).outcome = .error cause) : cause.piece = text.takeWhile isLetter := by
  unfold word at h
  dsimp only at h
  split at h
  · cases h
  · split_ifs at h
    cases h
    rfl

/-- A rejected number is digits, a point, further digits if there are any, and the second point. -/
theorem piece_of_number_error {text : Bytes} {cause : LexicalCause}
    (h : (number text).outcome = .error cause) :
    (∃ rest, text = cause.piece ++ rest) ∧
      (∀ c ∈ cause.piece, isDigit c = true ∨ c = pointByte) ∧ cause.piece ≠ [] := by
  have hdigits : ∀ t : Bytes, ∀ c ∈ t.takeWhile isDigit, isDigit c = true :=
    fun t => List.all_eq_true.1 List.all_takeWhile
  have hwhole := hdigits text
  have htext : text.takeWhile isDigit ++ text.dropWhile isDigit = text :=
    List.takeWhile_append_dropWhile
  unfold number at h
  dsimp only at h
  generalize text.takeWhile isDigit = whole at h hwhole htext
  generalize text.dropWhile isDigit = behind at h htext
  subst htext
  cases behind with
  | nil => cases h
  | cons b after =>
      dsimp only at h
      have hplaces := hdigits after
      have hafter : after.takeWhile isDigit ++ after.dropWhile isDigit = after :=
        List.takeWhile_append_dropWhile
      generalize after.takeWhile isDigit = places at h hplaces hafter
      generalize after.dropWhile isDigit = rest at h hafter
      subst hafter
      split_ifs at h with hpoint hnone hagain
      · -- no digits behind the point
        cases h
        subst hpoint hnone
        exact ⟨⟨rest, by simp [LexicalCause.piece]⟩, by grind [LexicalCause.piece],
          by simp [LexicalCause.piece]⟩
      · -- a second point
        cases h
        subst hpoint
        obtain ⟨tail, rfl⟩ := List.head?_eq_some_iff.1 hagain
        exact ⟨⟨tail, by simp [LexicalCause.piece]⟩, by grind [LexicalCause.piece],
          by simp [LexicalCause.piece]⟩

/-- The piece that is no token stands at the front of the text. -/
theorem piece_of_error {b : UInt8} {text : Bytes} {cause : LexicalCause}
    (hb : isBlank b = false) (h : (read b text).outcome = .error cause) :
    (∃ rest, b :: text = cause.piece ++ rest) ∧ (∀ c ∈ cause.piece, isBlank c = false) ∧
      cause.piece ≠ [] := by
  unfold read at h
  split_ifs at h with hletter hdigit
  · rw [piece_of_word_error h]
    refine ⟨⟨_, List.takeWhile_append_dropWhile.symm⟩, fun c hc => ?_, ?_⟩
    · exact not_blank_of_word (.inl (List.all_eq_true.1 List.all_takeWhile c hc))
    · rw [List.takeWhile_cons_of_pos hletter]
      exact List.cons_ne_nil _ _
  · obtain ⟨hfront, hall, hne⟩ := piece_of_number_error h
    refine ⟨hfront, fun c hc => ?_, hne⟩
    rcases hall c hc with hc | rfl
    · exact not_blank_of_word (.inr hc)
    · rfl
  · unfold sign at h
    split at h
    · cases h
    · cases h
      exact ⟨⟨text, rfl⟩, by simpa [LexicalCause.piece] using hb, List.cons_ne_nil _ _⟩

/-- What a lexeme takes from the front of a text, whether or not it is a token, has no blanks in
it. -/
theorem exists_taken {b : UInt8} (hb : isBlank b = false) (rest : Bytes) :
    ∃ taken, b :: rest = taken ++ (read b rest).rest ∧ ∀ c ∈ taken, isBlank c = false := by
  have hdigits : ∀ text : Bytes, ∀ c ∈ text.takeWhile isDigit, isBlank c = false :=
    fun text c hc => not_blank_of_word (.inr (List.all_eq_true.1 List.all_takeWhile c hc))
  unfold read
  split_ifs
  · refine ⟨(b :: rest).takeWhile isLetter, List.takeWhile_append_dropWhile.symm, ?_⟩
    exact fun c hc => not_blank_of_word (.inl (List.all_eq_true.1 List.all_takeWhile c hc))
  · have hwhole := hdigits (b :: rest)
    have htext : (b :: rest).takeWhile isDigit ++ (b :: rest).dropWhile isDigit = b :: rest :=
      List.takeWhile_append_dropWhile
    unfold number
    generalize (b :: rest).takeWhile isDigit = whole at hwhole htext
    generalize (b :: rest).dropWhile isDigit = behind at htext
    cases behind with
    | nil => exact ⟨whole, htext.symm, hwhole⟩
    | cons c after =>
        by_cases hpoint : c = pointByte
        · -- the digits behind the point belong to the lexeme, also when it is no number
          have hrest : b :: rest =
              (whole ++ c :: after.takeWhile isDigit) ++ after.dropWhile isDigit := by
            rw [List.append_assoc, List.cons_append, List.takeWhile_append_dropWhile, htext]
          refine ⟨whole ++ c :: after.takeWhile isDigit, ?_, ?_⟩
          · dsimp only
            rw [if_pos hpoint]
            split_ifs <;> exact hrest
          · intro d hd
            rcases List.mem_append.1 hd with hd | hd
            · exact hwhole d hd
            · rcases List.mem_cons.1 hd with rfl | hd
              · rw [hpoint]
                rfl
              · exact hdigits after d hd
        · dsimp only
          rw [if_neg hpoint]
          exact ⟨whole, htext.symm, hwhole⟩
  · refine ⟨[b], ?_, by simpa using hb⟩
    unfold sign
    split <;> rfl

end Lexeme

/-- Behind a gap there is no blank. -/
theorem isBlank_of_eq_dropWhile {text after : Bytes} {b : UInt8}
    (h : b :: after = text.dropWhile isBlank) : isBlank b = false :=
  Lexeme.head?_dropWhile_eq_false isBlank text b (by rw [← h]; rfl)

/-- What the scanner does to find an error: it skips the blanks and reads no token. -/
theorem Scanner.next_error {s : Scanner} {e : LexicalError} (h : s.next.1 = .error e) :
    ∃ b text, skipGap s.rest s.position = ⟨b :: text, e.position⟩ ∧ isBlank b = false ∧
      (Lexeme.read b text).outcome = .error e.cause := by
  have hskip := rest_skipGap s.rest s.position
  unfold next at h
  generalize skipGap s.rest s.position = here at h hskip ⊢
  obtain ⟨text, p⟩ := here
  cases text with
  | nil => cases h
  | cons b text =>
      dsimp only at h hskip
      have hb : isBlank b = false := isBlank_of_eq_dropWhile hskip
      cases houtcome : (Lexeme.read b text).outcome with
      | ok token =>
          rw [houtcome] at h
          cases h
      | error cause =>
          rw [houtcome] at h
          cases h
          exact ⟨b, text, rfl, hb, houtcome⟩

/-- The scanner is where its place says. -/
def Scanner.PlacedIn (source : Bytes) (s : Scanner) : Prop :=
  TextAt source s.position s.rest

namespace Scanner.PlacedIn

variable {source : Bytes} {s : Scanner}

theorem next_token {t : Token} (h : s.PlacedIn source) (htoken : s.next.1 = .token t) :
    Stands source t.value t.position ∧ s.next.2.PlacedIn source := by
  obtain ⟨b, text, hhere, hread, hplace⟩ := next_eq_token_iff.1 (Prod.ext htoken rfl)
  obtain ⟨htext, hlexical, -⟩ := Lexeme.read_ok_iff.1 hread
  have hinside : ∀ c ∈ t.value, InLine c :=
    fun c hc => inLine_of_not_blank (hlexical.not_blank c hc)
  have hat : TextAt source t.position (t.value ++ s.next.2.rest) := by
    have hskip := h.skipGap
    rwa [hhere, htext] at hskip
  refine ⟨hat.stands hinside hlexical.ne_nil, ?_⟩
  rw [PlacedIn, hplace]
  exact hat.right_append hinside

theorem next_error {e : LexicalError} (h : s.PlacedIn source) (herror : s.next.1 = .error e) :
    Stands source e.cause.piece e.position := by
  obtain ⟨b, text, hhere, hblank, hread⟩ := Scanner.next_error herror
  obtain ⟨⟨rest, htext⟩, hpiece, hne⟩ := Lexeme.piece_of_error hblank hread
  have hskip := h.skipGap
  rw [hhere, htext] at hskip
  exact hskip.stands (fun c hc => inLine_of_not_blank (hpiece c hc)) hne

/-- Tokens stand at their places. -/
theorem stands_of_tokens {ts : List Token} (h : s.PlacedIn source) (htokens : s.tokens = .ok ts) :
    ∀ t ∈ ts, Stands source t.value t.position := by
  have hyields := tokens_ok_iff.1 htokens
  clear htokens
  induction hyields with
  | finished => simp
  | token token _ ih =>
      obtain ⟨hfirst, hafter⟩ := h.next_token token
      exact List.forall_mem_cons.2 ⟨hfirst, ih hafter⟩

/-- What an error is about stands at the place of the error. -/
theorem stands_of_error {e : LexicalError} (h : s.PlacedIn source) (herror : s.tokens = .error e) :
    Stands source e.cause.piece e.position := by
  fun_induction Scanner.tokens s with
  | case1 => cases herror
  | case2 s e' stopped =>
      cases herror
      exact h.next_error stopped
  | case3 => cases herror
  | case4 s t token e' _ ih =>
      cases herror
      exact ih (h.next_token token).2 (by assumption)

end Scanner.PlacedIn

theorem Scanner.placedIn_ofSource (source : Bytes) : (Scanner.ofSource source).PlacedIn source :=
  TextAt.start source

/-! ## The lines that a listing shows -/

theorem trimEnd_cons (b x : UInt8) (text : Bytes) :
    trimEnd b (x :: text) = if trimEnd b text = [] ∧ x = b then [] else x :: trimEnd b text := by
  unfold trimEnd
  rw [List.reverse_cons, List.dropWhile_append]
  cases text.reverse.dropWhile (· == b) with
  | nil => by_cases hx : x = b <;> simp [hx]
  | cons y ys => simp

theorem exists_lines (text : Bytes) : ∃ line below, lines text = line :: below :=
  List.exists_cons_of_ne_nil (List.splitOnP_ne_nil (· == lineFeed) text)

theorem lines_lineFeed (rest : Bytes) : lines (lineFeed :: rest) = [] :: lines rest :=
  List.splitOn_append_cons_self [] rest

theorem lines_cons {b : UInt8} (h : b ≠ lineFeed) (rest : Bytes) :
    lines (b :: rest) = (lines rest).modifyHead (b :: ·) := by
  have hne : ¬ (b == lineFeed) = true := by simpa using h
  exact (List.splitOn_cons_eq_if_modifyHead b rest).trans (if_neg hne)

theorem sourceLine_succ (source : Bytes) (row : Nat) :
    Listing.sourceLine source (row + 1) =
      trimEnd carriageReturn ((lines source).getD row []) := by
  rw [Listing.sourceLine, if_neg (by omega), show ((row : Int) + 1).toNat - 1 = row by omega]
  rfl

/-- Up to the line that a listing shows with a number, counted from zero, it counts the lines as
they are: carriage returns stand before only next to a line feed, and there is none in what is
shown. -/
def LinesAgree (source : Bytes) (row : Nat) : Prop :=
  (∀ line ∈ (lines source).take row, carriageReturn ∉ line.dropLast) ∧
    carriageReturn ∉ Listing.sourceLine source (row + 1)

instance (source : Bytes) (row : Nat) : Decidable (LinesAgree source row) :=
  inferInstanceAs (Decidable (_ ∧ _))

/-- Where the two ways of counting agree, the listing shows the line with the number. -/
theorem LinesAgree.sourceLine_eq {source line : Bytes} {row : Nat} (h : LinesAgree source row)
    (hline : (numberedLines source)[row]? = some line) :
    Listing.sourceLine source (row + 1) = line := by
  obtain ⟨habove, hshown⟩ := h
  rw [sourceLine_succ] at hshown ⊢
  fun_induction numberedLines source generalizing row line with
  | case1 =>
      cases row with
      | zero =>
          cases hline
          rfl
      | succ row => cases hline
  | case2 rest ih =>
      rw [lines_lineFeed] at habove hshown ⊢
      cases row with
      | zero =>
          cases hline
          rfl
      | succ row => exact ih hline (List.forall_mem_cons.1 habove).2 hshown
  | case3 =>
      -- the carriage return is the whole text
      rcases row with - | - | row
      · cases hline
        rfl
      · cases hline
        rfl
      · cases hline
  | case4 rest _ ih =>
      have hlines :
          lines (carriageReturn :: lineFeed :: rest) = [carriageReturn] :: lines rest := by
        rw [lines_cons (by decide), lines_lineFeed, List.modifyHead_cons]
      rw [hlines] at habove hshown ⊢
      cases row with
      | zero =>
          cases hline
          rfl
      | succ row => exact ih hline (List.forall_mem_cons.1 habove).2 hshown
  | case5 c rest hc =>
      -- for the listing, the line goes on behind the carriage return
      obtain ⟨first, below, hlines⟩ := exists_lines rest
      rw [lines_cons (by decide), lines_cons hc, hlines, List.modifyHead_cons, List.modifyHead_cons]
        at habove hshown ⊢
      cases row with
      | zero =>
          cases hline
          rw [List.getD_cons_zero, trimEnd_cons] at hshown ⊢
          split_ifs at hshown ⊢ with hblank
          · rfl
          · simp at hshown
      | succ row => exact absurd (habove _ (List.mem_cons_self ..)) (by simp)
  | case6 b rest hfeed hreturn ih =>
      obtain ⟨first, below, hlines⟩ := exists_lines rest
      obtain ⟨first', below', hnumbered⟩ := exists_numberedLines rest
      rw [lines_cons hfeed, hlines, List.modifyHead_cons] at habove hshown ⊢
      rw [hlines, hnumbered] at ih
      rw [hnumbered] at hline
      rw [List.modifyHead_cons] at hline
      cases row with
      | zero =>
          cases hline
          rw [List.getD_cons_zero, trimEnd_cons, if_neg (by simp [hreturn])] at hshown ⊢
          have hfirst : (first' :: below')[0]? = some first' := rfl
          exact congrArg (b :: ·) (ih hfirst (by simp) fun h => hshown (List.mem_cons_of_mem _ h))
      | succ row =>
          obtain ⟨hfirst, hbelow⟩ := List.forall_mem_cons.1 habove
          have hbelow' : (first' :: below')[row + 1]? = some line := hline
          refine ih hbelow' (List.forall_mem_cons.2 ⟨fun h => hfirst ?_, hbelow⟩) hshown
          cases first with
          | nil => cases h
          | cons c first => exact List.mem_cons_of_mem _ h

end StoreLint
