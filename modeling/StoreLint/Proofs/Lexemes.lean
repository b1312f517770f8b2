import Mathlib.Tactic.SplitIfs
import StoreLint.Proofs.Unplaced

/-!
# What the scanner reads

The scanner goes through a text from left to right.  This file says once what it can do and draws
from that what later files use: which tokens there are, how their lines run, and which texts give
which tokens.

* `Lexical`: the kinds and texts of tokens, with `Lexical.value_eq`: apart from variables and
  numbers the kind fixes the text.
* `Lexeme.read_ok_iff`: the scanner reads a lexeme exactly if it stands at the front of the text and
  the text behind it does not continue it.
* `Yields`: the runs of the scanner, with `Yields.lexical` and `Yields.ascending`: every token is
  one of those, and each comes after the one before it.
* `Scans`: a text gives certain tokens wherever it stands, with a lemma for a blank, for a sign, and
  for a lexeme that the text behind it does not continue.
-/

namespace StoreLint

/-- The texts of numbers: digits, or digits on both sides of a point. -/
inductive Numeral : Bytes → Prop where
  | whole {digits : Bytes} (nonempty : digits ≠ []) (all : ∀ b ∈ digits, isDigit b = true) :
      Numeral digits
  | fraction {digits places : Bytes} (nonempty : digits ≠ [])
      (all : ∀ b ∈ digits, isDigit b = true) (nonempty' : places ≠ [])
      (all' : ∀ b ∈ places, isDigit b = true) : Numeral (digits ++ pointByte :: places)

/-- The kinds and texts of the tokens that the scanner reads. -/
inductive Lexical : Token.Kind → Bytes → Prop where
  | letter {b : UInt8} (isLetter : isLetter b = true) : Lexical .variable [b]
  | keyword {word : Bytes} {kind : Token.Kind} (known : keyword? word = some kind) :
      Lexical kind word
  | numeral {text : Bytes} (numeral : Numeral text) : Lexical .number text
  | sign {b : UInt8} {kind : Token.Kind} (known : signKind? b = some kind) : Lexical kind [b]

/-! ## Kinds and texts -/

theorem keyword?_eq_some {word : Bytes} {kind : Token.Kind} (h : keyword? word = some kind) :
    kind.isKeyword = true ∧ word = utf8 kind.name := by
  unfold keyword? at h
  split_ifs at h with hword hword hword hword <;> cases h <;> exact ⟨rfl, hword⟩

/-- Is the kind one of a single byte? -/
def Token.Kind.isSign (kind : Token.Kind) : Bool :=
  kind.isOperator || kind == .assign || kind == .openBracket || kind == .closeBracket

theorem signKind?_eq_some {b : UInt8} {kind : Token.Kind} (h : signKind? b = some kind) :
    kind.isSign = true ∧ [b] = utf8 kind.name := by
  unfold signKind? at h
  split_ifs at h with hb hb hb hb hb hb hb hb hb <;> cases h <;> subst hb <;> exact ⟨rfl, rfl⟩

/-- A sign continues neither a word nor a number. -/
theorem not_word_of_sign {b : UInt8} {kind : Token.Kind} (h : signKind? b = some kind) :
    isLetter b = false ∧ isDigit b = false ∧ b ≠ pointByte := by
  obtain ⟨hkind, hname⟩ := signKind?_eq_some h
  cases kind <;> cases hkind <;> cases hname <;> decide

theorem isLetter_eq_false_of_isDigit {b : UInt8} (h : isDigit b = true) : isLetter b = false := by
  simp only [isDigit, isLetter, Bool.and_eq_true, decide_eq_true_eq, UInt8.le_iff_toNat_le,
    Bool.and_eq_false_iff, decide_eq_false_iff_not] at h ⊢
  have hlow : (0x61 : UInt8).toNat = 97 := rfl
  have hhigh : (0x39 : UInt8).toNat = 57 := rfl
  omega

/-- A number starts with a digit. -/
theorem Numeral.exists_cons {text : Bytes} (h : Numeral text) :
    ∃ b rest, text = b :: rest ∧ isDigit b = true := by
  cases h with
  | whole nonempty all =>
      obtain ⟨b, rest, rfl⟩ := List.exists_cons_of_ne_nil nonempty
      exact ⟨b, rest, rfl, all b (by simp)⟩
  | fraction nonempty all =>
      obtain ⟨b, rest, rfl⟩ := List.exists_cons_of_ne_nil nonempty
      exact ⟨b, _, rfl, all b (by simp)⟩

/-- Does the kind of a token fix its text? -/
def Token.Kind.isFixed : Token.Kind → Bool
  | .variable | .number => false
  | _ => true

/-- Is the kind one that the scanner reads? -/
def Token.Kind.isRead : Token.Kind → Bool
  | .error | .endOfInput | .unknown => false
  | _ => true

namespace Lexical

variable {kind : Token.Kind} {value : Bytes}

/-- Apart from variables and numbers, the kind of a token fixes its text. -/
theorem value_eq (h : Lexical kind value) (hfixed : kind.isFixed = true) :
    value = utf8 kind.name := by
  cases h with
  | letter => cases hfixed
  | keyword known => exact (keyword?_eq_some known).2
  | numeral => cases hfixed
  | sign known => exact (signKind?_eq_some known).2

/-- The scanner reads no token of the other kinds. -/
theorem isRead (h : Lexical kind value) : kind.isRead = true := by
  cases h with
  | letter => rfl
  | keyword known =>
      have hkind := (keyword?_eq_some known).1
      cases kind <;> first | rfl | cases hkind
  | numeral => rfl
  | sign known =>
      have hkind := (signKind?_eq_some known).1
      cases kind <;> first | rfl | cases hkind

theorem ne_nil (h : Lexical kind value) : value ≠ [] := by
  cases h with
  | letter => exact List.cons_ne_nil _ _
  | keyword known =>
      rintro rfl
      cases known
  | numeral numeral =>
      obtain ⟨b, rest, rfl, -⟩ := numeral.exists_cons
      exact List.cons_ne_nil _ _
  | sign => exact List.cons_ne_nil _ _

theorem of_number (h : Lexical .number value) : Numeral value := by
  cases h with
  | keyword known => exact absurd (keyword?_eq_some known).1 (by decide)
  | numeral numeral => exact numeral
  | sign known => exact absurd (signKind?_eq_some known).1 (by decide)

end Lexical

/-- Is the byte a space, a tab, a line feed or a carriage return? -/
def isBlank (b : UInt8) : Bool :=
  b == 0x20 || b == 0x09 || b == lineFeed || b == carriageReturn

/-! ## One lexeme -/

/-- A run of bytes that pass a test is cut off before a text that does not start with such a
byte. -/
theorem span_append {p : UInt8 → Bool} {xs rest : Bytes} (hall : ∀ b ∈ xs, p b = true)
    (hstop : ∀ b ∈ rest.head?, p b = false) :
    (xs ++ rest).takeWhile p = xs ∧ (xs ++ rest).dropWhile p = rest := by
  rw [List.takeWhile_append_of_pos hall, List.dropWhile_append_of_pos hall]
  cases rest with
  | nil => simp
  | cons b rest => simp [hstop b rfl]

/-- Is the text over, or does it go on with a byte that continues neither a word nor a number? -/
def Apart (rest : Bytes) : Prop :=
  ∀ b ∈ rest.head?, isLetter b = false ∧ isDigit b = false ∧ b ≠ pointByte

namespace Apart

theorem nil : Apart [] := by simp [Apart]

theorem cons {b : UInt8} (rest : Bytes)
    (h : isLetter b = false ∧ isDigit b = false ∧ b ≠ pointByte) : Apart (b :: rest) := by
  intro c hc
  cases hc
  exact h

end Apart

/-- Is the kind one of a run of letters? -/
def Token.Kind.isWord (kind : Token.Kind) : Bool :=
  kind == .variable || kind.isKeyword

theorem Token.Kind.not_word_of_isSign {kind : Token.Kind} (h : kind.isSign = true) :
    kind.isWord = false ∧ kind ≠ .number := by
  cases kind <;> first | exact ⟨rfl, by decide⟩ | cases h

/-- A lexeme of the kind is over before the text: a letter would continue a word, and a digit or a
point would continue a number. -/
def Ends (kind : Token.Kind) (rest : Bytes) : Prop :=
  ∀ b ∈ rest.head?, (kind.isWord = true → isLetter b = false) ∧
    (kind = .number → isDigit b = false ∧ b ≠ pointByte)

theorem Apart.ends {rest : Bytes} (apart : Apart rest) (kind : Token.Kind) : Ends kind rest :=
  fun b hb => ⟨fun _ => (apart b hb).1, fun _ => (apart b hb).2⟩

/-- A lexeme that is over before a text is over before every beginning of it. -/
theorem Ends.of_isPrefix {kind : Token.Kind} {front rest : Bytes} (h : Ends kind rest)
    (hfront : front <+: rest) : Ends kind front := by
  intro b hb
  obtain ⟨behind, rfl⟩ := hfront
  cases front with
  | nil => cases hb
  | cons c front => exact h b hb

namespace Lexeme

/-- What the scanner accepts as a token is one. -/
theorem lexical_of_read {b : UInt8} {rest : Bytes} {kind : Token.Kind} {value : Bytes}
    (h : (read b rest).outcome = .ok (kind, value)) : Lexical kind value := by
  unfold read at h
  split_ifs at h with hletter hdigit
  · unfold word at h
    dsimp only at h
    cases hword : keyword? ((b :: rest).takeWhile isLetter) with
    | some known =>
        rw [hword] at h
        cases h
        exact .keyword hword
    | none =>
        rw [hword] at h
        dsimp only at h
        split_ifs at h with hlength
        cases h
        rw [List.takeWhile_cons_of_pos hletter] at hlength ⊢
        rw [List.eq_nil_of_length_eq_zero (Nat.succ.inj hlength)]
        exact .letter hletter
  · -- the digits before the point are there because the first byte is one
    have hall : ∀ (xs : Bytes), ∀ c ∈ xs.takeWhile isDigit, isDigit c = true :=
      fun xs => List.all_eq_true.1 List.all_takeWhile
    have hnonempty : (b :: rest).takeWhile isDigit ≠ [] := by
      rw [List.takeWhile_cons_of_pos hdigit]
      exact List.cons_ne_nil _ _
    unfold number at h
    dsimp only at h
    split at h
    · split_ifs at h with hpoint hplaces hagain
      · cases h
        subst hpoint
        exact .numeral (.fraction hnonempty (hall _) hplaces (hall _))
      · cases h
        exact .numeral (.whole hnonempty (hall _))
    · cases h
      exact .numeral (.whole hnonempty (hall _))
  · unfold sign at h
    split at h
    · rename_i known
      cases h
      exact .sign known
    · cases h

/-- A number is read to its end. -/
theorem number_append {text rest : Bytes} (h : Numeral text) (ends : Ends .number rest) :
    number (text ++ rest) = ⟨.ok (.number, text), rest⟩ := by
  have hstop : ∀ b ∈ rest.head?, isDigit b = false := fun b hb => ((ends b hb).2 rfl).1
  cases h with
  | whole nonempty all =>
      obtain ⟨htake, hdrop⟩ := span_append all hstop
      unfold number
      rw [htake, hdrop]
      cases rest with
      | nil => rfl
      | cons b rest => simp [((ends b rfl).2 rfl).2]
  | @fraction digits places nonempty all nonempty' all' =>
      have hpoint : ∀ b ∈ (pointByte :: (places ++ rest)).head?, isDigit b = false := by
        intro b hb
        cases hb
        rfl
      obtain ⟨htake, hdrop⟩ := span_append all hpoint
      obtain ⟨htake', hdrop'⟩ := span_append all' hstop
      have hsecond : rest.head? ≠ some pointByte := fun hhead => ((ends _ hhead).2 rfl).2 rfl
      rw [List.append_assoc, List.cons_append]
      unfold number
      rw [htake, hdrop]
      simp [htake', hdrop', nonempty', hsecond]

/-- A run of letters is read to its end, if it is a keyword or a single letter. -/
theorem word_append {run rest : Bytes} {kind : Token.Kind} (h : ∀ b ∈ run, isLetter b = true)
    (hstop : ∀ b ∈ rest.head?, isLetter b = false) (known : keyword? run = some kind ∨
      keyword? run = none ∧ run.length = 1 ∧ kind = .variable) :
    word (run ++ rest) = ⟨.ok (kind, run), rest⟩ := by
  obtain ⟨htake, hdrop⟩ := span_append h hstop
  rcases known with known | ⟨unknown, hlength, rfl⟩
  · simp [word, htake, hdrop, known]
  · simp [word, htake, hdrop, unknown, hlength]

theorem read_sign {b : UInt8} {kind : Token.Kind} (known : signKind? b = some kind) (rest : Bytes) :
    read b rest = ⟨.ok (kind, [b]), rest⟩ := by
  obtain ⟨hletter, hdigit, -⟩ := not_word_of_sign known
  simp [read, sign, hletter, hdigit, known]

/-- A keyword consists of letters. -/
theorem isLetter_of_keyword {word : Bytes} {kind : Token.Kind} (known : keyword? word = some kind) :
    ∀ b ∈ word, isLetter b = true := by
  obtain ⟨hkind, rfl⟩ := keyword?_eq_some known
  refine List.all_eq_true.1 ?_
  cases kind <;> cases hkind <;> rfl

/-- A single letter is no keyword. -/
theorem keyword?_singleton (b : UInt8) : keyword? [b] = none := by
  cases hword : keyword? [b] with
  | none => rfl
  | some kind =>
      obtain ⟨hkind, hname⟩ := keyword?_eq_some hword
      have hlength := congrArg List.length hname
      cases kind <;> cases hkind <;> cases hlength

/-- A lexeme is read to its end, if the text behind it does not continue it. -/
theorem read_append {b : UInt8} {value rest : Bytes} {kind : Token.Kind}
    (h : Lexical kind (b :: value)) (ends : Ends kind rest) :
    read b (value ++ rest) = ⟨.ok (kind, b :: value), rest⟩ := by
  cases h with
  | letter isLetter =>
      have hword := word_append (List.forall_mem_singleton.2 isLetter)
        (fun c hc => (ends c hc).1 rfl) (.inr ⟨keyword?_singleton b, rfl, rfl⟩)
      simpa [read, isLetter] using hword
  | keyword known =>
      have hletters := isLetter_of_keyword known
      have hkind : kind.isWord = true := by simp [Token.Kind.isWord, (keyword?_eq_some known).1]
      have hword := word_append hletters (fun c hc => (ends c hc).1 hkind) (.inl known)
      simpa [read, hletters b (by simp)] using hword
  | numeral numeral =>
      have hnumber := number_append numeral ends
      obtain ⟨c, places, hcons, hdigit⟩ := numeral.exists_cons
      obtain ⟨rfl, rfl⟩ := List.cons.inj hcons
      simpa [read, isLetter_eq_false_of_isDigit hdigit, hdigit] using hnumber
  | sign known => exact read_sign known rest

/-- A run ends before a byte that does not pass the test. -/
theorem head?_dropWhile_eq_false (p : UInt8 → Bool) (text : Bytes) :
    ∀ b ∈ (text.dropWhile p).head?, p b = false := by
  intro b hb
  have hnot := List.head?_dropWhile_not p text
  rw [Option.mem_def.1 hb] at hnot
  simpa using hnot

/-- A word that is read stands at the front of the text, and no letter follows it. -/
theorem word_eq_append {text rest value : Bytes} {kind : Token.Kind}
    (h : word text = ⟨.ok (kind, value), rest⟩) :
    text = value ++ rest ∧ kind ≠ .number ∧ ∀ b ∈ rest.head?, isLetter b = false := by
  have hsplit : text = text.takeWhile isLetter ++ text.dropWhile isLetter :=
    List.takeWhile_append_dropWhile.symm
  unfold word at h
  dsimp only at h
  cases hword : keyword? (text.takeWhile isLetter) with
  | some known =>
      rw [hword] at h
      cases h
      refine ⟨hsplit, ?_, head?_dropWhile_eq_false isLetter text⟩
      rintro rfl
      exact absurd (keyword?_eq_some hword).1 (by decide)
  | none =>
      rw [hword] at h
      dsimp only at h
      split_ifs at h
      · cases h
        exact ⟨hsplit, by decide, head?_dropWhile_eq_false isLetter text⟩
      · cases h

/-- A number that is read stands at the front of the text, and neither a digit nor a point
follows. -/
theorem number_eq_append {text rest value : Bytes} {kind : Token.Kind}
    (h : number text = ⟨.ok (kind, value), rest⟩) :
    text = value ++ rest ∧ kind = .number ∧
      ∀ b ∈ rest.head?, isDigit b = false ∧ b ≠ pointByte := by
  have hsplit : text = text.takeWhile isDigit ++ text.dropWhile isDigit :=
    List.takeWhile_append_dropWhile.symm
  have hstop := head?_dropWhile_eq_false isDigit text
  unfold number at h
  dsimp only at h
  cases hdrop : text.dropWhile isDigit with
  | nil =>
      rw [hdrop] at h hsplit
      cases h
      exact ⟨hsplit, rfl, by simp⟩
  | cons b after =>
      rw [hdrop] at h hsplit hstop
      dsimp only at h
      split_ifs at h with hpoint hplaces hagain
      · cases h
      · cases h
      · -- digits, a point, further digits, and no second point
        cases h
        have hsplit' : after = after.takeWhile isDigit ++ after.dropWhile isDigit :=
          List.takeWhile_append_dropWhile.symm
        refine ⟨?_, rfl, fun c hc => ⟨head?_dropWhile_eq_false isDigit after c hc, ?_⟩⟩
        · rw [List.append_assoc, List.cons_append, ← hsplit', ← hsplit]
        · rintro rfl
          exact hagain hc
      · cases h
        refine ⟨hsplit, rfl, fun c hc => ?_⟩
        cases hc
        exact ⟨hstop b rfl, hpoint⟩

/-- **A lexeme is read exactly if it stands at the front of the text and the text behind it does not
continue it.** -/
theorem read_ok_iff {b : UInt8} {text value rest : Bytes} {kind : Token.Kind} :
    read b text = ⟨.ok (kind, value), rest⟩ ↔
      b :: text = value ++ rest ∧ Lexical kind value ∧ Ends kind rest := by
  constructor
  · intro h
    have houtcome : (read b text).outcome = .ok (kind, value) := by rw [h]
    have hlexical := lexical_of_read houtcome
    unfold read at h
    split_ifs at h with hletter hdigit
    · obtain ⟨htext, hkind, hends⟩ := word_eq_append h
      exact ⟨htext, hlexical, fun c hc =>
        ⟨fun _ => hends c hc, fun hnumber => absurd hnumber hkind⟩⟩
    · obtain ⟨htext, rfl, hends⟩ := number_eq_append h
      exact ⟨htext, hlexical, fun c hc =>
        ⟨fun hword => absurd hword (by decide), fun _ => hends c hc⟩⟩
    · unfold sign at h
      split at h
      · rename_i known
        cases h
        obtain ⟨hword, hnumber⟩ := Token.Kind.not_word_of_isSign (signKind?_eq_some known).1
        exact ⟨rfl, hlexical, fun c _ => ⟨fun h => absurd h (by simp [hword]), (absurd · hnumber)⟩⟩
      · cases h
  · rintro ⟨htext, hlexical, hends⟩
    obtain ⟨c, tail, rfl⟩ := List.exists_cons_of_ne_nil hlexical.ne_nil
    obtain ⟨rfl, rfl⟩ := List.cons.inj htext
    exact read_append hlexical hends

/-- A token does not start with a blank. -/
theorem not_blank_of_read {b : UInt8} {text rest : Bytes} {token : Token.Kind × Bytes}
    (h : read b text = ⟨.ok token, rest⟩) : isBlank b = false := by
  cases hblank : isBlank b with
  | false => rfl
  | true =>
      simp only [isBlank, Bool.or_eq_true, beq_iff_eq] at hblank
      rcases hblank with ((rfl | rfl) | rfl) | rfl <;> cases h

end Lexeme

/-! ## Runs of the scanner -/

/-- Does a place come before another in the text? -/
def Position.Before (p q : Position) : Prop :=
  p.line < q.line ∨ p.line = q.line ∧ p.column < q.column

namespace Scanner

theorem tokens_of_finished {s : Scanner} {p : Position} (h : s.next.1 = .finished p) :
    s.tokens = .ok [] := by
  rw [tokens]
  split <;> simp_all

theorem tokens_of_error {s : Scanner} {e : LexicalError} (h : s.next.1 = .error e) :
    s.tokens = .error e := by
  rw [tokens]
  split <;> simp_all

theorem tokens_of_token {s : Scanner} {t : Token} (h : s.next.1 = .token t) :
    s.tokens = s.next.2.tokens.map (t :: ·) := by
  rw [tokens]
  split
  · simp_all
  · simp_all
  · rename_i t' ht
    rw [h] at ht
    cases ht
    cases s.next.2.tokens <;> rfl

/-- The tokens that a scanner finds until it reaches the end. -/
inductive Yields : Scanner → List Token → Prop where
  | finished {s : Scanner} {p : Position} (finished : s.next.1 = .finished p) : Yields s []
  | token {s : Scanner} {t : Token} {ts : List Token} (token : s.next.1 = .token t)
      (rest : Yields s.next.2 ts) : Yields s (t :: ts)

/-- The scanner returns tokens exactly when it finds them up to the end. -/
theorem tokens_ok_iff {s : Scanner} {ts : List Token} : s.tokens = .ok ts ↔ Yields s ts := by
  constructor
  · intro h
    fun_induction tokens s generalizing ts with
    | case1 s p finished =>
        cases h
        exact .finished finished
    | case2 s e _ => cases h
    | case3 s t token us rest ih =>
        cases h
        exact .token token (ih rest)
    | case4 s t token e rest => cases h
  · intro h
    induction h with
    | finished finished => exact tokens_of_finished finished
    | token token _ ih =>
        rw [tokens_of_token token, ih]
        rfl

theorem skipGap_not_before (rest : Bytes) (p : Position) :
    ¬ (skipGap rest p).position.Before p := by
  fun_induction skipGap rest p <;>
    simp only [Position.Before, Position.right, Position.nextLine] at * <;> omega

/-- The scanner skips the blanks at the front. -/
theorem rest_skipGap (text : Bytes) (p : Position) :
    (skipGap text p).rest = text.dropWhile isBlank := by
  fun_induction skipGap text p <;> simp_all [List.dropWhile_cons, isBlank, lineFeed, carriageReturn]

theorem skipGap_space {b : UInt8} (h : b = 0x20 ∨ b = 0x09) (text : Bytes) (p : Position) :
    skipGap (b :: text) p = skipGap text (p.right 1) := by
  rw [skipGap.eq_def]
  exact if_pos h

theorem skipGap_lineFeed (text : Bytes) (p : Position) :
    skipGap (lineFeed :: text) p = skipGap text p.nextLine := by
  rw [skipGap.eq_def]
  rfl

theorem skipGap_both (text : Bytes) (p : Position) :
    skipGap (carriageReturn :: lineFeed :: text) p = skipGap text p.nextLine := by
  rw [skipGap.eq_def]
  rfl

theorem skipGap_return {text : Bytes} (h : text.head? ≠ some lineFeed) (p : Position) :
    skipGap (carriageReturn :: text) p = skipGap text p.nextLine := by
  cases text with
  | nil => rfl
  | cons c text =>
      rw [skipGap.eq_def]
      exact if_neg fun hc => h (congrArg some hc)

theorem skipGap_of_not_blank {b : UInt8} (h : isBlank b = false) (text : Bytes) (p : Position) :
    skipGap (b :: text) p = ⟨b :: text, p⟩ := by
  simp only [isBlank, Bool.or_eq_false_iff, beq_eq_false_iff_ne] at h
  rw [skipGap.eq_def]
  simp [h]

/-- What the scanner does to find a token: it skips the blanks, reads a lexeme, and is behind it. -/
theorem next_eq_token_iff {s s' : Scanner} {t : Token} :
    s.next = (.token t, s') ↔
      ∃ b text, skipGap s.rest s.position = ⟨b :: text, t.position⟩ ∧
        Lexeme.read b text = ⟨.ok (t.kind, t.value), s'.rest⟩ ∧
        s'.position = t.position.right t.value.length := by
  unfold next
  generalize skipGap s.rest s.position = here
  obtain ⟨kind, value, q⟩ := t
  obtain ⟨rest, q'⟩ := s'
  obtain ⟨text, p⟩ := here
  cases text with
  | nil =>
      constructor
      · intro h
        cases h
      · rintro ⟨b, text, hhere, -⟩
        cases hhere
  | cons b text =>
      -- what is gone from the text is the lexeme
      have htaken : Lexeme.read b text = ⟨.ok (kind, value), rest⟩ →
          (b :: text).length - rest.length = value.length := by
        intro hread
        have hlength := congrArg List.length (Lexeme.read_ok_iff.1 hread).1
        rw [List.length_append] at hlength
        omega
      constructor
      · intro h
        cases hread : Lexeme.read b text with
        | mk outcome rest' =>
            dsimp only at h
            rw [hread] at h htaken
            cases outcome with
            | error cause => cases h
            | ok found =>
                cases h
                exact ⟨b, text, rfl, hread, by rw [htaken rfl]⟩
      · rintro ⟨b', text', hhere, hread, hplace⟩
        cases hhere
        dsimp only at hread hplace ⊢
        have htaken := htaken hread
        rw [hread]
        dsimp only
        rw [htaken, hplace]

/-- The scanner has finished when only blanks are left. -/
theorem next_finished_iff {s : Scanner} {p : Position} :
    s.next.1 = .finished p ↔ skipGap s.rest s.position = ⟨[], p⟩ := by
  unfold next
  generalize skipGap s.rest s.position = here
  obtain ⟨text, q⟩ := here
  cases text with
  | nil => simp
  | cons b text =>
      dsimp only
      cases (Lexeme.read b text).outcome <;> simp

/-- The scanner does not go back, and it goes past the token. -/
theorem next_token {s : Scanner} {t : Token} (h : s.next.1 = .token t) :
    Lexical t.kind t.value ∧ ¬ t.position.Before s.position ∧
      t.position.Before s.next.2.position := by
  have hbefore := skipGap_not_before s.rest s.position
  obtain ⟨b, text, hhere, hread, hplace⟩ := next_eq_token_iff.1 (Prod.ext h rfl)
  have hlexical := (Lexeme.read_ok_iff.1 hread).2.1
  have hlength := List.length_pos_iff.2 hlexical.ne_nil
  rw [hhere] at hbefore
  refine ⟨hlexical, hbefore, .inr ⟨by rw [hplace, Position.right], ?_⟩⟩
  rw [hplace]
  simp only [Position.right]
  omega

namespace Yields

variable {s : Scanner} {ts : List Token}

/-- Every token of a text is one that the scanner reads. -/
theorem lexical (h : Yields s ts) : ∀ t ∈ ts, Lexical t.kind t.value := by
  induction h with
  | finished => simp
  | token token _ ih => exact List.forall_mem_cons.2 ⟨(next_token token).1, ih⟩

theorem not_before (h : Yields s ts) : ∀ t ∈ ts, ¬ t.position.Before s.position := by
  induction h with
  | finished => simp
  | @token s t ts token _ ih =>
      obtain ⟨-, hhere, hafter⟩ := next_token token
      refine List.forall_mem_cons.2 ⟨hhere, fun u hu => ?_⟩
      have hlater := ih u hu
      simp only [Position.Before] at *
      omega

/-- Tokens come in the order of their places. -/
theorem ascending (h : Yields s ts) : ts.Pairwise fun t u => t.position.Before u.position := by
  induction h with
  | finished => exact .nil
  | @token s t ts token rest ih =>
      obtain ⟨-, -, hafter⟩ := next_token token
      refine List.pairwise_cons.2 ⟨fun u hu => ?_, ih⟩
      have hlater := rest.not_before u hu
      simp only [Position.Before] at *
      omega

/-- Only what stands behind the blanks matters. -/
theorem congr {s' : Scanner} (same : skipGap s.rest s.position = skipGap s'.rest s'.position)
    (h : Yields s ts) : Yields s' ts := by
  have hnext : s.next = s'.next := by
    unfold next
    rw [same]
  cases h with
  | finished finished => exact .finished (hnext ▸ finished)
  | token token rest => exact .token (hnext ▸ token) (hnext ▸ rest)

end Yields

theorem next_of_read {b : UInt8} {text rest value : Bytes} {kind : Token.Kind}
    (h : Lexeme.read b text = ⟨.ok (kind, value), rest⟩) (p : Position) :
    next ⟨b :: text, p⟩ = (.token ⟨kind, value, p⟩, ⟨rest, p.right value.length⟩) :=
  next_eq_token_iff.2
    ⟨b, text, skipGap_of_not_blank (Lexeme.not_blank_of_read h) text p, h, rfl⟩

end Scanner

theorem tokenize_ok_iff {source : Bytes} {ts : List Token} :
    tokenize source = .ok ts ↔ (Scanner.ofSource source).Yields ts :=
  Scanner.tokens_ok_iff

/-! ## Texts and their tokens -/

/-- Wherever it stands, the text gives the tokens, up to places. -/
def Scans (text : Bytes) (ts : List Token) : Prop :=
  ∀ p : Position, ∃ us, Scanner.Yields ⟨text, p⟩ us ∧ us.map Token.unplaced = ts

namespace Scans

variable {text rest : Bytes} {ts : List Token}

theorem nil : Scans [] [] := fun p => ⟨[], .finished (p := p) rfl, rfl⟩

/-- A blank in front of a text is skipped. -/
theorem blank {b : UInt8} (hb : isBlank b = true) (h : Scans rest ts) : Scans (b :: rest) ts := by
  intro p
  have hskip : ∃ q, Scanner.skipGap rest q = Scanner.skipGap (b :: rest) p := by
    simp only [isBlank, Bool.or_eq_true, beq_iff_eq] at hb
    rw [Scanner.skipGap.eq_def (b :: rest)]
    rcases hb with ((rfl | rfl) | rfl) | rfl
    · exact ⟨p.right 1, rfl⟩
    · exact ⟨p.right 1, rfl⟩
    · exact ⟨p.nextLine, rfl⟩
    · cases rest with
      | nil => exact ⟨p.nextLine, rfl⟩
      | cons c rest =>
          by_cases hc : c = StoreLint.lineFeed
          · -- the two together end one line
            refine ⟨p, ?_⟩
            rw [Scanner.skipGap.eq_def (c :: rest)]
            subst hc
            rfl
          · exact ⟨p.nextLine, (if_neg hc).symm⟩
  obtain ⟨q, hq⟩ := hskip
  obtain ⟨us, hus, hts⟩ := h q
  exact ⟨us, hus.congr hq, hts⟩

theorem space (h : Scans rest ts) : Scans (0x20 :: rest) ts :=
  h.blank rfl

theorem lineFeed (h : Scans rest ts) : Scans (0x0A :: rest) ts :=
  h.blank rfl

theorem of_read {b : UInt8} {value : Bytes} {kind : Token.Kind}
    (read : Lexeme.read b text = ⟨.ok (kind, value), rest⟩) (h : Scans rest ts) :
    Scans (b :: text) (⟨kind, value, .nowhere⟩ :: ts) := by
  intro p
  have hnext := Scanner.next_of_read read p
  obtain ⟨us, hus, hts⟩ := h (p.right value.length)
  refine ⟨⟨kind, value, p⟩ :: us, .token (by rw [hnext]) (by rw [hnext]; exact hus), ?_⟩
  rw [List.map_cons, hts]
  rfl

/-- A sign in front of a text is a token, whatever the text starts with. -/
theorem sign {b : UInt8} {kind : Token.Kind} (known : signKind? b = some kind)
    (h : Scans rest ts) : Scans (b :: rest) (⟨kind, [b], .nowhere⟩ :: ts) :=
  of_read (Lexeme.read_sign known rest) h

/-- A lexeme in front of a text that does not continue it is a token. -/
theorem lexeme_of_ends {value : Bytes} {kind : Token.Kind} (lexical : Lexical kind value)
    (ends : Ends kind rest) (h : Scans rest ts) :
    Scans (value ++ rest) (⟨kind, value, .nowhere⟩ :: ts) := by
  obtain ⟨b, value, rfl⟩ := List.exists_cons_of_ne_nil lexical.ne_nil
  exact of_read (Lexeme.read_append lexical ends) h

theorem lexeme {value : Bytes} {kind : Token.Kind} (lexical : Lexical kind value)
    (apart : Apart rest) (h : Scans rest ts) :
    Scans (value ++ rest) (⟨kind, value, .nowhere⟩ :: ts) :=
  h.lexeme_of_ends lexical (apart.ends kind)

/-- A text is cut into the tokens it gives. -/
theorem tokenize (h : Scans text ts) :
    ∃ us, StoreLint.tokenize text = .ok us ∧ us.map Token.unplaced = ts := by
  obtain ⟨us, hus, hts⟩ := h .start
  exact ⟨us, tokenize_ok_iff.2 hus, hts⟩

end Scans

end StoreLint
