import Mathlib.Data.List.Chain
import Mathlib.Data.List.TakeWhile
import StoreLint.Proofs.Lexemes

/-!
# The lexical grammar

    text   = gap { lexeme gap }
    lexeme = word | number | sign
    word   = letter | "if" | "else" | "end" | "while"
    number = digits [ "." digits ]
    sign   = "+" | "-" | "*" | "/" | "<" | ">" | "=" | "(" | ")"

A gap is a run of spaces, tabs and line ends.  It may be empty, but not between two words and not
between two numbers.

A `Cut` of a text is one way to write it like this.  `tokenize_ok_iff_cut` says that the scanner
accepts exactly the texts that have a cut, that no text has two of them, and that the tokens are the
lexemes of the cut.

* `Spells`: the lexemes, with the kinds of token that they are.
* `Cut.Valid.read_first`: each lexeme of a cut is what the scanner reads at its place.
* `Cut.eq_of_text_eq`: so the text determines the cut.
* `Cut.Valid.scans` and `Scanner.Yields.exists_cut`: from a cut to a run of the scanner, and back.
-/

namespace StoreLint

namespace LexicalGrammar

/-! ## Lexemes -/

/-- The keywords, with their kinds. -/
def keywords : List (Token.Kind × String) :=
  [(.ifWord, "if"), (.elseWord, "else"), (.endWord, "end"), (.whileWord, "while")]

/-- The signs, with their kinds. -/
def signs : List (Token.Kind × String) :=
  [(.plus, "+"), (.minus, "-"), (.star, "*"), (.slash, "/"), (.less, "<"), (.greater, ">"),
    (.assign, "="), (.openBracket, "("), (.closeBracket, ")")]

/-- The lexemes, with the kinds of token that they are. -/
inductive Spells : Token.Kind → Bytes → Prop
  | letter {b : UInt8} (isLetter : isLetter b = true) : Spells .variable [b]
  | keyword {kind : Token.Kind} {text : String} (known : (kind, text) ∈ keywords) :
      Spells kind (utf8 text)
  | number {text : Bytes} (numeral : Numeral text) : Spells .number text
  | sign {kind : Token.Kind} {text : String} (known : (kind, text) ∈ signs) :
      Spells kind (utf8 text)

theorem keyword?_eq_some_iff {word : Bytes} {kind : Token.Kind} :
    keyword? word = some kind ↔ ∃ text, (kind, text) ∈ keywords ∧ word = utf8 text := by
  constructor
  · intro h
    obtain ⟨hkind, hword⟩ := keyword?_eq_some h
    refine ⟨kind.name, ?_, hword⟩
    cases kind <;> cases hkind <;> decide
  · rintro ⟨text, hmem, rfl⟩
    simp only [keywords, List.mem_cons, Prod.mk.injEq, List.not_mem_nil, or_false] at hmem
    rcases hmem with ⟨rfl, rfl⟩ | ⟨rfl, rfl⟩ | ⟨rfl, rfl⟩ | ⟨rfl, rfl⟩ <;> decide

theorem signKind?_eq_some_iff {b : UInt8} {kind : Token.Kind} :
    signKind? b = some kind ↔ ∃ text, (kind, text) ∈ signs ∧ [b] = utf8 text := by
  constructor
  · intro h
    obtain ⟨hkind, hb⟩ := signKind?_eq_some h
    refine ⟨kind.name, ?_, hb⟩
    cases kind <;> cases hkind <;> decide
  · rintro ⟨text, hmem, hb⟩
    simp only [signs, List.mem_cons, Prod.mk.injEq, List.not_mem_nil, or_false] at hmem
    rcases hmem with ⟨rfl, rfl⟩ | ⟨rfl, rfl⟩ | ⟨rfl, rfl⟩ | ⟨rfl, rfl⟩ | ⟨rfl, rfl⟩ | ⟨rfl, rfl⟩ |
      ⟨rfl, rfl⟩ | ⟨rfl, rfl⟩ | ⟨rfl, rfl⟩ <;> cases hb <;> decide

theorem length_signs : ∀ entry ∈ signs, (utf8 entry.2).length = 1 := by
  decide

/-- The lexemes are what the scanner takes for tokens. -/
theorem lexical_iff_spells {kind : Token.Kind} {value : Bytes} :
    Lexical kind value ↔ Spells kind value := by
  constructor
  · intro h
    cases h with
    | letter isLetter => exact .letter isLetter
    | keyword known =>
        obtain ⟨text, hmem, rfl⟩ := keyword?_eq_some_iff.1 known
        exact .keyword hmem
    | numeral numeral => exact .number numeral
    | sign known =>
        obtain ⟨text, hmem, hb⟩ := signKind?_eq_some_iff.1 known
        rw [hb]
        exact .sign hmem
  · intro h
    cases h with
    | letter isLetter => exact .letter isLetter
    | keyword known => exact .keyword (keyword?_eq_some_iff.2 ⟨_, known, rfl⟩)
    | number numeral => exact .numeral numeral
    | sign known =>
        obtain ⟨b, hb⟩ := List.length_eq_one_iff.1 (length_signs _ known)
        rw [hb]
        exact .sign (signKind?_eq_some_iff.2 ⟨_, known, hb.symm⟩)

/-! ## Cuts -/

/-- A lexeme, the kind of token that it is, and the gap behind it. -/
structure Piece where
  kind : Token.Kind
  lexeme : Bytes
  gap : Bytes
  deriving DecidableEq, Repr

/-- The text of a lexeme and the gap behind it. -/
def Piece.text (p : Piece) : Bytes :=
  p.lexeme ++ p.gap

/-- There is a gap between two words, and between two numbers. -/
def Piece.Separated (p q : Piece) : Prop :=
  (p.kind.isWord = true ∧ q.kind.isWord = true ∨ p.kind = .number ∧ q.kind = .number) → p.gap ≠ []

/-- A text in pieces: the gap at its front, and the lexemes with the gaps behind them. -/
structure Cut where
  lead : Bytes
  pieces : List Piece
  deriving DecidableEq, Repr

namespace Cut

/-- The text that is cut. -/
def text (c : Cut) : Bytes :=
  c.lead ++ c.pieces.flatMap Piece.text

/-- The cut follows the grammar. -/
structure Valid (c : Cut) : Prop where
  lead : ∀ b ∈ c.lead, isBlank b = true
  gaps : ∀ p ∈ c.pieces, ∀ b ∈ p.gap, isBlank b = true
  lexemes : ∀ p ∈ c.pieces, Spells p.kind p.lexeme
  separated : c.pieces.IsChain Piece.Separated

theorem text_cons (lead : Bytes) (p : Piece) (ps : List Piece) :
    text ⟨lead, p :: ps⟩ = lead ++ (p.lexeme ++ text ⟨p.gap, ps⟩) := by
  simp [text, Piece.text]

end Cut

/-! ## What stands next to what -/

theorem apart_of_isBlank {b : UInt8} (h : isBlank b = true) (rest : Bytes) : Apart (b :: rest) := by
  refine .cons rest ?_
  simp only [isBlank, Bool.or_eq_true, beq_iff_eq] at h
  rcases h with ((rfl | rfl) | rfl) | rfl <;> decide

theorem isDigit_eq_false_of_isLetter {b : UInt8} (h : isLetter b = true) : isDigit b = false := by
  cases hdigit : isDigit b with
  | false => rfl
  | true =>
      rw [isLetter_eq_false_of_isDigit hdigit] at h
      cases h

/-- The first byte of a lexeme tells words, numbers and signs apart. -/
theorem first_of_lexical {kind : Token.Kind} {b : UInt8} {tail : Bytes}
    (h : Lexical kind (b :: tail)) :
    isLetter b = kind.isWord ∧ isDigit b = (kind == .number) ∧ b ≠ pointByte := by
  cases h with
  | letter isLetter =>
      refine ⟨isLetter, isDigit_eq_false_of_isLetter isLetter, ?_⟩
      rintro rfl
      cases isLetter
  | keyword known =>
      have hletter := Lexeme.isLetter_of_keyword known b (by simp)
      have hkind := (keyword?_eq_some known).1
      refine ⟨?_, ?_, ?_⟩
      · rw [hletter, Token.Kind.isWord, hkind, Bool.or_true]
      · rw [isDigit_eq_false_of_isLetter hletter]
        cases kind <;> cases hkind <;> rfl
      · rintro rfl
        cases hletter
  | numeral numeral =>
      obtain ⟨c, places, hcons, hdigit⟩ := numeral.exists_cons
      obtain ⟨rfl, rfl⟩ := List.cons.inj hcons
      refine ⟨isLetter_eq_false_of_isDigit hdigit, hdigit, ?_⟩
      rintro rfl
      cases hdigit
  | sign known =>
      obtain ⟨hletter, hdigit, hpoint⟩ := not_word_of_sign known
      obtain ⟨hword, hnumber⟩ := Token.Kind.not_word_of_isSign (signKind?_eq_some known).1
      refine ⟨by rw [hletter, hword], ?_, hpoint⟩
      rw [hdigit]
      exact (beq_eq_false_iff_ne.2 hnumber).symm

namespace Cut

theorem Valid.tail {lead : Bytes} {p : Piece} {ps : List Piece} (h : Valid ⟨lead, p :: ps⟩) :
    Valid ⟨p.gap, ps⟩ where
  lead := h.gaps p (List.mem_cons_self ..)
  gaps := fun q hq => h.gaps q (List.mem_cons_of_mem p hq)
  lexemes := fun q hq => h.lexemes q (List.mem_cons_of_mem p hq)
  separated := h.separated.tail

/-- The text behind a lexeme does not continue it. -/
theorem Valid.ends {lead : Bytes} {p : Piece} {ps : List Piece} (h : Valid ⟨lead, p :: ps⟩) :
    Ends p.kind (text ⟨p.gap, ps⟩) := by
  cases hgap : p.gap with
  | cons b gap =>
      have hb : isBlank b = true := h.gaps p (List.mem_cons_self ..) b (by simp [hgap])
      exact (apart_of_isBlank hb _).ends p.kind
  | nil =>
      cases ps with
      | nil =>
          intro b hb
          cases hb
      | cons q ps =>
          have hq := lexical_iff_spells.2 (h.lexemes q (by simp))
          have hseparated : p.Separated q := (List.isChain_cons_cons.1 h.separated).1
          obtain ⟨b, tail, hlexeme⟩ := List.exists_cons_of_ne_nil hq.ne_nil
          rw [hlexeme] at hq
          obtain ⟨hletter, hdigit, hpoint⟩ := first_of_lexical hq
          rw [text_cons, hlexeme, List.nil_append]
          intro c hc
          cases hc
          refine ⟨fun hword => ?_, fun hnumber => ⟨?_, hpoint⟩⟩
          · by_contra hnot
            rw [Bool.not_eq_false, hletter] at hnot
            exact hseparated (.inl ⟨hword, hnot⟩) hgap
          · by_contra hnot
            rw [Bool.not_eq_false, hdigit, beq_iff_eq] at hnot
            exact hseparated (.inr ⟨hnumber, hnot⟩) hgap

/-- A lexeme in front of a cut that does not continue it makes a longer cut. -/
theorem Valid.cons {lead value : Bytes} {kind : Token.Kind} {c : Cut} (h : c.Valid)
    (hlead : ∀ b ∈ lead, isBlank b = true) (hlexical : Lexical kind value)
    (hends : Ends kind c.text) : Valid ⟨lead, ⟨kind, value, c.lead⟩ :: c.pieces⟩ where
  lead := hlead
  gaps := List.forall_mem_cons.2 ⟨h.lead, h.gaps⟩
  lexemes := List.forall_mem_cons.2 ⟨lexical_iff_spells.1 hlexical, h.lexemes⟩
  separated := by
    obtain ⟨gap, ps⟩ := c
    cases ps with
    | nil => exact .singleton _
    | cons q ps =>
        refine List.isChain_cons_cons.2 ⟨?_, h.separated⟩
        rintro hkinds rfl
        have hq := lexical_iff_spells.2 (h.lexemes q (List.mem_cons_self ..))
        obtain ⟨b, tail, hlexeme⟩ := List.exists_cons_of_ne_nil hq.ne_nil
        rw [hlexeme] at hq
        rw [text_cons, hlexeme, List.nil_append] at hends
        obtain ⟨hletter, hdigit, -⟩ := first_of_lexical hq
        obtain ⟨hnoLetter, hnoDigit⟩ := hends b rfl
        rcases hkinds with ⟨hword, hword'⟩ | ⟨hnumber, hnumber'⟩
        · rw [hnoLetter hword, hword'] at hletter
          cases hletter
        · rw [(hnoDigit hnumber).1, hnumber'] at hdigit
          cases hdigit

/-- Each lexeme of a cut is what the scanner reads at its place. -/
theorem Valid.read_first {lead : Bytes} {p : Piece} {ps : List Piece} (h : Valid ⟨lead, p :: ps⟩) :
    ∃ b tail, p.lexeme = b :: tail ∧
      Lexeme.read b (tail ++ text ⟨p.gap, ps⟩) = ⟨.ok (p.kind, p.lexeme), text ⟨p.gap, ps⟩⟩ := by
  have hlexical := lexical_iff_spells.2 (h.lexemes p (List.mem_cons_self ..))
  obtain ⟨b, tail, hlexeme⟩ := List.exists_cons_of_ne_nil hlexical.ne_nil
  rw [hlexeme] at hlexical ⊢
  exact ⟨b, tail, rfl, Lexeme.read_append hlexical h.ends⟩

/-- The gap at the front is all the blanks there. -/
theorem Valid.span {lead : Bytes} {ps : List Piece} (h : Valid ⟨lead, ps⟩) :
    (text ⟨lead, ps⟩).takeWhile isBlank = lead ∧
      (text ⟨lead, ps⟩).dropWhile isBlank = ps.flatMap Piece.text := by
  refine span_append h.lead ?_
  cases ps with
  | nil =>
      intro b hb
      cases hb
  | cons p ps =>
      obtain ⟨b, tail, hlexeme, hread⟩ := h.read_first
      intro c hc
      rw [List.flatMap_cons, Piece.text, hlexeme] at hc
      cases hc
      exact Lexeme.not_blank_of_read hread

/-- No cut without lexemes has the text of a cut with lexemes. -/
theorem Valid.flatMap_ne_nil {lead : Bytes} {p : Piece} {ps : List Piece}
    (h : Valid ⟨lead, p :: ps⟩) : (p :: ps).flatMap Piece.text ≠ [] := by
  obtain ⟨b, tail, hlexeme, -⟩ := h.read_first
  rw [List.flatMap_cons, Piece.text, hlexeme]
  exact List.cons_ne_nil _ _

/-- **A text has at most one cut.** -/
theorem eq_of_text_eq {c c' : Cut} (h : c.Valid) (h' : c'.Valid) (heq : c.text = c'.text) :
    c = c' := by
  obtain ⟨lead, ps⟩ := c
  obtain ⟨lead', ps'⟩ := c'
  induction ps generalizing lead lead' ps' with
  | nil =>
      have hspan := h.span
      rw [heq, h'.span.1, h'.span.2] at hspan
      obtain ⟨rfl, hpieces⟩ := hspan
      cases ps' with
      | nil => rfl
      | cons p' ps' => exact absurd hpieces h'.flatMap_ne_nil
  | cons p ps ih =>
      have hspan := h.span
      rw [heq, h'.span.1, h'.span.2] at hspan
      obtain ⟨rfl, hpieces⟩ := hspan
      cases ps' with
      | nil => exact absurd hpieces.symm h.flatMap_ne_nil
      | cons p' ps' =>
          -- both first lexemes are read from the same text
          obtain ⟨b, tail, hlexeme, hread⟩ := h.read_first
          obtain ⟨b', tail', hlexeme', hread'⟩ := h'.read_first
          rw [text_cons, text_cons, hlexeme, hlexeme', List.cons_append, List.cons_append] at heq
          obtain ⟨rfl, hrest⟩ := List.cons.inj (List.append_cancel_left heq)
          rw [hrest, hread'] at hread
          obtain ⟨hfound, htext⟩ := Lexeme.mk.inj hread
          obtain ⟨hkind, hvalue⟩ := Prod.mk.inj (Except.ok.inj hfound)
          obtain ⟨hgap, rfl⟩ := Cut.mk.inj (ih p.gap h.tail p'.gap ps' h'.tail htext.symm)
          have hpiece : p = p' := by
            obtain ⟨kind, lexeme, gap⟩ := p
            obtain ⟨kind', lexeme', gap'⟩ := p'
            exact Piece.mk.injEq .. ▸ ⟨hkind.symm, hvalue.symm, hgap⟩
          rw [hpiece]

end Cut

/-! ## Cuts and runs of the scanner -/

/-- The kinds and texts of the tokens that the lexemes of a cut are. -/
def Cut.tokens (c : Cut) : List Token :=
  c.pieces.map fun p => ⟨p.kind, p.lexeme, .nowhere⟩

theorem scans_gap {gap rest : Bytes} {ts : List Token} (hgap : ∀ b ∈ gap, isBlank b = true)
    (h : Scans rest ts) : Scans (gap ++ rest) ts := by
  induction gap with
  | nil => exact h
  | cons b gap ih =>
      obtain ⟨hb, hgap⟩ := List.forall_mem_cons.1 hgap
      exact (ih hgap).blank hb

/-- The scanner finds the lexemes of a cut. -/
theorem Cut.Valid.scans {c : Cut} (h : c.Valid) : Scans c.text c.tokens := by
  obtain ⟨lead, ps⟩ := c
  induction ps generalizing lead with
  | nil => exact scans_gap h.lead Scans.nil
  | cons p ps ih =>
      have hlexical := lexical_iff_spells.2 (h.lexemes p (List.mem_cons_self ..))
      rw [text_cons]
      exact scans_gap h.lead ((ih p.gap h.tail).lexeme_of_ends hlexical h.ends)

/-- What the scanner finds is a cut. -/
theorem exists_cut {s : Scanner} {ts : List Token} (h : s.Yields ts) :
    ∃ c : Cut, c.Valid ∧ c.text = s.rest ∧ c.tokens = ts.map Token.unplaced := by
  induction h with
  | @finished s p finished =>
      have hblank : s.rest.dropWhile isBlank = [] := by
        rw [← Scanner.rest_skipGap s.rest s.position, Scanner.next_finished_iff.1 finished]
      have hall : ∀ b ∈ s.rest, isBlank b = true := List.dropWhile_eq_nil_iff.1 hblank
      exact ⟨⟨s.rest, []⟩, ⟨hall, by simp, by simp, .nil⟩, by simp [Cut.text], rfl⟩
  | @token s t ts token rest ih =>
      obtain ⟨c, hvalid, htext, htokens⟩ := ih
      obtain ⟨b, text, hhere, hread, -⟩ := Scanner.next_eq_token_iff.1 (Prod.ext token rfl)
      obtain ⟨hvalue, hlexical, hends⟩ := Lexeme.read_ok_iff.1 hread
      have hdrop : s.rest.dropWhile isBlank = t.value ++ c.text := by
        rw [← Scanner.rest_skipGap s.rest s.position, hhere, hvalue, htext]
      have hsplit : s.rest.takeWhile isBlank ++ (t.value ++ c.text) = s.rest := by
        rw [← hdrop, List.takeWhile_append_dropWhile]
      refine ⟨⟨s.rest.takeWhile isBlank, ⟨t.kind, t.value, c.lead⟩ :: c.pieces⟩, ?_, ?_, ?_⟩
      · refine hvalid.cons (fun b hb => ?_) hlexical (htext ▸ hends)
        exact List.mem_takeWhile_imp hb
      · rw [Cut.text_cons]
        exact hsplit
      · rw [List.map_cons, ← htokens]
        rfl

/-- **The scanner accepts exactly the lexical grammar, and loses nothing.**  A text gives tokens if
and only if it has a cut.  Then it has no other cut, and the tokens are the lexemes of the cut in
their order, with their kinds; none of them stands for the end of the input. -/
theorem tokenize_ok_iff_cut (source : Bytes) :
    ((∃ ts, tokenize source = .ok ts) ↔ ∃ c : Cut, c.Valid ∧ c.text = source) ∧
      ∀ c : Cut, c.Valid → c.text = source →
        (∀ c' : Cut, c'.Valid → c'.text = source → c' = c) ∧
          ∃ ts, tokenize source = .ok ts ∧
            ts.map (fun t => (t.kind, t.value)) = c.pieces.map (fun p => (p.kind, p.lexeme)) ∧
            ∀ t ∈ ts, t.kind ≠ .endOfInput := by
  have htokens : ∀ c : Cut, c.Valid → c.text = source →
      ∃ ts, tokenize source = .ok ts ∧ ts.map Token.unplaced = c.tokens := by
    rintro c hvalid rfl
    exact hvalid.scans.tokenize
  refine ⟨⟨?_, ?_⟩, ?_⟩
  · rintro ⟨ts, hts⟩
    obtain ⟨c, hvalid, htext, -⟩ := exists_cut (tokenize_ok_iff.1 hts)
    exact ⟨c, hvalid, htext⟩
  · rintro ⟨c, hvalid, htext⟩
    obtain ⟨ts, hts, -⟩ := htokens c hvalid htext
    exact ⟨ts, hts⟩
  · intro c hvalid htext
    refine ⟨fun c' hvalid' htext' => Cut.eq_of_text_eq hvalid' hvalid (htext'.trans htext.symm), ?_⟩
    obtain ⟨ts, hts, hunplaced⟩ := htokens c hvalid htext
    refine ⟨ts, hts, ?_, fun t ht hkind => ?_⟩
    · have hpairs := congrArg (List.map fun t : Token => (t.kind, t.value)) hunplaced
      simpa [Cut.tokens, Token.unplaced, Function.comp_def] using hpairs
    · have hread := ((tokenize_ok_iff.1 hts).lexical t ht).isRead
      rw [hkind] at hread
      cases hread

end LexicalGrammar
end StoreLint
