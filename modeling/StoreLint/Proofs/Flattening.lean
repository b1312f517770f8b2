import StoreLint.Proofs.Lexemes
import StoreLint.Proofs.Spelling

/-!
# Trees and their tokens

A program tree can be flattened into tokens again.  This file shows that a parsed tree flattens to
the tokens that it was parsed from, and that every tree without missing parts that flattens to them
and is grouped by precedence is the same tree, up to places and to the values of its literals.

* `Expr.tokens`, `Block.tokens`: flattening.  Brackets come from bracket nodes only, and a literal
  with a minus in front is two tokens.
* `Block.Grouped`: every expression of a program is grouped by precedence.
* `Block.WrittenAs.tokens_eq`: a program that is written as certain tokens flattens to them.
* `Block.reads_tokens`: reading the tokens of a grouped program, the parser rebuilds the program.
* `parsed_tree_unique`: both together.
* `other_trees_with_tokens`: neither exception can be left out.
-/

namespace StoreLint

open StoreLint.Parser

/-! ## Flattening -/

/-- The kind of token that an operator is written as. -/
def Operator.kind : Operator → Token.Kind
  | .add => .plus
  | .sub => .minus
  | .mul => .star
  | .div => .slash
  | .less => .less
  | .greater => .greater
  | .unknown => .unknown

/-- A token whose kind fixes its text, without a place. -/
def Token.ofKind (kind : Token.Kind) : Token :=
  ⟨kind, utf8 kind.name, .nowhere⟩

/-- The token of a variable, without a place. -/
def Token.ofName (name : UInt8) : Token :=
  ⟨.variable, [name], .nowhere⟩

/-- The token of a number, without a place. -/
def Token.ofNumeral (text : Bytes) : Token :=
  ⟨.number, text, .nowhere⟩

namespace Expr

/-- The tokens of a literal; a minus in front of it is a token of its own. -/
def literalTokens (text : Bytes) : List Token :=
  if text.head? = some 0x2D then [.ofKind .minus, .ofNumeral text.tail] else [.ofNumeral text]

/-- The tokens of an expression, without places. -/
def tokens : Expr → List Token
  | .missing => []
  | .number text _ => literalTokens text
  | .variable name => [.ofName name]
  | .bracket inner => .ofKind .openBracket :: (inner.tokens ++ [.ofKind .closeBracket])
  | .binary left op right => left.tokens ++ .ofKind op.kind :: right.tokens

/-- Is no part of the expression missing? -/
def whole : Expr → Bool
  | .missing => false
  | .number _ _ | .variable _ => true
  | .bracket inner => inner.whole
  | .binary left _ right => left.whole && right.whole

/-- The expression in which each literal has the value that its text names. -/
def valued : Expr → Expr
  | .missing => .missing
  | .number text value => .number text ((Number.read? text).getD value)
  | .variable name => .variable name
  | .bracket inner => .bracket inner.valued
  | .binary left op right => .binary left.valued op right.valued

@[simp] theorem root?_valued (e : Expr) : e.valued.root? = e.root? := by
  cases e <;> rfl

theorem Grouped.valued {e : Expr} (h : e.Grouped) : e.valued.Grouped := by
  induction e with
  | bracket inner ih => exact ih h
  | binary left op right ihleft ihright =>
      obtain ⟨hleft, hright, hle, hlt⟩ := h
      exact ⟨ihleft hleft, ihright hright, by simpa using hle, by simpa using hlt⟩
  | _ => trivial

end Expr

namespace Block

/-- The tokens of a program, without places. -/
def tokens : Block → List Token
  | .empty => []
  | .assign write rest =>
    .ofName write.target :: .ofKind .assign :: (write.value.tokens ++ rest.tokens)
  | .branch _ cond yes no rest =>
    .ofKind .ifWord :: (cond.tokens ++ (yes.tokens ++
      ((if no.isEmpty then [] else .ofKind .elseWord :: no.tokens) ++
        .ofKind .endWord :: rest.tokens)))
  | .loop _ cond body rest =>
    .ofKind .whileWord :: (cond.tokens ++ (body.tokens ++ .ofKind .endWord :: rest.tokens))
  | .missing rest => rest.tokens

/-- The expressions of a program: the values of assignments and the conditions, at any depth. -/
def exprs : Block → List Expr
  | .empty => []
  | .assign write rest => write.value :: rest.exprs
  | .branch _ cond yes no rest => cond :: (yes.exprs ++ no.exprs ++ rest.exprs)
  | .loop _ cond body rest => cond :: (body.exprs ++ rest.exprs)
  | .missing rest => rest.exprs

/-- Is no statement missing, and no part of an expression? -/
def whole : Block → Bool
  | .empty => true
  | .assign write rest => write.value.whole && rest.whole
  | .branch _ cond yes no rest => cond.whole && yes.whole && no.whole && rest.whole
  | .loop _ cond body rest => cond.whole && body.whole && rest.whole
  | .missing _ => false

theorem complete_of_whole {b : Block} (h : b.whole = true) : b.complete = true := by
  induction b with
  | empty => rfl
  | assign write rest ih => exact ih (Bool.and_eq_true_iff.1 h).2
  | branch line cond yes no rest ihyes ihno ih =>
      simp only [whole, Bool.and_eq_true] at h
      simp [complete, ihyes h.1.1.2, ihno h.1.2, ih h.2]
  | loop line cond body rest ihbody ih =>
      simp only [whole, Bool.and_eq_true] at h
      simp [complete, ihbody h.1.2, ih h.2]
  | missing rest ih => cases h

/-- Every expression of the program is grouped by precedence. -/
def Grouped (b : Block) : Prop :=
  ∀ e ∈ b.exprs, e.Grouped

/-- The program in which each literal has the value that its text names. -/
def valued : Block → Block
  | .empty => .empty
  | .assign write rest => .assign { write with value := write.value.valued } rest.valued
  | .branch line cond yes no rest => .branch line cond.valued yes.valued no.valued rest.valued
  | .loop line cond body rest => .loop line cond.valued body.valued rest.valued
  | .missing rest => .missing rest.valued

end Block

/-! ## Parsed trees -/

theorem Lexical.unplaced_eq {t : Token} {kind : Token.Kind} (h : Lexical t.kind t.value)
    (hkind : t.kind = kind) (hfixed : kind.isFixed = true) : t.unplaced = .ofKind kind := by
  subst hkind
  rw [Token.unplaced, Token.ofKind, h.value_eq hfixed]

theorem Token.unplaced_of_letter {t : Token} {name : UInt8} (kind : t.kind = .variable)
    (letter : letter? t = some name) : t.unplaced = .ofName name := by
  rw [Token.unplaced, Token.ofName, kind, (letter?_eq_some.1 letter).2]

theorem operator?_eq_some {kind : Token.Kind} {op : Operator} (h : operator? kind = some op) :
    op.kind = kind := by
  cases kind <;> cases h <;> rfl

theorem operator?_kind {op : Operator} (h : op.kind ≠ .unknown) : operator? op.kind = some op := by
  cases op <;> first | rfl | exact absurd rfl h

theorem Operator.isFixed_kind (op : Operator) : op.kind.isFixed = true := by
  cases op <;> rfl

namespace Expr

theorem literalTokens_of_numeral {text : Bytes} (h : Numeral text) :
    literalTokens text = [.ofNumeral text] := by
  obtain ⟨b, rest, rfl, hdigit⟩ := h.exists_cons
  have hminus : b ≠ 0x2D := by
    rintro rfl
    cases hdigit
  simp [literalTokens, hminus]

theorem literalTokens_minus (text : Bytes) :
    literalTokens (utf8 "-" ++ text) = [.ofKind .minus, .ofNumeral text] :=
  rfl

namespace SpelledBy

variable {e : Expr} {ts : List Token}

/-- An expression flattens to the tokens that spell it. -/
theorem tokens_eq (h : e.SpelledBy ts) (lexical : ∀ t ∈ ts, Lexical t.kind t.value) :
    e.tokens = ts.map Token.unplaced := by
  induction h with
  | letter kind letter => simp [tokens, Token.unplaced_of_letter kind letter]
  | @literal t value kind read =>
      have hlexical := lexical t (by simp)
      rw [kind] at hlexical
      rw [tokens, literalTokens_of_numeral hlexical.of_number, Token.ofNumeral, ← kind]
      rfl
  | @negative minus t value sign kind read =>
      have hminus := (lexical minus (by simp)).unplaced_eq sign rfl
      rw [tokens, literalTokens_minus, ← hminus, Token.ofNumeral, ← kind]
      rfl
  | @bracket inner first last ts kind spelled kind' ih =>
      have hfirst := (lexical first (by simp)).unplaced_eq kind rfl
      have hlast := (lexical last (by simp)).unplaced_eq kind' rfl
      simp [tokens, ih fun t ht => lexical t (by simp [ht]), hfirst, hlast]
  | @binary left right op sign ts us spelled kind spelled' ihleft ihright =>
      have hsign := (lexical sign (by simp)).unplaced_eq (operator?_eq_some kind).symm
        op.isFixed_kind
      simp [tokens, ihleft fun t ht => lexical t (by simp [ht]),
        ihright fun t ht => lexical t (by simp [ht]), hsign]

theorem whole (h : e.SpelledBy ts) : e.whole = true := by
  induction h with
  | binary _ _ _ ihleft ihright => simp [Expr.whole, ihleft, ihright]
  | bracket _ _ _ ih => exact ih
  | _ => rfl

theorem valued_eq (h : e.SpelledBy ts) : e.valued = e := by
  induction h with
  | letter => rfl
  | literal _ read => simp [Expr.valued, read]
  | negative _ _ read => simp [Expr.valued, read]
  | bracket _ _ _ ih => rw [Expr.valued, ih]
  | binary _ _ _ ihleft ihright => rw [Expr.valued, ihleft, ihright]

end SpelledBy

end Expr

namespace Block.WrittenAs

variable {b : Block} {ts : List Token}

/-- A program flattens to the tokens that it is written as. -/
theorem tokens_eq (h : b.WrittenAs ts) (lexical : ∀ t ∈ ts, Lexical t.kind t.value) :
    b.tokens = ts.map Token.unplaced := by
  induction h with
  | empty => rfl
  | @assign target sign name value rest es ts kind letter kind' written after ih =>
      have htarget := Token.unplaced_of_letter kind letter
      have hsign := (lexical sign (by simp)).unplaced_eq kind' rfl
      have hvalue := written.spelled.tokens_eq fun t ht => lexical t (by simp [ht])
      simp [tokens, htarget, hsign, hvalue, ih fun t ht => lexical t (by simp [ht])]
  | @branch first last cond yes rest es ys ts kind written body some kind' after ihyes ih =>
      have hfirst := (lexical first (by simp)).unplaced_eq kind rfl
      have hlast := (lexical last (by simp)).unplaced_eq kind' rfl
      have hcond := written.spelled.tokens_eq fun t ht => lexical t (by simp [ht])
      simp [tokens, isEmpty, hfirst, hlast, hcond, ihyes fun t ht => lexical t (by simp [ht]),
        ih fun t ht => lexical t (by simp [ht])]
  | @branchElse first middle last cond yes no rest es ys ns ts kind written body some kind' body'
      some' kind'' after ihyes ihno ih =>
      have hfirst := (lexical first (by simp)).unplaced_eq kind rfl
      have hmiddle := (lexical middle (by simp)).unplaced_eq kind' rfl
      have hlast := (lexical last (by simp)).unplaced_eq kind'' rfl
      have hcond := written.spelled.tokens_eq fun t ht => lexical t (by simp [ht])
      simp [tokens, some', hfirst, hmiddle, hlast, hcond,
        ihyes fun t ht => lexical t (by simp [ht]), ihno fun t ht => lexical t (by simp [ht]),
        ih fun t ht => lexical t (by simp [ht])]
  | @loop first last cond body rest es bs ts kind written inside some kind' after ihbody ih =>
      have hfirst := (lexical first (by simp)).unplaced_eq kind rfl
      have hlast := (lexical last (by simp)).unplaced_eq kind' rfl
      have hcond := written.spelled.tokens_eq fun t ht => lexical t (by simp [ht])
      simp [tokens, hfirst, hlast, hcond, ihbody fun t ht => lexical t (by simp [ht]),
        ih fun t ht => lexical t (by simp [ht])]

theorem whole (h : b.WrittenAs ts) : b.whole = true := by
  induction h with
  | empty => rfl
  | assign _ _ _ written _ ih => simp [Block.whole, written.spelled.whole, ih]
  | branch _ written _ _ _ _ ihyes ih => simp [Block.whole, written.spelled.whole, ihyes, ih]
  | branchElse _ written _ _ _ _ _ _ _ ihyes ihno ih =>
      simp [Block.whole, written.spelled.whole, ihyes, ihno, ih]
  | loop _ written _ _ _ _ ihbody ih =>
      simp [Block.whole, written.spelled.whole, ihbody, ih]

/-- Every expression of a written program is written itself. -/
theorem exists_writtenAs (h : b.WrittenAs ts) : ∀ e ∈ b.exprs, ∃ us, e.WrittenAs us := by
  induction h with
  | empty => simp [exprs]
  | assign _ _ _ written _ ih => exact List.forall_mem_cons.2 ⟨⟨_, written⟩, ih⟩
  | branch _ written _ _ _ _ ihyes ih =>
      refine List.forall_mem_cons.2 ⟨⟨_, written⟩, ?_⟩
      simpa [exprs, or_imp, forall_and] using ⟨ihyes, ih⟩
  | branchElse _ written _ _ _ _ _ _ _ ihyes ihno ih =>
      refine List.forall_mem_cons.2 ⟨⟨_, written⟩, ?_⟩
      simpa [exprs, or_imp, forall_and, and_assoc] using ⟨ihyes, ihno, ih⟩
  | loop _ written _ _ _ _ ihbody ih =>
      refine List.forall_mem_cons.2 ⟨⟨_, written⟩, ?_⟩
      simpa [exprs, or_imp, forall_and] using ⟨ihbody, ih⟩

theorem grouped (h : b.WrittenAs ts) : b.Grouped := by
  intro e he
  obtain ⟨us, written⟩ := h.exists_writtenAs e he
  exact written.grouped

theorem valued_eq (h : b.WrittenAs ts) : b.valued = b := by
  induction h with
  | empty => rfl
  | assign _ _ _ written _ ih => simp [valued, written.spelled.valued_eq, ih]
  | branch _ written _ _ _ _ ihyes ih => simp [valued, written.spelled.valued_eq, ihyes, ih]
  | branchElse _ written _ _ _ _ _ _ _ ihyes ihno ih =>
      simp [valued, written.spelled.valued_eq, ihyes, ihno, ih]
  | loop _ written _ _ _ _ ihbody ih => simp [valued, written.spelled.valued_eq, ihbody, ih]

end Block.WrittenAs

/-! ## Reading a flattened tree -/

theorem letter?_ofName {b name : UInt8} (h : letter? (.ofName b) = some name) : name = b :=
  (List.cons.inj (letter?_eq_some.1 h).2).1.symm

namespace Expr

/-- After the tokens of a grouped expression, the parser holds the sequence of the expression. -/
theorem reads_tokens {e : Expr} (hwhole : e.whole = true) (hgrouped : e.Grouped)
    {frames : List Frame} {done : Block} {purpose : Purpose} {outer : List Operands}
    {before : Operands} {ts : List Token} {s : State}
    (h : Reads ⟨frames, done, .operand purpose outer before⟩ (e.tokens ++ ts) s) :
    Reads ⟨frames, done, .operator purpose outer (e.valued.before ++ before) e.valued.last⟩ ts
      s := by
  induction e generalizing outer before ts with
  | missing => cases hwhole
  | number text value =>
      by_cases hminus : text.head? = some 0x2D
      · obtain ⟨digits, rfl⟩ := List.head?_eq_some_iff.1 hminus
        have hnegative := h.after (.minus rfl)
        obtain ⟨s', hmove⟩ := hnegative.exists_moves
        cases hmove with
        | negative kind read =>
            have hread : Number.read? (0x2D :: digits) = some _ := read
            rw [valued, hread]
            exact hnegative.after (.negative kind read)
      · rw [tokens, literalTokens, if_neg hminus] at h
        obtain ⟨s', hmove⟩ := h.exists_moves
        obtain ⟨value', read⟩ := hmove.exists_value rfl
        have hread : Number.read? text = some value' := read
        rw [valued, hread]
        exact h.after (.number rfl read)
  | «variable» name =>
      obtain ⟨s', hmove⟩ := h.exists_moves
      obtain ⟨name', letter⟩ := hmove.exists_letter rfl
      obtain rfl := letter?_ofName letter
      exact h.after (.name rfl letter)
  | bracket inner ih =>
      -- closing the bracket groups the sequence inside, which gives back the tree inside
      have hvalued : inner.valued.Grouped := Grouped.valued (e := inner) hgrouped
      rw [tokens, List.cons_append, List.append_assoc] at h
      have hinner := ih hwhole hgrouped (h.after (.openBracket rfl))
      have hclosed := hinner.after (.closeBracket rfl)
      rw [List.append_nil, Chain.group_sequence hvalued] at hclosed
      exact hclosed
  | binary left op right ihleft ihright =>
      obtain ⟨hleft, hright⟩ := Bool.and_eq_true_iff.1 hwhole
      rw [tokens, List.append_assoc, List.cons_append] at h
      have hsign := ihleft hleft hgrouped.1 h
      -- no token can be read that stands for an operator beyond the known ones
      obtain ⟨s', hmove⟩ := hsign.exists_moves
      have hop : operator? op.kind = some op := operator?_kind (hmove.ne_stray (.inr (.inr rfl)))
      simpa [valued, Expr.before, Expr.last] using
        ihright hright hgrouped.2.1 (hsign.after (.operator hop))

/-- After the tokens of a grouped expression outside of brackets, the expression may end. -/
theorem settles_tokens {e : Expr} (hwhole : e.whole = true) (hgrouped : e.Grouped)
    {frames : List Frame} {done : Block} {purpose : Purpose} {ts : List Token} {s : State}
    (h : Reads ⟨frames, done, .operand purpose [] []⟩ (e.tokens ++ ts) s) :
    ∃ s', s'.settled = State.deliver ⟨frames, done, .statement⟩ e.valued purpose ∧
      Reads s' ts s := by
  have hreads := reads_tokens hwhole hgrouped h
  rw [List.append_nil] at hreads
  refine ⟨_, ?_, hreads⟩
  simp only [State.settled, Chain.group_sequence hgrouped.valued]
  cases purpose <;> rfl

end Expr

namespace Block

theorem grouped_branch {line : Int} {cond : Expr} {yes no rest : Block} :
    (branch line cond yes no rest).Grouped ↔
      cond.Grouped ∧ yes.Grouped ∧ no.Grouped ∧ rest.Grouped := by
  simp [Grouped, exprs, or_imp, forall_and]

theorem grouped_loop {line : Int} {cond : Expr} {body rest : Block} :
    (loop line cond body rest).Grouped ↔ cond.Grouped ∧ body.Grouped ∧ rest.Grouped := by
  simp [Grouped, exprs, or_imp, forall_and]

theorem eq_empty_of_isEmpty {b : Block} (h : b.isEmpty = true) : b = .empty := by
  cases b <;> first | rfl | cases h

/-- After the tokens of a grouped program, the parser has its statements. -/
theorem reads_tokens {b : Block} (hwhole : b.whole = true) (hgrouped : b.Grouped) {s s' : State}
    {frames : List Frame} {done : Block} {ts : List Token}
    (hs : s.settled = ⟨frames, done, .statement⟩) (h : Reads s (b.tokens ++ ts) s') :
    ∃ s₁, s₁.settled = ⟨frames, b.valued.unplaced.reverseOnto done, .statement⟩ ∧
      Reads s₁ ts s' := by
  -- the lists inside statements are closed in reverse, and reversing them again gives the list
  induction b generalizing s s' frames done ts with
  | empty => exact ⟨s, hs, h⟩
  | assign write rest ih =>
      obtain ⟨hvalue, hrest⟩ := Bool.and_eq_true_iff.1 hwhole
      obtain ⟨gvalue, grest⟩ := List.forall_mem_cons.1 hgrouped
      simp only [tokens, List.cons_append, List.append_assoc] at h
      obtain ⟨s₁, hmove⟩ := h.exists_moves
      obtain ⟨name, letter⟩ := hmove.exists_letter rfl
      obtain rfl := letter?_ofName letter
      have htarget := h.after_settled rfl (by rw [hs]; exact .target rfl letter)
      obtain ⟨s₂, hs₂, h₂⟩ := Expr.settles_tokens hvalue gvalue (htarget.after (.assign rfl))
      exact ih hrest grest hs₂ h₂
  | branch line cond yes no rest ihyes ihno ih =>
      simp only [whole, Bool.and_eq_true] at hwhole
      obtain ⟨⟨⟨hcond, hyes⟩, hno⟩, hrest⟩ := hwhole
      obtain ⟨gcond, gyes, gno, grest⟩ := grouped_branch.1 hgrouped
      simp only [tokens, List.cons_append, List.append_assoc] at h
      have hif := h.after_settled rfl (by rw [hs]; exact .branch rfl)
      obtain ⟨s₁, hs₁, h₁⟩ := Expr.settles_tokens hcond gcond hif
      obtain ⟨s₂, hs₂, h₂⟩ := ihyes hyes gyes hs₁ h₁
      by_cases hempty : no.isEmpty = true
      · obtain rfl := eq_empty_of_isEmpty hempty
        have hsome := h₂.some_of_closing hs₂ (.inr rfl)
        have hend := h₂.after_settled rfl (by rw [hs₂]; exact .endYes hsome rfl)
        rw [← Block.reverse, reverse_reverse] at hend
        exact ih hrest grest rfl hend
      · rw [if_neg hempty] at h₂
        have hsome := h₂.some_of_closing hs₂ (.inl rfl)
        have helse := h₂.after_settled rfl (by rw [hs₂]; exact .otherwise hsome rfl)
        rw [← Block.reverse, reverse_reverse] at helse
        obtain ⟨s₃, hs₃, h₃⟩ := ihno hno gno rfl helse
        have hsome' := h₃.some_of_closing hs₃ (.inr rfl)
        have hend := h₃.after_settled rfl (by rw [hs₃]; exact .endNo hsome' rfl)
        rw [← Block.reverse, reverse_reverse] at hend
        exact ih hrest grest rfl hend
  | loop line cond body rest ihbody ih =>
      simp only [whole, Bool.and_eq_true] at hwhole
      obtain ⟨⟨hcond, hbody⟩, hrest⟩ := hwhole
      obtain ⟨gcond, gbody, grest⟩ := grouped_loop.1 hgrouped
      simp only [tokens, List.cons_append, List.append_assoc] at h
      have hwhile := h.after_settled rfl (by rw [hs]; exact .loop rfl)
      obtain ⟨s₁, hs₁, h₁⟩ := Expr.settles_tokens hcond gcond hwhile
      obtain ⟨s₂, hs₂, h₂⟩ := ihbody hbody gbody hs₁ h₁
      have hsome := h₂.some_of_closing hs₂ (.inr rfl)
      have hend := h₂.after_settled rfl (by rw [hs₂]; exact .endBody hsome rfl)
      rw [← Block.reverse, reverse_reverse] at hend
      exact ih hrest grest rfl hend
  | missing rest ih => cases hwhole

/-- If a program parses from tokens, it is the only grouped program over these tokens. -/
theorem unplaced_eq_of_tokens {ts : List Token} {p q : Block} (hp : parse ts = .ok p)
    (hwhole : q.whole = true) (hgrouped : q.Grouped)
    (htokens : q.tokens = (dropEnding ts).map Token.unplaced) : q.valued.unplaced = p.unplaced := by
  have hrun := parse_unplaced ts
  rw [hp, dropEnding_unplaced, ← htokens] at hrun
  obtain ⟨s, done, hreads, hs, -, hdone⟩ := run_ok_iff.1 hrun.symm
  rw [← List.append_nil q.tokens] at hreads
  obtain ⟨s', hs', hrest⟩ := reads_tokens hwhole hgrouped rfl hreads
  cases hrest
  rw [hs] at hs'
  cases hs'
  rw [← Block.reverse, reverse_reverse] at hdone
  exact hdone

end Block

/-! ## From the text -/

theorem parseSource_ok_iff {source : Bytes} {p : Block} :
    parseSource source = .ok p ↔ ∃ ts, tokenize source = .ok ts ∧ parse ts = .ok p := by
  unfold parseSource
  cases tokenize source with
  | error e => simp
  | ok ts => cases hparse : parse ts <;> simp [hparse]

/-- A text that is no program has an error of the scanner, or one of grammar. -/
theorem parseSource_error_cases {source : Bytes} {e : ParseError}
    (h : parseSource source = .error e) :
    (∃ l, e = .lexical l ∧ tokenize source = .error l) ∨
      ∃ g ts, e = .grammar g ∧ tokenize source = .ok ts ∧ parse ts = .error g := by
  unfold parseSource at h
  cases htokens : tokenize source with
  | error l =>
      rw [htokens] at h
      cases h
      exact .inl ⟨l, rfl, rfl⟩
  | ok ts =>
      rw [htokens] at h
      dsimp only at h
      cases hparse : parse ts with
      | error g =>
          rw [hparse] at h
          cases h
          exact .inr ⟨g, ts, rfl, rfl, hparse⟩
      | ok b =>
          rw [hparse] at h
          cases h

theorem eq_ok_of_toOption {ε α : Type} {x : Except ε α} {a : α} (h : x.toOption = some a) :
    x = .ok a := by
  cases x with
  | error e => cases h
  | ok b => exact congrArg Except.ok (Option.some.inj h)

/-- A text has no token that stands for its end. -/
theorem dropEnding_of_lexical {ts : List Token} (h : ∀ t ∈ ts, Lexical t.kind t.value) :
    dropEnding ts = ts := by
  unfold dropEnding
  cases hlast : ts.getLast? with
  | none => rfl
  | some t =>
      have hread := (h t (List.mem_of_getLast? hlast)).isRead
      refine if_neg fun hkind => ?_
      rw [hkind] at hread
      cases hread

/-- A program that is parsed from a text is written as the tokens of the text. -/
theorem writtenAs_of_tokenize {source : Bytes} {ts : List Token} {b : Block}
    (htokenize : tokenize source = .ok ts) (hparse : parse ts = .ok b) : b.WrittenAs ts := by
  have hwritten := (parse_writtenAs hparse).1
  rwa [dropEnding_of_lexical (tokenize_ok_iff.1 htokenize).lexical] at hwritten

/-- Nothing is missing in a parsed tree, and its literals have the values that their texts name.  It
flattens to the tokens of its text, and its expressions are grouped by precedence.  Among the trees
in which nothing is missing it is the only such tree, up to places and to the values of literals,
which are no tokens. -/
theorem parsed_tree_unique {source : Bytes} {p : Block} (h : parseSource source = .ok p) :
    ∃ ts, tokenize source = .ok ts ∧
      p.whole = true ∧ p.valued = p ∧ p.tokens = ts.map Token.unplaced ∧ p.Grouped ∧
      ∀ q : Block, q.whole = true → q.tokens = ts.map Token.unplaced → q.Grouped →
        q.valued.unplaced = p.unplaced := by
  obtain ⟨ts, htokenize, hparse⟩ := parseSource_ok_iff.1 h
  have hlexical := (tokenize_ok_iff.1 htokenize).lexical
  have hwritten := writtenAs_of_tokenize htokenize hparse
  refine ⟨ts, htokenize, hwritten.whole, hwritten.valued_eq, hwritten.tokens_eq hlexical,
    hwritten.grouped, ?_⟩
  intro q hwhole htokens hgrouped
  rw [← dropEnding_of_lexical hlexical] at htokens
  exact Block.unplaced_eq_of_tokens hparse hwhole hgrouped htokens

/-- The tree of `x=a-b-c*-2<(d)`: equal operators group to the left, and the comparison binds
tightest. -/
def chainTree : Block :=
  .assign ⟨.start, 0x78, .binary (.binary (.variable 0x61) .sub (.variable 0x62)) .sub
    (.binary (.variable 0x63) .mul (.binary (.number (utf8 "-2") ⟨0xC000000000000000⟩) .less
      (.bracket (.variable 0x64))))⟩ .empty

theorem parsed_tree_unique_chain :
    parseSource (utf8 "x=a-b-c*-2<(d)") = .ok chainTree ∧
      ∃ ts, tokenize (utf8 "x=a-b-c*-2<(d)") = .ok ts ∧
        chainTree.whole = true ∧ chainTree.valued = chainTree ∧
        chainTree.tokens = ts.map Token.unplaced ∧ chainTree.Grouped ∧
        ∀ q : Block, q.whole = true → q.tokens = ts.map Token.unplaced → q.Grouped →
          q.valued.unplaced = chainTree.unplaced := by
  have h : parseSource (utf8 "x=a-b-c*-2<(d)") = .ok chainTree :=
    eq_ok_of_toOption (by decide +kernel)
  exact ⟨h, parsed_tree_unique h⟩

/-- The tree of `x=-1`. -/
def minusTree : Block :=
  .assign ⟨.start, 0x78, .number (utf8 "-1") ⟨0xBFF0000000000000⟩⟩ .empty

/-- The tree of `x=-1`, but its literal has the value zero. -/
def zeroTree : Block :=
  .assign ⟨.start, 0x78, .number (utf8 "-1") ⟨0⟩⟩ .empty

/-- The tree of `x=-1` after a statement that is missing. -/
def gapTree : Block :=
  .missing minusTree

/-- An assignment to `x` of the difference between a missing operand and `1`. -/
def halfTree : Block :=
  .assign ⟨.start, 0x78, .binary .missing .sub (.number (utf8 "1") ⟨0x3FF0000000000000⟩)⟩ .empty

/-- What a literal is worth and what is missing cannot be seen from the tokens: three other trees
have the tokens of `x=-1` and are grouped by precedence.  Nothing is missing in the first, and in
the other two every literal has the value that its text names. -/
theorem other_trees_with_tokens :
    parseSource (utf8 "x=-1") = .ok minusTree ∧
      ∃ ts, tokenize (utf8 "x=-1") = .ok ts ∧
        (∀ q ∈ [zeroTree, gapTree, halfTree],
          q.tokens = ts.map Token.unplaced ∧ q.Grouped ∧ q.unplaced ≠ minusTree.unplaced) ∧
        zeroTree.whole = true ∧ gapTree.valued = gapTree ∧ halfTree.valued = halfTree := by
  refine ⟨eq_ok_of_toOption (by decide +kernel),
    [⟨.variable, utf8 "x", ⟨1, 1⟩⟩, ⟨.assign, utf8 "=", ⟨1, 2⟩⟩, ⟨.minus, utf8 "-", ⟨1, 3⟩⟩,
      ⟨.number, utf8 "1", ⟨1, 4⟩⟩],
    eq_ok_of_toOption (by decide +kernel), ?_, rfl, by decide +kernel, by decide +kernel⟩
  simp only [List.forall_mem_cons, List.not_mem_nil, false_implies, implies_true, and_true]
  refine ⟨⟨by decide +kernel, ?_, by decide +kernel⟩, ⟨by decide +kernel, ?_, by decide +kernel⟩,
    ⟨by decide +kernel, ?_, by decide +kernel⟩⟩
  · simp [Block.Grouped, zeroTree, Block.exprs, Expr.Grouped]
  · simp [Block.Grouped, gapTree, minusTree, Block.exprs, Expr.Grouped]
  · simp [Block.Grouped, halfTree, Block.exprs, Expr.Grouped, Expr.root?]

end StoreLint
