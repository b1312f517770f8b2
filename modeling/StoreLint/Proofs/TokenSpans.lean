import StoreLint.Proofs.ResultShape

/-!
# Programs and the tokens they stand for

Statements, assignments and reads are counted on the tree of a program.  This file compares them
with the tokens that the tree was parsed from.

* `Token.count` counts the tokens of a kind.  Each assignment has one sign, each `if` and each
  `while` one word and one `end`, and expressions have none of these (`count_assign`,
  `size_eq_count`, `count_end`).
* `Block.parts` lists all expressions of a program, at any depth, with the number of tokens before
  each; `Part.span` takes the tokens of a part out of a list of tokens.  `standsIn_of_mem_parts`
  shows that they are the tokens that the part flattens to.
* `Expr.mem_tokens_iff`: the variables that an expression reads are those among its tokens, so that
  reads do not depend on how an expression is grouped (`reads_eq_of_tokens_eq`).
* `counts_and_reads` puts these together for a text.
-/

namespace StoreLint

/-! ## Counting tokens -/

/-- The number of tokens of a kind. -/
def Token.count (kind : Token.Kind) (ts : List Token) : Nat :=
  ts.countP fun t => t.kind = kind

namespace Token

variable {kind : Token.Kind}

@[simp] theorem count_nil : count kind [] = 0 := rfl

@[simp] theorem count_append (ts us : List Token) :
    count kind (ts ++ us) = count kind ts + count kind us :=
  List.countP_append

theorem count_cons (t : Token) (ts : List Token) :
    count kind (t :: ts) = count kind ts + if t.kind = kind then 1 else 0 := by
  simp [count, List.countP_cons]

@[simp] theorem count_ofKind (other : Token.Kind) (ts : List Token) :
    count kind (.ofKind other :: ts) = count kind ts + if other = kind then 1 else 0 :=
  count_cons _ ts

@[simp] theorem count_ofName (name : UInt8) (ts : List Token) :
    count kind (.ofName name :: ts) = count kind ts + if .variable = kind then 1 else 0 :=
  count_cons _ ts

@[simp] theorem count_ofNumeral (text : Bytes) (ts : List Token) :
    count kind (.ofNumeral text :: ts) = count kind ts + if .number = kind then 1 else 0 :=
  count_cons _ ts

@[simp] theorem count_unplaced (ts : List Token) :
    count kind (ts.map unplaced) = count kind ts := by
  rw [count, List.countP_map]
  rfl

/-- Is the kind one that stands between expressions? -/
def Kind.ofStatement : Kind → Bool
  | .ifWord | .elseWord | .endWord | .whileWord | .assign => true
  | _ => false

end Token

open Token

/-- No token of an expression is a keyword or the sign of an assignment. -/
theorem Expr.count_tokens {kind : Token.Kind} (h : kind.ofStatement = true) (e : Expr) :
    count kind e.tokens = 0 := by
  have hne : ∀ other : Token.Kind, other.ofStatement = false → ¬ other = kind := by
    rintro other hother rfl
    rw [h] at hother
    cases hother
  induction e with
  | missing => rfl
  | number text value =>
    by_cases hminus : text.head? = some 0x2D
    · simp [tokens, literalTokens, hminus, hne .minus rfl, hne .number rfl]
    · simp [tokens, literalTokens, hminus, hne .number rfl]
  | «variable» name => simp [tokens, hne .variable rfl]
  | bracket inner ih => simp [tokens, ih, hne .openBracket rfl, hne .closeBracket rfl]
  | binary left op right ihleft ihright =>
    have hop : op.kind.ofStatement = false := by cases op <;> rfl
    simp [tokens, ihleft, ihright, hne op.kind hop]

namespace Block

section Statements

variable (kind : Token.Kind) (h : kind.ofStatement = true)
include h

theorem count_tokens_assign (write : Assign) (rest : Block) :
    count kind (assign write rest).tokens =
      count kind rest.tokens + if .assign = kind then 1 else 0 := by
  have hname : ¬ Kind.variable = kind := by
    rintro rfl
    cases h
  simp [tokens, Expr.count_tokens h, hname]

theorem count_tokens_branch (helse : kind ≠ .elseWord) (line : Int) (cond : Expr)
    (yes no rest : Block) :
    count kind (branch line cond yes no rest).tokens =
      count kind yes.tokens + count kind no.tokens + count kind rest.tokens +
        (if .ifWord = kind then 1 else 0) + if .endWord = kind then 1 else 0 := by
  have hno : count kind (if no.isEmpty then [] else .ofKind .elseWord :: no.tokens) =
      count kind no.tokens := by
    by_cases hempty : no.isEmpty = true
    · simp [eq_empty_of_isEmpty hempty, isEmpty, tokens]
    · simp [hempty, Ne.symm helse]
  simp only [tokens, count_ofKind, count_append, Expr.count_tokens h, hno]
  omega

theorem count_tokens_loop (line : Int) (cond : Expr) (body rest : Block) :
    count kind (loop line cond body rest).tokens =
      count kind body.tokens + count kind rest.tokens +
        (if .whileWord = kind then 1 else 0) + if .endWord = kind then 1 else 0 := by
  simp only [tokens, count_ofKind, count_append, Expr.count_tokens h]
  omega

end Statements

/-- Each assignment has one sign. -/
theorem count_assign (b : Block) : count .assign b.tokens = b.assignments := by
  induction b with
  | empty => rfl
  | assign write rest ih => simp [count_tokens_assign .assign rfl, assignments, ih]
  | branch line cond yes no rest ihyes ihno ih =>
    simp [count_tokens_branch .assign rfl, assignments, ihyes, ihno, ih]
  | loop line cond body rest ihbody ih =>
    simp [count_tokens_loop .assign rfl, assignments, ihbody, ih]
  | missing rest ih => exact ih

/-- Each `if` and each `while` has an `end`. -/
theorem count_end (b : Block) :
    count .endWord b.tokens = count .ifWord b.tokens + count .whileWord b.tokens := by
  induction b with
  | empty => rfl
  | assign write rest ih =>
    simpa [count_tokens_assign .endWord rfl, count_tokens_assign .ifWord rfl,
      count_tokens_assign .whileWord rfl] using ih
  | branch line cond yes no rest ihyes ihno ih =>
    simp [count_tokens_branch .endWord rfl, count_tokens_branch .ifWord rfl,
      count_tokens_branch .whileWord rfl, ihyes, ihno, ih]
    omega
  | loop line cond body rest ihbody ih =>
    simp [count_tokens_loop .endWord rfl, count_tokens_loop .ifWord rfl,
      count_tokens_loop .whileWord rfl, ihbody, ih]
    omega
  | missing rest ih => exact ih

/-- Each statement of a complete program has its sign or its word. -/
theorem size_eq_count {b : Block} (h : b.complete = true) :
    b.size = count .assign b.tokens + (count .ifWord b.tokens + count .whileWord b.tokens) := by
  induction b with
  | empty => rfl
  | assign write rest ih =>
    simp [count_tokens_assign .assign rfl, count_tokens_assign .ifWord rfl,
      count_tokens_assign .whileWord rfl, size, ih h]
    omega
  | branch line cond yes no rest ihyes ihno ih =>
    simp only [complete, Bool.and_eq_true] at h
    simp [count_tokens_branch .assign rfl, count_tokens_branch .ifWord rfl,
      count_tokens_branch .whileWord rfl, size, ihyes h.1.1, ihno h.1.2, ih h.2]
    omega
  | loop line cond body rest ihbody ih =>
    simp only [complete, Bool.and_eq_true] at h
    simp [count_tokens_loop .assign rfl, count_tokens_loop .ifWord rfl,
      count_tokens_loop .whileWord rfl, size, ihbody h.1, ih h.2]
    omega
  | missing rest ih => cases h

end Block

/-! ## Parts and their spans -/

/-- An expression in a program, and the number of tokens before it. -/
structure Part where
  before : Nat
  expr : Expr
  deriving DecidableEq

/-- The tokens of a part, among the tokens of the program. -/
def Part.span (part : Part) (ts : List Token) : List Token :=
  (ts.drop part.before).take part.expr.tokens.length

/-- An expression and all expressions inside it, behind a number of tokens. -/
def Expr.parts (e : Expr) (n : Nat) : List Part :=
  ⟨n, e⟩ ::
    match e with
    | .bracket inner => inner.parts (n + 1)
    | .binary left _ right => left.parts n ++ right.parts (n + left.tokens.length + 1)
    | _ => []

/-- All expressions of a program, behind a number of tokens: values and conditions, and what is
inside them. -/
def Block.parts : Block → Nat → List Part
  | .empty, _ => []
  | .assign write rest, n =>
    write.value.parts (n + 2) ++ rest.parts (n + 2 + write.value.tokens.length)
  | .branch line cond yes no rest, n =>
    cond.parts (n + 1) ++ yes.parts (n + 1 + cond.tokens.length) ++
      no.parts (n + 1 + cond.tokens.length + yes.tokens.length + 1) ++
      rest.parts (n + (branch line cond yes no .empty).tokens.length)
  | .loop line cond body rest, n =>
    cond.parts (n + 1) ++ body.parts (n + 1 + cond.tokens.length) ++
      rest.parts (n + (loop line cond body .empty).tokens.length)
  | .missing rest, n => rest.parts n

/-- In tokens that come behind a number of others, the tokens of a part stand where the part
says. -/
def Part.StandsIn (part : Part) (n : Nat) (ts : List Token) : Prop :=
  ∃ before after, ts = before ++ (part.expr.tokens ++ after) ∧ part.before = n + before.length

namespace Part.StandsIn

variable {part : Part} {n m : Nat} {ts us : List Token}

theorem append_right (h : part.StandsIn n ts) (us : List Token) : part.StandsIn n (ts ++ us) := by
  obtain ⟨before, after, rfl, hbefore⟩ := h
  exact ⟨before, after ++ us, by simp, hbefore⟩

theorem append_left (h : part.StandsIn m ts) (us : List Token) (hm : m = n + us.length) :
    part.StandsIn n (us ++ ts) := by
  obtain ⟨before, after, rfl, hbefore⟩ := h
  refine ⟨us ++ before, after, by simp, ?_⟩
  rw [hbefore, hm, List.length_append, Nat.add_assoc]

theorem cons (h : part.StandsIn (n + 1) ts) (t : Token) : part.StandsIn n (t :: ts) :=
  h.append_left [t] rfl

/-- The tokens of a part are its span. -/
theorem span_eq (h : part.StandsIn 0 ts) : part.span ts = part.expr.tokens := by
  obtain ⟨before, after, rfl, hbefore⟩ := h
  simp [Part.span, hbefore]

end Part.StandsIn

theorem Expr.standsIn_of_mem_parts {e : Expr} {n : Nat} {part : Part} (h : part ∈ e.parts n) :
    part.StandsIn n e.tokens := by
  induction e generalizing n with
  | bracket inner ih =>
    rcases List.mem_cons.1 h with rfl | h
    · exact ⟨[], [], by simp, rfl⟩
    · exact ((ih h).append_right _).cons _
  | binary left op right ihleft ihright =>
    rcases List.mem_cons.1 h with rfl | h
    · exact ⟨[], [], by simp, rfl⟩
    · rcases List.mem_append.1 h with h | h
      · exact (ihleft h).append_right _
      · refine Part.StandsIn.append_left ?_ left.tokens rfl
        exact (ihright h).cons _
  | _ =>
    obtain rfl := List.mem_singleton.1 h
    exact ⟨[], [], by simp, rfl⟩

theorem Block.tokens_branch (line : Int) (cond : Expr) (yes no rest : Block) :
    (branch line cond yes no rest).tokens =
      (branch line cond yes no .empty).tokens ++ rest.tokens := by
  simp [tokens]

theorem Block.tokens_loop (line : Int) (cond : Expr) (body rest : Block) :
    (loop line cond body rest).tokens = (loop line cond body .empty).tokens ++ rest.tokens := by
  simp [tokens]

theorem Block.standsIn_of_mem_parts {b : Block} {n : Nat} {part : Part} (h : part ∈ b.parts n) :
    part.StandsIn n b.tokens := by
  induction b generalizing n with
  | empty => cases h
  | assign write rest ih =>
    rcases List.mem_append.1 h with h | h
    · exact (((Expr.standsIn_of_mem_parts h).append_right _).cons _).cons _
    · exact (((ih h).append_left _ rfl).cons _).cons _
  | branch line cond yes no rest ihyes ihno ih =>
    simp only [parts, List.mem_append] at h
    rcases h with ((h | h) | h) | h
    · exact ((Expr.standsIn_of_mem_parts h).append_right _).cons _
    · exact (((ihyes h).append_right _).append_left _ rfl).cons _
    · -- there is something in the second branch, so that an `else` stands before it
      have hsome : ¬ no.isEmpty = true := by
        intro hempty
        rw [eq_empty_of_isEmpty hempty] at h
        cases h
      rw [tokens, if_neg hsome]
      exact ((((((ihno h).cons _).append_right _).append_left _ rfl).append_left _ rfl)).cons _
    · rw [tokens_branch]
      exact (ih h).append_left _ rfl
  | loop line cond body rest ihbody ih =>
    simp only [parts, List.mem_append] at h
    rcases h with (h | h) | h
    · exact ((Expr.standsIn_of_mem_parts h).append_right _).cons _
    · exact (((ihbody h).append_right _).append_left _ rfl).cons _
    · rw [tokens_loop]
      exact (ih h).append_left _ rfl
  | missing rest ih => exact ih h

theorem Expr.self_mem_parts (e : Expr) (n : Nat) : ⟨n, e⟩ ∈ e.parts n := by
  cases e <;> exact List.mem_cons_self

/-- Every value and every condition is a part. -/
theorem Block.exists_part_of_mem_exprs {b : Block} {e : Expr} (h : e ∈ b.exprs) (n : Nat) :
    ∃ m, ⟨m, e⟩ ∈ b.parts n := by
  induction b generalizing n with
  | empty => cases h
  | assign write rest ih =>
    rcases List.mem_cons.1 h with rfl | h
    · exact ⟨n + 2, List.mem_append_left _ (Expr.self_mem_parts _ _)⟩
    · obtain ⟨m, hm⟩ := ih h (n + 2 + write.value.tokens.length)
      exact ⟨m, List.mem_append_right _ hm⟩
  | branch line cond yes no rest ihyes ihno ih =>
    simp only [exprs, List.mem_cons, List.mem_append] at h
    simp only [parts, List.mem_append]
    rcases h with rfl | (h | h) | h
    · exact ⟨n + 1, .inl (.inl (.inl (Expr.self_mem_parts _ _)))⟩
    · obtain ⟨m, hm⟩ := ihyes h (n + 1 + cond.tokens.length)
      exact ⟨m, .inl (.inl (.inr hm))⟩
    · obtain ⟨m, hm⟩ := ihno h (n + 1 + cond.tokens.length + yes.tokens.length + 1)
      exact ⟨m, .inl (.inr hm)⟩
    · obtain ⟨m, hm⟩ := ih h (n + (branch line cond yes no .empty).tokens.length)
      exact ⟨m, .inr hm⟩
  | loop line cond body rest ihbody ih =>
    simp only [exprs, List.mem_cons, List.mem_append] at h
    simp only [parts, List.mem_append]
    rcases h with rfl | h | h
    · exact ⟨n + 1, .inl (.inl (Expr.self_mem_parts _ _))⟩
    · obtain ⟨m, hm⟩ := ihbody h (n + 1 + cond.tokens.length)
      exact ⟨m, .inl (.inr hm)⟩
    · obtain ⟨m, hm⟩ := ih h (n + (loop line cond body .empty).tokens.length)
      exact ⟨m, .inr hm⟩
  | missing rest ih => exact ih h n

/-! ## Reads -/

namespace Expr

/-- The variables among the tokens of an expression are those that it mentions. -/
theorem mem_tokens_iff {e : Expr} {t : Token} (h : t.kind = .variable) :
    t ∈ e.tokens ↔ ∃ v, e.mentions v = true ∧ t = .ofName v := by
  have hne : ∀ kind : Token.Kind, kind ≠ .variable → t ≠ .ofKind kind := by
    rintro kind hkind rfl
    exact hkind h
  have hnumeral : ∀ text, t ≠ .ofNumeral text := by
    rintro text rfl
    cases h
  induction e with
  | missing => simp [tokens, mentions]
  | number text value =>
    by_cases hminus : text.head? = some 0x2D
    · simp [tokens, literalTokens, hminus, mentions, hnumeral, hne .minus]
    · simp [tokens, literalTokens, hminus, mentions, hnumeral]
  | «variable» name => simp [tokens, mentions]
  | bracket inner ih => simp [tokens, mentions, ih, hne .openBracket, hne .closeBracket]
  | binary left op right ihleft ihright =>
    have hop : op.kind ≠ .variable := by cases op <;> decide
    simp [tokens, mentions, ihleft, ihright, hne op.kind hop, or_and_right, exists_or]

/-- The reads of an expression are the texts of the variables among its tokens. -/
theorem exists_variable_iff (e : Expr) (value : Bytes) :
    (∃ t ∈ e.tokens, t.kind = .variable ∧ t.value = value) ↔ ∃ v ∈ e.reads, value = [v] := by
  constructor
  · rintro ⟨t, ht, hkind, rfl⟩
    obtain ⟨v, hv, rfl⟩ := (mem_tokens_iff hkind).1 ht
    exact ⟨v, mem_reads.2 hv, rfl⟩
  · rintro ⟨v, hv, rfl⟩
    exact ⟨.ofName v, (mem_tokens_iff rfl).2 ⟨v, mem_reads.1 hv, rfl⟩, rfl, rfl⟩

theorem mem_reads_iff_ofName {e : Expr} {v : UInt8} : v ∈ e.reads ↔ .ofName v ∈ e.tokens := by
  rw [mem_reads, mem_tokens_iff rfl]
  constructor
  · intro h
    exact ⟨v, h, rfl⟩
  · rintro ⟨w, hw, heq⟩
    cases heq
    exact hw

/-- Two expressions over the same tokens read the same, however they are grouped. -/
theorem reads_eq_of_tokens_eq {e e' : Expr} (h : e.tokens = e'.tokens) : e.reads = e'.reads := by
  have hmem : ∀ v, v ∈ e.reads ↔ v ∈ e'.reads := by
    intro v
    rw [mem_reads_iff_ofName, mem_reads_iff_ofName, h]
  exact e.pairwise_reads.eq_of_mem_iff e'.pairwise_reads hmem

end Expr

/-! ## From the text -/

/-- The counts of an analysis are those of the tokens. -/
structure Analysis.CountsTokens (a : Analysis) (ts : List Token) : Prop where
  assignments : a.stats.assignments = count .assign ts
  statements : a.stats.statements = count .assign ts + (count .ifWord ts + count .whileWord ts)
  ends : count .endWord ts = count .ifWord ts + count .whileWord ts

/-- The span of a part has the tokens of its expression.  The expression reads exactly the variables
among them, in ascending order, and so does every expression that groups the same tokens in another
way. -/
structure Part.ReadsSpan (part : Part) (ts : List Token) : Prop where
  tokens : (part.span ts).map Token.unplaced = part.expr.tokens
  ascending : part.expr.reads.Pairwise (· < ·)
  names : ∀ value, (∃ t ∈ part.span ts, t.kind = .variable ∧ t.value = value) ↔
    ∃ v ∈ part.expr.reads, value = [v]
  grouping : ∀ other : Expr, other.tokens = part.expr.tokens → other.reads = part.expr.reads

theorem Part.readsSpan_of_mem {b : Block} {ts : List Token}
    (htokens : b.tokens = ts.map Token.unplaced)
    {part : Part} (h : part ∈ b.parts 0) : part.ReadsSpan ts := by
  have hspan : (part.span ts).map Token.unplaced = part.expr.tokens := by
    rw [← (Block.standsIn_of_mem_parts h).span_eq, htokens, span, span, List.map_take,
      List.map_drop]
  refine ⟨hspan, part.expr.pairwise_reads, ?_, fun other => Expr.reads_eq_of_tokens_eq⟩
  intro value
  rw [← Expr.exists_variable_iff, ← hspan]
  simp [Token.unplaced]

/-- **Counts and reads agree with the tokens.**  For every text that is a program, there are as many
assignments as signs of assignment, as many statements as these and the words `if` and `while`, and
as many `end` as these words.  Every expression of the program, at any depth, reads exactly the
variables in its span of tokens. -/
theorem counts_and_reads (opts : AnalysisOptions) {source : Bytes} {b : Block}
    (h : parseSource source = .ok b) :
    ∃ ts, tokenize source = .ok ts ∧ (analyze opts source).CountsTokens ts ∧
      (∀ e ∈ b.exprs, ∃ n, ⟨n, e⟩ ∈ b.parts 0) ∧ ∀ part ∈ b.parts 0, part.ReadsSpan ts := by
  obtain ⟨ts, found, htokenize, hparse, hcheck, -⟩ := exists_check_of_ok opts h
  obtain ⟨-, -, -, hstats⟩ := analyze_of_check htokenize hparse hcheck
  have hwritten := writtenAs_of_tokenize htokenize hparse
  have htokens : b.tokens = ts.map Token.unplaced :=
    hwritten.tokens_eq (tokenize_ok_iff.1 htokenize).lexical
  have hcount : ∀ kind, count kind ts = count kind b.tokens := by
    intro kind
    rw [htokens, count_unplaced]
  refine ⟨ts, htokenize, ⟨?_, ?_, ?_⟩, ?_, fun part => Part.readsSpan_of_mem htokens⟩
  · rw [hstats, hcount, Block.count_assign]
  · rw [hstats, hcount, hcount, hcount,
      Block.size_eq_count (Block.complete_of_whole hwritten.whole)]
  · rw [hcount, hcount, hcount, Block.count_end]
  · intro e he
    exact Block.exists_part_of_mem_exprs he 0

/-- The tree of `while a if b x=(c-a)*c end end`. -/
def nestedTree : Block :=
  .loop 1 (.variable 0x61)
    (.branch 1 (.variable 0x62)
      (.assign ⟨⟨1, 14⟩, 0x78,
        .binary (.bracket (.binary (.variable 0x63) .sub (.variable 0x61))) .mul
          (.variable 0x63)⟩ .empty)
      .empty .empty)
    .empty

/-- The value that is assigned there stands behind six tokens, and reads `a` and `c`. -/
theorem counts_and_reads_nestedTree :
    parseSource (utf8 "while a if b x=(c-a)*c end end") = .ok nestedTree ∧
      ∃ ts, tokenize (utf8 "while a if b x=(c-a)*c end end") = .ok ts ∧
        (analyze ⟨.byLine, []⟩ (utf8 "while a if b x=(c-a)*c end end")).CountsTokens ts ∧
        Part.ReadsSpan ⟨6, .binary (.bracket (.binary (.variable 0x63) .sub (.variable 0x61))) .mul
          (.variable 0x63)⟩ ts := by
  have h : parseSource (utf8 "while a if b x=(c-a)*c end end") = .ok nestedTree :=
    eq_ok_of_toOption (by decide +kernel)
  obtain ⟨ts, htokenize, hcounts, -, hparts⟩ := counts_and_reads ⟨.byLine, []⟩ h
  exact ⟨h, ts, htokenize, hcounts, hparts _ (by decide +kernel)⟩

end StoreLint
