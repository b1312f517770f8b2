import StoreLint.Proofs.Spelling

/-!
# The grammar

    program    = statements
    statements = statement { statement }
    statement  = variable "=" expression
               | "if" expression statements [ "else" statements ] "end"
               | "while" expression statements "end"
    expression = primary { operator primary }
    primary    = variable | constant | "-" constant | "(" expression ")"

A variable is a token with a single letter as its text.  A constant is a number token whose text,
with the minus in front of it if there is one, names a number.

`Derives` is this grammar as rules for lists of tokens.  `parse_ok_iff_derives` says that the parser
accepts exactly the programs of the grammar, whoever made the tokens.

* One direction reads the derivation off the tree that the parser returns.
* The other direction is `Derives.accepted`: whatever can be derived can be read, from any state in
  which it may come.
-/

namespace StoreLint

open StoreLint.Parser

namespace Grammar

/-- The token is a variable. -/
def IsVariable (t : Token) : Prop :=
  t.kind = .variable ∧ ∃ b, isLetter b = true ∧ t.value = [b]

/-- The token is a number, and its text with `sign` in front of it names one. -/
def IsConstant (sign : Bytes) (t : Token) : Prop :=
  t.kind = .number ∧ (Number.read? (sign ++ t.value)).isSome = true

/-- What the rules of the grammar define. -/
inductive Nonterminal where
  | program
  | statements
  | statement
  | expression
  | primary
  deriving DecidableEq, Repr

/-- The rules of the grammar. -/
inductive Derives : Nonterminal → List Token → Prop
  | program {ts : List Token} (list : Derives .statements ts) : Derives .program ts
  | single {ts : List Token} (only : Derives .statement ts) : Derives .statements ts
  | append {ts us : List Token} (list : Derives .statements ts) (last : Derives .statement us) :
      Derives .statements (ts ++ us)
  | assign {target sign : Token} {es : List Token} (isVariable : IsVariable target)
      (kind : sign.kind = .assign) (value : Derives .expression es) :
      Derives .statement (target :: sign :: es)
  | branch {first last : Token} {es ys : List Token} (kind : first.kind = .ifWord)
      (cond : Derives .expression es) (yes : Derives .statements ys)
      (kind' : last.kind = .endWord) :
      Derives .statement (first :: (es ++ ys ++ [last]))
  | branchElse {first middle last : Token} {es ys ns : List Token} (kind : first.kind = .ifWord)
      (cond : Derives .expression es) (yes : Derives .statements ys)
      (kind' : middle.kind = .elseWord) (no : Derives .statements ns)
      (kind'' : last.kind = .endWord) :
      Derives .statement (first :: (es ++ ys ++ middle :: (ns ++ [last])))
  | loop {first last : Token} {es bs : List Token} (kind : first.kind = .whileWord)
      (cond : Derives .expression es) (body : Derives .statements bs)
      (kind' : last.kind = .endWord) : Derives .statement (first :: (es ++ bs ++ [last]))
  | operand {ts : List Token} (only : Derives .primary ts) : Derives .expression ts
  | operator {sign : Token} {ts us : List Token} (before : Derives .expression ts)
      (kind : sign.kind.isOperator = true) (last : Derives .primary us) :
      Derives .expression (ts ++ sign :: us)
  | letter {t : Token} (isVariable : IsVariable t) : Derives .primary [t]
  | constant {t : Token} (isConstant : IsConstant [] t) : Derives .primary [t]
  | negative {minus t : Token} (kind : minus.kind = .minus) (isConstant : IsConstant (utf8 "-") t) :
      Derives .primary [minus, t]
  | bracket {first last : Token} {es : List Token} (kind : first.kind = .openBracket)
      (inner : Derives .expression es) (kind' : last.kind = .closeBracket) :
      Derives .primary (first :: (es ++ [last]))

/-! ## From trees to derivations -/

/-- The kinds that the parser takes for operators are the six operators. -/
theorem isSome_operator? (kind : Token.Kind) : (operator? kind).isSome = kind.isOperator := by
  cases kind <;> rfl

/-- Expressions with an operator between them are an expression. -/
theorem Derives.join {n : Nonterminal} {us : List Token} (h : Derives n us) (hn : n = .expression)
    {ts : List Token} (hts : Derives .expression ts) {sign : Token}
    (hsign : sign.kind.isOperator = true) : Derives .expression (ts ++ sign :: us) := by
  induction h with
  | operand only => exact .operator hts hsign only
  | operator before kind last ih _ => simpa using Derives.operator (ih rfl) kind last
  | _ => cases hn

/-- A statement in front of a list of statements makes a longer list. -/
theorem Derives.cons {n : Nonterminal} {us : List Token} (h : Derives n us) (hn : n = .statements)
    {ts : List Token} (hts : Derives .statement ts) : Derives .statements (ts ++ us) := by
  induction h with
  | single only => exact .append (.single hts) only
  | append list last ih _ => simpa using Derives.append (ih rfl) last
  | _ => cases hn

/-- An expression can be derived from what spells it. -/
theorem derives_of_spelledBy {e : Expr} {ts : List Token} (h : e.SpelledBy ts) :
    Derives .expression ts := by
  induction h with
  | letter kind letter => exact .operand (.letter ⟨kind, _, letter?_eq_some.1 letter⟩)
  | literal kind read => exact .operand (.constant ⟨kind, by simp [read]⟩)
  | negative sign kind read => exact .operand (.negative sign ⟨kind, by simp [read]⟩)
  | bracket kind _ kind' ih => exact .operand (.bracket kind ih kind')
  | @binary _ _ _ sign _ _ _ kind _ ihleft ihright =>
      have hsign : sign.kind.isOperator = true := by rw [← isSome_operator?, kind]; rfl
      exact ihright.join rfl ihleft hsign

/-- A statement is a list together with the statements after it, if there are any. -/
theorem Derives.cons_block {us vs : List Token} (h : Derives .statement us) {rest : Block}
    (hrest : (rest.isEmpty = true → vs = []) ∧ (rest.isEmpty = false → Derives .statements vs)) :
    Derives .statements (us ++ vs) := by
  cases hempty : rest.isEmpty with
  | true =>
      rw [hrest.1 hempty, List.append_nil]
      exact .single h
  | false => exact (hrest.2 hempty).cons rfl h

/-- A list of statements can be derived from what it is written as. -/
theorem derives_of_writtenAs {b : Block} {ts : List Token} (h : b.WrittenAs ts) :
    (b.isEmpty = true → ts = []) ∧ (b.isEmpty = false → Derives .statements ts) := by
  induction h with
  | empty => exact ⟨fun _ => rfl, fun h => absurd h (by simp [Block.isEmpty])⟩
  | assign kind letter kind' written after ih =>
      refine ⟨fun h => absurd h (by simp [Block.isEmpty]), fun _ => ?_⟩
      have hstmt := Derives.assign ⟨kind, _, letter?_eq_some.1 letter⟩ kind'
        (derives_of_spelledBy written.spelled)
      simpa using hstmt.cons_block ih
  | branch kind written body some kind' after ihbody ih =>
      refine ⟨fun h => absurd h (by simp [Block.isEmpty]), fun _ => ?_⟩
      have hstmt := Derives.branch kind (derives_of_spelledBy written.spelled) (ihbody.2 some) kind'
      simpa using hstmt.cons_block ih
  | branchElse kind written body some kind' body' some' kind'' after ihbody ihbody' ih =>
      refine ⟨fun h => absurd h (by simp [Block.isEmpty]), fun _ => ?_⟩
      have hstmt := Derives.branchElse kind (derives_of_spelledBy written.spelled) (ihbody.2 some)
        kind' (ihbody'.2 some') kind''
      simpa using hstmt.cons_block ih
  | loop kind written inside some kind' after ihbody ih =>
      refine ⟨fun h => absurd h (by simp [Block.isEmpty]), fun _ => ?_⟩
      have hstmt := Derives.loop kind (derives_of_spelledBy written.spelled) (ihbody.2 some) kind'
      simpa using hstmt.cons_block ih

/-! ## From derivations to runs -/

/-- The parser can read the tokens wherever they may come.  After a list of statements, and after a
single one, it is in the same list as before. -/
def Accepted : Nonterminal → List Token → Prop
  | .program, ts => ∀ ending, ∃ b, run ending 0 .start ts = .ok b
  | .statements, ts | .statement, ts =>
    ∀ s frames done, s.settled = ⟨frames, done, .statement⟩ →
      ∃ s' done', Reads s ts s' ∧ s'.settled = ⟨frames, done', .statement⟩ ∧ done'.isEmpty = false
  | .expression, ts =>
    ∀ frames done purpose outer before, ∃ before' last,
      Reads ⟨frames, done, .operand purpose outer before⟩ ts
        ⟨frames, done, .operator purpose outer before' last⟩
  | .primary, ts =>
    ∀ frames done purpose outer before, ∃ last,
      Reads ⟨frames, done, .operand purpose outer before⟩ ts
        ⟨frames, done, .operator purpose outer before last⟩

/-- Whatever can be derived can be read. -/
theorem Derives.accepted {n : Nonterminal} {ts : List Token} (h : Derives n ts) :
    Accepted n ts := by
  induction h with
  | program _ ih =>
      intro ending
      obtain ⟨s, done, hreads, hsettled, hsome⟩ := ih .start [] .empty rfl
      exact ⟨done.reverse, run_ok_iff.2 ⟨s, done, hreads, hsettled, hsome, rfl⟩⟩
  | single _ ih => exact ih
  | append _ _ ihlist ihlast =>
      intro s frames done hs
      obtain ⟨s₁, done₁, hreads₁, hs₁, -⟩ := ihlist s frames done hs
      obtain ⟨s₂, done₂, hreads₂, hs₂, hsome⟩ := ihlast s₁ frames done₁ hs₁
      exact ⟨s₂, done₂, hreads₁.append hreads₂, hs₂, hsome⟩
  | @assign target _ _ isVariable kind _ ihvalue =>
      intro s frames done hs
      obtain ⟨hkind, name, hletter⟩ := isVariable
      obtain ⟨before, last, hvalue⟩ := ihvalue frames done (.value target.position name) [] []
      have hreads := Reads.cons_settled (by rw [hkind]; rfl)
        (by rw [hs]; exact .target hkind (letter?_eq_some.2 hletter))
        (.cons (step_ok_iff.2 (.assign kind)) hvalue)
      exact ⟨_, _, hreads, rfl, rfl⟩
  | @branch first last _ _ kind _ _ kind' ihcond ihyes =>
      intro s frames done hs
      obtain ⟨before, operand, hcond⟩ := ihcond frames done (.branch first.position.line) [] []
      obtain ⟨s₁, done₁, hyes, hs₁, hsome⟩ :=
        ihyes ⟨frames, done, .operator (.branch first.position.line) [] before operand⟩ _ _ rfl
      have hopen : Moves first s.settled
          ⟨frames, done, .operand (.branch first.position.line) [] []⟩ := by
        rw [hs]
        exact .branch kind
      have hclose : Moves last s₁.settled ⟨frames, .branch first.position.line
          (Chain.group before operand) done₁.reverse .empty done, .statement⟩ := by
        rw [hs₁]
        exact .endYes hsome kind'
      have hreads := Reads.cons_settled (by rw [kind]; rfl) hopen
        ((hcond.append hyes).append (.cons_settled (by rw [kind']; rfl) hclose (.nil _)))
      exact ⟨_, _, hreads, rfl, rfl⟩
  | @branchElse first middle last _ _ _ kind _ _ kind' _ kind'' ihcond ihyes ihno =>
      intro s frames done hs
      obtain ⟨before, operand, hcond⟩ := ihcond frames done (.branch first.position.line) [] []
      obtain ⟨s₁, done₁, hyes, hs₁, hsome₁⟩ :=
        ihyes ⟨frames, done, .operator (.branch first.position.line) [] before operand⟩ _ _ rfl
      obtain ⟨s₂, done₂, hno, hs₂, hsome₂⟩ :=
        ihno ⟨.no first.position.line (Chain.group before operand) done₁.reverse done :: frames,
          .empty, .statement⟩ _ _ rfl
      have hopen : Moves first s.settled
          ⟨frames, done, .operand (.branch first.position.line) [] []⟩ := by
        rw [hs]
        exact .branch kind
      have hturn : Moves middle s₁.settled ⟨.no first.position.line (Chain.group before operand)
          done₁.reverse done :: frames, .empty, .statement⟩ := by
        rw [hs₁]
        exact .otherwise hsome₁ kind'
      have hclose : Moves last s₂.settled ⟨frames, .branch first.position.line
          (Chain.group before operand) done₁.reverse done₂.reverse done, .statement⟩ := by
        rw [hs₂]
        exact .endNo hsome₂ kind''
      have hreads := Reads.cons_settled (by rw [kind]; rfl) hopen
        ((hcond.append hyes).append (.cons_settled (by rw [kind']; rfl) hturn
          (hno.append (.cons_settled (by rw [kind'']; rfl) hclose (.nil _)))))
      exact ⟨_, _, hreads, rfl, rfl⟩
  | @loop first last _ _ kind _ _ kind' ihcond ihbody =>
      intro s frames done hs
      obtain ⟨before, operand, hcond⟩ := ihcond frames done (.loop first.position.line) [] []
      obtain ⟨s₁, done₁, hbody, hs₁, hsome⟩ :=
        ihbody ⟨frames, done, .operator (.loop first.position.line) [] before operand⟩ _ _ rfl
      have hopen : Moves first s.settled
          ⟨frames, done, .operand (.loop first.position.line) [] []⟩ := by
        rw [hs]
        exact .loop kind
      have hclose : Moves last s₁.settled ⟨frames, .loop first.position.line
          (Chain.group before operand) done₁.reverse done, .statement⟩ := by
        rw [hs₁]
        exact .endBody hsome kind'
      have hreads := Reads.cons_settled (by rw [kind]; rfl) hopen
        ((hcond.append hbody).append (.cons_settled (by rw [kind']; rfl) hclose (.nil _)))
      exact ⟨_, _, hreads, rfl, rfl⟩
  | operand _ ih =>
      intro frames done purpose outer before
      obtain ⟨last, h⟩ := ih frames done purpose outer before
      exact ⟨before, last, h⟩
  | operator _ kind _ ihbefore ihlast =>
      intro frames done purpose outer before
      obtain ⟨before₁, last₁, hbefore⟩ := ihbefore frames done purpose outer before
      obtain ⟨op, hop⟩ := Option.isSome_iff_exists.1 ((isSome_operator? _).trans kind)
      obtain ⟨last, hlast⟩ := ihlast frames done purpose outer ((last₁, op) :: before₁)
      exact ⟨_, last, hbefore.append (.cons (step_ok_iff.2 (.operator hop)) hlast)⟩
  | letter isVariable =>
      intro frames done purpose outer before
      obtain ⟨hkind, name, hletter⟩ := isVariable
      exact ⟨_, .single (.name hkind (letter?_eq_some.2 hletter))⟩
  | constant isConstant =>
      intro frames done purpose outer before
      obtain ⟨hkind, hread⟩ := isConstant
      obtain ⟨value, hvalue⟩ := Option.isSome_iff_exists.1 hread
      exact ⟨_, .single (.number hkind hvalue)⟩
  | negative kind isConstant =>
      intro frames done purpose outer before
      obtain ⟨hkind, hread⟩ := isConstant
      obtain ⟨value, hvalue⟩ := Option.isSome_iff_exists.1 hread
      exact ⟨_, .cons (step_ok_iff.2 (.minus kind)) (.single (.negative hkind hvalue))⟩
  | bracket kind _ kind' ih =>
      intro frames done purpose outer before
      obtain ⟨before₁, last₁, hinner⟩ := ih frames done purpose (before :: outer) []
      exact ⟨_, .cons (step_ok_iff.2 (.openBracket kind))
        (hinner.append (.single (.closeBracket kind')))⟩

/-- **The parser accepts exactly the grammar.**  Up to one token for the end of the input in the
last place, a list of tokens gives a program if it can be derived, and otherwise an error. -/
theorem parse_ok_iff_derives (ts : List Token) :
    ((∃ b, parse ts = .ok b) ↔ Derives .program (dropEnding ts)) ∧
      ((∃ e, parse ts = .error e) ↔ ¬ Derives .program (dropEnding ts)) := by
  have haccept : (∃ b, parse ts = .ok b) ↔ Derives .program (dropEnding ts) := by
    constructor
    · rintro ⟨b, hb⟩
      obtain ⟨hwritten, hsome⟩ := parse_writtenAs hb
      exact .program ((derives_of_writtenAs hwritten).2 hsome)
    · intro h
      exact h.accepted (ending (dropEnding ts))
  refine ⟨haccept, ?_⟩
  rw [← haccept]
  cases parse ts with
  | ok b => simp
  | error e => simp

end Grammar

end StoreLint
