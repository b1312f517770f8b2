import StoreLint.Proofs.Grouping
import StoreLint.Proofs.ParserRuns

/-!
# What programs are written as

A parser reads a list of tokens and returns a tree.  This file says which lists a tree is written
as, by rules on trees and token lists that do not mention the parser, and shows that the parser
returns only trees that are written as what it has read.

* `Expr.SpelledBy`: the operands and operators of a tree stand in the list in their order, whatever
  the grouping.  `Expr.WrittenAs` adds that the tree is grouped by precedence.
* `Block.WrittenAs`: the same for statements.  It also says which places a statement has.
* `Parser.State.WrittenAs`: what the parser holds between two tokens is written as the tokens
  before.  `Moves.writtenAs` says that each token keeps this true, and `parse_writtenAs` draws the
  conclusion.
-/

namespace StoreLint

open StoreLint.Parser

/-! ## Expressions -/

/-- The tokens spell the expression, if its operators may be grouped in any way. -/
inductive Expr.SpelledBy : Expr → List Token → Prop
  | letter {t : Token} {name : UInt8} (kind : t.kind = .variable) (letter : letter? t = some name) :
      SpelledBy (.variable name) [t]
  | literal {t : Token} {value : Binary64} (kind : t.kind = .number)
      (read : Number.read? t.value = some value) : SpelledBy (.number t.value value) [t]
  | negative {minus t : Token} {value : Binary64} (sign : minus.kind = .minus)
      (kind : t.kind = .number) (read : Number.read? (utf8 "-" ++ t.value) = some value) :
      SpelledBy (.number (utf8 "-" ++ t.value) value) [minus, t]
  | bracket {inner : Expr} {first last : Token} {ts : List Token} (kind : first.kind = .openBracket)
      (spelled : SpelledBy inner ts) (kind' : last.kind = .closeBracket) :
      SpelledBy (.bracket inner) (first :: (ts ++ [last]))
  | binary {left right : Expr} {op : Operator} {sign : Token} {ts us : List Token}
      (spelled : SpelledBy left ts) (kind : operator? sign.kind = some op)
      (spelled' : SpelledBy right us) : SpelledBy (.binary left op right) (ts ++ sign :: us)

/-- The tokens spell the expression, and its operators are grouped by precedence. -/
structure Expr.WrittenAs (e : Expr) (ts : List Token) : Prop where
  spelled : e.SpelledBy ts
  grouped : e.Grouped

namespace Parser

/-- The tokens spell operands, each with an operator after it. -/
inductive SpellOperands : Operands → List Token → Prop
  | nil : SpellOperands [] []
  | cons {before : Operands} {last : Expr} {op : Operator} {sign : Token} {ts us : List Token}
      (spelled : SpellOperands before ts) (written : last.WrittenAs us)
      (operand : last.root? = none) (kind : operator? sign.kind = some op) :
      SpellOperands ((last, op) :: before) (ts ++ us ++ [sign])

namespace SpellOperands

theorem operand {before : Operands} {ts : List Token} (h : SpellOperands before ts) :
    ∀ x ∈ before, x.1.root? = none ∧ x.1.Grouped := by
  induction h with
  | nil => exact fun x hx => absurd hx List.not_mem_nil
  | cons spelled written operand kind ih =>
      intro x hx
      rcases List.mem_cons.1 hx with rfl | hx
      · exact ⟨operand, written.grouped⟩
      · exact ih x hx

theorem of_append {after before : Operands} {ts : List Token}
    (h : SpellOperands (after ++ before) ts) :
    ∃ us vs, ts = us ++ vs ∧ SpellOperands before us ∧ SpellOperands after vs := by
  induction after generalizing ts with
  | nil => exact ⟨ts, [], (List.append_nil ts).symm, h, .nil⟩
  | cons x after ih =>
      cases h with
      | cons spelled written operand kind =>
          obtain ⟨us, vs, rfl, hbefore, hafter⟩ := ih spelled
          exact ⟨us, _, by simp only [List.append_assoc], hbefore,
            .cons hafter written operand kind⟩

/-- A tree is spelled by what its sequence is spelled by. -/
theorem spelledBy {e : Expr} {ts us : List Token} (h : SpellOperands e.before ts)
    (hlast : e.last.SpelledBy us) : e.SpelledBy (ts ++ us) := by
  induction e generalizing ts us with
  | binary left op right ihleft ihright =>
      obtain ⟨vs, ws, rfl, hleft, hright⟩ := of_append h
      cases hleft with
      | @cons _ _ _ sign as bs spelled written operand kind =>
          have hspelled : (Expr.binary left op right).SpelledBy (as ++ bs ++ sign :: (ws ++ us)) :=
            .binary (ihleft spelled written.spelled) kind (ihright hright hlast)
          simpa using hspelled
  | _ =>
      cases h
      exact hlast

/-- Grouping gives a tree that is written as the sequence. -/
theorem group {before : Operands} {last : Expr} {ts us : List Token} (h : SpellOperands before ts)
    (hlast : last.WrittenAs us) (hroot : last.root? = none) :
    (Chain.group before last).WrittenAs (ts ++ us) := by
  have hoperands : ∀ x ∈ before, x.1.root? = none := fun x hx => (h.operand x hx).1
  refine ⟨spelledBy ?_ ?_, Chain.grouped_group h.operand hroot hlast.grouped⟩
  · rw [Chain.before_group hoperands hroot]
    exact h
  · rw [Chain.last_group hoperands hroot]
    exact hlast.spelled

end SpellOperands

end Parser

/-! ## Statements -/

/-- The tokens are what the statements are written as. -/
inductive Block.WrittenAs : Block → List Token → Prop
  | empty : WrittenAs .empty []
  | assign {target sign : Token} {name : UInt8} {value : Expr} {rest : Block} {es ts : List Token}
      (kind : target.kind = .variable) (letter : letter? target = some name)
      (kind' : sign.kind = .assign) (written : value.WrittenAs es) (after : WrittenAs rest ts) :
      WrittenAs (.assign ⟨target.position, name, value⟩ rest) (target :: sign :: (es ++ ts))
  | branch {first last : Token} {cond : Expr} {yes rest : Block} {es ys ts : List Token}
      (kind : first.kind = .ifWord) (written : cond.WrittenAs es) (body : WrittenAs yes ys)
      (some : yes.isEmpty = false) (kind' : last.kind = .endWord) (after : WrittenAs rest ts) :
      WrittenAs (.branch first.position.line cond yes .empty rest)
        (first :: (es ++ ys ++ last :: ts))
  | branchElse {first middle last : Token} {cond : Expr} {yes no rest : Block}
      {es ys ns ts : List Token} (kind : first.kind = .ifWord) (written : cond.WrittenAs es)
      (body : WrittenAs yes ys) (some : yes.isEmpty = false) (kind' : middle.kind = .elseWord)
      (body' : WrittenAs no ns) (some' : no.isEmpty = false) (kind'' : last.kind = .endWord)
      (after : WrittenAs rest ts) :
      WrittenAs (.branch first.position.line cond yes no rest)
        (first :: (es ++ ys ++ middle :: (ns ++ last :: ts)))
  | loop {first last : Token} {cond : Expr} {body rest : Block} {es bs ts : List Token}
      (kind : first.kind = .whileWord) (written : cond.WrittenAs es) (inside : WrittenAs body bs)
      (some : body.isEmpty = false) (kind' : last.kind = .endWord) (after : WrittenAs rest ts) :
      WrittenAs (.loop first.position.line cond body rest)
        (first :: (es ++ bs ++ last :: ts))

namespace Block.WrittenAs

theorem append {b c : Block} {ts us : List Token} (h : b.WrittenAs ts) (h' : c.WrittenAs us) :
    (b.append c).WrittenAs (ts ++ us) := by
  induction h with
  | empty => exact h'
  | assign kind letter kind' written _ ih =>
      simpa [Block.append] using Block.WrittenAs.assign kind letter kind' written ih
  | branch kind written body some kind' _ _ ih =>
      simpa [Block.append] using Block.WrittenAs.branch kind written body some kind' ih
  | branchElse kind written body some kind' body' some' kind'' _ _ _ ih =>
      simpa [Block.append] using
        Block.WrittenAs.branchElse kind written body some kind' body' some' kind'' ih
  | loop kind written inside some kind' _ _ ih =>
      simpa [Block.append] using Block.WrittenAs.loop kind written inside some kind' ih

end Block.WrittenAs

namespace Block

/-- The tokens are what statements are written as that are kept from the last to the first. -/
def WrittenBack (done : Block) (ts : List Token) : Prop :=
  done.reverse.WrittenAs ts

theorem writtenBack_empty : Block.empty.WrittenBack [] :=
  .empty

namespace WrittenBack

variable {done : Block} {ts us : List Token}

/-- One more statement, which is written after the others and kept before them. -/
theorem reverseOnto (h : done.WrittenBack ts) {stmt : Block} (h' : stmt.WrittenAs us) :
    (done.reverseOnto stmt).WrittenAs (ts ++ us) := by
  rw [reverseOnto_eq]
  exact h.append h'

theorem assign (h : done.WrittenBack ts) {write : Assign}
    (h' : (Block.assign write .empty).WrittenAs us) :
    (Block.assign write done).WrittenBack (ts ++ us) :=
  h.reverseOnto h'

theorem branch (h : done.WrittenBack ts) {line : Int} {cond : Expr} {yes no : Block}
    (h' : (Block.branch line cond yes no .empty).WrittenAs us) :
    (Block.branch line cond yes no done).WrittenBack (ts ++ us) :=
  h.reverseOnto h'

theorem loop (h : done.WrittenBack ts) {line : Int} {cond : Expr} {body : Block}
    (h' : (Block.loop line cond body .empty).WrittenAs us) :
    (Block.loop line cond body done).WrittenBack (ts ++ us) :=
  h.reverseOnto h'

end WrittenBack

end Block

/-! ## The parser between two tokens -/

namespace Parser

/-- The tokens in front of an expression. -/
inductive Purpose.WrittenAs : Purpose → List Token → Prop
  | value {target sign : Token} {name : UInt8} (kind : target.kind = .variable)
      (letter : letter? target = some name) (kind' : sign.kind = .assign) :
      WrittenAs (.value target.position name) [target, sign]
  | branch {first : Token} (kind : first.kind = .ifWord) :
      WrittenAs (.branch first.position.line) [first]
  | loop {first : Token} (kind : first.kind = .whileWord) :
      WrittenAs (.loop first.position.line) [first]

/-- The tokens up to the innermost open bracket of an expression. -/
inductive SpellBrackets : List Operands → List Token → Prop
  | nil : SpellBrackets [] []
  | cons {outer : List Operands} {around : Operands} {bracket : Token} {ts us : List Token}
      (spelled : SpellBrackets outer ts) (spelled' : SpellOperands around us)
      (kind : bracket.kind = .openBracket) :
      SpellBrackets (around :: outer) (ts ++ us ++ [bracket])

/-- The tokens up to the innermost open list of statements. -/
inductive SpellFrames : List Frame → List Token → Prop
  | nil : SpellFrames [] []
  | yes {frames : List Frame} {before : Block} {cond : Expr} {first : Token}
      {ts bs es : List Token} (spelled : SpellFrames frames ts)
      (earlier : before.WrittenBack bs) (kind : first.kind = .ifWord)
      (written : cond.WrittenAs es) :
      SpellFrames (.yes first.position.line cond before :: frames) (ts ++ bs ++ first :: es)
  | no {frames : List Frame} {before yes : Block} {cond : Expr} {first middle : Token}
      {ts bs es ys : List Token} (spelled : SpellFrames frames ts)
      (earlier : before.WrittenBack bs) (kind : first.kind = .ifWord)
      (written : cond.WrittenAs es) (body : yes.WrittenAs ys) (some : yes.isEmpty = false)
      (kind' : middle.kind = .elseWord) :
      SpellFrames (.no first.position.line cond yes before :: frames)
        (ts ++ bs ++ first :: (es ++ ys ++ [middle]))
  | body {frames : List Frame} {before : Block} {cond : Expr} {first : Token}
      {ts bs es : List Token} (spelled : SpellFrames frames ts)
      (earlier : before.WrittenBack bs) (kind : first.kind = .whileWord)
      (written : cond.WrittenAs es) :
      SpellFrames (.body first.position.line cond before :: frames) (ts ++ bs ++ first :: es)

/-- The tokens after the last whole statement. -/
inductive Phase.WrittenAs : Phase → List Token → Prop
  | statement : WrittenAs .statement []
  | target {target : Token} {name : UInt8} (kind : target.kind = .variable)
      (letter : letter? target = some name) : WrittenAs (.target target.position name) [target]
  | operand {purpose : Purpose} {outer : List Operands} {before : Operands} {ps os bs : List Token}
      (purposed : purpose.WrittenAs ps) (brackets : SpellBrackets outer os)
      (operands : SpellOperands before bs) :
      WrittenAs (.operand purpose outer before) (ps ++ os ++ bs)
  | negative {purpose : Purpose} {outer : List Operands} {before : Operands} {minus : Token}
      {ps os bs : List Token} (purposed : purpose.WrittenAs ps) (brackets : SpellBrackets outer os)
      (operands : SpellOperands before bs) (kind : minus.kind = .minus) :
      WrittenAs (.negative purpose outer before minus) (ps ++ os ++ bs ++ [minus])
  | operator {purpose : Purpose} {outer : List Operands} {before : Operands} {last : Expr}
      {ps os bs ls : List Token} (purposed : purpose.WrittenAs ps)
      (brackets : SpellBrackets outer os) (operands : SpellOperands before bs)
      (written : last.WrittenAs ls) (operand : last.root? = none) :
      WrittenAs (.operator purpose outer before last) (ps ++ os ++ bs ++ ls)

/-- What the parser holds is written as the tokens. -/
inductive State.WrittenAs : State → List Token → Prop
  | intro {frames : List Frame} {done : Block} {phase : Phase} {fs ds ps : List Token}
      (spelled : SpellFrames frames fs) (written : done.WrittenBack ds)
      (current : phase.WrittenAs ps) : WrittenAs ⟨frames, done, phase⟩ (fs ++ ds ++ ps)

theorem State.writtenAs_start : State.start.WrittenAs [] :=
  .intro .nil Block.writtenBack_empty .statement

/-- An expression is put where it belongs. -/
theorem State.writtenAs_deliver {s : State} {purpose : Purpose} {e : Expr}
    {fs ds ps es : List Token} (hframes : SpellFrames s.frames fs) (hdone : s.done.WrittenBack ds)
    (hpurpose : purpose.WrittenAs ps) (he : e.WrittenAs es) :
    (s.deliver e purpose).WrittenAs (fs ++ ds ++ (ps ++ es)) := by
  cases hpurpose with
  | value kind letter kind' =>
      have hassign := hdone.assign (.assign kind letter kind' he .empty)
      simpa [State.deliver] using State.WrittenAs.intro hframes hassign .statement
  | branch kind =>
      simpa [State.deliver] using
        State.WrittenAs.intro (.yes hframes hdone kind he) Block.writtenBack_empty .statement
  | loop kind =>
      simpa [State.deliver] using
        State.WrittenAs.intro (.body hframes hdone kind he) Block.writtenBack_empty .statement

/-- Each token keeps it true that the parser holds what has been read. -/
theorem Moves.writtenAs {t : Token} {s s' : State} (h : Moves t s s') {ts : List Token}
    (hs : s.WrittenAs ts) : s'.WrittenAs (ts ++ [t]) := by
  induction h generalizing ts with
  | target kind letter =>
      obtain ⟨spelled, written, ⟨⟩⟩ := hs
      simpa using State.WrittenAs.intro spelled written (.target kind letter)
  | branch kind =>
      obtain ⟨spelled, written, ⟨⟩⟩ := hs
      simpa using State.WrittenAs.intro spelled written (.operand (.branch kind) .nil .nil)
  | loop kind =>
      obtain ⟨spelled, written, ⟨⟩⟩ := hs
      simpa using State.WrittenAs.intro spelled written (.operand (.loop kind) .nil .nil)
  | otherwise some kind =>
      obtain ⟨spelled, written, ⟨⟩⟩ := hs
      cases spelled with
      | yes spelled earlier kind' cond =>
          simpa using State.WrittenAs.intro
            (.no spelled earlier kind' cond written (by simpa using some) kind)
            Block.writtenBack_empty .statement
  | endYes some kind =>
      obtain ⟨spelled, written, ⟨⟩⟩ := hs
      cases spelled with
      | yes spelled earlier kind' cond =>
          have hstmt := earlier.branch
            (.branch kind' cond written (by simpa using some) kind .empty)
          simpa using State.WrittenAs.intro spelled hstmt .statement
  | endNo some kind =>
      obtain ⟨spelled, written, ⟨⟩⟩ := hs
      cases spelled with
      | no spelled earlier kind' cond body some' kind'' =>
          have hstmt := earlier.branch
            (.branchElse kind' cond body some' kind'' written (by simpa using some) kind .empty)
          simpa using State.WrittenAs.intro spelled hstmt .statement
  | endBody some kind =>
      obtain ⟨spelled, written, ⟨⟩⟩ := hs
      cases spelled with
      | body spelled earlier kind' cond =>
          have hstmt := earlier.loop
            (.loop kind' cond written (by simpa using some) kind .empty)
          simpa using State.WrittenAs.intro spelled hstmt .statement
  | assign kind =>
      obtain ⟨spelled, written, current⟩ := hs
      cases current with
      | target kind' letter =>
          simpa using State.WrittenAs.intro spelled written
            (.operand (.value kind' letter kind) .nil .nil)
  | name kind letter =>
      obtain ⟨spelled, written, current⟩ := hs
      cases current with
      | operand purposed brackets operands =>
          simpa using State.WrittenAs.intro spelled written
            (.operator purposed brackets operands ⟨.letter kind letter, trivial⟩ rfl)
  | number kind read =>
      obtain ⟨spelled, written, current⟩ := hs
      cases current with
      | operand purposed brackets operands =>
          simpa using State.WrittenAs.intro spelled written
            (.operator purposed brackets operands ⟨.literal kind read, trivial⟩ rfl)
  | minus kind =>
      obtain ⟨spelled, written, current⟩ := hs
      cases current with
      | operand purposed brackets operands =>
          simpa using State.WrittenAs.intro spelled written
            (.negative purposed brackets operands kind)
  | negative kind read =>
      obtain ⟨spelled, written, current⟩ := hs
      cases current with
      | negative purposed brackets operands sign =>
          simpa using State.WrittenAs.intro spelled written
            (.operator purposed brackets operands ⟨.negative sign kind read, trivial⟩ rfl)
  | openBracket kind =>
      obtain ⟨spelled, written, current⟩ := hs
      cases current with
      | operand purposed brackets operands =>
          simpa using State.WrittenAs.intro spelled written
            (.operand purposed (.cons brackets operands kind) .nil)
  | operator kind =>
      obtain ⟨spelled, written, current⟩ := hs
      cases current with
      | operator purposed brackets operands last operand =>
          simpa using State.WrittenAs.intro spelled written
            (.operand purposed brackets (.cons operands last operand kind))
  | closeBracket kind =>
      obtain ⟨spelled, written, current⟩ := hs
      cases current with
      | operator purposed brackets operands last operand =>
          cases brackets with
          | cons brackets around kind' =>
              have hinner := operands.group last operand
              simpa using State.WrittenAs.intro spelled written
                (.operator purposed brackets around
                  ⟨.bracket kind' hinner.spelled kind, hinner.grouped⟩
                  rfl)
  | deliver kind after ih =>
      obtain ⟨spelled, written, current⟩ := hs
      cases current with
      | operator purposed brackets operands last operand =>
          cases brackets
          refine ih ?_
          simpa using State.writtenAs_deliver spelled written purposed (operands.group last operand)

theorem Reads.writtenAs {s s' : State} {us : List Token} (h : Reads s us s') {ts : List Token}
    (hs : s.WrittenAs ts) : s'.WrittenAs (ts ++ us) := by
  induction h generalizing ts with
  | nil s => simpa using hs
  | cons first rest ih => simpa using ih ((step_ok_iff.1 first).writtenAs hs)

theorem State.WrittenAs.settled {s : State} {ts : List Token} (h : s.WrittenAs ts) :
    s.settled.WrittenAs ts := by
  obtain ⟨spelled, written, current⟩ := h
  cases current with
  | operator purposed brackets operands last operand =>
      cases brackets with
      | nil =>
          simp only [State.settled]
          simpa using State.writtenAs_deliver spelled written purposed (operands.group last operand)
      | cons brackets around kind =>
          exact .intro spelled written
            (.operator purposed (.cons brackets around kind) operands last operand)
  | statement => exact .intro spelled written .statement
  | target kind letter => exact .intro spelled written (.target kind letter)
  | operand purposed brackets operands =>
      exact .intro spelled written (.operand purposed brackets operands)
  | negative purposed brackets operands kind =>
      exact .intro spelled written (.negative purposed brackets operands kind)

end Parser

/-- A parsed program is written as the tokens that were parsed, and has at least one statement. -/
theorem parse_writtenAs {ts : List Token} {b : Block} (h : parse ts = .ok b) :
    b.WrittenAs (dropEnding ts) ∧ b.isEmpty = false := by
  obtain ⟨s, done, hreads, hsettled, hsome, rfl⟩ := run_ok_iff.1 h
  have hwritten := (hreads.writtenAs State.writtenAs_start).settled
  rw [hsettled] at hwritten
  generalize hts : [] ++ dropEnding ts = all at hwritten
  cases hwritten with
  | @intro _ _ _ _ ds _ spelled written current =>
      cases spelled
      cases current
      have hds : dropEnding ts = ds := by simpa using hts
      exact ⟨hds ▸ written, by simpa using hsome⟩

end StoreLint
