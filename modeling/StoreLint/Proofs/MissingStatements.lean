import StoreLint.Findings.Check
import StoreLint.Proofs.Flattening

/-!
# Missing statements

A tree that was not parsed may have missing statements, and then it cannot be checked.  Three
traversals can come upon one: the walk through a program, the walk through a body inside, and the
replay of a body.

* `Block.Holds`: a statement is in a program, at the top or in a list of another statement.
* `isOk_walk`, `isOk_replay`: from every state, each of the traversals goes through if and only if
  the program is complete.  So a body that was walked can be replayed.
* `not_complete_iff`: a program is complete if and only if it holds no missing statement.
* `check_fails_iff_missing` puts these together.
-/

namespace StoreLint

open StoreLint.Parser

/-! ## Results -/

theorem isOk_bind {ε α β : Type} {x : Except ε α} {f : α → Except ε β} {goes : Bool}
    (h : ∀ a, (f a).isOk = goes) : (x >>= f).isOk = (x.isOk && goes) := by
  cases x with
  | error e => rfl
  | ok a => exact h a

theorem eq_error_iff {α : Type} {x : Except CheckError α} :
    x = .error .unknownStatement ↔ x.isOk = false := by
  cases x with
  | error e =>
      cases e
      simp [Except.isOk, Except.toBool]
  | ok a => simp [Except.isOk, Except.toBool]

theorem exists_eq_ok_iff {ε α : Type} {x : Except ε α} : (∃ a, x = .ok a) ↔ x.isOk = true := by
  cases x with
  | error e => simp [Except.isOk, Except.toBool]
  | ok a => simp [Except.isOk, Except.toBool]

namespace Block

/-! ## Statements in a program -/

/-- A statement, given as a list of its own, is one of a program: at the top, or in one of the
branches or the body of another statement, at any depth. -/
inductive Holds (s : Block) : Block → Prop where
  | top {b : Block} (mem : s ∈ b.statements) : Holds s b
  | yes {b yes no : Block} {line : Int} {cond : Expr}
      (mem : .branch line cond yes no .empty ∈ b.statements) (inside : Holds s yes) : Holds s b
  | no {b yes no : Block} {line : Int} {cond : Expr}
      (mem : .branch line cond yes no .empty ∈ b.statements) (inside : Holds s no) : Holds s b
  | body {b body : Block} {line : Int} {cond : Expr}
      (mem : .loop line cond body .empty ∈ b.statements) (inside : Holds s body) : Holds s b

/-- What the later statements hold, the whole list does. -/
theorem Holds.mono {s rest b : Block} (h : Holds s rest) (hsub : rest.statements ⊆ b.statements) :
    Holds s b := by
  cases h with
  | top mem => exact .top (hsub mem)
  | yes mem inside => exact .yes (hsub mem) inside
  | no mem inside => exact .no (hsub mem) inside
  | body mem inside => exact .body (hsub mem) inside

/-- A program is complete if and only if each of its statements is. -/
theorem complete_eq_all (b : Block) : b.complete = b.statements.all complete := by
  induction b with
  | empty => rfl
  | assign write rest ih => simp [statements, complete, ih]
  | branch line cond yes no rest _ _ ih => simp [statements, complete, ih]
  | loop line cond body rest _ ih => simp [statements, complete, ih]
  | missing rest ih => simp [statements, complete]

theorem not_complete_of_mem {s b : Block} (hs : s ∈ b.statements) (h : s.complete = false) :
    b.complete = false := by
  rw [complete_eq_all]
  exact List.all_eq_false.2 ⟨s, hs, by simp [h]⟩

/-- A program is complete if and only if it holds no missing statement. -/
theorem not_complete_iff {b : Block} : b.complete = false ↔ Holds (.missing .empty) b := by
  constructor
  · intro h
    induction b with
    | empty => cases h
    | assign write rest ih => exact (ih h).mono (by simp [statements])
    | branch line cond yes no rest ihyes ihno ih =>
        have hmem :
            .branch line cond yes no .empty ∈ (branch line cond yes no rest).statements := by
          simp [statements]
        simp only [complete, Bool.and_eq_false_iff] at h
        rcases h with (h | h) | h
        · exact .yes hmem (ihyes h)
        · exact .no hmem (ihno h)
        · exact (ih h).mono (by simp [statements])
    | loop line cond body rest ihbody ih =>
        have hmem : .loop line cond body .empty ∈ (loop line cond body rest).statements := by
          simp [statements]
        simp only [complete, Bool.and_eq_false_iff] at h
        rcases h with h | h
        · exact .body hmem (ihbody h)
        · exact (ih h).mono (by simp [statements])
    | missing rest ih => exact .top (by simp [statements])
  · intro h
    induction h with
    | top mem => exact not_complete_of_mem mem rfl
    | yes mem _ ih => exact not_complete_of_mem mem (by simp [complete, ih])
    | no mem _ ih => exact not_complete_of_mem mem (by simp [complete, ih])
    | body mem _ ih => exact not_complete_of_mem mem (by simp [complete, ih])

/-! ## The traversals -/

/-- A replay goes through if and only if the program is complete, whatever waits before it. -/
theorem isOk_replay (b : Block) (p : Pending) : (b.replay p).isOk = b.complete := by
  induction b generalizing p with
  | empty => rfl
  | assign write rest ih => exact ih _
  | branch line cond yes no rest ihyes ihno ih =>
      have hno : ∀ q, (no.replay q >>= rest.replay).isOk = (no.complete && rest.complete) := by
        intro q
        rw [isOk_bind ih, ihno]
      rw [replay, isOk_bind hno, ihyes, complete, Bool.and_assoc]
  | loop line cond body rest ihbody ih => rw [replay, isOk_bind ih, ihbody, complete]
  | missing rest ih => rfl

/-- A walk goes through if and only if the program is complete, from every state. -/
theorem isOk_walk (b : Block) (p : Pending) (log : Log) : (b.walk p log).isOk = b.complete := by
  induction b generalizing p log with
  | empty => rfl
  | assign write rest ih => exact ih _ _
  | branch line cond yes no rest ihyes ihno ih =>
      rw [walk]
      refine (isOk_bind fun after => ?_).trans (by rw [ihyes, complete, Bool.and_assoc])
      exact (isOk_bind fun after' => ih _ _).trans (by rw [ihno])
  | loop line cond body rest ihbody ih =>
      -- the replay asks for nothing that the walk through the body did not
      rw [walk]
      refine (isOk_bind fun after => ?_).trans
        (show (_ && (body.complete && rest.complete)) = _ by
          rw [ihbody, ← Bool.and_assoc, Bool.and_self, complete])
      exact (isOk_bind fun q => ih _ _).trans (by rw [isOk_replay])
  | missing rest ih => rfl

/-- A program can be checked if and only if it is complete. -/
theorem isOk_check (order : ReportOrder) (b : Block) : (b.check order).isOk = b.complete := by
  have hwalk := isOk_walk b .none .start
  rw [check]
  cases hresult : b.walk .none .start with
  | error e =>
      rw [hresult] at hwalk
      exact hwalk
  | ok after =>
      rw [hresult] at hwalk
      cases order <;> exact hwalk

/-- A parsed program is complete. -/
theorem complete_of_parse {ts : List Token} {b : Block} (h : parse ts = .ok b) :
    b.complete = true :=
  complete_of_whole (parse_writtenAs h).1.whole

/-- **The check fails exactly on missing statements.**  It fails if a statement is missing anywhere
in the program, and else it returns findings.  The replay of a body that was walked goes through,
and so does the check of every parsed program. -/
theorem check_fails_iff_missing (order : ReportOrder) :
    (∀ b : Block, (b.check order = .error .unknownStatement ↔ Holds (.missing .empty) b) ∧
      ((∃ found, b.check order = .ok found) ↔ ¬ Holds (.missing .empty) b)) ∧
    (∀ (body : Block) (p : Pending) (log : Log) (after : Pending × Log),
      body.walk p log = .ok after → ∃ q, body.replay after.1 = .ok q) ∧
    ∀ (ts : List Token) (b : Block), parse ts = .ok b → ∃ found, b.check order = .ok found := by
  refine ⟨fun b => ⟨?_, ?_⟩, ?_, ?_⟩
  · rw [eq_error_iff, isOk_check, not_complete_iff]
  · rw [exists_eq_ok_iff, isOk_check, ← not_complete_iff, Bool.not_eq_false]
  · intro body p log after hwalk
    have hcomplete : body.complete = true := by
      rw [← isOk_walk body p log, hwalk]
      rfl
    rw [exists_eq_ok_iff, isOk_replay, hcomplete]
  · intro ts b hparse
    rw [exists_eq_ok_iff, isOk_check, complete_of_parse hparse]

/-- A `while` around an assignment and an `if` whose second branch has a missing statement. -/
def gapInside : Block :=
  .loop 1 (.variable 0x63)
    (.assign ⟨.start, 0x78, .variable 0x61⟩
      (.branch 2 (.variable 0x78) (.assign ⟨.start, 0x79, .variable 0x78⟩ .empty) (.missing .empty)
        .empty))
    .empty

theorem check_fails_iff_missing_gapInside :
    gapInside.check .byLine = .error .unknownStatement ∧
      (∃ after, (assign ⟨.start, 0x78, .variable 0x61⟩ .empty).walk .none .start = .ok after ∧
        ∃ q, (assign ⟨.start, 0x78, .variable 0x61⟩ .empty).replay after.1 = .ok q) ∧
      parse [.ofName 0x78, .ofKind .assign, .ofName 0x61] =
        .ok (.assign ⟨.nowhere, 0x78, .variable 0x61⟩ .empty) ∧
      ∃ found, (assign ⟨.nowhere, 0x78, .variable 0x61⟩ .empty).check .byLine = .ok found := by
  obtain ⟨hfails, hreplay, hparsed⟩ := check_fails_iff_missing .byLine
  have hparse : parse [.ofName 0x78, .ofKind .assign, .ofName 0x61] =
      .ok (.assign ⟨.nowhere, 0x78, .variable 0x61⟩ .empty) := eq_ok_of_toOption (by decide +kernel)
  refine ⟨(hfails gapInside).1.2 ?_, ⟨_, rfl, hreplay _ _ _ _ rfl⟩, hparse, hparsed _ _ hparse⟩
  exact .body (List.mem_singleton_self _) (.no (List.mem_cons_of_mem _ (List.mem_singleton_self _))
    (.top (List.mem_singleton_self _)))

end Block

end StoreLint
