import StoreLint.Proofs.AllPaths

/-!
# Every finding happens in an execution

A path of a single pass is no execution: behind each loop it reads everything that the loop reads.
Without those reads it is one, in which every loop runs once.  Leaving out reads changes neither
what overwrites a value that is not read, nor that it stays unread to the end.  So each finding
comes with an execution in which it happens just as it is reported.

* `Thinned`: a path with some of its reads left out.
* `exists_run_thinned`: each path of a single pass thins to an execution.
* `finding_occurs`: the statement about findings.
-/

namespace StoreLint

/-- The second path is the first with some of its reads left out. -/
inductive Thinned : List Access → List Access → Prop
  | nil : Thinned [] []
  | keep (a : Access) {t u : List Access} : Thinned t u → Thinned (a :: t) (a :: u)
  | drop (v : UInt8) {t u : List Access} : Thinned t u → Thinned (.read v :: t) u

namespace Thinned

theorem refl : ∀ t : List Access, Thinned t t
  | [] => .nil
  | a :: t => .keep a (refl t)

theorem append {t u t' u' : List Access} (h : Thinned t u) (h' : Thinned t' u') :
    Thinned (t ++ t') (u ++ u') := by
  induction h with
  | nil => exact h'
  | keep a _ ih => exact .keep a ih
  | drop v _ ih => exact .drop v ih

theorem readsOf_nil (names : List UInt8) : Thinned (readsOf names) [] := by
  induction names with
  | nil => exact .nil
  | cons v rest ih => exact .drop v ih

/-- Unless a variable is read next, leaving out reads does not change what happens to it next. -/
theorem nextUse_eq {t u : List Access} (h : Thinned t u) {v : UInt8}
    (hread : nextUse v t ≠ some (.read v)) : nextUse v u = nextUse v t := by
  induction h with
  | nil => rfl
  | @keep a t u _ ih =>
      by_cases ha : a.touches v = true
      · simp [nextUse, ha]
      · have hskip : ∀ r : List Access, nextUse v (a :: r) = nextUse v r := by
          intro r
          simp [nextUse, ha]
        rw [hskip, hskip]
        exact ih (by rwa [hskip] at hread)
  | @drop name t u _ ih =>
      have hname : name ≠ v := by
        rintro rfl
        exact hread (by simp [nextUse, Access.touches])
      have hskip : nextUse v (.read name :: t) = nextUse v t := by
        simp [nextUse, Access.touches, hname]
      rw [hskip]
      exact ih (by rwa [hskip] at hread)

/-- Leaving out reads keeps the fate of a value that is not read. -/
theorem fate {t u : List Access} (h : Thinned t u) {w : Site} {next : Option Access}
    (hfate : w.Fate t next) (hread : next ≠ some (.read w.write.target)) : w.Fate u next := by
  induction h with
  | nil => exact hfate
  | @keep a t u h ih =>
      rw [Site.fate_cons] at hfate ⊢
      rcases hfate with ⟨ha, rfl⟩ | hfate
      · exact Or.inl ⟨ha, h.nextUse_eq hread⟩
      · exact Or.inr (ih hfate)
  | drop name _ ih =>
      rcases Site.fate_cons.1 hfate with ⟨hwrite, -⟩ | hfate
      · cases hwrite
      · exact ih hfate

end Thinned

namespace Block

/-- Each path of a single pass thins to an execution. -/
theorem exists_run_thinned {b : Block} {n : Nat} {t : List Access} (ht : t ∈ b.traces n) :
    ∃ u ∈ b.runs n, Thinned t u := by
  induction b generalizing n t with
  | empty => exact ⟨t, ht, .refl t⟩
  | assign write rest ih =>
      obtain ⟨r, hr, rfl⟩ := mem_traces_assign.1 ht
      obtain ⟨u, hu, hthin⟩ := ih hr
      exact ⟨_, mem_runs_assign.2 ⟨u, hu, rfl⟩, (Thinned.refl _).append hthin⟩
  | branch line cond yes no rest ihyes ihno ih =>
      obtain ⟨a, ha, r, hr, rfl⟩ := mem_traces_branch.1 ht
      obtain ⟨u, hu, hthin⟩ := ih hr
      rcases ha with ha | ha
      · obtain ⟨c, hc, hbranch⟩ := ihyes ha
        exact ⟨_, mem_runs_branch.2 ⟨c, Or.inl hc, u, hu, rfl⟩,
          ((Thinned.refl _).append hbranch).append hthin⟩
      · obtain ⟨c, hc, hbranch⟩ := ihno ha
        exact ⟨_, mem_runs_branch.2 ⟨c, Or.inr hc, u, hu, rfl⟩,
          ((Thinned.refl _).append hbranch).append hthin⟩
  | loop line cond body rest ihbody ih =>
      obtain ⟨a, ha, r, hr, rfl⟩ := mem_traces_loop.1 ht
      obtain ⟨c, hc, hround⟩ := ihbody ha
      obtain ⟨u, hu, hthin⟩ := ih hr
      refine ⟨_, mem_runs_loop_once hc hu, ?_⟩
      -- the reads that stand for later rounds are the ones to leave out
      have hbody := ((Thinned.refl (readsOf cond.reads)).append hround).append
        (Thinned.readsOf_nil body.reads)
      rw [List.append_nil] at hbody
      exact (hbody.append (Thinned.refl _)).append hthin
  | missing rest ih => exact absurd ht (Language.notMem_zero t)

/-- **Every finding happens in an execution.**  The check succeeds, and each assignment that it
reports is dead in some execution.  If an overwriter is reported, then in some execution it is what
happens next to the variable; if none is, then in some execution nothing happens to the variable
again.  So an assignment whose value is read after every occurrence in every execution is never
reported. -/
theorem finding_occurs {b : Block} (hb : b.complete = true) (order : ReportOrder) :
    ∃ found, b.check order = .ok found ∧
      (∀ f ∈ found, (∃ t ∈ b.runs 0, f.dead.DeadIn t) ∧
        (∀ s, f.overwriter = some s → ∃ t ∈ b.runs 0, f.dead.Fate t (some (.write s))) ∧
        (f.overwriter = none → ∃ t ∈ b.runs 0, f.dead.Fate t none)) ∧
      ∀ w, (∀ t ∈ b.runs 0, ∀ next, w.Fate t next → next = some (.read w.write.target)) →
        ∀ f ∈ found, f.dead ≠ w := by
  obtain ⟨found, hcheck, hfound, -, -⟩ := check_paths hb order
  have hrun : ∀ f ∈ found, ∃ u ∈ b.runs 0, f.dead.Fate u (f.overwriter.map .write) := by
    intro f hf
    obtain ⟨t, ht, hfate⟩ := hfound f hf
    obtain ⟨u, hu, hthin⟩ := exists_run_thinned ht
    exact ⟨u, hu, hthin.fate hfate (by cases f.overwriter <;> simp)⟩
  have hdead : ∀ f ∈ found, ∃ u ∈ b.runs 0, f.dead.DeadIn u := by
    intro f hf
    obtain ⟨u, hu, hfate⟩ := hrun f hf
    exact ⟨u, hu, _, hfate, by cases f.overwriter <;> simp⟩
  refine ⟨found, hcheck, ?_, ?_⟩
  · intro f hf
    refine ⟨hdead f hf, ?_, ?_⟩
    · intro s hs
      simpa [hs] using hrun f hf
    · intro hnone
      simpa [hnone] using hrun f hf
  · rintro w hread f hf rfl
    obtain ⟨u, hu, next, hfate, hunread⟩ := hdead f hf
    exact hunread (hread u hu next hfate)

end Block

/-! ## A loop that sets a variable twice

    while c
      x = a
      x = b
    end

The first value is overwritten in each round, and the second in each round but the last. -/

namespace ResetLoop

/-- The assignment `x = a`. -/
def early : Site :=
  ⟨0, ⟨2, 3⟩, 0x78, .variable 0x61⟩

/-- The assignment `x = b`. -/
def late : Site :=
  ⟨1, ⟨3, 3⟩, 0x78, .variable 0x62⟩

/-- The whole program. -/
def program : Block :=
  .loop 1 (.variable 0x63) (.assign early.write (.assign late.write .empty)) .empty

theorem check_program :
    program.check .discovery = .ok [⟨early, some late⟩, ⟨late, none⟩] := by
  decide +kernel

end ResetLoop

/-- In some execution the first assignment is overwritten by the second, and in some execution the
variable is not used after the second. -/
theorem Block.finding_occurs_resetLoop :
    ResetLoop.program.complete = true ∧
      (∃ t ∈ ResetLoop.program.runs 0, ResetLoop.early.Fate t (some (.write ResetLoop.late))) ∧
      ∃ t ∈ ResetLoop.program.runs 0, ResetLoop.late.Fate t none := by
  obtain ⟨found, hcheck, hoccurs, -⟩ :=
    finding_occurs (show ResetLoop.program.complete = true by decide) .discovery
  rw [ResetLoop.check_program] at hcheck
  cases hcheck
  have hearly := (hoccurs ⟨ResetLoop.early, some ResetLoop.late⟩ (by simp)).2.1 _ rfl
  have hlate := (hoccurs ⟨ResetLoop.late, none⟩ (by simp)).2.2 rfl
  exact ⟨by decide, hearly, hlate⟩

end StoreLint
