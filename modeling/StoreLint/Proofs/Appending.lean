import StoreLint.Proofs.FirstOverwriter

/-!
# Programs that go on

A program may be followed by another one.  What the check says about the first is then at most what
it says about the first alone: the second may still read a value, but it cannot make one dead that
was not.

* `traces_append`: a path through both programs is a path through the first and then one through the
  second.
* `fate_of_append`: so an assignment of the first program meets its next use in the first program,
  or waits there until the end.
* `Overwrites.append` and `Overwrites.of_append`: within the first program, both programs together
  have the same overwriters as the first alone.
* `appending_keeps_reports` puts these together.
-/

namespace StoreLint

namespace Block

/-! ## Two programs as one -/

theorem complete_append (b c : Block) : (b ++ c).complete = (b.complete && c.complete) := by
  show (b.append c).complete = _
  induction b with
  | empty => rfl
  | assign write rest ih => exact ih
  | branch line cond yes no rest _ _ ih => simp only [append, complete, ih, Bool.and_assoc]
  | loop line cond body rest _ ih => simp only [append, complete, ih, Bool.and_assoc]
  | missing rest ih => rfl

/-- The paths through two programs are those through the first, and then those through the
second. -/
theorem traces_append (b c : Block) (n : Nat) :
    (b ++ c).traces n = b.traces n * c.traces (n + b.assignments) := by
  show (b.append c).traces n = _
  induction b generalizing n with
  | empty => simp [append, traces, assignments]
  | assign write rest ih =>
      simp only [append, traces, assignments, ih, mul_assoc]
      rw [Nat.add_right_comm n 1, Nat.add_assoc n]
  | branch line cond yes no rest _ _ ih =>
      simp only [append, traces, assignments, ih, mul_assoc, Nat.add_assoc]
  | loop line cond body rest _ ih =>
      simp only [append, traces, assignments, ih, mul_assoc, Nat.add_assoc]
  | missing rest ih => simp [append, traces]

theorem exists_of_mem_traces_append {b c : Block} {t : List Access} (ht : t ∈ (b ++ c).traces 0) :
    ∃ u ∈ b.traces 0, ∃ v ∈ c.traces b.assignments, u ++ v = t := by
  rw [traces_append, Nat.zero_add] at ht
  exact Language.mem_mul.1 ht

theorem append_mem_traces {b c : Block} {u v : List Access} (hu : u ∈ b.traces 0)
    (hv : v ∈ c.traces b.assignments) : u ++ v ∈ (b ++ c).traces 0 := by
  rw [traces_append, Nat.zero_add]
  exact Language.append_mem_mul hu hv

/-- The second program has no assignment of the first. -/
theorem not_mem_second {b c : Block} {s : Site} (hs : s.number < b.assignments) {v : List Access}
    (hv : v ∈ c.traces b.assignments) : .write s ∉ v := by
  have habsent : s.AbsentFrom (c.traces b.assignments) := Site.absentFrom_traces (by omega)
  exact habsent v hv

/-- An assignment of the first program occurs in the first part of a path.  What happens next to its
variable happens there, or else in the second part. -/
theorem fate_of_append {b c : Block} {w : Site} (hw : w.number < b.assignments) {t : List Access}
    (ht : t ∈ (b ++ c).traces 0) {next : Option Access} (h : w.Fate t next) :
    ∃ u ∈ b.traces 0, ∃ v ∈ c.traces b.assignments,
      ∃ near, w.Fate u near ∧ near.or (nextUse w.write.target v) = next := by
  obtain ⟨u, hu, v, hv, rfl⟩ := exists_of_mem_traces_append ht
  rcases Site.fate_append.1 h with ⟨near, hnear, hor⟩ | hsecond
  · exact ⟨u, hu, v, hv, near, hnear, hor⟩
  · exact absurd hsecond.mem (not_mem_second hw hv)

/-- A value of the first program that is unread on a path through both is unread in the first part
already. -/
theorem deadIn_of_append {b c : Block} {w : Site} (hw : w.number < b.assignments) {t : List Access}
    (ht : t ∈ (b ++ c).traces 0) (h : w.DeadIn t) : ∃ u ∈ b.traces 0, w.DeadIn u := by
  obtain ⟨next, hfate, hunread⟩ := h
  obtain ⟨u, hu, v, hv, near, hnear, rfl⟩ := fate_of_append hw ht hfate
  refine ⟨u, hu, near, hnear, ?_⟩
  rintro rfl
  exact hunread rfl

/-! ## Overwriters -/

namespace Overwrites

variable {b c : Block} {w s : Site}

/-- An overwriter is one also when another program follows. -/
theorem append (h : b.Overwrites w s) (hc : c.complete = true) : (b ++ c).Overwrites w s := by
  obtain ⟨t, ht, hfate⟩ := h
  obtain ⟨v, hv⟩ := exists_mem_traces hc b.assignments
  exact ⟨t ++ v, append_mem_traces ht hv, hfate.append_left v⟩

/-- An overwriter in the first program is one also without the second. -/
theorem of_append (h : (b ++ c).Overwrites w s) (hs : s.number < b.assignments) :
    b.Overwrites w s := by
  have hw : w.number < b.assignments := Nat.lt_trans h.number_lt hs
  obtain ⟨t, ht, hfate⟩ := h
  obtain ⟨u, hu, v, hv, near, hnear, hor⟩ := fate_of_append hw ht hfate
  rcases Option.or_eq_some_iff.1 hor with rfl | ⟨-, hnext⟩
  · exact ⟨u, hu, hnear⟩
  · exact absurd (List.mem_of_find?_eq_some hnext) (not_mem_second hs hv)

end Overwrites

/-! ## Reports -/

/-- A finding with an overwriter stays the same when another program follows. -/
theorem finding_of_append {b c : Block} (hb : b.complete = true) (hc : c.complete = true)
    {order order' : ReportOrder} {found found' : List Finding} (hcheck : b.check order = .ok found)
    (hcheck' : (b ++ c).check order' = .ok found') {f : Finding} (hf : f ∈ found) {o : Site}
    (ho : f.overwriter = some o) : f ∈ found' := by
  have hboth : (b ++ c).complete = true := by rw [complete_append, hb, hc]; rfl
  obtain ⟨hone, hleast⟩ := overwriter_least hb hcheck hf
  have hover : b.Overwrites f.dead o := hone o ho
  -- the assignment is reported in the longer program as well, since it is overwritten there
  obtain ⟨found'', hcheck'', -, hwritten, -⟩ := check_paths hboth order'
  rw [hcheck'] at hcheck''
  cases hcheck''
  obtain ⟨t, ht, hfate⟩ := hover.append hc
  obtain ⟨f', hf', hdead, s, hs, hle⟩ := hwritten t ht f.dead o hfate
  -- its overwriter there is no later than the one here, so it is in the first program
  have hover' : (b ++ c).Overwrites f.dead s := by
    rw [← hdead]
    exact (overwriter_least hboth hcheck' hf').1 s hs
  have hnumber := number_mem_sites hover.mem_sites
  have hfirst : b.Overwrites f.dead s := hover'.of_append (by omega)
  obtain ⟨o', ho', hle'⟩ := hleast s hfirst
  rw [ho] at ho'
  cases ho'
  have hsame : s = o :=
    eq_of_number_eq hfirst.mem_sites hover.mem_sites (Nat.le_antisymm hle hle')
  have hfinding : f' = f := by
    rw [show f' = ⟨f'.dead, f'.overwriter⟩ from rfl, hdead, hs, hsame, ← ho]
  rwa [← hfinding]

/-- **What follows a program adds no report to it.**  Whatever is reported of a program when another
one follows is reported of it alone.  What is overwritten in the program itself is reported in both
cases, with the same overwriter. -/
theorem appending_keeps_reports {b c : Block} (hb : b.complete = true) (hc : c.complete = true)
    (order order' : ReportOrder) :
    ∃ found found', b.check order = .ok found ∧ (b ++ c).check order' = .ok found' ∧
      (∀ f ∈ found', f.dead ∈ b.sites 0 → ∃ g ∈ found, g.dead = f.dead) ∧
      ∀ f ∈ found, f.overwriter ≠ none → f ∈ found' ∧ ∀ g ∈ found', g.dead = f.dead → g = f := by
  have hboth : (b ++ c).complete = true := by rw [complete_append, hb, hc]; rfl
  obtain ⟨found, hcheck, -, -, hdead⟩ := check_paths hb order
  obtain ⟨found', hcheck', hpath, -, -⟩ := check_paths hboth order'
  refine ⟨found, found', hcheck, hcheck', ?_, ?_⟩
  · intro f hf hfirst
    obtain ⟨t, ht, hfate⟩ := hpath f hf
    have hunread : f.dead.DeadIn t := ⟨_, hfate, by cases f.overwriter <;> simp⟩
    have hnumber := number_mem_sites hfirst
    obtain ⟨u, hu, hunread⟩ := deadIn_of_append (by omega) ht hunread
    exact hdead u hu f.dead hunread
  · intro f hf hover
    obtain ⟨o, ho⟩ := Option.ne_none_iff_exists'.1 hover
    have hf' : f ∈ found' := finding_of_append hb hc hcheck hcheck' hf ho
    refine ⟨hf', fun g hg hsame => ?_⟩
    exact List.inj_on_of_nodup_map (check_reportedOnce hcheck') hg hf' (congrArg Site.number hsame)

end Block

/-- The program `y = x`, which reads what another one has left. -/
def TwoPaths.reader : Block :=
  .assign ⟨⟨6, 1⟩, 0x79, .variable 0x78⟩ .empty

theorem Block.appending_keeps_reports_reader :
    TwoPaths.program.complete = true ∧ TwoPaths.reader.complete = true ∧
      ∃ found', (TwoPaths.program ++ TwoPaths.reader).check .byLine = .ok found' ∧
        ⟨TwoPaths.early, some TwoPaths.inner⟩ ∈ found' ∧
        ⟨TwoPaths.inner, some TwoPaths.late⟩ ∈ found' ∧
        ∀ f ∈ found', f.dead ∈ TwoPaths.program.sites 0 →
          f.dead ∈ [TwoPaths.early, TwoPaths.inner, TwoPaths.late] := by
  obtain ⟨found, found', hcheck, hcheck', honly, hkept⟩ := appending_keeps_reports
    (show TwoPaths.program.complete = true from rfl) (show TwoPaths.reader.complete = true from rfl)
    .discovery .byLine
  rw [TwoPaths.check_program] at hcheck
  cases hcheck
  refine ⟨rfl, rfl, found', hcheck', ?_, ?_, ?_⟩
  · exact (hkept _ (by simp) (by simp)).1
  · exact (hkept _ (by simp) (by simp)).1
  · intro f hf hfirst
    obtain ⟨g, hg, hsame⟩ := honly f hf hfirst
    rw [← hsame]
    exact List.mem_map_of_mem (f := Finding.dead) hg

end StoreLint
