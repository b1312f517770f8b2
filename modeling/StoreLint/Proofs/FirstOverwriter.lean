import StoreLint.Proofs.LoopStores
import StoreLint.Proofs.ResultShape

/-!
# Who overwrites an assignment first

A finding names the assignment that overwrote the dead one.  There may be several of them on
different paths, and the walk meets them in an order of its own, with copies of its table in the
branches.  This file shows that the one it names is the first in the text.

* `Block.Overwrites`: on some path of a single pass, an assignment is what happens next to the
  variable of another.
* `writesOf_sublist`: a path writes in the order of the text, so an overwriter comes later.
* `ReadsFirst`: before a write the path reads the value, so the next use of a variable is never a
  write whose value reads it.
* `Fork`, `apart_of_fork`: no path goes through both branches of an `if`.
* `overwriter_is_first`: the overwriter that a finding names is the first one there is, and a
  finding names none only if there is none.
-/

namespace StoreLint

/-! ## The order of writes -/

/-- The assignment that an access writes with. -/
def Access.site? : Access → Option Site
  | .read _ => none
  | .write site => some site

/-- The assignments that a path writes with, one after the other. -/
def writesOf (t : List Access) : List Site :=
  t.filterMap Access.site?

@[simp] theorem writesOf_append (t u : List Access) :
    writesOf (t ++ u) = writesOf t ++ writesOf u :=
  List.filterMap_append ..

@[simp] theorem writesOf_write (s : Site) (t : List Access) :
    writesOf (.write s :: t) = s :: writesOf t := rfl

@[simp] theorem writesOf_readsOf (names : List UInt8) : writesOf (readsOf names) = [] := by
  simp [writesOf, readsOf, Access.site?]

namespace Block

/-- A path of a single pass writes in the order of the text, with each assignment at most once. -/
theorem writesOf_sublist {b : Block} {n : Nat} {t : List Access} (ht : t ∈ b.traces n) :
    (writesOf t).Sublist (b.sites n) := by
  induction b generalizing n t with
  | empty =>
      rw [(Language.mem_one t).1 ht]
      exact List.nil_sublist _
  | assign write rest ih =>
      obtain ⟨u, hu, rfl⟩ := mem_traces_assign.1 ht
      simpa [sites] using ih hu
  | branch line cond yes no rest ihyes ihno ih =>
      obtain ⟨a, ha, u, hu, rfl⟩ := mem_traces_branch.1 ht
      have hbranch : (writesOf a).Sublist (yes.sites n ++ no.sites (n + yes.assignments)) := by
        rcases ha with ha | ha
        · exact (ihyes ha).trans (List.sublist_append_left _ _)
        · exact (ihno ha).trans (List.sublist_append_right _ _)
      simpa [sites] using hbranch.append (ih hu)
  | loop line cond body rest ihbody ih =>
      obtain ⟨a, ha, u, hu, rfl⟩ := mem_traces_loop.1 ht
      simpa [sites] using (ihbody ha).append (ih hu)
  | missing rest ih => exact absurd ht (Language.notMem_zero t)

end Block

/-! ## Reads before a write -/

/-- A write whose value reads a variable is not the next use of that variable, neither at the start
of the path nor behind an assignment: the read comes first. -/
structure ReadsFirst (t : List Access) : Prop where
  next : ∀ v s, nextUse v t = some (.write s) → v ∉ s.write.value.reads
  fate : ∀ w s, Site.Fate w t (some (.write s)) → w.write.target ∉ s.write.value.reads

namespace ReadsFirst

theorem readsOf (names : List UInt8) : ReadsFirst (readsOf names) := by
  constructor
  · intro v s hnext
    rw [nextUse_readsOf] at hnext
    split at hnext <;> cases hnext
  · intro w s hfate
    exact absurd hfate (Site.not_fate_readsOf w names _)

/-- An assignment reads its value and then writes. -/
theorem assign (site : Site) :
    ReadsFirst (StoreLint.readsOf site.write.value.reads ++ [.write site]) := by
  constructor
  · intro v s hnext
    rw [nextUse_append, nextUse_readsOf, nextUse_write] at hnext
    by_cases hread : v ∈ site.write.value.reads
    · rw [if_pos hread] at hnext
      cases hnext
    · rw [if_neg hread] at hnext
      split at hnext <;> cases hnext
      exact hread
  · intro w s hfate
    rcases Site.fate_append_write_write.1 hfate with hfate | ⟨hfate, -⟩
    · exact absurd hfate (Site.not_fate_readsOf w _ _)
    · exact absurd hfate (Site.not_fate_readsOf w _ _)

theorem append {t u : List Access} (ht : ReadsFirst t) (hu : ReadsFirst u) :
    ReadsFirst (t ++ u) := by
  constructor
  · intro v s hnext
    rw [nextUse_append, Option.or_eq_some_iff] at hnext
    rcases hnext with hnext | ⟨-, hnext⟩
    · exact ht.next v s hnext
    · exact hu.next v s hnext
  · intro w s hfate
    rcases Site.fate_append.1 hfate with ⟨near, hnear, hor⟩ | hfate
    · rcases Option.or_eq_some_iff.1 hor with rfl | ⟨-, hnext⟩
      · exact ht.fate w s hnear
      · exact hu.next w.write.target s hnext
    · exact hu.fate w s hfate

theorem of_traces {b : Block} {n : Nat} {t : List Access} (ht : t ∈ b.traces n) : ReadsFirst t := by
  induction b generalizing n t with
  | empty =>
      rw [(Language.mem_one t).1 ht]
      exact readsOf []
  | assign write rest ih =>
      obtain ⟨u, hu, rfl⟩ := Block.mem_traces_assign.1 ht
      exact (assign ⟨n, write⟩).append (ih hu)
  | branch line cond yes no rest ihyes ihno ih =>
      obtain ⟨a, ha, u, hu, rfl⟩ := Block.mem_traces_branch.1 ht
      have hbranch : ReadsFirst a := ha.elim ihyes ihno
      exact ((readsOf cond.reads).append hbranch).append (ih hu)
  | loop line cond body rest ihbody ih =>
      obtain ⟨a, ha, u, hu, rfl⟩ := Block.mem_traces_loop.1 ht
      have hround := (readsOf cond.reads).append (ihbody ha)
      exact ((hround.append (readsOf body.reads)).append (readsOf cond.reads)).append (ih hu)
  | missing rest ih => exact absurd ht (Language.notMem_zero t)

end ReadsFirst

/-! ## Branches -/

/-- An `if` in a program: the number of the first assignment in it, and its branches. -/
structure Fork where
  first : Nat
  yes : Block
  no : Block
  deriving DecidableEq, Repr

namespace Fork

/-- The assignments of the first branch. -/
def yesSites (f : Fork) : List Site :=
  f.yes.sites f.first

/-- The assignments of the second branch. -/
def noSites (f : Fork) : List Site :=
  f.no.sites (f.first + f.yes.assignments)

/-- The assignments stand in different branches. -/
def Parts (f : Fork) (w s : Site) : Prop :=
  w ∈ f.yesSites ∧ s ∈ f.noSites ∨ w ∈ f.noSites ∧ s ∈ f.yesSites

end Fork

/-- All `if` statements at any depth, with assignments numbered from `n` on. -/
def Block.forks : Block → Nat → List Fork
  | .empty, _ => []
  | .assign _ rest, n => rest.forks (n + 1)
  | .branch _ _ yes no rest, n =>
    ⟨n, yes, no⟩ :: (yes.forks n ++ no.forks (n + yes.assignments) ++
      rest.forks (n + yes.assignments + no.assignments))
  | .loop _ _ body rest, n => body.forks n ++ rest.forks (n + body.assignments)
  | .missing rest, n => rest.forks n

namespace Block

theorem mem_sites_of_fork {b : Block} {n : Nat} {f : Fork} (hf : f ∈ b.forks n) {s : Site}
    (hs : s ∈ f.yesSites ∨ s ∈ f.noSites) : s ∈ b.sites n := by
  induction b generalizing n with
  | empty => exact absurd hf List.not_mem_nil
  | assign write rest ih => exact List.mem_cons_of_mem _ (ih hf)
  | branch line cond yes no rest ihyes ihno ih =>
      simp only [forks, List.mem_cons, List.mem_append] at hf
      rcases hf with rfl | (hf | hf) | hf
      · rcases hs with hs | hs
        · simp [sites, show s ∈ yes.sites n from hs]
        · simp [sites, show s ∈ no.sites (n + yes.assignments) from hs]
      · simp [sites, ihyes hf]
      · simp [sites, ihno hf]
      · simp [sites, ih hf]
  | loop line cond body rest ihbody ih =>
      simp only [forks, List.mem_append] at hf
      rcases hf with hf | hf
      · simp [sites, ihbody hf]
      · simp [sites, ih hf]
  | missing rest ih => exact ih hf

end Block

namespace Site

/-- No path of the set has both assignments. -/
def Apart (w s : Site) (T : Language Access) : Prop :=
  ∀ t ∈ T, .write w ∈ t → .write s ∉ t

section

variable {w s : Site} {T U : Language Access}

theorem AbsentFrom.apart_left (h : w.AbsentFrom T) (s : Site) : w.Apart s T :=
  fun t ht hw => absurd hw (h t ht)

theorem AbsentFrom.apart_right (h : s.AbsentFrom T) (w : Site) : w.Apart s T :=
  fun t ht _ => h t ht

/-- Paths without either of the assignments may follow. -/
theorem Apart.mul_absent (h : w.Apart s T) (hw : w.AbsentFrom U) (hs : s.AbsentFrom U) :
    w.Apart s (T * U) := by
  intro x hx hwx hsx
  obtain ⟨t, ht, u, hu, rfl⟩ := Language.mem_mul.1 hx
  have hwt : .write w ∈ t := (List.mem_append.1 hwx).resolve_right (hw u hu)
  have hst : .write s ∈ t := (List.mem_append.1 hsx).resolve_right (hs u hu)
  exact h t ht hwt hst

/-- Paths without either of the assignments may come before. -/
theorem Apart.absent_mul (h : w.Apart s U) (hw : w.AbsentFrom T) (hs : s.AbsentFrom T) :
    w.Apart s (T * U) := by
  intro x hx hwx hsx
  obtain ⟨t, ht, u, hu, rfl⟩ := Language.mem_mul.1 hx
  have hwu : .write w ∈ u := (List.mem_append.1 hwx).resolve_left (hw t ht)
  have hsu : .write s ∈ u := (List.mem_append.1 hsx).resolve_left (hs t ht)
  exact h u hu hwu hsu

theorem Apart.add (hT : w.Apart s T) (hU : w.Apart s U) : w.Apart s (T + U) :=
  fun t ht => ht.elim (hT t) (hU t)

end

end Site

namespace Block

/-- No path of a single pass goes through both branches of an `if`. -/
theorem apart_of_fork {b : Block} {n : Nat} {f : Fork} (hf : f ∈ b.forks n) {w s : Site}
    (hw : w ∈ f.yesSites) (hs : s ∈ f.noSites) : w.Apart s (b.traces n) := by
  have hrange : ∀ {c : Block} {m : Nat}, f ∈ c.forks m →
      (m ≤ w.number ∧ w.number < m + c.assignments) ∧
        (m ≤ s.number ∧ s.number < m + c.assignments) := by
    intro c m hc
    exact ⟨number_mem_sites (mem_sites_of_fork hc (.inl hw)),
      number_mem_sites (mem_sites_of_fork hc (.inr hs))⟩
  induction b generalizing n with
  | empty => exact absurd hf List.not_mem_nil
  | assign write rest ih =>
      have hin : f ∈ rest.forks (n + 1) := hf
      obtain ⟨⟨hwlow, -⟩, ⟨hslow, -⟩⟩ := hrange hin
      exact (ih hin).absent_mul ((w.absentFrom_readsOf _).mul (Site.absentFrom_write hwlow))
        ((s.absentFrom_readsOf _).mul (Site.absentFrom_write hslow))
  | branch line cond yes no rest ihyes ihno ih =>
      have hcond := w.absentFrom_readsOf cond.reads
      have hcond' := s.absentFrom_readsOf cond.reads
      simp only [forks, List.mem_cons, List.mem_append] at hf
      rcases hf with rfl | (hf | hf) | hf
      · -- this is the `if` itself: each branch lacks the assignments of the other
        have hwnum := number_mem_sites (show w ∈ yes.sites n from hw)
        have hsnum := number_mem_sites (show s ∈ no.sites (n + yes.assignments) from hs)
        have hyes : s.AbsentFrom (yes.traces n) := Site.absentFrom_traces (by omega)
        have hno : w.AbsentFrom (no.traces (n + yes.assignments)) :=
          Site.absentFrom_traces (by omega)
        exact (((hyes.apart_right w).add (hno.apart_left s)).absent_mul hcond hcond').mul_absent
          (Site.absentFrom_traces (by omega)) (Site.absentFrom_traces (by omega))
      · obtain ⟨hwnum, hsnum⟩ := hrange hf
        have hno : w.AbsentFrom (no.traces (n + yes.assignments)) :=
          Site.absentFrom_traces (by omega)
        exact (((ihyes hf).add (hno.apart_left s)).absent_mul hcond hcond').mul_absent
          (Site.absentFrom_traces (by omega)) (Site.absentFrom_traces (by omega))
      · obtain ⟨hwnum, hsnum⟩ := hrange hf
        have hyes : w.AbsentFrom (yes.traces n) := Site.absentFrom_traces (by omega)
        exact (((hyes.apart_left s).add (ihno hf)).absent_mul hcond hcond').mul_absent
          (Site.absentFrom_traces (by omega)) (Site.absentFrom_traces (by omega))
      · obtain ⟨hwnum, hsnum⟩ := hrange hf
        have habsent : ∀ x : Site, n + yes.assignments + no.assignments ≤ x.number →
            x.AbsentFrom ({readsOf cond.reads} *
              (yes.traces n + no.traces (n + yes.assignments))) := by
          intro x hx
          have hyes : x.AbsentFrom (yes.traces n) := Site.absentFrom_traces (by omega)
          have hno : x.AbsentFrom (no.traces (n + yes.assignments)) :=
            Site.absentFrom_traces (by omega)
          exact (x.absentFrom_readsOf cond.reads).mul (hyes.add hno)
        exact (ih hf).absent_mul (habsent w hwnum.1) (habsent s hsnum.1)
  | loop line cond body rest ihbody ih =>
      have hreads : ∀ (x : Site) (names : List UInt8), x.AbsentFrom {readsOf names} :=
        Site.absentFrom_readsOf
      simp only [forks, List.mem_append] at hf
      rcases hf with hf | hf
      · obtain ⟨hwnum, hsnum⟩ := hrange hf
        exact ((((ihbody hf).absent_mul (hreads w _) (hreads s _)).mul_absent (hreads w _)
          (hreads s _)).mul_absent (hreads w _) (hreads s _)).mul_absent
          (Site.absentFrom_traces (by omega)) (Site.absentFrom_traces (by omega))
      · obtain ⟨hwnum, hsnum⟩ := hrange hf
        have habsent : ∀ x : Site, n + body.assignments ≤ x.number →
            x.AbsentFrom ({readsOf cond.reads} * body.traces n * {readsOf body.reads} *
              {readsOf cond.reads}) := by
          intro x hx
          have hbody : x.AbsentFrom (body.traces n) := Site.absentFrom_traces (by omega)
          exact (((hreads x _).mul hbody).mul (hreads x _)).mul (hreads x _)
        exact (ih hf).absent_mul (habsent w hwnum.1) (habsent s hsnum.1)
  | missing rest ih => exact fun t ht => absurd ht (Language.notMem_zero t)

end Block

/-! ## The first overwriter -/

namespace Block

/-- On some path of a single pass, the second assignment is what happens next to the variable of the
first. -/
def Overwrites (b : Block) (w s : Site) : Prop :=
  ∃ t ∈ b.traces 0, w.Fate t (some (.write s))

namespace Overwrites

variable {b : Block} {w s : Site}

theorem writes (h : b.Overwrites w s) :
    ∃ t ∈ b.traces 0, ∃ before between after,
      t = before ++ .write w :: (between ++ .write s :: after) ∧
        s.write.target = w.write.target := by
  obtain ⟨t, ht, before, rest, rfl, hnext⟩ := h
  obtain ⟨htouch, between, after, rfl, -⟩ := List.find?_eq_some_iff_append.1 hnext
  exact ⟨_, ht, before, between, after, rfl, by simpa [Access.touches] using htouch⟩

theorem target_eq (h : b.Overwrites w s) : s.write.target = w.write.target := by
  obtain ⟨t, -, before, between, after, -, htarget⟩ := h.writes
  exact htarget

theorem mem_sites (h : b.Overwrites w s) : s ∈ b.sites 0 := by
  obtain ⟨t, ht, before, between, after, rfl, -⟩ := h.writes
  exact write_mem_traces ht (by simp)

/-- An overwriter comes later in the text. -/
theorem number_lt (h : b.Overwrites w s) : w.number < s.number := by
  obtain ⟨t, ht, before, between, after, rfl, -⟩ := h.writes
  have hpath := (pairwise_number_sites b 0).sublist (writesOf_sublist ht)
  simp only [writesOf_append, writesOf_write] at hpath
  exact (List.pairwise_cons.1 (List.pairwise_append.1 hpath).2.1).1 s (by simp)

/-- An overwriter does not read its variable. -/
theorem not_mem_reads (h : b.Overwrites w s) : s.write.target ∉ s.write.value.reads := by
  rw [h.target_eq]
  obtain ⟨t, ht, hfate⟩ := h
  exact (ReadsFirst.of_traces ht).fate w s hfate

/-- An overwriter does not stand in the other branch of an `if`. -/
theorem not_parts (h : b.Overwrites w s) {f : Fork} (hf : f ∈ b.forks 0) : ¬ f.Parts w s := by
  obtain ⟨t, ht, before, between, after, rfl, -⟩ := h.writes
  rintro (⟨hw, hs⟩ | ⟨hw, hs⟩)
  · exact apart_of_fork hf hw hs _ ht (by simp) (by simp)
  · exact apart_of_fork hf hs hw _ ht (by simp) (by simp)

end Overwrites

/-- The overwriter of a finding is one, and no other comes before it. -/
theorem overwriter_least {b : Block} (hb : b.complete = true) {order : ReportOrder}
    {found : List Finding} (hcheck : b.check order = .ok found) {f : Finding} (hf : f ∈ found) :
    (∀ s, f.overwriter = some s → b.Overwrites f.dead s) ∧
      ∀ o, b.Overwrites f.dead o → ∃ s, f.overwriter = some s ∧ s.number ≤ o.number := by
  obtain ⟨found', hcheck', hpaths, hwritten, -⟩ := check_paths hb order
  rw [hcheck] at hcheck'
  cases hcheck'
  constructor
  · intro s hs
    obtain ⟨t, ht, hfate⟩ := hpaths f hf
    rw [hs] at hfate
    exact ⟨t, ht, hfate⟩
  · rintro o ⟨t, ht, hfate⟩
    obtain ⟨f', hf', hdead, hfirst⟩ := hwritten t ht f.dead o hfate
    -- no assignment is found twice, so this is the finding in question
    have hsame : f' = f :=
      List.inj_on_of_nodup_map (check_reportedOnce hcheck) hf' hf (congrArg Site.number hdead)
    rwa [hsame] at hfirst

/-- **A finding names the first overwriter.**  It is the first assignment in the text that
overwrites the dead one on some path of a single pass, and a finding names none only if there is
none.  An overwriter writes the same variable, comes later in the text, does not read the variable
in its value, and does not stand in the other branch of an `if` around the dead assignment. -/
theorem overwriter_is_first {b : Block} (hb : b.complete = true) (order : ReportOrder) :
    ∃ found, b.check order = .ok found ∧ ∀ f ∈ found,
      (∀ s, f.overwriter = some s ↔
        b.Overwrites f.dead s ∧ ∀ o, b.Overwrites f.dead o → s.number ≤ o.number) ∧
      (f.overwriter = none ↔ ∀ s, ¬ b.Overwrites f.dead s) ∧
      ∀ s, f.overwriter = some s →
        s.write.target = f.dead.write.target ∧ f.dead.number < s.number ∧
          s.write.target ∉ s.write.value.reads ∧ ∀ fork ∈ b.forks 0, ¬ fork.Parts f.dead s := by
  obtain ⟨found, hcheck, -⟩ := exists_check hb order
  refine ⟨found, hcheck, fun f hf => ?_⟩
  obtain ⟨hone, hleast⟩ := overwriter_least hb hcheck hf
  refine ⟨fun s => ⟨?_, ?_⟩, ⟨?_, ?_⟩, ?_⟩
  · intro hs
    refine ⟨hone s hs, fun o ho => ?_⟩
    obtain ⟨first, hfirst, hle⟩ := hleast o ho
    rw [hs] at hfirst
    cases hfirst
    exact hle
  · rintro ⟨hs, hmin⟩
    obtain ⟨first, hfirst, hle⟩ := hleast s hs
    have hover := hone first hfirst
    have hnumber : first.number = s.number := Nat.le_antisymm hle (hmin first hover)
    rw [hfirst, eq_of_number_eq hover.mem_sites hs.mem_sites hnumber]
  · intro hnone s hs
    obtain ⟨first, hfirst, -⟩ := hleast s hs
    rw [hnone] at hfirst
    cases hfirst
  · intro hno
    cases hover : f.overwriter with
    | none => rfl
    | some s => exact absurd (hone s hover) (hno s)
  · intro s hs
    have hover := hone s hs
    exact ⟨hover.target_eq, hover.number_lt, hover.not_mem_reads, fun fork => hover.not_parts⟩

end Block

/-! ## A program

    x = a
    if c
      x = b
    end
    x = d

The last assignment overwrites both others, each on a path of its own, but the first of them is
overwritten in the branch before. -/

namespace TwoPaths

/-- The assignment `x = a`. -/
def early : Site :=
  ⟨0, ⟨1, 1⟩, 0x78, .variable 0x61⟩

/-- The assignment `x = b`. -/
def inner : Site :=
  ⟨1, ⟨3, 3⟩, 0x78, .variable 0x62⟩

/-- The assignment `x = d`. -/
def late : Site :=
  ⟨2, ⟨5, 1⟩, 0x78, .variable 0x64⟩

/-- The whole program. -/
def program : Block :=
  .assign early.write (.branch 2 (.variable 0x63) (.assign inner.write .empty) .empty
    (.assign late.write .empty))

theorem check_program :
    program.check .discovery =
      .ok [⟨early, some inner⟩, ⟨inner, some late⟩, ⟨late, none⟩] :=
  eq_ok_of_toOption (by decide +kernel)

end TwoPaths

theorem Block.overwriter_is_first_twoPaths :
    TwoPaths.program.complete = true ∧
      TwoPaths.program.Overwrites TwoPaths.early TwoPaths.inner ∧
      (∀ o, TwoPaths.program.Overwrites TwoPaths.early o → 1 ≤ o.number) ∧
      ∀ s, ¬ TwoPaths.program.Overwrites TwoPaths.late s := by
  obtain ⟨found, hcheck, hfirst⟩ :=
    overwriter_is_first (show TwoPaths.program.complete = true from rfl) .discovery
  rw [TwoPaths.check_program] at hcheck
  cases hcheck
  obtain ⟨hover, hleast⟩ := ((hfirst ⟨TwoPaths.early, some TwoPaths.inner⟩ (by simp)).1 _).1 rfl
  have hnone := (hfirst ⟨TwoPaths.late, none⟩ (by simp)).2.1.1 rfl
  exact ⟨rfl, hover, hleast, hnone⟩

end StoreLint
