import StoreLint.Program.Parser
import StoreLint.Proofs.Executions

/-!
# Dead assignments in and around loops

A dead assignment is one whose value no execution reads.  Does the check report all of them?

Behind a loop the check takes everything that the loop reads as read.  For an assignment before the
loop this loses nothing: if the loop reads the variable at all, then some execution of the loop
reaches the read, and it finds the value there unless it finds the assignment overwritten.  For an
assignment in the body it may lose something, since the next round may overwrite the value first.

* `SameUse`, `SameFate`: some path of a single pass and some execution agree on what happens next.
  Both are carried through products and sums of path sets.
* `Loop.Carries`: the loop takes the value as read although nothing in the rest of the body touches
  it.
* `sameFate_or_carried`: each assignment has the same fate on a path and in an execution, or a loop
  around it carries it.
* `dead_store_reported`: what is dead and outside of loops that read the variable is reported.
* `dead_store_reported_iff`: what is dead is reported if and only if no loop carries it.
* `loop_store_missed`: a dead assignment that is not reported.
-/

namespace StoreLint

open Computability

/-! ## Agreeing on the next use -/

/-- Some path of the first set and some path of the second have the same next use of the variable.
It is nothing only if no path of the first set touches the variable. -/
def SameUse (v : UInt8) (T R : Language Access) : Prop :=
  ∃ t ∈ T, ∃ r ∈ R, nextUse v t = nextUse v r ∧
    (nextUse v t = none → ∀ u ∈ T, nextUse v u = none)

namespace SameUse

variable {v : UInt8} {T U R S : Language Access}

theorem single (v : UInt8) (t : List Access) : SameUse v {t} {t} := by
  refine ⟨t, rfl, t, rfl, rfl, ?_⟩
  rintro hnone u rfl
  exact hnone

theorem mono (h : SameUse v T R) (hRS : R ≤ S) : SameUse v T S := by
  obtain ⟨t, ht, r, hr, hsame, hquiet⟩ := h
  exact ⟨t, ht, r, hRS hr, hsame, hquiet⟩

theorem mul (h : SameUse v T R) (h' : SameUse v U S) : SameUse v (T * U) (R * S) := by
  obtain ⟨t, ht, r, hr, hsame, hquiet⟩ := h
  obtain ⟨u, hu, s, hs, hsame', hquiet'⟩ := h'
  refine ⟨t ++ u, Language.append_mem_mul ht hu, r ++ s, Language.append_mem_mul hr hs, ?_, ?_⟩
  · rw [nextUse_append, nextUse_append, hsame, hsame']
  · intro hnone
    rw [nextUse_append, Option.or_eq_none_iff] at hnone
    intro x hx
    obtain ⟨a, ha, c, hc, rfl⟩ := Language.mem_mul.1 hx
    rw [nextUse_append, hquiet hnone.1 a ha, hquiet' hnone.2 c hc]
    rfl

/-- Of two branches, take the one that touches the variable. -/
theorem add (h : SameUse v T R) (h' : SameUse v U S) : SameUse v (T + U) (R + S) := by
  obtain ⟨t, ht, r, hr, hsame, hquiet⟩ := h
  obtain ⟨u, hu, s, hs, hsame', hquiet'⟩ := h'
  by_cases hnone : nextUse v t = none
  · refine ⟨u, Or.inr hu, s, Or.inr hs, hsame', ?_⟩
    rintro hnone' x (hx | hx)
    · exact hquiet hnone x hx
    · exact hquiet' hnone' x hx
  · exact ⟨t, Or.inl ht, r, Or.inl hr, hsame, fun h => absurd h hnone⟩

/-- Reads at the end of a path may be left out, if the variable is touched before them. -/
theorem append_reads (h : SameUse v T R) {names : List UInt8}
    (hnames : v ∈ names → ∃ t ∈ T, nextUse v t ≠ none) :
    SameUse v (T * {readsOf names}) R := by
  obtain ⟨t, ht, r, hr, hsame, hquiet⟩ := h
  have hnext : ∀ u, nextUse v t = none → nextUse v (u ++ readsOf names) = nextUse v u := by
    intro u hnone
    have hv : v ∉ names := by
      intro hv
      obtain ⟨x, hx, hxv⟩ := hnames hv
      exact hxv (hquiet hnone x hx)
    rw [nextUse_append, nextUse_readsOf, if_neg hv, Option.or_none]
  refine ⟨t ++ readsOf names, Block.mem_mul_single.2 ⟨t, ht, rfl⟩, r, hr, ?_, ?_⟩
  · by_cases hnone : nextUse v t = none
    · rw [hnext t hnone, hsame]
    · obtain ⟨e, he⟩ := Option.ne_none_iff_exists'.1 hnone
      rw [nextUse_append, ← hsame, he]
      rfl
  · intro hnone
    rw [nextUse_append, Option.or_eq_none_iff] at hnone
    intro x hx
    obtain ⟨u, hu, rfl⟩ := Block.mem_mul_single.1 hx
    rw [hnext u hnone.1]
    exact hquiet hnone.1 u hu

end SameUse

/-! ## Agreeing on a fate -/

namespace Site

/-- On each path of the set, the value waits at the end. -/
def WaitsOn (w : Site) (T : Language Access) : Prop :=
  ∀ t ∈ T, ∀ next, w.Fate t next → next = none

/-- The assignment is on no path of the set. -/
def AbsentFrom (w : Site) (T : Language Access) : Prop :=
  ∀ t ∈ T, .write w ∉ t

theorem AbsentFrom.not_fate {w : Site} {T : Language Access} (h : w.AbsentFrom T) {t : List Access}
    (ht : t ∈ T) (next : Option Access) : ¬ w.Fate t next :=
  fun hfate => h t ht hfate.mem

theorem absentFrom_readsOf (w : Site) (names : List UInt8) : w.AbsentFrom {readsOf names} := by
  rintro t rfl hmem
  obtain ⟨name, -, heq⟩ := List.mem_map.1 hmem
  cases heq

theorem absentFrom_write {w s : Site} (h : s.number < w.number) : w.AbsentFrom {[.write s]} := by
  rintro t rfl hmem
  have heq : w = s := Access.write.inj (List.mem_singleton.1 hmem)
  rw [heq] at h
  exact Nat.lt_irrefl s.number h

theorem AbsentFrom.mul {w : Site} {T U : Language Access} (hT : w.AbsentFrom T)
    (hU : w.AbsentFrom U) : w.AbsentFrom (T * U) := by
  intro t ht hmem
  obtain ⟨a, ha, u, hu, rfl⟩ := Language.mem_mul.1 ht
  exact (List.mem_append.1 hmem).elim (hT a ha) (hU u hu)

theorem AbsentFrom.add {w : Site} {T U : Language Access} (hT : w.AbsentFrom T)
    (hU : w.AbsentFrom U) : w.AbsentFrom (T + U) :=
  fun t ht => ht.elim (hT t) (hU t)

/-- An assignment is on no path of a program that starts with a later number or ends with an earlier
one. -/
theorem absentFrom_traces {w : Site} {b : Block} {n : Nat}
    (h : w.number < n ∨ n + b.assignments ≤ w.number) : w.AbsentFrom (b.traces n) := by
  intro t ht hmem
  have := Block.number_mem_sites (Block.write_mem_traces ht hmem)
  omega

theorem WaitsOn.of_mul {w : Site} {T U : Language Access} (h : w.WaitsOn (T * U))
    (hT : ∃ t, t ∈ T) : w.WaitsOn U := by
  obtain ⟨t, ht⟩ := hT
  intro u hu next hfate
  exact h (t ++ u) (Language.append_mem_mul ht hu) next (hfate.append_right t)

end Site

/-- Some path of the first set and some path of the second give the assignment the same fate.  It is
nothing only if on each path of the first set the value waits at the end. -/
def SameFate (w : Site) (T R : Language Access) : Prop :=
  ∃ t ∈ T, ∃ r ∈ R, ∃ next, w.Fate t next ∧ w.Fate r next ∧ (next = none → w.WaitsOn T)

namespace SameFate

variable {w : Site} {T U R S : Language Access}

theorem single (w : Site) : SameFate w {[.write w]} {[.write w]} := by
  refine ⟨[.write w], rfl, [.write w], rfl, none, ?_, ?_, ?_⟩
  · exact Site.fate_write.2 ⟨rfl, rfl⟩
  · exact Site.fate_write.2 ⟨rfl, rfl⟩
  · rintro - t rfl next hfate
    exact (Site.fate_write.1 hfate).2

theorem mono (h : SameFate w T R) (hRS : R ≤ S) : SameFate w T S := by
  obtain ⟨t, ht, r, hr, hsame⟩ := h
  exact ⟨t, ht, r, hRS hr, hsame⟩

/-- The assignment is in the first part, and the second part goes on. -/
theorem mul_left (h : SameFate w T R) (h' : SameUse w.write.target U S) (hU : w.AbsentFrom U) :
    SameFate w (T * U) (R * S) := by
  obtain ⟨t, ht, r, hr, next, htfate, hrfate, hwait⟩ := h
  obtain ⟨u, hu, s, hs, hsame, hquiet⟩ := h'
  refine ⟨t ++ u, Language.append_mem_mul ht hu, r ++ s, Language.append_mem_mul hr hs,
    next.or (nextUse w.write.target u), htfate.append_left u, ?_, ?_⟩
  · rw [hsame]
    exact hrfate.append_left s
  · intro hnone x hx other hfate
    rw [Option.or_eq_none_iff] at hnone
    obtain ⟨a, ha, c, hc, rfl⟩ := Language.mem_mul.1 hx
    rcases Site.fate_append.1 hfate with ⟨near, hnear, rfl⟩ | hfate
    · rw [hwait hnone.1 a ha near hnear, hquiet hnone.2 c hc]
      rfl
    · exact absurd hfate (hU.not_fate hc other)

/-- The assignment is in the second part. -/
theorem mul_right (h : SameFate w U S) {v : UInt8} (h' : SameUse v T R) (hT : w.AbsentFrom T) :
    SameFate w (T * U) (R * S) := by
  obtain ⟨u, hu, s, hs, next, hufate, hsfate, hwait⟩ := h
  obtain ⟨t, ht, r, hr, -⟩ := h'
  refine ⟨t ++ u, Language.append_mem_mul ht hu, r ++ s, Language.append_mem_mul hr hs, next,
    hufate.append_right t, hsfate.append_right r, ?_⟩
  intro hnone x hx other hfate
  obtain ⟨a, ha, c, hc, rfl⟩ := Language.mem_mul.1 hx
  rcases Site.fate_append.1 hfate with ⟨near, hnear, -⟩ | hfate
  · exact absurd hnear (hT.not_fate ha near)
  · exact hwait hnone c hc other hfate

theorem add_left (h : SameFate w T R) (hU : w.AbsentFrom U) : SameFate w (T + U) (R + S) := by
  obtain ⟨t, ht, r, hr, next, htfate, hrfate, hwait⟩ := h
  refine ⟨t, Or.inl ht, r, Or.inl hr, next, htfate, hrfate, ?_⟩
  rintro hnone x (hx | hx) other hfate
  · exact hwait hnone x hx other hfate
  · exact absurd hfate (hU.not_fate hx other)

theorem add_right (h : SameFate w U S) (hT : w.AbsentFrom T) : SameFate w (T + U) (R + S) := by
  rw [add_comm T, add_comm R]
  exact h.add_left hT

/-- Reads at the end of a path may be left out, if the variable is touched before them. -/
theorem append_reads (h : SameFate w T R) {names : List UInt8}
    (hnames : w.WaitsOn T → w.write.target ∉ names) : SameFate w (T * {readsOf names}) R := by
  obtain ⟨t, ht, r, hr, next, htfate, hrfate, hwait⟩ := h
  have hsame : next.or (nextUse w.write.target (readsOf names)) = next := by
    cases next with
    | none => rw [nextUse_readsOf, if_neg (hnames (hwait rfl))]; rfl
    | some e => rfl
  refine ⟨t ++ readsOf names, Block.mem_mul_single.2 ⟨t, ht, rfl⟩, r, hr, next, ?_, hrfate, ?_⟩
  · have hfate := htfate.append_left (readsOf names)
    rwa [hsame] at hfate
  · intro hnone x hx other hfate
    obtain ⟨a, ha, rfl⟩ := Block.mem_mul_single.1 hx
    rcases Site.fate_append.1 hfate with ⟨near, hnear, rfl⟩ | hfate
    · rw [hwait hnone a ha near hnear, nextUse_readsOf, if_neg (hnames (hwait hnone))]
      rfl
    · exact absurd hfate (Site.not_fate_readsOf w names other)

end SameFate

/-! ## The constructs of a program -/

namespace Block

/-- A variable that is read anywhere is touched on some path. -/
theorem exists_touching_trace {b : Block} (hb : b.complete = true) {v : UInt8} (hv : v ∈ b.reads)
    (n : Nat) : ∃ t ∈ b.traces n, nextUse v t ≠ none := by
  induction b generalizing n with
  | empty => exact absurd hv List.not_mem_nil
  | assign write rest ih =>
      have hrest : rest.complete = true := hb
      rcases List.mem_append.1 hv with hv | hv
      · obtain ⟨u, hu⟩ := exists_mem_traces hrest (n + 1)
        exact ⟨_, mem_traces_assign.2 ⟨u, hu, rfl⟩, by simp [nextUse_append, hv]⟩
      · obtain ⟨u, hu, htouch⟩ := ih hrest hv (n + 1)
        refine ⟨_, mem_traces_assign.2 ⟨u, hu, rfl⟩, ?_⟩
        rw [nextUse_append, Ne, Option.or_eq_none_iff]
        exact fun hnone => htouch hnone.2
  | branch line cond yes no rest ihyes ihno ih =>
      simp only [complete, Bool.and_eq_true] at hb
      simp only [reads, List.mem_append] at hv
      obtain ⟨a, ha⟩ := exists_mem_traces hb.1.1 n
      obtain ⟨u, hu⟩ := exists_mem_traces hb.2 (n + yes.assignments + no.assignments)
      rcases hv with ((hv | hv) | hv) | hv
      · exact ⟨_, mem_traces_branch.2 ⟨a, Or.inl ha, u, hu, rfl⟩, by simp [nextUse_append, hv]⟩
      · obtain ⟨c, hc, htouch⟩ := ihyes hb.1.1 hv n
        exact ⟨_, mem_traces_branch.2 ⟨c, Or.inl hc, u, hu, rfl⟩,
          by simp [nextUse_append, htouch]⟩
      · obtain ⟨c, hc, htouch⟩ := ihno hb.1.2 hv (n + yes.assignments)
        exact ⟨_, mem_traces_branch.2 ⟨c, Or.inr hc, u, hu, rfl⟩,
          by simp [nextUse_append, htouch]⟩
      · obtain ⟨r, hr, htouch⟩ := ih hb.2 hv (n + yes.assignments + no.assignments)
        exact ⟨_, mem_traces_branch.2 ⟨a, Or.inl ha, r, hr, rfl⟩,
          by simp [nextUse_append, htouch]⟩
  | loop line cond body rest ihbody ih =>
      simp only [complete, Bool.and_eq_true] at hb
      simp only [reads, List.mem_append] at hv
      obtain ⟨a, ha⟩ := exists_mem_traces hb.1 n
      obtain ⟨u, hu⟩ := exists_mem_traces hb.2 (n + body.assignments)
      rcases hv with (hv | hv) | hv
      · exact ⟨_, mem_traces_loop.2 ⟨a, ha, u, hu, rfl⟩, by simp [nextUse_append, hv]⟩
      · exact ⟨_, mem_traces_loop.2 ⟨a, ha, u, hu, rfl⟩, by simp [nextUse_append, hv]⟩
      · obtain ⟨r, hr, htouch⟩ := ih hb.2 hv (n + body.assignments)
        exact ⟨_, mem_traces_loop.2 ⟨a, ha, r, hr, rfl⟩, by simp [nextUse_append, htouch]⟩
  | missing rest ih => exact absurd hb (by simp [complete])

/-- What a body has, a loop around it has. -/
theorem sameUse_rounds {cond : Expr} {body : Block} (hbody : body.complete = true) {v : UInt8}
    {n : Nat} (h : SameUse v (body.traces n) (body.runs n)) :
    SameUse v
      ({readsOf cond.reads} * body.traces n * {readsOf body.reads} * {readsOf cond.reads})
      (({readsOf cond.reads} * body.runs n)∗ * {readsOf cond.reads}) := by
  have hround := (SameUse.single v (readsOf cond.reads)).mul h
  have hreplay : SameUse v ({readsOf cond.reads} * body.traces n * {readsOf body.reads})
      ({readsOf cond.reads} * body.runs n) := by
    refine hround.append_reads ?_
    intro hv
    obtain ⟨t, ht, htouch⟩ := exists_touching_trace hbody hv n
    exact ⟨_, Language.append_mem_mul (mem_single.2 rfl) ht, by simp [nextUse_append, htouch]⟩
  exact (hreplay.mono le_kstar).mul (SameUse.single v (readsOf cond.reads))

/-- A program has a path and an execution that agree on the next use of a variable. -/
theorem sameUse {b : Block} (hb : b.complete = true) (v : UInt8) (n : Nat) :
    SameUse v (b.traces n) (b.runs n) := by
  induction b generalizing n with
  | empty => exact SameUse.single v []
  | assign write rest ih =>
      exact ((SameUse.single v _).mul (SameUse.single v _)).mul (ih hb (n + 1))
  | branch line cond yes no rest ihyes ihno ih =>
      simp only [complete, Bool.and_eq_true] at hb
      exact ((SameUse.single v _).mul ((ihyes hb.1.1 n).add (ihno hb.1.2 _))).mul (ih hb.2 _)
  | loop line cond body rest ihbody ih =>
      simp only [complete, Bool.and_eq_true] at hb
      exact (sameUse_rounds hb.1 (ihbody hb.1 n)).mul (ih hb.2 _)
  | missing rest ih => exact absurd hb (by simp [complete])

end Block

/-! ## Loops that carry a value -/

/-- The loop carries the value: the assignment is in its body, the body reads the variable, and on
each pass through the body the value waits at the end.  So the check takes the value as read by the
next round. -/
structure Loop.Carries (l : Loop) (w : Site) : Prop where
  mem : w ∈ l.body.sites l.first
  read : w.write.target ∈ l.body.reads
  waits : w.WaitsOn (l.body.traces l.first)

namespace Block

/-- An assignment has the same fate on some path and in some execution, or a loop around it carries
its value. -/
theorem sameFate_or_carried {b : Block} (hb : b.complete = true) {n : Nat} {w : Site}
    (hw : w ∈ b.sites n) :
    SameFate w (b.traces n) (b.runs n) ∨ ∃ l ∈ b.loops n, l.Carries w := by
  induction b generalizing n with
  | empty => exact absurd hw List.not_mem_nil
  | assign write rest ih =>
      have hrest : rest.complete = true := hb
      have hvalue := SameUse.single w.write.target (readsOf write.value.reads)
      have hvalueabs := w.absentFrom_readsOf write.value.reads
      rcases List.mem_cons.1 hw with rfl | hw
      · have hrestabs : Site.AbsentFrom ⟨n, write⟩ (rest.traces (n + 1)) :=
          Site.absentFrom_traces (Or.inl (Nat.lt_succ_self n))
        exact Or.inl (((SameFate.single _).mul_right hvalue hvalueabs).mul_left
          (sameUse hrest _ _) hrestabs)
      · have hlt : n < w.number := (number_mem_sites hw).1
        have hwriteabs : w.AbsentFrom {[.write ⟨n, write⟩]} := Site.absentFrom_write hlt
        rcases ih hrest hw with h | hcarried
        · exact Or.inl (h.mul_right (hvalue.mul (SameUse.single _ _)) (hvalueabs.mul hwriteabs))
        · exact Or.inr hcarried
  | branch line cond yes no rest ihyes ihno ih =>
      simp only [complete, Bool.and_eq_true] at hb
      obtain ⟨⟨hyes, hno⟩, hrest⟩ := hb
      have hcond := SameUse.single w.write.target (readsOf cond.reads)
      have hcondabs := w.absentFrom_readsOf cond.reads
      have hrestuse := sameUse hrest w.write.target (n + yes.assignments + no.assignments)
      simp only [sites, List.mem_append] at hw
      rcases hw with (hw | hw) | hw
      · have hnum := number_mem_sites hw
        have hnoabs : w.AbsentFrom (no.traces (n + yes.assignments)) :=
          Site.absentFrom_traces (by omega)
        have hrestabs : w.AbsentFrom (rest.traces (n + yes.assignments + no.assignments)) :=
          Site.absentFrom_traces (by omega)
        rcases ihyes hyes hw with h | ⟨l, hl, hcarry⟩
        · exact Or.inl (((h.add_left hnoabs).mul_right hcond hcondabs).mul_left hrestuse hrestabs)
        · exact Or.inr ⟨l, by simp [loops, hl], hcarry⟩
      · have hnum := number_mem_sites hw
        have hyesabs : w.AbsentFrom (yes.traces n) := Site.absentFrom_traces (by omega)
        have hrestabs : w.AbsentFrom (rest.traces (n + yes.assignments + no.assignments)) :=
          Site.absentFrom_traces (by omega)
        rcases ihno hno hw with h | ⟨l, hl, hcarry⟩
        · exact Or.inl (((h.add_right hyesabs).mul_right hcond hcondabs).mul_left hrestuse hrestabs)
        · exact Or.inr ⟨l, by simp [loops, hl], hcarry⟩
      · have hnum := number_mem_sites hw
        have hyesabs : w.AbsentFrom (yes.traces n) := Site.absentFrom_traces (by omega)
        have hnoabs : w.AbsentFrom (no.traces (n + yes.assignments)) :=
          Site.absentFrom_traces (by omega)
        rcases ih hrest hw with h | ⟨l, hl, hcarry⟩
        · exact Or.inl (h.mul_right
            (hcond.mul ((sameUse hyes w.write.target n).add (sameUse hno w.write.target _)))
            (hcondabs.mul (hyesabs.add hnoabs)))
        · exact Or.inr ⟨l, by simp [loops, hl], hcarry⟩
  | loop line cond body rest ihbody ih =>
      simp only [complete, Bool.and_eq_true] at hb
      obtain ⟨hbody, hrest⟩ := hb
      have hcond := SameUse.single w.write.target (readsOf cond.reads)
      have hcondabs := w.absentFrom_readsOf cond.reads
      simp only [sites, List.mem_append] at hw
      rcases hw with hw | hw
      · have hnum := number_mem_sites hw
        have hrestabs : w.AbsentFrom (rest.traces (n + body.assignments)) :=
          Site.absentFrom_traces (by omega)
        rcases ihbody hbody hw with h | ⟨l, hl, hcarry⟩
        · by_cases hcarry : w.write.target ∈ body.reads ∧ w.WaitsOn (body.traces n)
          · exact Or.inr ⟨⟨n, cond, body⟩, List.mem_cons_self .., hw, hcarry.1, hcarry.2⟩
          · have hround := h.mul_right hcond hcondabs
            have hreplay : SameFate w
                ({readsOf cond.reads} * body.traces n * {readsOf body.reads})
                ({readsOf cond.reads} * body.runs n) :=
              hround.append_reads fun hwait hread =>
                hcarry ⟨hread, hwait.of_mul ⟨_, mem_single.2 rfl⟩⟩
            exact Or.inl (((hreplay.mono le_kstar).mul_left hcond hcondabs).mul_left
              (sameUse hrest _ _) hrestabs)
        · exact Or.inr ⟨l, by simp [loops, hl], hcarry⟩
      · have hnum := number_mem_sites hw
        have hbodyabs : w.AbsentFrom (body.traces n) := Site.absentFrom_traces (by omega)
        rcases ih hrest hw with h | ⟨l, hl, hcarry⟩
        · exact Or.inl (h.mul_right (sameUse_rounds hbody (sameUse hbody w.write.target n))
            (((hcondabs.mul hbodyabs).mul (w.absentFrom_readsOf body.reads)).mul hcondabs))
        · exact Or.inr ⟨l, by simp [loops, hl], hcarry⟩
  | missing rest ih => exact absurd hb (by simp [complete])

/-- The assignments of a loop in a program are assignments of the program. -/
theorem mem_sites_of_loop {b : Block} {n : Nat} {l : Loop} (hl : l ∈ b.loops n) {w : Site}
    (hw : w ∈ l.body.sites l.first) : w ∈ b.sites n := by
  induction b generalizing n with
  | empty => exact absurd hl List.not_mem_nil
  | assign write rest ih => exact List.mem_cons_of_mem _ (ih hl)
  | branch line cond yes no rest ihyes ihno ih =>
      simp only [loops, List.mem_append] at hl
      rcases hl with (hl | hl) | hl
      · simp [sites, ihyes hl]
      · simp [sites, ihno hl]
      · simp [sites, ih hl]
  | loop line cond body rest ihbody ih =>
      simp only [loops, List.mem_cons, List.mem_append] at hl
      rcases hl with rfl | hl | hl
      · simp [sites, hw]
      · simp [sites, ihbody hl]
      · simp [sites, ih hl]
  | missing rest ih => exact ih hl

end Block

namespace Site

/-- On each path of the set, the value is read next, wherever the assignment occurs. -/
def ReadOn (w : Site) (T : Language Access) : Prop :=
  ∀ t ∈ T, ∀ next, w.Fate t next → next = some (.read w.write.target)

theorem AbsentFrom.readOn {w : Site} {T : Language Access} (h : w.AbsentFrom T) : w.ReadOn T :=
  fun _ ht next hfate => absurd hfate (h.not_fate ht next)

theorem ReadOn.mul {w : Site} {T U : Language Access} (hT : w.ReadOn T) (hU : w.ReadOn U) :
    w.ReadOn (T * U) := by
  intro t ht next hfate
  obtain ⟨a, ha, u, hu, rfl⟩ := Language.mem_mul.1 ht
  rcases fate_append.1 hfate with ⟨near, hnear, rfl⟩ | hfate
  · rw [hT a ha near hnear]
    rfl
  · exact hU u hu next hfate

theorem ReadOn.add {w : Site} {T U : Language Access} (hT : w.ReadOn T) (hU : w.ReadOn U) :
    w.ReadOn (T + U) :=
  fun t ht => ht.elim (hT t) (hU t)

/-- A value that waits is read by the reads that follow. -/
theorem WaitsOn.readOn {w : Site} {T : Language Access} (h : w.WaitsOn T) {names : List UInt8}
    (hread : w.write.target ∈ names) : w.ReadOn (T * {readsOf names}) := by
  intro t ht next hfate
  obtain ⟨a, ha, rfl⟩ := Block.mem_mul_single.1 ht
  rcases fate_append.1 hfate with ⟨near, hnear, rfl⟩ | hfate
  · rw [h a ha near hnear, nextUse_readsOf, if_pos hread]
    rfl
  · exact absurd hfate (not_fate_readsOf w names next)

end Site

namespace Block

/-- A value that a loop carries is read on each path. -/
theorem readOn_of_carried {b : Block} {n : Nat} {l : Loop} (hl : l ∈ b.loops n) {w : Site}
    (h : l.Carries w) : w.ReadOn (b.traces n) := by
  induction b generalizing n with
  | empty => exact absurd hl List.not_mem_nil
  | assign write rest ih =>
      have hl : l ∈ rest.loops (n + 1) := hl
      have hlt : n < w.number := (number_mem_sites (mem_sites_of_loop hl h.mem)).1
      have hwrite : w.ReadOn {[.write ⟨n, write⟩]} := (Site.absentFrom_write hlt).readOn
      exact ((w.absentFrom_readsOf write.value.reads).readOn.mul hwrite).mul (ih hl)
  | branch line cond yes no rest ihyes ihno ih =>
      have hcond := (w.absentFrom_readsOf cond.reads).readOn
      simp only [loops, List.mem_append] at hl
      rcases hl with (hl | hl) | hl
      · have hnum := number_mem_sites (mem_sites_of_loop hl h.mem)
        have hno : w.AbsentFrom (no.traces (n + yes.assignments)) :=
          Site.absentFrom_traces (by omega)
        have hrest : w.AbsentFrom (rest.traces (n + yes.assignments + no.assignments)) :=
          Site.absentFrom_traces (by omega)
        exact (hcond.mul ((ihyes hl).add hno.readOn)).mul hrest.readOn
      · have hnum := number_mem_sites (mem_sites_of_loop hl h.mem)
        have hyes : w.AbsentFrom (yes.traces n) := Site.absentFrom_traces (by omega)
        have hrest : w.AbsentFrom (rest.traces (n + yes.assignments + no.assignments)) :=
          Site.absentFrom_traces (by omega)
        exact (hcond.mul (hyes.readOn.add (ihno hl))).mul hrest.readOn
      · have hnum := number_mem_sites (mem_sites_of_loop hl h.mem)
        have hyes : w.AbsentFrom (yes.traces n) := Site.absentFrom_traces (by omega)
        have hno : w.AbsentFrom (no.traces (n + yes.assignments)) :=
          Site.absentFrom_traces (by omega)
        exact (hcond.mul (hyes.readOn.add hno.readOn)).mul (ih hl)
  | loop line cond body rest ihbody ih =>
      have hcond := (w.absentFrom_readsOf cond.reads).readOn
      have hreads := (w.absentFrom_readsOf body.reads).readOn
      simp only [loops, List.mem_cons, List.mem_append] at hl
      rcases hl with rfl | hl | hl
      · have hmem : w ∈ body.sites n := h.mem
        have hnum := number_mem_sites hmem
        have hrest : w.AbsentFrom (rest.traces (n + body.assignments)) :=
          Site.absentFrom_traces (by omega)
        -- the reads that stand for later rounds read the value
        have hcarried : w.ReadOn (body.traces n * {readsOf body.reads}) := h.waits.readOn h.read
        rw [traces, mul_assoc _ (body.traces n)]
        exact ((hcond.mul hcarried).mul hcond).mul hrest.readOn
      · have hnum := number_mem_sites (mem_sites_of_loop hl h.mem)
        have hrest : w.AbsentFrom (rest.traces (n + body.assignments)) :=
          Site.absentFrom_traces (by omega)
        exact (((hcond.mul (ihbody hl)).mul hreads).mul hcond).mul hrest.readOn
      · have hnum := number_mem_sites (mem_sites_of_loop hl h.mem)
        have hbody : w.AbsentFrom (body.traces n) := Site.absentFrom_traces (by omega)
        exact (((hcond.mul hbody.readOn).mul hreads).mul hcond).mul (ih hl)
  | missing rest ih => exact fun t ht => absurd ht (Language.notMem_zero t)

/-! ## What is reported -/

/-- A dead assignment is reported, or a loop carries its value. -/
theorem reported_or_carried {b : Block} (hb : b.complete = true) {w : Site} (hw : w ∈ b.sites 0)
    (hdead : ∀ t ∈ b.runs 0, ¬ w.ReadIn t) :
    (∃ t ∈ b.traces 0, w.DeadIn t) ∨ ∃ l ∈ b.loops 0, l.Carries w := by
  rcases sameFate_or_carried hb hw with ⟨t, ht, r, hr, next, htfate, hrfate, -⟩ | hcarried
  · refine Or.inl ⟨t, ht, next, htfate, ?_⟩
    rintro rfl
    exact hdead r hr hrfate
  · exact Or.inr hcarried

/-- **Outside of loops that read the variable, no dead assignment is missed.**  If no loop around
the assignment reads the variable in its body, and no execution reads the value, then the assignment
is reported.  In particular this holds for each assignment outside of all loops, whatever loops
follow it. -/
theorem dead_store_reported {b : Block} (hb : b.complete = true) (order : ReportOrder) {w : Site}
    (hw : w ∈ b.sites 0)
    (houtside : ∀ l ∈ b.loops 0, w ∈ l.body.sites l.first → w.write.target ∉ l.body.reads)
    (hdead : ∀ t ∈ b.runs 0, ¬ w.ReadIn t) :
    ∃ found, b.check order = .ok found ∧ ∃ f ∈ found, f.dead = w := by
  obtain ⟨found, hcheck, -, -, hfound⟩ := check_paths hb order
  refine ⟨found, hcheck, ?_⟩
  rcases reported_or_carried hb hw hdead with ⟨t, ht, hunread⟩ | ⟨l, hl, hcarry⟩
  · exact hfound t ht w hunread
  · exact absurd hcarry.read (houtside l hl hcarry.mem)

theorem dead_store_reported_copy :
    (∃ l ∈ StaleLoop.program.loops 0, StaleLoop.copy ∈ l.body.sites l.first) ∧
      ∃ found, StaleLoop.program.check .byLine = .ok found ∧ ∃ f ∈ found, f.dead = StaleLoop.copy :=
  ⟨⟨_, List.mem_cons_self .., by decide⟩,
    dead_store_reported (by decide) .byLine (by decide) (by decide +kernel)
      (fun _ ht => not_readIn_of_not_mem_reads (by decide +kernel) ht)⟩

end Block

/-! ## A value that the next round overwrites -/

namespace Site

/-- On the path the value is not read, and the variable is not read before it is written. -/
def UnreadIn (w : Site) (t : List Access) : Prop :=
  ¬ w.ReadIn t ∧ nextUse w.write.target t ≠ some (.read w.write.target)

theorem UnreadIn.append {w : Site} {t u : List Access} (ht : w.UnreadIn t) (hu : w.UnreadIn u) :
    w.UnreadIn (t ++ u) := by
  constructor
  · intro hread
    rcases fate_append.1 hread with ⟨near, hnear, hor⟩ | hread
    · rcases Option.or_eq_some_iff.1 hor with rfl | ⟨-, hnext⟩
      · exact ht.1 hnear
      · exact hu.2 hnext
    · exact hu.1 hread
  · rw [nextUse_append]
    intro hor
    rcases Option.or_eq_some_iff.1 hor with hnext | ⟨-, hnext⟩
    · exact ht.2 hnext
    · exact hu.2 hnext

theorem UnreadIn.flatten {w : Site} {rounds : List (List Access)}
    (h : ∀ t ∈ rounds, w.UnreadIn t) : w.UnreadIn rounds.flatten := by
  induction rounds with
  | nil => exact ⟨not_fate_nil w _, by simp⟩
  | cons round rest ih =>
      exact (h round (List.mem_cons_self ..)).append
        (ih fun t ht => h t (List.mem_cons_of_mem _ ht))

end Site

namespace StaleLoop

/-- A round reads the condition, writes `x`, reads it, and writes `y` and `x`. -/
theorem eq_of_mem_round {t : List Access}
    (ht : t ∈ ({readsOf cond.reads} : Language Access) * body.runs 0) :
    t = [.read 0x63, .write ⟨0, ⟨2, 3⟩, 0x78, one⟩, .read 0x78, .write copy, .write last] := by
  have hcond : cond.reads = [0x63] := by decide +kernel
  have hone : one.reads = [] := by decide +kernel
  have hvar : (Expr.variable 0x78).reads = [0x78] := by decide +kernel
  have htwo : two.reads = [] := by decide +kernel
  simpa [body, Block.runs, Language.mem_mul, hcond, hone, hvar, htwo, readsOf, copy, last,
    eq_comm] using ht

theorem unreadIn_round {t : List Access}
    (ht : t ∈ ({readsOf cond.reads} : Language Access) * body.runs 0) : last.UnreadIn t := by
  have hfirst : (⟨0, ⟨2, 3⟩, 0x78, one⟩ : Site) ≠ last := by decide
  rw [eq_of_mem_round ht]
  constructor
  · simp [Site.ReadIn, Site.fate_cons, hfirst]
  · decide

/-- No execution reads the value of the last assignment. -/
theorem last_unread {t : List Access} (ht : t ∈ program.runs 0) : ¬ last.ReadIn t := by
  obtain ⟨_, hmain, e, rfl, rfl⟩ := Language.mem_mul.1 ht
  obtain ⟨u, hu, c, hc, rfl⟩ := Language.mem_mul.1 hmain
  obtain ⟨rounds, rfl, hrounds⟩ := Language.mem_kstar.1 hu
  have hround : last.UnreadIn rounds.flatten :=
    Site.UnreadIn.flatten fun r hr => unreadIn_round (hrounds r hr)
  have hcond : last.UnreadIn c := by
    rw [Block.mem_single.1 hc]
    exact ⟨Site.not_fate_readsOf last _ _, by rw [nextUse_readsOf]; decide +kernel⟩
  rw [List.append_nil]
  exact (hround.append hcond).1

end StaleLoop

namespace Block

/-- **A dead assignment is reported if and only if no loop carries its value.** -/
theorem dead_store_reported_iff {b : Block} (hb : b.complete = true) (order : ReportOrder)
    {w : Site} (hw : w ∈ b.sites 0) (hdead : ∀ t ∈ b.runs 0, ¬ w.ReadIn t) :
    ∃ found, b.check order = .ok found ∧
      ((∃ f ∈ found, f.dead = w) ↔ ¬ ∃ l ∈ b.loops 0, l.Carries w) := by
  obtain ⟨found, hcheck, hpath, -, hfound⟩ := check_paths hb order
  refine ⟨found, hcheck, ?_, ?_⟩
  · rintro ⟨f, hf, rfl⟩ ⟨l, hl, hcarry⟩
    obtain ⟨t, ht, hfate⟩ := hpath f hf
    have hread := readOn_of_carried hl hcarry t ht _ hfate
    cases ho : f.overwriter <;> simp [ho] at hread
  · intro hnone
    rcases reported_or_carried hb hw hdead with ⟨t, ht, hunread⟩ | hcarried
    · exact hfound t ht w hunread
    · exact absurd hcarried hnone

theorem dead_store_reported_iff_last :
    StaleLoop.last ∈ StaleLoop.program.sites 0 ∧
      (∀ t ∈ StaleLoop.program.runs 0, ¬ StaleLoop.last.ReadIn t) ∧
      ∃ found, StaleLoop.program.check .byLine = .ok found ∧
        ((∃ f ∈ found, f.dead = StaleLoop.last) ↔
          ¬ ∃ l ∈ StaleLoop.program.loops 0, l.Carries StaleLoop.last) :=
  ⟨by decide, fun _ => StaleLoop.last_unread,
    dead_store_reported_iff (by decide) .byLine (by decide) fun _ => StaleLoop.last_unread⟩

/-- **A dead assignment that is not reported.**  The program can be written, and no execution of it
reads what the last assignment of the body writes.  But the body reads the variable, so the loop is
taken to read the value, and only the copy is reported. -/
theorem loop_store_missed :
    parseSource (utf8 "while c < 1\n  x = 1\n  y = x\n  x = 2\nend") = .ok StaleLoop.program ∧
      (∃ l ∈ StaleLoop.program.loops 0, StaleLoop.last ∈ l.body.sites l.first) ∧
      (∀ t ∈ StaleLoop.program.runs 0, ¬ StaleLoop.last.ReadIn t) ∧
      StaleLoop.program.check .byLine = .ok [⟨StaleLoop.copy, none⟩] ∧
      StaleLoop.copy ≠ StaleLoop.last :=
  ⟨by decide +kernel, ⟨_, List.mem_cons_self .., by decide⟩, fun _ => StaleLoop.last_unread,
    StaleLoop.check_program, by decide⟩

end Block

end StoreLint
