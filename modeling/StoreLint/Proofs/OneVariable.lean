import Mathlib.Data.List.Forall2
import StoreLint.Proofs.AllPaths

/-!
# Reports about one variable

What the check reports about a variable depends on little of a program: the shape of its statements,
which of the assignments write the variable, and which of the expressions read it.  And reading the
variable in more places can only take reports away.

* `Block.ReadsAtMost`: two programs have the same shape and write a variable in the same places, and
  the first reads it at most where the second does.
* `Follows`: a path does to a variable what another does, apart from reads that only the other has.
  Each construct has a lemma, and each path of the second program is followed by a path of the first
  (`exists_trace_follows`).
* `reports_antitone_in_reads`: what is reported about the variable in the second program is reported
  in the first.
-/

namespace StoreLint

namespace Block

/-- The programs have the same shape, their assignments write `v` in the same places, and the first
reads `v` at most where the second does. -/
inductive ReadsAtMost (v : UInt8) : Block → Block → Prop where
  | empty : ReadsAtMost v .empty .empty
  | assign {write write' : Assign} {rest rest' : Block}
      (target : write.target = v ↔ write'.target = v)
      (value : v ∈ write.value.reads → v ∈ write'.value.reads) (after : ReadsAtMost v rest rest') :
      ReadsAtMost v (.assign write rest) (.assign write' rest')
  | branch {line line' : Int} {cond cond' : Expr} {yes yes' no no' rest rest' : Block}
      (condition : v ∈ cond.reads → v ∈ cond'.reads) (taken : ReadsAtMost v yes yes')
      (otherwise : ReadsAtMost v no no') (after : ReadsAtMost v rest rest') :
      ReadsAtMost v (.branch line cond yes no rest) (.branch line' cond' yes' no' rest')
  | loop {line line' : Int} {cond cond' : Expr} {body body' rest rest' : Block}
      (condition : v ∈ cond.reads → v ∈ cond'.reads) (inside : ReadsAtMost v body body')
      (after : ReadsAtMost v rest rest') :
      ReadsAtMost v (.loop line cond body rest) (.loop line' cond' body' rest')

namespace ReadsAtMost

variable {v : UInt8} {p q : Block}

theorem complete (h : ReadsAtMost v p q) : p.complete = true ∧ q.complete = true := by
  induction h with
  | empty => exact ⟨rfl, rfl⟩
  | assign _ _ _ ih => exact ih
  | branch _ _ _ _ ihyes ihno ih => simp [Block.complete, ihyes, ihno, ih]
  | loop _ _ _ ihbody ih => simp [Block.complete, ihbody, ih]

theorem assignments_eq (h : ReadsAtMost v p q) : p.assignments = q.assignments := by
  induction h with
  | empty => rfl
  | assign _ _ _ ih => simp [assignments, ih]
  | branch _ _ _ _ ihyes ihno ih => simp [assignments, ihyes, ihno, ih]
  | loop _ _ _ ihbody ih => simp [assignments, ihbody, ih]

theorem mem_reads (h : ReadsAtMost v p q) (hv : v ∈ p.reads) : v ∈ q.reads := by
  induction h with
  | empty => exact hv
  | assign _ value _ ih =>
      simp only [reads, List.mem_append] at hv ⊢
      exact hv.imp value ih
  | branch condition _ _ _ ihyes ihno ih =>
      simp only [reads, List.mem_append] at hv ⊢
      exact hv.imp (.imp (.imp condition ihyes) ihno) ih
  | loop condition _ _ ihbody ih =>
      simp only [reads, List.mem_append] at hv ⊢
      exact hv.imp (.imp condition ihbody) ih

/-- Assignments at the same place of the two programs have the same number. -/
theorem sites (h : ReadsAtMost v p q) (n : Nat) :
    List.Forall₂ (fun s s' => s.number = s'.number ∧ (s.write.target = v ↔ s'.write.target = v))
      (p.sites n) (q.sites n) := by
  induction h generalizing n with
  | empty => exact .nil
  | assign target _ _ ih => exact .cons ⟨rfl, target⟩ (ih (n + 1))
  | branch _ hyes hno _ ihyes ihno ih =>
      simp only [Block.sites, hyes.assignments_eq, hno.assignments_eq]
      exact List.rel_append (List.rel_append (ihyes _) (ihno _)) (ih _)
  | loop _ hbody _ ihbody ih =>
      simp only [Block.sites, hbody.assignments_eq]
      exact List.rel_append (ihbody _) (ih _)

end ReadsAtMost

end Block

/-! ## Paths that differ in reads -/

/-- Is the access a read? -/
def Access.isRead : Access → Bool
  | .read _ => true
  | .write _ => false

/-- What happens next is the same, a read, a write or nothing; or the second is a read. -/
def Like (next next' : Option Access) : Prop :=
  next'.map Access.isRead = some true ∨ next.map Access.isRead = next'.map Access.isRead

theorem Like.or {a a' b b' : Option Access} (h : Like a a') (h' : Like b b') :
    Like (a.or b) (a'.or b') := by
  cases a' with
  | none =>
      have ha : a = none := by simpa [Like] using h
      rw [ha]
      exact h'
  | some x =>
      rcases h with hread | hsame
      · exact .inl hread
      · cases a with
        | none => cases hsame
        | some y => exact .inr hsame

/-- The path `t` does to the variable what `u` does, apart from reads that only `u` has. -/
structure Follows (v : UInt8) (t u : List Access) : Prop where
  next : Like (nextUse v t) (nextUse v u)
  fate : ∀ (w : Site) (next : Option Access), w.write.target = v → w.Fate u next →
    ∃ (w' : Site) (next' : Option Access), w'.number = w.number ∧ w'.write.target = v ∧
      w'.Fate t next' ∧ Like next' next

namespace Follows

variable {v : UInt8} {t t' u u' : List Access}

theorem nil : Follows v [] [] :=
  ⟨.inr rfl, fun w next _ hfate => absurd hfate (Site.not_fate_nil w next)⟩

theorem readsOf {names names' : List UInt8} (h : v ∈ names → v ∈ names') :
    Follows v (readsOf names) (readsOf names') := by
  refine ⟨?_, fun w next _ hfate => absurd hfate (Site.not_fate_readsOf w names' next)⟩
  by_cases hv : v ∈ names'
  · exact .inl (by simp [hv, Access.isRead])
  · exact .inr (by simp [hv, mt h hv])

theorem write (n : Nat) {write write' : Assign} (target : write.target = v ↔ write'.target = v) :
    Follows v [.write ⟨n, write⟩] [.write ⟨n, write'⟩] := by
  constructor
  · by_cases hv : write'.target = v
    · exact .inr (by simp [hv, target.2 hv, Access.isRead])
    · exact .inr (by simp [hv, mt target.1 hv])
  · intro w next hw hfate
    obtain ⟨rfl, rfl⟩ := Site.fate_write.1 hfate
    exact ⟨⟨n, write⟩, none, rfl, target.2 hw, Site.fate_write.2 ⟨rfl, rfl⟩, .inr rfl⟩

theorem append (h : Follows v t u) (h' : Follows v t' u') : Follows v (t ++ t') (u ++ u') := by
  constructor
  · rw [nextUse_append, nextUse_append]
    exact h.next.or h'.next
  · intro w next hw hfate
    rcases Site.fate_append.1 hfate with ⟨near, hnear, rfl⟩ | hfate
    · -- what comes next may lie in the second part, on both paths
      obtain ⟨w', near', hnumber, hw', hnear', hlike⟩ := h.fate w near hw hnear
      refine ⟨w', _, hnumber, hw', hnear'.append_left t', ?_⟩
      rw [hw, hw']
      exact hlike.or h'.next
    · obtain ⟨w', next', hnumber, hw', hfate', hlike⟩ := h'.fate w next hw hfate
      exact ⟨w', next', hnumber, hw', hfate'.append_right t, hlike⟩

end Follows

namespace Block

/-- Each path of a program is followed by a path of any program that reads `v` at most where it
does. -/
theorem exists_trace_follows {v : UInt8} {p q : Block} (h : ReadsAtMost v p q) {n : Nat}
    {u : List Access} (hu : u ∈ q.traces n) : ∃ t ∈ p.traces n, Follows v t u := by
  induction h generalizing n u with
  | empty =>
      obtain rfl := (Language.mem_one u).1 hu
      exact ⟨[], rfl, .nil⟩
  | assign target value _ ih =>
      obtain ⟨r, hr, rfl⟩ := mem_traces_assign.1 hu
      obtain ⟨t, ht, hfollows⟩ := ih hr
      exact ⟨_, mem_traces_assign.2 ⟨t, ht, rfl⟩,
        ((Follows.readsOf value).append (.write n target)).append hfollows⟩
  | branch condition hyes hno _ ihyes ihno ih =>
      obtain ⟨a, ha, r, hr, rfl⟩ := mem_traces_branch.1 hu
      rw [← hyes.assignments_eq] at ha hr
      rw [← hno.assignments_eq] at hr
      obtain ⟨t, ht, hfollows⟩ := ih hr
      rcases ha with ha | ha
      · obtain ⟨c, hc, hbranch⟩ := ihyes ha
        exact ⟨_, mem_traces_branch.2 ⟨c, .inl hc, t, ht, rfl⟩,
          ((Follows.readsOf condition).append hbranch).append hfollows⟩
      · obtain ⟨c, hc, hbranch⟩ := ihno ha
        exact ⟨_, mem_traces_branch.2 ⟨c, .inr hc, t, ht, rfl⟩,
          ((Follows.readsOf condition).append hbranch).append hfollows⟩
  | loop condition hbody _ ihbody ih =>
      obtain ⟨a, ha, r, hr, rfl⟩ := mem_traces_loop.1 hu
      rw [← hbody.assignments_eq] at hr
      obtain ⟨c, hc, hround⟩ := ihbody ha
      obtain ⟨t, ht, hfollows⟩ := ih hr
      have hreads := Follows.readsOf condition
      exact ⟨_, mem_traces_loop.2 ⟨c, hc, t, ht, rfl⟩,
        (((hreads.append hround).append (.readsOf hbody.mem_reads)).append hreads).append hfollows⟩

/-- Is the assignment among the findings? -/
def Reported (found : List Finding) (s : Site) : Prop :=
  ∃ f ∈ found, f.dead = s

/-- An assignment to `v` that is reported in a program is reported in any program that reads `v` at
most where it does, under the same number. -/
theorem exists_reported {v : UInt8} {p q : Block} (h : ReadsAtMost v p q)
    {order order' : ReportOrder} {found found' : List Finding}
    (hp : p.check order = .ok found) (hq : q.check order' = .ok found')
    {s : Site} (hs : s.write.target = v) (hreported : Reported found' s) :
    ∃ s' ∈ p.sites 0, s'.number = s.number ∧ Reported found s' := by
  obtain ⟨_, hp', -, -, hdead⟩ := check_paths h.complete.1 order
  obtain ⟨_, hq', hpaths, -, -⟩ := check_paths h.complete.2 order'
  cases hp.symm.trans hp'
  cases hq.symm.trans hq'
  obtain ⟨f, hf, rfl⟩ := hreported
  obtain ⟨u, hu, hfate⟩ := hpaths f hf
  obtain ⟨t, ht, hfollows⟩ := exists_trace_follows h hu
  obtain ⟨s', next, hnumber, hs', hfate', hlike⟩ := hfollows.fate _ _ hs hfate
  refine ⟨s', write_mem_traces ht hfate'.mem, hnumber, hdead t ht s' ⟨next, hfate', ?_⟩⟩
  -- what comes next in the other program is an overwriter or nothing, so it is no read here either
  rintro rfl
  rcases hlike with hread | hsame
  · cases hover : f.overwriter <;> simp [hover, Access.isRead] at hread
  · cases hover : f.overwriter <;> simp [hover, Access.isRead] at hsame

/-- **Reports about a variable only depend on that variable, and reads only take them away.**  Let
two programs have the same shape and write `v` in the same places, and let the first read `v` at
most where the second does.  Then each assignment to `v` that is reported in the second is reported
in the first.  If both read `v` in the same places, the same assignments to `v` are reported. -/
theorem reports_antitone_in_reads {v : UInt8} {p q : Block} (h : ReadsAtMost v p q)
    (order order' : ReportOrder) :
    ∃ found found', p.check order = .ok found ∧ q.check order' = .ok found' ∧
      (∀ f ∈ found, f.dead ∈ p.sites 0) ∧ (∀ f ∈ found', f.dead ∈ q.sites 0) ∧
      List.Forall₂ (fun s s' => (s.write.target = v ↔ s'.write.target = v) ∧
          (s'.write.target = v → Reported found' s' → Reported found s) ∧
          (s'.write.target = v → ReadsAtMost v q p → (Reported found s ↔ Reported found' s')))
        (p.sites 0) (q.sites 0) := by
  obtain ⟨found, hp, hinside⟩ := exists_check h.complete.1 order
  obtain ⟨found', hq, hinside'⟩ := exists_check h.complete.2 order'
  obtain ⟨hlength, hpairs⟩ := List.forall₂_iff_zip.1 (h.sites 0)
  refine ⟨found, found', hp, hq, fun f hf => (hinside f hf).dead, fun f hf => (hinside' f hf).dead,
    List.forall₂_iff_zip.2 ⟨hlength, fun {s s'} hpair => ?_⟩⟩
  obtain ⟨hnumber, htarget⟩ := hpairs hpair
  obtain ⟨hs, hs'⟩ := List.of_mem_zip hpair
  have hkept : s'.write.target = v → Reported found' s' → Reported found s := by
    intro hv hreported
    obtain ⟨r, hr, hrnumber, hreported'⟩ := exists_reported h hp hq hv hreported
    rwa [eq_of_number_eq hr hs (hrnumber.trans hnumber.symm)] at hreported'
  refine ⟨htarget, hkept, fun hv hback => ⟨fun hreported => ?_, hkept hv⟩⟩
  obtain ⟨r, hr, hrnumber, hreported'⟩ := exists_reported hback hq hp (htarget.2 hv) hreported
  rwa [eq_of_number_eq hr hs' (hrnumber.trans hnumber)] at hreported'

/-- The program `x = a`, `if c` with `x = b` and `y = c`, and `while d` with `x = y` and `y = z`. -/
def quiet : Block :=
  .assign ⟨⟨1, 1⟩, 0x78, .variable 0x61⟩
    (.branch 2 (.variable 0x63) (.assign ⟨⟨3, 1⟩, 0x78, .variable 0x62⟩ .empty)
      (.assign ⟨⟨5, 1⟩, 0x79, .variable 0x63⟩ .empty)
      (.loop 7 (.variable 0x64) (.assign ⟨⟨8, 1⟩, 0x78, .variable 0x79⟩
        (.assign ⟨⟨9, 1⟩, 0x79, .variable 0x7A⟩ .empty)) .empty))

/-- The program `x = (b)`, `if c < a` with `x = z` and `z = c`, and `while x` with `x = y` and
`a = x + a`. -/
def busy : Block :=
  .assign ⟨⟨1, 1⟩, 0x78, .bracket (.variable 0x62)⟩
    (.branch 1 (.binary (.variable 0x63) .less (.variable 0x61))
      (.assign ⟨⟨1, 5⟩, 0x78, .variable 0x7A⟩ .empty)
      (.assign ⟨⟨1, 9⟩, 0x7A, .variable 0x63⟩ .empty)
      (.loop 2 (.variable 0x78) (.assign ⟨⟨2, 5⟩, 0x78, .variable 0x79⟩
        (.assign ⟨⟨2, 9⟩, 0x61, .binary (.variable 0x78) .add (.variable 0x61)⟩ .empty)) .empty))

theorem reports_antitone_in_reads_busy :
    ReadsAtMost 0x78 quiet busy ∧
      ∃ found found', quiet.check .byLine = .ok found ∧ busy.check .discovery = .ok found' ∧
        (∀ f ∈ found, f.dead ∈ quiet.sites 0) ∧ (∀ f ∈ found', f.dead ∈ busy.sites 0) ∧
        List.Forall₂ (fun s s' => (s.write.target = 0x78 ↔ s'.write.target = 0x78) ∧
            (s'.write.target = 0x78 → Reported found' s' → Reported found s) ∧
            (s'.write.target = 0x78 → ReadsAtMost 0x78 busy quiet →
              (Reported found s ↔ Reported found' s')))
          (quiet.sites 0) (busy.sites 0) := by
  have hreads : ReadsAtMost 0x78 quiet busy := by
    refine .assign (by decide) (by simp [Expr.mentions])
      (.branch (by simp [Expr.mentions]) ?_ ?_ ?_)
    · exact .assign (by decide) (by simp [Expr.mentions]) .empty
    · exact .assign (by decide) (by simp [Expr.mentions]) .empty
    · exact .loop (by simp [Expr.mentions])
        (.assign (by decide) (by simp [Expr.mentions])
          (.assign (by decide) (by simp [Expr.mentions]) .empty)) .empty
  exact ⟨hreads, reports_antitone_in_reads hreads .byLine .discovery⟩

end Block

end StoreLint
