import StoreLint.Proofs.PendingTable
import StoreLint.Proofs.Traces

/-!
# The check follows every path of a single pass

The check walks a program once with one table of waiting assignments, which it copies at an `if` and
joins behind it.  This file shows that nothing is lost or made up by the joining: the table and the
report are what all paths of a single pass give together.

* `Reached` is the invariant.  An assignment waits in the table exactly if it waits at the end of
  some path, and every assignment that is overwritten on some path has been reported.
* `Reached.read`, `Reached.write` and `Reached.merge` are its steps, and `walk_reached` carries it
  through all statements.
* `check_paths` draws the conclusion for a whole program, and `reported_iff_dead_on_path` says it in
  one sentence: an assignment is reported if and only if its value is unread on some path.
-/

namespace StoreLint

/-! ## Reports -/

/-- The assignments of a finding are those of a program. -/
structure Finding.Inside (b : Block) (f : Finding) : Prop where
  dead : f.dead ∈ b.sites 0
  overwriter : ∀ o ∈ f.overwriter, o ∈ b.sites 0

namespace Log

theorem mem_report {log : Log} {o : Option Site} {s : Site} {f : Finding} :
    f ∈ (log.report o s).found ↔ f ∈ log.found ∨ log.has s = false ∧ f = ⟨s, o⟩ := by
  unfold report
  by_cases h : log.has s = true <;> simp [h]

theorem has_iff {log : Log} {s : Site} :
    log.has s = true ↔ ∃ f ∈ log.found, f.dead.number = s.number := by
  simp [has]

theorem mem_reportAll {log : Log} {f : Finding} (h : f ∈ log.found) (sites : List Site)
    (o : Option Site) : f ∈ (log.reportAll sites o).found := by
  unfold reportAll
  induction sites generalizing log with
  | nil => exact h
  | cons s rest ih => exact ih (mem_report.2 (Or.inl h))

theorem of_mem_reportAll {log : Log} {sites : List Site} {o : Option Site} {f : Finding}
    (h : f ∈ (log.reportAll sites o).found) :
    f ∈ log.found ∨ f.dead ∈ sites ∧ f.overwriter = o := by
  unfold reportAll at h
  induction sites generalizing log with
  | nil => exact Or.inl h
  | cons s rest ih =>
      rcases ih h with h | ⟨hdead, ho⟩
      · rcases mem_report.1 h with h | ⟨-, rfl⟩
        · exact Or.inl h
        · exact Or.inr ⟨List.mem_cons_self .., rfl⟩
      · exact Or.inr ⟨List.mem_cons_of_mem _ hdead, ho⟩

/-- After a report of some assignments, the number of each is among the findings. -/
theorem exists_mem_reportAll (log : Log) {sites : List Site} {s : Site} (h : s ∈ sites)
    (o : Option Site) : ∃ f ∈ (log.reportAll sites o).found, f.dead.number = s.number := by
  induction sites generalizing log with
  | nil => exact absurd h List.not_mem_nil
  | cons first rest ih =>
      rcases List.mem_cons.1 h with rfl | h
      · have hone : ∃ f ∈ (log.report o s).found, f.dead.number = s.number := by
          by_cases hs : log.has s = true
          · obtain ⟨f, hf, hnum⟩ := has_iff.1 hs
            exact ⟨f, mem_report.2 (Or.inl hf), hnum⟩
          · exact ⟨⟨s, o⟩, mem_report.2 (Or.inr ⟨by simpa using hs, rfl⟩), rfl⟩
        obtain ⟨f, hf, hnum⟩ := hone
        exact ⟨f, mem_reportAll hf rest o, hnum⟩
      · exact ih _ h

@[simp] theorem next_reportAll (log : Log) (sites : List Site) (o : Option Site) :
    (log.reportAll sites o).next = log.next := by
  unfold reportAll
  induction sites generalizing log with
  | nil => rfl
  | cons s rest ih =>
      rw [List.foldl_cons, ih, report]
      split <;> rfl

/-- The log behind the assignment `site`, when `sites` wait for its variable. -/
def overwrite (log : Log) (sites : List Site) (site : Site) : Log :=
  { log.reportAll sites (some site) with next := (log.reportAll sites (some site)).next + 1 }

@[simp] theorem next_overwrite (log : Log) (sites : List Site) (site : Site) :
    (log.overwrite sites site).next = log.next + 1 := by
  rw [overwrite, next_reportAll]

/-- The second log has the findings of the first, and beyond them only assignments that are
overwritten on some path, with an overwriter from that path. -/
structure Grows (T : Language Access) (log log' : Log) : Prop where
  kept : ∀ f ∈ log.found, f ∈ log'.found
  new : ∀ f ∈ log'.found, f ∈ log.found ∨
    ∃ o, f.overwriter = some o ∧ ∃ t ∈ T, f.dead.Fate t (some (.write o))

namespace Grows

theorem refl (T : Language Access) (log : Log) : log.Grows T log :=
  ⟨fun _ h => h, fun _ h => Or.inl h⟩

theorem trans {T : Language Access} {a b c : Log} (hab : a.Grows T b) (hbc : b.Grows T c) :
    a.Grows T c := by
  refine ⟨fun f hf => hbc.kept f (hab.kept f hf), ?_⟩
  intro f hf
  rcases hbc.new f hf with hf | hnew
  · exact hab.new f hf
  · exact Or.inr hnew

theorem mono {T U : Language Access} {a b : Log} (h : a.Grows T b) (hTU : T ≤ U) :
    a.Grows U b := by
  refine ⟨h.kept, ?_⟩
  intro f hf
  rcases h.new f hf with hf | ⟨o, ho, t, ht, hfate⟩
  · exact Or.inl hf
  · exact Or.inr ⟨o, ho, t, hTU ht, hfate⟩

/-- What is overwritten on a path is overwritten on every longer path. -/
theorem extend {T U : Language Access} {a b : Log} (h : a.Grows T b) (hU : ∃ u, u ∈ U) :
    a.Grows (T * U) b := by
  obtain ⟨u, hu⟩ := hU
  refine ⟨h.kept, ?_⟩
  intro f hf
  rcases h.new f hf with hf | ⟨o, ho, t, ht, hfate⟩
  · exact Or.inl hf
  · exact Or.inr ⟨o, ho, t ++ u, Language.append_mem_mul ht hu, hfate.append_left u⟩

end Grows

end Log

/-! ## The invariant -/

/-- The table and the log are what the paths in `T` lead to.  `all` are the assignments of the whole
program. -/
structure Reached (all : List Site) (T : Language Access) (p : Pending) (log : Log) : Prop where
  /-- There is a path. -/
  inhabited : ∃ t, t ∈ T
  /-- An assignment waits exactly if it waits at the end of some path. -/
  waiting : ∀ v s, s ∈ p.get v ↔ s.write.target = v ∧ ∃ t ∈ T, s.Fate t none
  /-- The paths write with assignments of the program only. -/
  within : ∀ t ∈ T, ∀ s, .write s ∈ t → s ∈ all
  /-- Assignments of the program only are reported. -/
  listed : ∀ f ∈ log.found, f.dead ∈ all
  /-- Each finding has an overwriter, which stands before the statements to come. -/
  earlier : ∀ f ∈ log.found, ∃ o, f.overwriter = some o ∧ o.number < log.next
  /-- What is overwritten on some path is reported, with that overwriter or an earlier one. -/
  reported : ∀ t ∈ T, ∀ w o, w.Fate t (some (.write o)) →
    ∃ f ∈ log.found, f.dead = w ∧ ∃ first, f.overwriter = some first ∧ first.number ≤ o.number

namespace Reached

variable {all : List Site} {T U : Language Access} {p q : Pending} {log log' : Log}

theorem mem_all (h : Reached all T p log) {v : UInt8} {s : Site} (hs : s ∈ p.get v) : s ∈ all := by
  obtain ⟨-, t, ht, hfate⟩ := (h.waiting v s).1 hs
  exact h.within t ht s hfate.mem

/-- The log may have more findings than the paths call for. -/
theorem grow (h : Reached all T p log) (hgrows : log.Grows U log') (h' : Reached all U q log') :
    Reached all T p log' := by
  refine { h with listed := h'.listed, earlier := h'.earlier, reported := ?_ }
  intro t ht w o hfate
  obtain ⟨f, hf, hw⟩ := h.reported t ht w o hfate
  exact ⟨f, hgrows.kept f hf, hw⟩

/-- Reading some variables clears them. -/
theorem read (h : Reached all T p log) (names : List UInt8) :
    Reached all (T * {readsOf names}) (p.clear names) log where
  inhabited := by
    obtain ⟨t, ht⟩ := h.inhabited
    exact ⟨t ++ readsOf names, Block.mem_mul_single.2 ⟨t, ht, rfl⟩⟩
  waiting := by
    intro v s
    rw [Pending.get_clear]
    constructor
    · intro hs
      split at hs
      · exact absurd hs List.not_mem_nil
      · rename_i hv
        obtain ⟨rfl, t, ht, hfate⟩ := (h.waiting v s).1 hs
        refine ⟨rfl, t ++ readsOf names, Block.mem_mul_single.2 ⟨t, ht, rfl⟩, ?_⟩
        exact Site.fate_append_readsOf_none.2 ⟨hfate, by simpa using hv⟩
    · rintro ⟨rfl, t', ht', hfate⟩
      obtain ⟨t, ht, rfl⟩ := Block.mem_mul_single.1 ht'
      obtain ⟨hfate, hv⟩ := Site.fate_append_readsOf_none.1 hfate
      rw [if_neg (by simpa using hv)]
      exact (h.waiting _ s).2 ⟨rfl, t, ht, hfate⟩
  within := by
    intro t' ht' s hs
    obtain ⟨t, ht, rfl⟩ := Block.mem_mul_single.1 ht'
    rcases List.mem_append.1 hs with hs | hs
    · exact h.within t ht s hs
    · exact absurd hs (by simp [readsOf])
  listed := h.listed
  earlier := h.earlier
  reported := by
    intro t' ht' w o hfate
    obtain ⟨t, ht, rfl⟩ := Block.mem_mul_single.1 ht'
    exact h.reported t ht w o (Site.fate_append_readsOf_write.1 hfate)

/-- Writing a variable reports what waits for it, and then the new assignment alone waits. -/
theorem write (h : Reached all T p log)
    (hinj : ∀ a ∈ all, ∀ b ∈ all, a.number = b.number → a = b) {site : Site} (hsite : site ∈ all)
    (hnumber : site.number = log.next) :
    Reached all (T * {[.write site]}) (p.put site.write.target [site])
      (log.overwrite (p.get site.write.target) site) where
  inhabited := by
    obtain ⟨t, ht⟩ := h.inhabited
    exact ⟨t ++ [.write site], Block.mem_mul_single.2 ⟨t, ht, rfl⟩⟩
  waiting := by
    intro v s
    rw [Pending.get_put]
    constructor
    · intro hs
      split at hs
      · rename_i hv
        obtain rfl := List.mem_singleton.1 hs
        obtain ⟨t, ht⟩ := h.inhabited
        exact ⟨hv.symm, t ++ [.write s], Block.mem_mul_single.2 ⟨t, ht, rfl⟩,
          Site.fate_append_write_none.2 (Or.inr rfl)⟩
      · rename_i hv
        obtain ⟨rfl, t, ht, hfate⟩ := (h.waiting v s).1 hs
        exact ⟨rfl, t ++ [.write site], Block.mem_mul_single.2 ⟨t, ht, rfl⟩,
          Site.fate_append_write_none.2 (Or.inl ⟨hfate, Ne.symm hv⟩)⟩
    · rintro ⟨rfl, t', ht', hfate⟩
      obtain ⟨t, ht, rfl⟩ := Block.mem_mul_single.1 ht'
      rcases Site.fate_append_write_none.1 hfate with ⟨hfate, hv⟩ | rfl
      · rw [if_neg (Ne.symm hv)]
        exact (h.waiting _ s).2 ⟨rfl, t, ht, hfate⟩
      · rw [if_pos rfl]
        exact List.mem_singleton_self site
  within := by
    intro t' ht' s hs
    obtain ⟨t, ht, rfl⟩ := Block.mem_mul_single.1 ht'
    rcases List.mem_append.1 hs with hs | hs
    · exact h.within t ht s hs
    · cases List.mem_singleton.1 hs
      exact hsite
  listed := by
    intro f hf
    rcases Log.of_mem_reportAll hf with hf | ⟨hdead, -⟩
    · exact h.listed f hf
    · exact h.mem_all hdead
  earlier := by
    intro f hf
    rw [Log.next_overwrite]
    rcases Log.of_mem_reportAll hf with hf | ⟨-, ho⟩
    · obtain ⟨o, ho, hlt⟩ := h.earlier f hf
      exact ⟨o, ho, Nat.lt_succ_of_lt hlt⟩
    · exact ⟨site, ho, by omega⟩
  reported := by
    intro t' ht' w o hfate
    obtain ⟨t, ht, rfl⟩ := Block.mem_mul_single.1 ht'
    rcases Site.fate_append_write_write.1 hfate with hfate | ⟨hwaits, htarget, rfl⟩
    · obtain ⟨f, hf, hw⟩ := h.reported t ht w o hfate
      exact ⟨f, Log.mem_reportAll hf _ _, hw⟩
    · -- the assignment waited until now, so its number is reported by now
      have hw : w ∈ p.get site.write.target := (h.waiting _ w).2 ⟨htarget.symm, t, ht, hwaits⟩
      obtain ⟨f, hf, hnum⟩ := Log.exists_mem_reportAll log hw (some site)
      rcases Log.of_mem_reportAll hf with hold | ⟨hdead, ho⟩
      · obtain ⟨first, ho, hlt⟩ := h.earlier f hold
        exact ⟨f, hf, hinj _ (h.listed f hold) _ (h.mem_all hw) hnum, first, ho, by omega⟩
      · exact ⟨f, hf, hinj _ (h.mem_all hdead) _ (h.mem_all hw) hnum, site, ho, le_rfl⟩

theorem grows_write (h : Reached all T p log) (site : Site) :
    log.Grows (T * {[.write site]}) (log.overwrite (p.get site.write.target) site) := by
  refine ⟨fun f hf => Log.mem_reportAll hf _ _, ?_⟩
  intro f hf
  rcases Log.of_mem_reportAll hf with hf | ⟨hdead, ho⟩
  · exact Or.inl hf
  · obtain ⟨htarget, t, ht, hfate⟩ := (h.waiting _ _).1 hdead
    exact Or.inr ⟨site, ho, t ++ [.write site], Block.mem_mul_single.2 ⟨t, ht, rfl⟩,
      Site.fate_append_write_write.2 (Or.inr ⟨hfate, htarget.symm, rfl⟩)⟩

/-- Behind an `if` the paths of both branches go on. -/
theorem merge (hinj : ∀ a ∈ all, ∀ b ∈ all, a.number = b.number → a = b)
    (hp : Reached all T p log) (hq : Reached all U q log) :
    Reached all (T + U) (p.merge q) log where
  inhabited := hp.inhabited.imp fun _ ht => Or.inl ht
  waiting := by
    intro v s
    have hall : ∀ a ∈ p.get v ++ q.get v, a ∈ all := fun a ha =>
      (List.mem_append.1 ha).elim hp.mem_all hq.mem_all
    rw [Pending.get_merge, Pending.mem_join fun a ha b hb => hinj a (hall a ha) b (hq.mem_all hb),
      hp.waiting, hq.waiting]
    constructor
    · rintro (⟨hv, t, ht, hfate⟩ | ⟨hv, t, ht, hfate⟩)
      · exact ⟨hv, t, Or.inl ht, hfate⟩
      · exact ⟨hv, t, Or.inr ht, hfate⟩
    · rintro ⟨hv, t, ht | ht, hfate⟩
      · exact Or.inl ⟨hv, t, ht, hfate⟩
      · exact Or.inr ⟨hv, t, ht, hfate⟩
  within := fun t ht => ht.elim (hp.within t) (hq.within t)
  listed := hp.listed
  earlier := hp.earlier
  reported := fun t ht => ht.elim (hp.reported t) (hq.reported t)

end Reached

/-! ## The walk -/

theorem Pending.clear_clear (p : Pending) (first second : List UInt8) :
    (p.clear first).clear second = p.clear (first ++ second) := by
  simp [clear, List.filter_filter, Bool.and_comm]

namespace Block

/-- A replay clears everything that the statements read. -/
theorem replay_eq {b : Block} (hb : b.complete = true) (p : Pending) :
    b.replay p = .ok (p.clear b.reads) := by
  induction b generalizing p with
  | empty => simp [replay, reads, Pending.clear]
  | assign write rest ih => rw [replay, ih hb, Pending.clear_clear, reads]
  | branch line cond yes no rest ihyes ihno ih =>
      simp only [complete, Bool.and_eq_true] at hb
      rw [replay, ihyes hb.1.1]
      simp only [bind, Except.bind, ihno hb.1.2, ih hb.2, Pending.clear_clear, reads]
  | loop line cond body rest ihbody ih =>
      simp only [complete, Bool.and_eq_true] at hb
      rw [replay, ihbody hb.1]
      simp only [bind, Except.bind, ih hb.2, Pending.clear_clear, reads]
  | missing rest ih => exact absurd hb (by simp [complete])

variable {all : List Site}

theorem walk_assign (write : Assign) (rest : Block) (p : Pending) (log : Log) :
    (Block.assign write rest).walk p log =
      rest.walk ((p.clear write.value.reads).put write.target [⟨log.next, write⟩])
        (log.overwrite ((p.clear write.value.reads).get write.target) ⟨log.next, write⟩) := by
  simp [walk, Log.overwrite]

/-- A walk through an `if` goes through both branches from one and the same table, and on from what
waits behind either of them. -/
theorem walk_branch_ok_iff {line : Int} {cond : Expr} {yes no rest : Block} {p : Pending}
    {log : Log} {result : Pending × Log} :
    (Block.branch line cond yes no rest).walk p log = .ok result ↔
      ∃ q log₁ q' log₂, yes.walk (p.clear cond.reads) log = .ok (q, log₁) ∧
        no.walk (p.clear cond.reads) log₁ = .ok (q', log₂) ∧
        rest.walk (q.merge q') log₂ = .ok result := by
  cases hyes : yes.walk (p.clear cond.reads) log with
  | error e => simp [walk, hyes, bind, Except.bind]
  | ok after =>
      obtain ⟨q, log₁⟩ := after
      cases hno : no.walk (p.clear cond.reads) log₁ with
      | error e => simp [walk, hyes, hno, bind, Except.bind]
      | ok after =>
          obtain ⟨q', log₂⟩ := after
          simp [walk, hyes, hno, bind, Except.bind]

/-- A walk through a `while` goes through its body once, replays it, and goes on. -/
theorem walk_loop_ok_iff {line : Int} {cond : Expr} {body rest : Block} {p : Pending} {log : Log}
    {result : Pending × Log} :
    (Block.loop line cond body rest).walk p log = .ok result ↔
      ∃ q log₁ q', body.walk (p.clear cond.reads) log = .ok (q, log₁) ∧ body.replay q = .ok q' ∧
        rest.walk (q'.clear cond.reads) log₁ = .ok result := by
  cases hbody : body.walk (p.clear cond.reads) log with
  | error e => simp [walk, hbody, bind, Except.bind]
  | ok after =>
      obtain ⟨q, log₁⟩ := after
      cases hreplay : body.replay q with
      | error e => simp [walk, hbody, hreplay, bind, Except.bind]
      | ok q' => simp [walk, hbody, hreplay, bind, Except.bind]

/-- **The walk keeps the invariant.**  From what the paths in `T` lead to, it comes to what the same
paths lead to when they go on through the statements. -/
theorem walk_reached (hinj : ∀ a ∈ all, ∀ b ∈ all, a.number = b.number → a = b) :
    ∀ (b : Block) (n : Nat) {T : Language Access} {p : Pending} {log : Log}, b.complete = true →
      (∀ s ∈ b.sites n, s ∈ all) → log.next = n → Reached all T p log →
      ∃ p' log', b.walk p log = .ok (p', log') ∧ log'.next = n + b.assignments ∧
        Reached all (T * b.traces n) p' log' ∧ log.Grows (T * b.traces n) log' := by
  intro b
  induction b with
  | empty =>
      intro n T p log _ _ hn h
      refine ⟨p, log, rfl, hn, ?_, Log.Grows.refl _ _⟩
      rw [traces, mul_one]
      exact h
  | assign write rest ih =>
      intro n T p log hb hall hn h
      subst hn
      have hrest : rest.complete = true := hb
      have hread := h.read write.value.reads
      have hsite : (⟨log.next, write⟩ : Site) ∈ all := hall _ (by simp [sites])
      have hrestall : ∀ s ∈ rest.sites (log.next + 1), s ∈ all :=
        fun s hs => hall s (by simp [sites, hs])
      obtain ⟨p', log', hwalk, hnext, hreached, hgrows⟩ :=
        ih (log.next + 1) hrest hrestall (Log.next_overwrite ..) (hread.write hinj hsite rfl)
      have hpaths : T * (Block.assign write rest).traces log.next =
          T * {readsOf write.value.reads} * {[.write ⟨log.next, write⟩]} *
            rest.traces (log.next + 1) := by
        simp only [traces, mul_assoc]
      rw [hpaths, walk_assign]
      refine ⟨p', log', hwalk, ?_, hreached, ?_⟩
      · rw [hnext, assignments]; omega
      · exact ((hread.grows_write _).extend (exists_mem_traces hrest _)).trans hgrows
  | branch line cond yes no rest ihyes ihno ih =>
      intro n T p log hb hall hn h
      simp only [complete, Bool.and_eq_true] at hb
      obtain ⟨⟨hyes, hno⟩, hrest⟩ := hb
      have hread := h.read cond.reads
      obtain ⟨p₁, log₁, hwalk₁, hnext₁, hreached₁, hgrows₁⟩ :=
        ihyes n hyes (fun s hs => hall s (by simp [sites, hs])) hn hread
      -- the second branch starts with the paths and the table of the first, but with a later log
      have hfork : Reached all (T * {readsOf cond.reads}) (p.clear cond.reads) log₁ :=
        hread.grow hgrows₁ hreached₁
      obtain ⟨p₂, log₂, hwalk₂, hnext₂, hreached₂, hgrows₂⟩ :=
        ihno (n + yes.assignments) hno (fun s hs => hall s (by simp [sites, hs])) hnext₁ hfork
      have hmeet := (hreached₁.grow hgrows₂ hreached₂).merge hinj hreached₂
      obtain ⟨p', log', hwalk, hnext, hreached, hgrows⟩ :=
        ih (n + yes.assignments + no.assignments) hrest (fun s hs => hall s (by simp [sites, hs]))
          hnext₂ hmeet
      have hpaths : T * (Block.branch line cond yes no rest).traces n =
          (T * {readsOf cond.reads} * yes.traces n +
            T * {readsOf cond.reads} * no.traces (n + yes.assignments)) *
            rest.traces (n + yes.assignments + no.assignments) := by
        simp only [traces, mul_assoc, ← mul_add]
      rw [hpaths]
      refine ⟨p', log', ?_, ?_, hreached, ?_⟩
      · simp [walk, hwalk₁, hwalk₂, hwalk, bind, Except.bind]
      · rw [hnext, assignments]; omega
      · have hboth := (hgrows₁.mono le_self_add).trans (hgrows₂.mono le_add_self)
        exact (hboth.extend (exists_mem_traces hrest _)).trans hgrows
  | loop line cond body rest ihbody ih =>
      intro n T p log hb hall hn h
      simp only [complete, Bool.and_eq_true] at hb
      obtain ⟨hbody, hrest⟩ := hb
      obtain ⟨p₁, log₁, hwalk₁, hnext₁, hreached₁, hgrows₁⟩ :=
        ihbody n hbody (fun s hs => hall s (by simp [sites, hs])) hn (h.read cond.reads)
      have hreplay := (hreached₁.read body.reads).read cond.reads
      obtain ⟨p', log', hwalk, hnext, hreached, hgrows⟩ :=
        ih (n + body.assignments) hrest (fun s hs => hall s (by simp [sites, hs])) hnext₁ hreplay
      have hpaths : T * (Block.loop line cond body rest).traces n =
          T * {readsOf cond.reads} * body.traces n * {readsOf body.reads} *
            {readsOf cond.reads} * rest.traces (n + body.assignments) := by
        simp only [traces, mul_assoc]
      rw [hpaths]
      refine ⟨p', log', ?_, ?_, hreached, ?_⟩
      · simp [walk, hwalk₁, replay_eq hbody, hwalk, bind, Except.bind]
      · rw [hnext, assignments]; omega
      · have hreads : log.Grows (T * {readsOf cond.reads} * body.traces n * {readsOf body.reads} *
            {readsOf cond.reads}) log₁ :=
          (hgrows₁.extend ⟨_, mem_single.2 rfl⟩).extend ⟨_, mem_single.2 rfl⟩
        exact (hreads.extend (exists_mem_traces hrest _)).trans hgrows
  | missing rest ih =>
      intro n T p log hb
      exact absurd hb (by simp [complete])

/-! ## The report of a whole program -/

theorem reached_start (all : List Site) : Reached all 1 .none .start where
  inhabited := ⟨[], Language.nil_mem_one⟩
  waiting := by
    intro v s
    constructor
    · intro hs
      exact absurd hs List.not_mem_nil
    · rintro ⟨-, t, ht, hfate⟩
      rw [(Language.mem_one t).1 ht] at hfate
      exact absurd hfate (Site.not_fate_nil s none)
  within := by
    intro t ht s hs
    rw [(Language.mem_one t).1 ht] at hs
    exact absurd hs List.not_mem_nil
  listed := fun f hf => absurd hf List.not_mem_nil
  earlier := fun f hf => absurd hf List.not_mem_nil
  reported := by
    intro t ht w o hfate
    rw [(Language.mem_one t).1 ht] at hfate
    exact absurd hfate (Site.not_fate_nil w _)

/-- Both orders of a report have the same findings. -/
theorem check_perm {b : Block} {p : Pending} {log : Log} (h : b.walk .none .start = .ok (p, log))
    (order : ReportOrder) :
    ∃ found, b.check order = .ok found ∧ found.Perm (log.reportAll p.sites none).found := by
  cases order with
  | byLine =>
      refine ⟨(log.reportAll p.sites none).found.mergeSort Finding.before, ?_,
        List.mergeSort_perm _ _⟩
      simp [check, h, bind, Except.bind, pure, Except.pure]
  | discovery =>
      refine ⟨(log.reportAll p.sites none).found, ?_, List.Perm.refl _⟩
      simp [check, h, bind, Except.bind, pure, Except.pure]

/-- **What the check reports, by paths.**  Each finding comes from a path on which the overwriter is
what happens next to the variable.  What is overwritten on some path is reported, with that
overwriter or an earlier one, and whatever is dead on some path is reported. -/
theorem check_paths {b : Block} (hb : b.complete = true) (order : ReportOrder) :
    ∃ found, b.check order = .ok found ∧
      (∀ f ∈ found, ∃ t ∈ b.traces 0, f.dead.Fate t (f.overwriter.map .write)) ∧
      (∀ t ∈ b.traces 0, ∀ w o, w.Fate t (some (.write o)) →
        ∃ f ∈ found, f.dead = w ∧ ∃ first, f.overwriter = some first ∧ first.number ≤ o.number) ∧
      (∀ t ∈ b.traces 0, ∀ w, w.DeadIn t → ∃ f ∈ found, f.dead = w) := by
  have hinj : ∀ s ∈ b.sites 0, ∀ t ∈ b.sites 0, s.number = t.number → s = t :=
    fun s hs t ht => eq_of_number_eq hs ht
  obtain ⟨p, log, hwalk, -, hreached, hgrows⟩ :=
    walk_reached hinj b 0 hb (fun s hs => hs) rfl (reached_start (b.sites 0))
  rw [one_mul] at hreached hgrows
  have hsites : ∀ s, s ∈ p.sites ↔ ∃ t ∈ b.traces 0, s.Fate t none := by
    intro s
    rw [Pending.mem_sites]
    constructor
    · rintro ⟨v, hs⟩
      exact ((hreached.waiting v s).1 hs).2
    · intro hs
      exact ⟨_, (hreached.waiting _ s).2 ⟨rfl, hs⟩⟩
  obtain ⟨found, hcheck, hperm⟩ := check_perm hwalk order
  have hwritten : ∀ t ∈ b.traces 0, ∀ w o, w.Fate t (some (.write o)) →
      ∃ f ∈ found, f.dead = w ∧
        ∃ first, f.overwriter = some first ∧ first.number ≤ o.number := by
    intro t ht w o hfate
    obtain ⟨f, hf, hfirst⟩ := hreached.reported t ht w o hfate
    exact ⟨f, hperm.mem_iff.2 (Log.mem_reportAll hf _ _), hfirst⟩
  have hwaiting : ∀ t ∈ b.traces 0, ∀ w, w.Fate t none → ∃ f ∈ found, f.dead = w := by
    intro t ht w hfate
    have hw : w ∈ p.sites := (hsites w).2 ⟨t, ht, hfate⟩
    obtain ⟨f, hf, hnum⟩ := Log.exists_mem_reportAll log hw none
    refine ⟨f, hperm.mem_iff.2 hf, hinj _ ?_ _ (write_mem_traces ht hfate.mem) hnum⟩
    rcases Log.of_mem_reportAll hf with hf | ⟨hdead, -⟩
    · exact hreached.listed f hf
    · obtain ⟨u, hu, hfate⟩ := (hsites f.dead).1 hdead
      exact write_mem_traces hu hfate.mem
  refine ⟨found, hcheck, ?_, hwritten, ?_⟩
  · intro f hf
    rcases Log.of_mem_reportAll (hperm.mem_iff.1 hf) with hf | ⟨hdead, ho⟩
    · rcases hgrows.new f hf with hf | ⟨o, ho, hpath⟩
      · exact absurd hf List.not_mem_nil
      · rw [ho]
        exact hpath
    · rw [ho]
      exact (hsites f.dead).1 hdead
  · rintro t ht w ⟨next, hfate, hunread⟩
    rcases hfate.cases with rfl | rfl | ⟨o, rfl⟩
    · exact hwaiting t ht w hfate
    · exact absurd rfl hunread
    · obtain ⟨f, hf, hw, -⟩ := hwritten t ht w o hfate
      exact ⟨f, hf, hw⟩

/-- The findings of a check are about assignments of the program. -/
theorem exists_check {b : Block} (hb : b.complete = true) (order : ReportOrder) :
    ∃ found, b.check order = .ok found ∧ ∀ f ∈ found, f.Inside b := by
  obtain ⟨found, hcheck, hpaths, -, -⟩ := check_paths hb order
  refine ⟨found, hcheck, fun f hf => ?_⟩
  obtain ⟨t, ht, hfate⟩ := hpaths f hf
  refine ⟨write_mem_traces ht hfate.mem, fun o ho => ?_⟩
  obtain ⟨before, after, rfl, hnext⟩ := hfate
  rw [Option.mem_def.1 ho] at hnext
  refine write_mem_traces ht ?_
  simp [List.mem_of_find?_eq_some hnext]

/-- **The exact meaning of a report.**  The check succeeds, and it reports an assignment if and only
if on some path of a single pass its value is not read before the variable is written again or the
path ends. -/
theorem reported_iff_dead_on_path {b : Block} (hb : b.complete = true) (order : ReportOrder) :
    ∃ found, b.check order = .ok found ∧
      ∀ w, (∃ f ∈ found, f.dead = w) ↔ ∃ t ∈ b.traces 0, w.DeadIn t := by
  obtain ⟨found, hcheck, hpath, -, hfound⟩ := check_paths hb order
  refine ⟨found, hcheck, ?_⟩
  intro w
  constructor
  · rintro ⟨f, hf, rfl⟩
    obtain ⟨t, ht, hfate⟩ := hpath f hf
    exact ⟨t, ht, _, hfate, by cases f.overwriter <;> simp⟩
  · rintro ⟨t, ht, hdead⟩
    exact hfound t ht w hdead

/-- Of the assignments of the loop, the copy alone is dead on a path. -/
theorem reported_iff_dead_on_path_staleLoop :
    StaleLoop.program.complete = true ∧
      ∀ w, (∃ t ∈ StaleLoop.program.traces 0, w.DeadIn t) ↔ w = StaleLoop.copy := by
  obtain ⟨found, hcheck, hfound⟩ :=
    reported_iff_dead_on_path (show StaleLoop.program.complete = true by decide) .byLine
  rw [StaleLoop.check_program] at hcheck
  cases hcheck
  exact ⟨by decide, fun w => (hfound w).symm.trans (by simp [eq_comm])⟩

end Block

end StoreLint
