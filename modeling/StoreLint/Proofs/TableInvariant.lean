import StoreLint.Proofs.AllPaths
import StoreLint.Proofs.MissingStatements

/-!
# What holds of the table all along the walk

The walk changes its table with every statement: it clears variables, writes them, goes on with a
copy in each branch of an `if`, and joins the copies behind it.  This file shows what is true of the
table each time, at any depth, also if the walk fails later on.

* `Pending.Valid`: each variable in the table has assignments to it, none of them twice, and all
  from a given list of earlier ones.  `Valid.clear`, `Valid.write` and `Valid.merge` are the steps.
* `Pending.get_merge_of_valid`: a merge is a union in the order of the two tables.
* `Block.Visits`, `Block.Reaches`: the tables with which the walk comes to the statements of a
  program, and all those that it has in between.
* `Block.Front`: the assignments that stand in front of some statements in a program.
* `Block.Visits.valid` and `Block.Reaches.valid` are about what a walk comes through,
  `Block.valid_of_walk` about what it returns.
* `table_valid_throughout` puts these together.
-/

namespace StoreLint

/-! ## Valid tables -/

namespace Pending

/-- The table lists assignments out of `earlier`, each under its variable. -/
structure Valid (earlier : List Site) (p : Pending) : Prop where
  /-- A variable that is in the table has assignments. -/
  nonempty : ∀ entry ∈ p.entries, entry.2 ≠ []
  /-- No assignment is listed twice. -/
  nodup : ∀ v, ((p.get v).map Site.number).Nodup
  /-- The assignments of a variable write it. -/
  target : ∀ v, ∀ s ∈ p.get v, s.write.target = v
  /-- They are earlier ones. -/
  earlier : ∀ v, ∀ s ∈ p.get v, s ∈ earlier

theorem valid_none (earlier : List Site) : none.Valid earlier where
  nonempty := by simp [none]
  nodup := by simp
  target := by simp
  earlier := by simp

theorem forall_mem_insert {v : UInt8} {sites : List Site} (hsites : sites ≠ [])
    {entries : List (UInt8 × List Site)} (h : ∀ entry ∈ entries, entry.2 ≠ []) :
    ∀ entry ∈ insert v sites entries, entry.2 ≠ [] := by
  intro entry he
  rcases mem_insert he with rfl | he
  · exact hsites
  · exact h entry he

theorem forall_mem_merge {p : Pending} (hp : ∀ entry ∈ p.entries, entry.2 ≠ []) (q : Pending) :
    ∀ entry ∈ (p.merge q).entries, entry.2 ≠ [] := by
  refine List.foldlRecOn (motive := fun p : Pending => ∀ entry ∈ p.entries, entry.2 ≠ []) _ _ hp ?_
  intro p hp entry _
  refine List.foldlRecOn (motive := fun p : Pending => ∀ entry ∈ p.entries, entry.2 ≠ []) _ _ hp ?_
  intro p hp s _
  unfold add
  split
  · exact hp
  · exact forall_mem_insert (by simp) hp

theorem mem_or_mem_of_mem_join {first second : List Site} {s : Site} (h : s ∈ join first second) :
    s ∈ first ∨ s ∈ second := by
  induction second generalizing first with
  | nil => exact .inl h
  | cons t second ih =>
      rcases ih h with hfirst | hsecond
      · unfold enqueue at hfirst
        split at hfirst
        · exact .inl hfirst
        · exact (List.mem_append.1 hfirst).imp_right fun ht => by simp [List.mem_singleton.1 ht]
      · exact .inr (List.mem_cons_of_mem _ hsecond)

/-- Joining lists no number twice. -/
theorem nodup_join {first : List Site} (hfirst : (first.map Site.number).Nodup)
    (second : List Site) : ((join first second).map Site.number).Nodup := by
  refine List.foldlRecOn (motive := fun sites : List Site => (sites.map Site.number).Nodup) _ _
    hfirst ?_
  intro sites hsites s _
  unfold enqueue
  split
  · exact hsites
  · rename_i hnew
    rw [List.map_append, List.map_singleton, List.nodup_append]
    refine ⟨hsites, List.nodup_singleton _, ?_⟩
    rintro n hn m hm rfl
    obtain ⟨t, ht, hnumber⟩ := List.mem_map.1 hn
    exact hnew (List.any_eq_true.2 ⟨t, ht, by simp [hnumber, List.mem_singleton.1 hm]⟩)

/-- Joining puts behind the first list what is not in it, if the second has nothing twice and a
number belongs to one assignment only. -/
theorem join_eq_append {first second : List Site}
    (hinj : ∀ a ∈ first ++ second, ∀ b ∈ second, a.number = b.number → a = b)
    (hsecond : second.Nodup) : join first second = first ++ second.filter (· ∉ first) := by
  induction second generalizing first with
  | nil => simp [join]
  | cons t second ih =>
      obtain ⟨ht, hrest⟩ := List.nodup_cons.1 hsecond
      rw [join, List.foldl_cons, ← join]
      by_cases hmem : t ∈ first
      · have hold : enqueue first t = first := if_pos (List.any_eq_true.2 ⟨t, hmem, by simp⟩)
        rw [hold, ih (fun a ha b hb => hinj a (by grind) b (by simp [hb])) hrest,
          List.filter_cons_of_neg (by simpa using hmem)]
      · have hnone : ¬ (first.any fun a => a.number == t.number) = true := by
          intro hany
          obtain ⟨a, ha, hnumber⟩ := List.any_eq_true.1 hany
          have hat : a = t := hinj a (by simp [ha]) t (by simp) (by simpa using hnumber)
          exact hmem (hat ▸ ha)
        have hnew : enqueue first t = first ++ [t] := if_neg hnone
        -- what follows is different from the assignment that has just been put there
        have hfilter : second.filter (· ∉ first ++ [t]) = second.filter (· ∉ first) := by
          apply List.filter_congr
          intro s hs
          have hst : s ≠ t := fun heq => ht (heq ▸ hs)
          simp [hst]
        rw [hnew, ih (fun a ha b hb => hinj a (by simpa using ha) b (by simp [hb])) hrest, hfilter,
          List.filter_cons_of_pos (by simpa using hmem), List.append_assoc, List.singleton_append]

namespace Valid

variable {earlier : List Site} {p q : Pending}

theorem mono (h : p.Valid earlier) (later : List Site) : p.Valid (earlier ++ later) :=
  { h with earlier := fun v s hs => List.mem_append_left _ (h.earlier v s hs) }

/-- Clearing takes variables away. -/
theorem clear (h : p.Valid earlier) (names : List UInt8) : (p.clear names).Valid earlier := by
  have hsub : ∀ v, ((p.clear names).get v).Sublist (p.get v) := by
    intro v
    rw [get_clear]
    split
    · exact List.nil_sublist _
    · exact List.Sublist.refl _
  exact
    { nonempty := fun entry he => h.nonempty entry (List.mem_of_mem_filter he)
      nodup := fun v => (h.nodup v).sublist ((hsub v).map _)
      target := fun v s hs => h.target v s ((hsub v).subset hs)
      earlier := fun v s hs => h.earlier v s ((hsub v).subset hs) }

/-- An assignment takes the place of all others to its variable. -/
theorem write (h : p.Valid earlier) (site : Site) :
    (p.put site.write.target [site]).Valid (earlier ++ [site]) := by
  have hget : ∀ v, (p.put site.write.target [site]).get v = [site] ∧ v = site.write.target ∨
      (p.put site.write.target [site]).get v = p.get v := by
    intro v
    rw [get_put]
    by_cases hv : v = site.write.target
    · exact .inl ⟨if_pos hv, hv⟩
    · exact .inr (if_neg hv)
  refine ⟨forall_mem_insert (by simp) h.nonempty, ?_, ?_, ?_⟩
  · intro v
    rcases hget v with ⟨hsite, -⟩ | hold
    · simp [hsite]
    · rw [hold]
      exact h.nodup v
  · intro v s hs
    rcases hget v with ⟨hsite, hv⟩ | hold
    · rw [hsite, List.mem_singleton] at hs
      rw [hs, hv]
    · rw [hold] at hs
      exact h.target v s hs
  · intro v s hs
    rcases hget v with ⟨hsite, -⟩ | hold
    · rw [hsite] at hs
      exact List.mem_append_right _ hs
    · rw [hold] at hs
      exact List.mem_append_left _ (h.earlier v s hs)

/-- Where two branches meet, a variable has the assignments that it has in either of them. -/
theorem merge (hp : p.Valid earlier) (hq : q.Valid earlier) : (p.merge q).Valid earlier := by
  have hmem : ∀ v, ∀ s ∈ (p.merge q).get v, s ∈ p.get v ∨ s ∈ q.get v := by
    intro v s hs
    rw [get_merge] at hs
    exact mem_or_mem_of_mem_join hs
  refine ⟨forall_mem_merge hp.nonempty q, ?_, ?_, ?_⟩
  · intro v
    rw [get_merge]
    exact nodup_join (hp.nodup v) (q.get v)
  · intro v s hs
    exact (hmem v s hs).elim (hp.target v s) (hq.target v s)
  · intro v s hs
    exact (hmem v s hs).elim (hp.earlier v s) (hq.earlier v s)

end Valid

/-- A merge has the assignments of the first table in their order, and then those of the second that
are not in the first, in theirs. -/
theorem get_merge_of_valid {earlier : List Site} (hdistinct : (earlier.map Site.number).Nodup)
    {p q : Pending} (hp : p.Valid earlier) (hq : q.Valid earlier) (v : UInt8) :
    (p.merge q).get v = p.get v ++ (q.get v).filter (· ∉ p.get v) := by
  have hearlier : ∀ a ∈ p.get v ++ q.get v, a ∈ earlier := fun a ha =>
    (List.mem_append.1 ha).elim (hp.earlier v a) (hq.earlier v a)
  rw [get_merge]
  refine join_eq_append (fun a ha b hb hnumber => ?_) (hq.nodup v).of_map
  exact List.inj_on_of_nodup_map hdistinct (hearlier a ha) (hq.earlier v b hb) hnumber

end Pending

/-! ## The states of a walk -/

namespace Block

/-- From the first table, the replay of a body comes through the second. -/
inductive Replays : Block → Pending → Pending → Prop where
  | here {b : Block} {p : Pending} : Replays b p p
  | assign {write : Assign} {rest : Block} {p p' : Pending}
      (later : Replays rest (p.clear write.value.reads) p') : Replays (.assign write rest) p p'
  | yes {line : Int} {cond : Expr} {yes no rest : Block} {p p' : Pending}
      (inside : Replays yes (p.clear cond.reads) p') : Replays (.branch line cond yes no rest) p p'
  | no {line : Int} {cond : Expr} {yes no rest : Block} {p q p' : Pending}
      (first : yes.replay (p.clear cond.reads) = .ok q) (inside : Replays no q p') :
      Replays (.branch line cond yes no rest) p p'
  | branch {line : Int} {cond : Expr} {yes no rest : Block} {p q q' p' : Pending}
      (first : yes.replay (p.clear cond.reads) = .ok q) (second : no.replay q = .ok q')
      (later : Replays rest q' p') : Replays (.branch line cond yes no rest) p p'
  | body {line : Int} {cond : Expr} {body rest : Block} {p p' : Pending}
      (inside : Replays body (p.clear cond.reads) p') : Replays (.loop line cond body rest) p p'
  | loop {line : Int} {cond : Expr} {body rest : Block} {p q p' : Pending}
      (round : body.replay (p.clear cond.reads) = .ok q) (later : Replays rest q p') :
      Replays (.loop line cond body rest) p p'

/-- From a table and a log, the walk through the first statements comes to the second ones, with the
second table and log. -/
inductive Visits : Block → Pending → Log → Block → Pending → Log → Prop where
  | here {b : Block} {p : Pending} {log : Log} : Visits b p log b p log
  | assign {write : Assign} {rest b' : Block} {p p' : Pending} {log log' : Log}
      (later : Visits rest ((p.clear write.value.reads).put write.target [⟨log.next, write⟩])
        (log.overwrite ((p.clear write.value.reads).get write.target) ⟨log.next, write⟩)
        b' p' log') :
      Visits (.assign write rest) p log b' p' log'
  | yes {line : Int} {cond : Expr} {yes no rest b' : Block} {p p' : Pending} {log log' : Log}
      (inside : Visits yes (p.clear cond.reads) log b' p' log') :
      Visits (.branch line cond yes no rest) p log b' p' log'
  /-- The second branch starts with the table with which the first one did. -/
  | no {line : Int} {cond : Expr} {yes no rest b' : Block} {p q p' : Pending} {log log₁ log' : Log}
      (first : yes.walk (p.clear cond.reads) log = .ok (q, log₁))
      (inside : Visits no (p.clear cond.reads) log₁ b' p' log') :
      Visits (.branch line cond yes no rest) p log b' p' log'
  | branch {line : Int} {cond : Expr} {yes no rest b' : Block} {p q q' p' : Pending}
      {log log₁ log₂ log' : Log} (first : yes.walk (p.clear cond.reads) log = .ok (q, log₁))
      (second : no.walk (p.clear cond.reads) log₁ = .ok (q', log₂))
      (later : Visits rest (q.merge q') log₂ b' p' log') :
      Visits (.branch line cond yes no rest) p log b' p' log'
  | body {line : Int} {cond : Expr} {body rest b' : Block} {p p' : Pending} {log log' : Log}
      (inside : Visits body (p.clear cond.reads) log b' p' log') :
      Visits (.loop line cond body rest) p log b' p' log'
  | loop {line : Int} {cond : Expr} {body rest b' : Block} {p q q' p' : Pending}
      {log log₁ log' : Log}
      (round : body.walk (p.clear cond.reads) log = .ok (q, log₁))
      (replayed : body.replay q = .ok q')
      (later : Visits rest (q'.clear cond.reads) log₁ b' p' log') :
      Visits (.loop line cond body rest) p log b' p' log'

/-- The table in the middle of a statement: when the value of an assignment has been read, or while
the body of a `while` is replayed.  In the end stand the statements that are to come. -/
inductive Amid : Block → Pending → Log → Block → Pending → Log → Prop where
  | value {write : Assign} {rest : Block} {p : Pending} {log : Log} :
      Amid (.assign write rest) p log (.assign write rest) (p.clear write.value.reads) log
  | replay {line : Int} {cond : Expr} {body rest : Block} {p q p' : Pending} {log log' : Log}
      (round : body.walk (p.clear cond.reads) log = .ok (q, log')) (replayed : Replays body q p') :
      Amid (.loop line cond body rest) p log rest p' log'

/-- From a table and a log, the walk through the first statements has the second table and log when
the second statements are to come. -/
inductive Reaches (b : Block) (p : Pending) (log : Log) (b' : Block) (p' : Pending) (log' : Log) :
    Prop where
  | before (visit : Visits b p log b' p' log')
  | amid {b₁ : Block} {p₁ : Pending} {log₁ : Log} (visit : Visits b p log b₁ p₁ log₁)
      (amid : Amid b₁ p₁ log₁ b' p' log')

theorem Visits.trans {b b₁ b' : Block} {p p₁ p' : Pending} {log log₁ log' : Log}
    (h : Visits b p log b₁ p₁ log₁) (h' : Visits b₁ p₁ log₁ b' p' log') :
    Visits b p log b' p' log' := by
  induction h with
  | here => exact h'
  | assign _ ih => exact .assign (ih h')
  | yes _ ih => exact .yes (ih h')
  | no first _ ih => exact .no first (ih h')
  | branch first second _ ih => exact .branch first second (ih h')
  | body _ ih => exact .body (ih h')
  | loop round replayed _ ih => exact .loop round replayed (ih h')

/-- What a walk returns is the table at the end of the statements. -/
theorem visits_of_walk {b : Block} {p p' : Pending} {log log' : Log}
    (h : b.walk p log = .ok (p', log')) : Visits b p log .empty p' log' := by
  induction b generalizing p log with
  | empty =>
      cases h
      exact .here
  | assign write rest ih =>
      rw [walk_assign] at h
      exact .assign (ih h)
  | branch line cond yes no rest _ _ ih =>
      obtain ⟨q, log₁, q', log₂, hyes, hno, hrest⟩ := walk_branch_ok_iff.1 h
      exact .branch hyes hno (ih hrest)
  | loop line cond body rest _ ih =>
      obtain ⟨q, log₁, q', hbody, hreplay, hrest⟩ := walk_loop_ok_iff.1 h
      exact .loop hbody hreplay (ih hrest)
  | missing rest ih => cases h

/-- A replay that goes through has cleared some variables. -/
theorem exists_clear_of_replay {b : Block} {p q : Pending} (h : b.replay p = .ok q) :
    ∃ names, q = p.clear names := by
  have hcomplete : b.complete = true := by
    rw [← isOk_replay b p, h]
    rfl
  rw [replay_eq hcomplete] at h
  cases h
  exact ⟨b.reads, rfl⟩

/-- All that a replay does is clear variables. -/
theorem Replays.exists_clear {b : Block} {p p' : Pending} (h : Replays b p p') :
    ∃ names, p' = p.clear names := by
  induction h with
  | here => exact ⟨[], by simp [Pending.clear]⟩
  | assign _ ih | yes _ ih | body _ ih =>
      obtain ⟨names, rfl⟩ := ih
      exact ⟨_, Pending.clear_clear ..⟩
  | no first _ ih | loop first _ ih =>
      obtain ⟨names, rfl⟩ := ih
      obtain ⟨names', rfl⟩ := exists_clear_of_replay first
      exact ⟨_, by rw [Pending.clear_clear, Pending.clear_clear]⟩
  | branch first second _ ih =>
      obtain ⟨names, rfl⟩ := ih
      obtain ⟨names', rfl⟩ := exists_clear_of_replay second
      obtain ⟨names'', rfl⟩ := exists_clear_of_replay first
      exact ⟨_, by rw [Pending.clear_clear, Pending.clear_clear, Pending.clear_clear]⟩

/-! ## Assignments in front of statements -/

theorem length_sites (b : Block) (n : Nat) : (b.sites n).length = b.assignments := by
  have hlength := congrArg List.length (map_number_sites b n)
  rwa [List.length_map, List.length_range'] at hlength

/-- In the first statements, with assignments numbered from `n` on, the assignments `before` are
those in front of the second statements. -/
def Front (b : Block) (n : Nat) (b' : Block) (before : List Site) : Prop :=
  ∃ after, b.sites n = before ++ b'.sites (n + before.length) ++ after

namespace Front

variable {n : Nat} {line : Int} {cond : Expr} {yes no body rest : Block}

theorem refl (b : Block) (n : Nat) : Front b n b [] :=
  ⟨[], by simp⟩

theorem trans {b b₁ b' : Block} {front before : List Site} (h : Front b n b₁ front)
    (h' : Front b₁ (n + front.length) b' before) : Front b n b' (front ++ before) := by
  obtain ⟨after, hb⟩ := h
  obtain ⟨after', hb₁⟩ := h'
  refine ⟨after' ++ after, ?_⟩
  rw [hb, hb₁, List.length_append, Nat.add_assoc]
  simp only [List.append_assoc]

theorem behindAssign (write : Assign) : Front (.assign write rest) n rest [⟨n, write⟩] :=
  ⟨[], by simp [sites]⟩

theorem inYes : Front (.branch line cond yes no rest) n yes [] :=
  ⟨no.sites (n + yes.assignments) ++ rest.sites (n + yes.assignments + no.assignments),
    by simp [sites]⟩

theorem inNo : Front (.branch line cond yes no rest) n no (yes.sites n) :=
  ⟨rest.sites (n + yes.assignments + no.assignments), by simp [sites, length_sites]⟩

theorem behindBranch : Front (.branch line cond yes no rest) n rest
    (yes.sites n ++ no.sites (n + (yes.sites n).length)) :=
  ⟨[], by simp [sites, length_sites, Nat.add_assoc]⟩

theorem inBody : Front (.loop line cond body rest) n body [] :=
  ⟨rest.sites (n + body.assignments), by simp [sites]⟩

theorem behindLoop : Front (.loop line cond body rest) n rest (body.sites n) :=
  ⟨[], by simp [sites, length_sites]⟩

end Front

/-- The assignments are numbered from zero on, and `n` is the next number. -/
def Numbered (earlier : List Site) (n : Nat) : Prop :=
  earlier.map Site.number = List.range n

theorem Numbered.nodup {earlier : List Site} {n : Nat} (h : Numbered earlier n) :
    (earlier.map Site.number).Nodup := by
  rw [h]
  exact List.nodup_range

/-- Numbering goes on with the assignments in front of later statements. -/
theorem Numbered.front {earlier before : List Site} {n : Nat} (h : Numbered earlier n)
    {b b' : Block} (hfront : Front b n b' before) :
    Numbered (earlier ++ before) (n + before.length) := by
  obtain ⟨after, hsites⟩ := hfront
  have hnumbers := map_number_sites b n
  have hlength := length_sites b n
  rw [hsites, List.append_assoc, List.length_append] at hlength
  rw [hsites, List.append_assoc, List.map_append, ← hlength, ← List.range'_append_1] at hnumbers
  have hbefore : before.map Site.number = List.range' n before.length :=
    List.append_inj_left hnumbers (by simp)
  have hsplit := @List.range'_append_1 0 n before.length
  rw [Nat.zero_add, ← List.range_eq_range', ← List.range_eq_range'] at hsplit
  rw [Numbered, List.map_append, h, hbefore, hsplit]

/-! ## The walk keeps the table valid -/

/-- The table is valid where the second statements of the first ones are to come.  In front of the
first ones there are the assignments `earlier`, which are `n` many. -/
def ValidAt (b : Block) (n : Nat) (earlier : List Site) (b' : Block) (p : Pending) (log : Log) :
    Prop :=
  ∃ before, Front b n b' before ∧ log.next = n + before.length ∧ p.Valid (earlier ++ before)

theorem ValidAt.here (b : Block) {earlier : List Site} {p : Pending} {log : Log}
    (hp : p.Valid earlier) : ValidAt b log.next earlier b p log :=
  ⟨[], Front.refl b _, rfl, by rwa [List.append_nil]⟩

theorem ValidAt.within {b b₁ b' : Block} {n : Nat} {earlier front : List Site} {p : Pending}
    {log : Log} (hfront : Front b n b₁ front)
    (h : ValidAt b₁ (n + front.length) (earlier ++ front) b' p log) :
    ValidAt b n earlier b' p log := by
  obtain ⟨before, hbefore, hnext, hvalid⟩ := h
  refine ⟨front ++ before, hfront.trans hbefore, ?_, ?_⟩
  · rw [hnext, List.length_append, Nat.add_assoc]
  · rwa [List.append_assoc] at hvalid

theorem next_walk {b : Block} {p p' : Pending} {log log' : Log}
    (h : b.walk p log = .ok (p', log')) : log'.next = log.next + b.assignments := by
  induction b generalizing p p' log log' with
  | empty =>
      cases h
      rfl
  | assign write rest ih =>
      rw [walk_assign] at h
      rw [ih h, Log.next_overwrite, assignments]
      omega
  | branch line cond yes no rest ihyes ihno ih =>
      obtain ⟨q, log₁, q', log₂, hyes, hno, hrest⟩ := walk_branch_ok_iff.1 h
      rw [ih hrest, ihno hno, ihyes hyes, assignments]
      omega
  | loop line cond body rest ihbody ih =>
      obtain ⟨q, log₁, q', hbody, -, hrest⟩ := walk_loop_ok_iff.1 h
      rw [ih hrest, ihbody hbody, assignments]
      omega
  | missing rest ih => cases h

/-- If the table is valid at all visits of a walk, then so is what the walk returns, behind all its
statements. -/
theorem valid_of_walk {b : Block} {p p' : Pending} {log log' : Log} {earlier : List Site}
    (hvisits : ∀ b' p' log', Visits b p log b' p' log' → ValidAt b log.next earlier b' p' log')
    (h : b.walk p log = .ok (p', log')) :
    log'.next = log.next + (b.sites log.next).length ∧ p'.Valid (earlier ++ b.sites log.next) := by
  obtain ⟨before, ⟨after, hsites⟩, hnext, hvalid⟩ := hvisits _ _ _ (visits_of_walk h)
  have hlength := next_walk h
  rw [← length_sites b log.next] at hlength
  refine ⟨hlength, ?_⟩
  -- the assignments in front of the end are as many as there are
  have hafter : after = [] := by
    have hsum := congrArg List.length hsites
    simp only [List.length_append, sites, List.length_nil] at hsum
    exact List.length_eq_zero_iff.1 (by omega)
  rw [hafter, sites, List.append_nil, List.append_nil] at hsites
  rwa [hsites]

/-- **The table is valid at every visit.**  From a table that is valid in front of some statements,
the walk comes to each of them with one that is valid there. -/
theorem Visits.valid {b b' : Block} {p p' : Pending} {log log' : Log}
    (h : Visits b p log b' p' log') {earlier : List Site} (hn : Numbered earlier log.next)
    (hp : p.Valid earlier) :
    ValidAt b log.next earlier b' p' log' := by
  induction b generalizing p log b' p' log' earlier with
  | empty =>
      cases h
      exact .here _ hp
  | assign write rest ih =>
      cases h with
      | here => exact .here _ hp
      | assign later =>
          have hfront : Front (.assign write rest) log.next rest [⟨log.next, write⟩] :=
            .behindAssign write
          have hsite := (hp.clear write.value.reads).write ⟨log.next, write⟩
          have hrest := ih later (by rw [Log.next_overwrite]; exact hn.front hfront) hsite
          rw [Log.next_overwrite] at hrest
          exact .within hfront hrest
  | branch line cond yes no rest ihyes ihno ih =>
      have hclear := hp.clear cond.reads
      have hfront : Front (.branch line cond yes no rest) log.next no (yes.sites log.next) := .inNo
      have hyes : ∀ {q log₁}, yes.walk (p.clear cond.reads) log = .ok (q, log₁) →
          log₁.next = log.next + (yes.sites log.next).length ∧
            q.Valid (earlier ++ yes.sites log.next) :=
        valid_of_walk fun _ _ _ hvisit => ihyes hvisit hn hclear
      -- the second branch has the table of the first, and the numbers behind it
      have hno : ∀ {log₁ b' p' log'}, log₁.next = log.next + (yes.sites log.next).length →
          Visits no (p.clear cond.reads) log₁ b' p' log' →
          ValidAt no log₁.next (earlier ++ yes.sites log.next) b' p' log' := by
        intro log₁ b' p' log' hnext hvisit
        exact ihno hvisit (by rw [hnext]; exact hn.front hfront) (hclear.mono _)
      cases h with
      | here => exact .here _ hp
      | yes inside => exact .within .inYes (by simpa using ihyes inside hn hclear)
      | no first inside =>
          have hnext := (hyes first).1
          have hinside := hno hnext inside
          rw [hnext] at hinside
          exact .within hfront hinside
      | branch first second later =>
          obtain ⟨hnext, hq⟩ := hyes first
          obtain ⟨hnext', hq'⟩ := valid_of_walk (fun _ _ _ hvisit => hno hnext hvisit) second
          have hbehind : Front (.branch line cond yes no rest) log.next rest (yes.sites log.next ++
              no.sites (log.next + (yes.sites log.next).length)) := .behindBranch
          have hmeet := (hq.mono _).merge hq'
          rw [hnext, Nat.add_assoc, ← List.length_append] at hnext'
          rw [hnext, List.append_assoc] at hmeet
          have hrest := ih later (by rw [hnext']; exact hn.front hbehind) hmeet
          rw [hnext'] at hrest
          exact .within hbehind hrest
  | loop line cond body rest ihbody ih =>
      have hclear := hp.clear cond.reads
      cases h with
      | here => exact .here _ hp
      | body inside => exact .within .inBody (by simpa using ihbody inside hn hclear)
      | loop round replayed later =>
          have hfront : Front (.loop line cond body rest) log.next rest (body.sites log.next) :=
            .behindLoop
          obtain ⟨hnext, hq⟩ := valid_of_walk (fun _ _ _ hvisit => ihbody hvisit hn hclear) round
          obtain ⟨names, rfl⟩ := exists_clear_of_replay replayed
          have hrest :=
            ih later (by rw [hnext]; exact hn.front hfront) ((hq.clear names).clear cond.reads)
          rw [hnext] at hrest
          exact .within hfront hrest
  | missing rest ih =>
      cases h
      exact .here _ hp

/-- The table is valid also in the middle of statements. -/
theorem Reaches.valid {b b' : Block} {p p' : Pending} {log log' : Log}
    (h : Reaches b p log b' p' log') {earlier : List Site} (hn : Numbered earlier log.next)
    (hp : p.Valid earlier) :
    ValidAt b log.next earlier b' p' log' := by
  cases h with
  | before visit => exact visit.valid hn hp
  | amid visit amid =>
      obtain ⟨before, hfront, hnext, hvalid⟩ := visit.valid hn hp
      cases amid with
      | value => exact ⟨before, hfront, hnext, hvalid.clear _⟩
      | replay round replayed =>
          -- the assignments of the body are in the table by now, and in front of what is to come
          have hnumbered := hn.front hfront
          rw [← hnext] at hnumbered
          obtain ⟨hnext', hq⟩ :=
            valid_of_walk (fun _ _ _ hvisit => hvisit.valid hnumbered (hvalid.clear _)) round
          obtain ⟨names, rfl⟩ := replayed.exists_clear
          refine .within hfront ?_
          rw [← hnext]
          exact ⟨_, .behindLoop, hnext', hq.clear names⟩

end Block

/-- **The table is valid throughout the walk.**

* Whenever the walk of a program comes to some statements, and also in the middle of a statement,
  the table lists assignments from in front of what is to come.
* What the walk of any list of statements returns is valid behind that list.
* Both branches of an `if` start from the same table, whatever the first one has done to its own.
* A merge of valid tables is valid.  It has the assignments of the first table in their order, and
  then the others of the second in theirs. -/
theorem table_valid_throughout (b : Block) :
    (∀ b' p log, b.Reaches .none .start b' p log →
      ∃ before, b.Front 0 b' before ∧ log.next = before.length ∧ p.Valid before) ∧
    (∀ b' p log p' log', b.Visits .none .start b' p log → b'.walk p log = .ok (p', log') →
      b.Visits .none .start .empty p' log' ∧
        ∃ before, b.Front 0 b' before ∧ p'.Valid (before ++ b'.sites before.length)) ∧
    (∀ line cond yes no rest p log, b.Visits .none .start (.branch line cond yes no rest) p log →
      b.Visits .none .start yes (p.clear cond.reads) log ∧
        ∀ q log₁, yes.walk (p.clear cond.reads) log = .ok (q, log₁) →
          b.Visits .none .start no (p.clear cond.reads) log₁) ∧
    ∀ (earlier : List Site) (p q : Pending), (earlier.map Site.number).Nodup → p.Valid earlier →
      q.Valid earlier → (p.merge q).Valid earlier ∧
        ∀ v, (p.merge q).get v = p.get v ++ (q.get v).filter (· ∉ p.get v) := by
  have hstart : Block.Numbered [] Log.start.next := rfl
  refine ⟨?_, ?_, ?_, ?_⟩
  · intro b' p log hreaches
    obtain ⟨before, hfront, hnext, hvalid⟩ := hreaches.valid hstart (Pending.valid_none [])
    exact ⟨before, hfront, hnext.trans (Nat.zero_add _), hvalid⟩
  · intro b' p log p' log' hvisits hwalk
    obtain ⟨before, hfront, hnext, hvalid⟩ := hvisits.valid hstart (Pending.valid_none [])
    have hnumbered := hstart.front hfront
    rw [← hnext] at hnumbered
    obtain ⟨-, hreturned⟩ :=
      Block.valid_of_walk (fun _ _ _ hvisit => hvisit.valid hnumbered hvalid) hwalk
    have hlength : log.next = before.length := hnext.trans (Nat.zero_add _)
    rw [hlength] at hreturned
    exact ⟨hvisits.trans (Block.visits_of_walk hwalk), before, hfront, hreturned⟩
  · intro line cond yes no rest p log hvisits
    refine ⟨hvisits.trans (.yes .here), ?_⟩
    intro q log₁ hyes
    exact hvisits.trans (.no hyes .here)
  · intro earlier p q hdistinct hp hq
    exact ⟨hp.merge hq, Pending.get_merge_of_valid hdistinct hp hq⟩

namespace Block

/-- An `if` whose branches write one variable, and another assignment to it. -/
def parting : Block :=
  .branch 1 (.variable 0x63) (.assign ⟨⟨2, 3⟩, 0x78, .variable 0x61⟩ .empty)
    (.assign ⟨⟨4, 3⟩, 0x78, .variable 0x62⟩ .empty) (.assign ⟨⟨6, 1⟩, 0x78, .variable 0x64⟩ .empty)

/-- Two assignments wait where the branches meet, both from in front of the third.  A merge of that
table with itself lists none of them again. -/
theorem table_valid_throughout_parting :
    ∃ p log, parting.Visits .none .start (.assign ⟨⟨6, 1⟩, 0x78, .variable 0x64⟩ .empty) p log ∧
      p.get 0x78 = [⟨0, ⟨2, 3⟩, 0x78, .variable 0x61⟩, ⟨1, ⟨4, 3⟩, 0x78, .variable 0x62⟩] ∧
      (∃ before, parting.Front 0 (.assign ⟨⟨6, 1⟩, 0x78, .variable 0x64⟩ .empty) before ∧
        log.next = before.length ∧ p.Valid before) ∧
      (∀ v, (p.merge p).get v = p.get v ++ (p.get v).filter (· ∉ p.get v)) ∧
      ∃ p' log' before, parting.walk .none .start = .ok (p', log') ∧
        parting.Front 0 parting before ∧
        p'.Valid (before ++ parting.sites before.length) := by
  obtain ⟨hreaches, hreturned, -, hmerge⟩ := table_valid_throughout parting
  have hvisits : parting.Visits .none .start (.assign ⟨⟨6, 1⟩, 0x78, .variable 0x64⟩ .empty) _ _ :=
    .branch rfl rfl .here
  obtain ⟨before, hfront, hnext, hvalid⟩ := hreaches _ _ _ (.before hvisits)
  have hdistinct := Numbered.nodup (.front (show Numbered [] 0 from rfl) hfront)
  obtain ⟨-, whole, hwhole, hbehind⟩ := hreturned _ _ _ _ _ .here rfl
  exact ⟨_, _, hvisits, rfl, ⟨before, hfront, hnext, hvalid⟩,
    (hmerge _ _ _ hdistinct hvalid hvalid).2,
    _, _, whole, rfl, hwhole, hbehind⟩

end Block

end StoreLint
