import StoreLint.Findings.Check
import Mathlib.Computability.Language
import Mathlib.Order.CompletePartialOrder

/-!
# What a program does to its variables

A path through a program is a list of accesses, each a read of a variable or a write by an
assignment.  Two sets of paths belong to a program.

* `Block.runs`: the executions.  At every `if` either branch is taken, and the body of a `while` is
  run any number of times; its condition is read before every round and once more at the end.
* `Block.traces`: the paths of a single pass.  The body of a `while` is run once, and then
  everything that the body or the condition reads is read.

Both are languages over accesses: one statement after the other is a product, a choice is a sum, and
any number of rounds is a star.

What becomes of a value is said by `Site.Fate`: after an assignment occurs on a path, the next
access to its variable is a read, a write, or there is none.
-/

namespace StoreLint

open Computability

/-- What a path does to a variable. -/
inductive Access where
  /-- A variable is read. -/
  | read (name : UInt8)
  /-- An assignment writes its variable. -/
  | write (site : Site)
  deriving DecidableEq, Repr

/-- Is the variable the one that is read or written? -/
def Access.touches (v : UInt8) : Access → Bool
  | .read name => name == v
  | .write site => site.write.target == v

/-- The reads of some variables, one after the other. -/
def readsOf (names : List UInt8) : List Access :=
  names.map .read

/-- The first access to the variable. -/
def nextUse (v : UInt8) (t : List Access) : Option Access :=
  t.find? (Access.touches v)

namespace Site

/-- After an occurrence of the assignment on the path, `next` is what happens next to its
variable. -/
def Fate (w : Site) (t : List Access) (next : Option Access) : Prop :=
  ∃ before after, t = before ++ .write w :: after ∧ nextUse w.write.target after = next

/-- The value that some occurrence of the assignment writes is read. -/
def ReadIn (w : Site) (t : List Access) : Prop :=
  w.Fate t (some (.read w.write.target))

/-- The value that some occurrence of the assignment writes is not read: the variable is written
again first, or the path ends. -/
def DeadIn (w : Site) (t : List Access) : Prop :=
  ∃ next, w.Fate t next ∧ next ≠ some (.read w.write.target)

end Site

/-! ## Programs as sets of paths -/

/-- A `while` in a program: the number of the first assignment of its body, its condition and its
body. -/
structure Loop where
  first : Nat
  cond : Expr
  body : Block
  deriving DecidableEq, Repr

namespace Block

/-- The variables that are read anywhere in the statements. -/
def reads : Block → List UInt8
  | .empty => []
  | .assign write rest => write.value.reads ++ rest.reads
  | .branch _ cond yes no rest => cond.reads ++ yes.reads ++ no.reads ++ rest.reads
  | .loop _ cond body rest => cond.reads ++ body.reads ++ rest.reads
  | .missing rest => rest.reads

/-- The assignments in the order of the text, numbered from `n` on. -/
def sites : Block → Nat → List Site
  | .empty, _ => []
  | .assign write rest, n => ⟨n, write⟩ :: rest.sites (n + 1)
  | .branch _ _ yes no rest, n =>
    yes.sites n ++ no.sites (n + yes.assignments) ++
      rest.sites (n + yes.assignments + no.assignments)
  | .loop _ _ body rest, n => body.sites n ++ rest.sites (n + body.assignments)
  | .missing rest, n => rest.sites n

/-- All `while` statements at any depth, with assignments numbered from `n` on. -/
def loops : Block → Nat → List Loop
  | .empty, _ => []
  | .assign _ rest, n => rest.loops (n + 1)
  | .branch _ _ yes no rest, n =>
    yes.loops n ++ no.loops (n + yes.assignments) ++
      rest.loops (n + yes.assignments + no.assignments)
  | .loop _ cond body rest, n =>
    ⟨n, cond, body⟩ :: (body.loops n ++ rest.loops (n + body.assignments))
  | .missing rest, n => rest.loops n

/-- The paths of a single pass, with assignments numbered from `n` on.  After the body of a `while`
come the reads of the whole body and of the condition, which stand for the rounds to follow. -/
def traces : Block → Nat → Language Access
  | .empty, _ => 1
  | .assign write rest, n =>
    {readsOf write.value.reads} * {[.write ⟨n, write⟩]} * rest.traces (n + 1)
  | .branch _ cond yes no rest, n =>
    {readsOf cond.reads} * (yes.traces n + no.traces (n + yes.assignments)) *
      rest.traces (n + yes.assignments + no.assignments)
  | .loop _ cond body rest, n =>
    {readsOf cond.reads} * body.traces n * {readsOf body.reads} * {readsOf cond.reads} *
      rest.traces (n + body.assignments)
  | .missing _, _ => 0

/-- The executions, with assignments numbered from `n` on. -/
def runs : Block → Nat → Language Access
  | .empty, _ => 1
  | .assign write rest, n =>
    {readsOf write.value.reads} * {[.write ⟨n, write⟩]} * rest.runs (n + 1)
  | .branch _ cond yes no rest, n =>
    {readsOf cond.reads} * (yes.runs n + no.runs (n + yes.assignments)) *
      rest.runs (n + yes.assignments + no.assignments)
  | .loop _ cond body rest, n =>
    ({readsOf cond.reads} * body.runs n)∗ * {readsOf cond.reads} *
      rest.runs (n + body.assignments)
  | .missing _, _ => 0

end Block

/-! ## The next use of a variable -/

@[simp] theorem nextUse_nil (v : UInt8) : nextUse v [] = none := rfl

theorem nextUse_append (v : UInt8) (t u : List Access) :
    nextUse v (t ++ u) = (nextUse v t).or (nextUse v u) :=
  List.find?_append

@[simp] theorem nextUse_write (v : UInt8) (s : Site) :
    nextUse v [.write s] = if s.write.target = v then some (.write s) else none := by
  by_cases h : s.write.target = v <;> simp [nextUse, Access.touches, h]

@[simp] theorem nextUse_readsOf (v : UInt8) (names : List UInt8) :
    nextUse v (readsOf names) = if v ∈ names then some (.read v) else none := by
  induction names with
  | nil => rfl
  | cons u rest ih =>
      by_cases hu : u = v
      · simp [nextUse, readsOf, Access.touches, hu]
      · have hstep : nextUse v (readsOf (u :: rest)) = nextUse v (readsOf rest) := by
          simp [nextUse, readsOf, Access.touches, hu]
        rw [hstep, ih]
        simp [Ne.symm hu]

/-- What happens next to a variable is a read of it or a write. -/
theorem nextUse_cases {v : UInt8} {t : List Access} {e : Access} (h : nextUse v t = some e) :
    e = .read v ∨ ∃ s, e = .write s := by
  have htouch : e.touches v = true := List.find?_some h
  cases e with
  | read name => exact Or.inl (by rw [eq_of_beq htouch])
  | write site => exact Or.inr ⟨site, rfl⟩

/-! ## Fates on a path in two parts -/

namespace Site

/-- An assignment on a path in two parts stands in the first part, and then what comes next may lie
in the second, or it stands in the second. -/
theorem fate_append {w : Site} {t u : List Access} {next : Option Access} :
    w.Fate (t ++ u) next ↔
      (∃ near, w.Fate t near ∧ near.or (nextUse w.write.target u) = next) ∨ w.Fate u next := by
  constructor
  · rintro ⟨before, after, heq, hnext⟩
    rcases List.append_eq_append_iff.1 heq with ⟨mid, rfl, rfl⟩ | ⟨mid, rfl, hmid⟩
    · exact Or.inr ⟨mid, after, rfl, hnext⟩
    · cases mid with
      | nil => exact Or.inr ⟨[], after, hmid.symm, hnext⟩
      | cons first mid =>
          obtain ⟨rfl, rfl⟩ := List.cons.inj hmid
          exact Or.inl ⟨_, ⟨before, mid, rfl, rfl⟩, by rw [← nextUse_append]; exact hnext⟩
  · rintro (⟨near, ⟨before, after, rfl, rfl⟩, rfl⟩ | ⟨before, after, rfl, hnext⟩)
    · exact ⟨before, after ++ u, by simp, nextUse_append ..⟩
    · exact ⟨t ++ before, after, by simp, hnext⟩

theorem Fate.append_left {w : Site} {t : List Access} {next : Option Access} (h : w.Fate t next)
    (u : List Access) : w.Fate (t ++ u) (next.or (nextUse w.write.target u)) :=
  fate_append.2 (Or.inl ⟨next, h, rfl⟩)

theorem Fate.append_right {w : Site} {u : List Access} {next : Option Access} (h : w.Fate u next)
    (t : List Access) : w.Fate (t ++ u) next :=
  fate_append.2 (Or.inr h)

theorem Fate.mem {w : Site} {t : List Access} {next : Option Access} (h : w.Fate t next) :
    .write w ∈ t := by
  obtain ⟨before, after, rfl, -⟩ := h
  simp

@[simp] theorem not_fate_nil (w : Site) (next : Option Access) : ¬ w.Fate [] next := by
  intro h
  exact List.not_mem_nil h.mem

@[simp] theorem not_fate_readsOf (w : Site) (names : List UInt8) (next : Option Access) :
    ¬ w.Fate (readsOf names) next := by
  intro h
  obtain ⟨name, -, heq⟩ := List.mem_map.1 h.mem
  cases heq

theorem fate_cons {w : Site} {a : Access} {t : List Access} {next : Option Access} :
    w.Fate (a :: t) next ↔ a = .write w ∧ nextUse w.write.target t = next ∨ w.Fate t next := by
  constructor
  · rintro ⟨before, after, heq, hnext⟩
    cases before with
    | nil =>
        obtain ⟨ha, rfl⟩ := List.cons.inj heq
        exact Or.inl ⟨ha, hnext⟩
    | cons first before =>
        obtain ⟨-, rfl⟩ := List.cons.inj heq
        exact Or.inr ⟨before, after, rfl, hnext⟩
  · rintro (⟨rfl, hnext⟩ | ⟨before, after, rfl, hnext⟩)
    · exact ⟨[], t, rfl, hnext⟩
    · exact ⟨a :: before, after, rfl, hnext⟩

@[simp] theorem fate_write {w s : Site} {next : Option Access} :
    w.Fate [.write s] next ↔ s = w ∧ next = none := by
  simp [fate_cons, eq_comm]

theorem fate_append_readsOf_none {w : Site} {t : List Access} {names : List UInt8} :
    w.Fate (t ++ readsOf names) none ↔ w.Fate t none ∧ w.write.target ∉ names := by
  simp [fate_append]

theorem fate_append_readsOf_write {w s : Site} {t : List Access} {names : List UInt8} :
    w.Fate (t ++ readsOf names) (some (.write s)) ↔ w.Fate t (some (.write s)) := by
  simp [fate_append]

theorem fate_append_write_none {w s : Site} {t : List Access} :
    w.Fate (t ++ [.write s]) none ↔ w.Fate t none ∧ s.write.target ≠ w.write.target ∨ s = w := by
  simp [fate_append]

theorem fate_append_write_write {w s o : Site} {t : List Access} :
    w.Fate (t ++ [.write s]) (some (.write o)) ↔
      w.Fate t (some (.write o)) ∨ w.Fate t none ∧ s.write.target = w.write.target ∧ s = o := by
  simp only [fate_append, fate_write, nextUse_write, Option.or_eq_some_iff]
  constructor
  · rintro (⟨near, h, rfl | ⟨rfl, hs⟩⟩ | ⟨-, hs⟩)
    · exact Or.inl h
    · exact Or.inr ⟨h, by simpa using hs⟩
    · exact absurd hs (by simp)
  · rintro (h | ⟨h, hs⟩)
    · exact Or.inl ⟨_, h, Or.inl rfl⟩
    · exact Or.inl ⟨_, h, Or.inr ⟨rfl, by simpa using hs⟩⟩

/-- A fate is a read of the variable, a write, or nothing. -/
theorem Fate.cases {w : Site} {t : List Access} {next : Option Access} (h : w.Fate t next) :
    next = none ∨ next = some (.read w.write.target) ∨ ∃ s, next = some (.write s) := by
  obtain ⟨before, after, -, hnext⟩ := h
  cases next with
  | none => exact Or.inl rfl
  | some a =>
      rcases nextUse_cases hnext with rfl | ⟨s, rfl⟩
      · exact Or.inr (Or.inl rfl)
      · exact Or.inr (Or.inr ⟨s, rfl⟩)

end Site

/-! ## The numbers of assignments -/

namespace Block

theorem map_number_sites (b : Block) (n : Nat) :
    (b.sites n).map Site.number = List.range' n b.assignments := by
  induction b generalizing n with
  | empty => rfl
  | assign write rest ih => simp [sites, assignments, ih, List.range'_succ]
  | branch line cond yes no rest ihyes ihno ih =>
      simp only [sites, assignments, List.map_append, ihyes, ihno, ih]
      rw [List.range'_append_1, Nat.add_assoc n, List.range'_append_1]
  | loop line cond body rest ihbody ih =>
      simp only [sites, assignments, List.map_append, ihbody, ih, List.range'_append_1]
  | missing rest ih => exact ih n

/-- The assignments stand in the order of their numbers. -/
theorem pairwise_number_sites (b : Block) (n : Nat) :
    (b.sites n).Pairwise fun s t => s.number < t.number := by
  have hnumbers : ((b.sites n).map Site.number).Pairwise (· < ·) := by
    rw [map_number_sites]
    exact List.pairwise_lt_range'
  exact List.pairwise_map.1 hnumbers

/-- The numbers of the assignments run from `n` on. -/
theorem number_mem_sites {b : Block} {n : Nat} {s : Site} (h : s ∈ b.sites n) :
    n ≤ s.number ∧ s.number < n + b.assignments := by
  have hmem : s.number ∈ List.range' n b.assignments := by
    rw [← map_number_sites]
    exact List.mem_map_of_mem h
  simpa [List.mem_range'_1] using hmem

/-- A number belongs to one assignment only. -/
theorem eq_of_number_eq {b : Block} {n : Nat} {s t : Site} (hs : s ∈ b.sites n)
    (ht : t ∈ b.sites n) (h : s.number = t.number) : s = t := by
  have hnodup : ((b.sites n).map Site.number).Nodup := by
    rw [map_number_sites]
    exact List.nodup_range'
  exact List.inj_on_of_nodup_map hnodup hs ht h

/-! ## The paths of each construct -/

@[simp] theorem mem_single {t u : List Access} : t ∈ ({u} : Language Access) ↔ t = u :=
  Iff.rfl

theorem mem_mul_single {T : Language Access} {t u : List Access} :
    t ∈ T * {u} ↔ ∃ a ∈ T, a ++ u = t := by
  simp [Language.mem_mul]

theorem mem_traces_assign {write : Assign} {rest : Block} {n : Nat} {t : List Access} :
    t ∈ (Block.assign write rest).traces n ↔
      ∃ u ∈ rest.traces (n + 1), readsOf write.value.reads ++ [.write ⟨n, write⟩] ++ u = t := by
  simp [traces, Language.mem_mul]

theorem mem_traces_branch {line : Int} {cond : Expr} {yes no rest : Block} {n : Nat}
    {t : List Access} :
    t ∈ (Block.branch line cond yes no rest).traces n ↔
      ∃ a, (a ∈ yes.traces n ∨ a ∈ no.traces (n + yes.assignments)) ∧
        ∃ u ∈ rest.traces (n + yes.assignments + no.assignments),
          readsOf cond.reads ++ a ++ u = t := by
  simp [traces, Language.mem_mul, Language.mem_add, -add_eq_sup]

theorem mem_traces_loop {line : Int} {cond : Expr} {body rest : Block} {n : Nat}
    {t : List Access} :
    t ∈ (Block.loop line cond body rest).traces n ↔
      ∃ a ∈ body.traces n, ∃ u ∈ rest.traces (n + body.assignments),
        readsOf cond.reads ++ a ++ readsOf body.reads ++ readsOf cond.reads ++ u = t := by
  simp [traces, Language.mem_mul]

theorem mem_runs_assign {write : Assign} {rest : Block} {n : Nat} {t : List Access} :
    t ∈ (Block.assign write rest).runs n ↔
      ∃ u ∈ rest.runs (n + 1), readsOf write.value.reads ++ [.write ⟨n, write⟩] ++ u = t := by
  simp [runs, Language.mem_mul]

theorem mem_runs_branch {line : Int} {cond : Expr} {yes no rest : Block} {n : Nat}
    {t : List Access} :
    t ∈ (Block.branch line cond yes no rest).runs n ↔
      ∃ a, (a ∈ yes.runs n ∨ a ∈ no.runs (n + yes.assignments)) ∧
        ∃ u ∈ rest.runs (n + yes.assignments + no.assignments),
          readsOf cond.reads ++ a ++ u = t := by
  simp [runs, Language.mem_mul, Language.mem_add, -add_eq_sup]

/-- A `while` may run its body exactly once. -/
theorem mem_runs_loop_once {line : Int} {cond : Expr} {body rest : Block} {n : Nat}
    {a u : List Access} (ha : a ∈ body.runs n) (hu : u ∈ rest.runs (n + body.assignments)) :
    readsOf cond.reads ++ a ++ readsOf cond.reads ++ u ∈
      (Block.loop line cond body rest).runs n := by
  have hround : readsOf cond.reads ++ a ∈ ({readsOf cond.reads} : Language Access) * body.runs n :=
    Language.append_mem_mul (mem_single.2 rfl) ha
  refine Language.append_mem_mul (Language.append_mem_mul ?_ (mem_single.2 rfl)) hu
  exact Language.mem_kstar.2 ⟨[readsOf cond.reads ++ a], by simp, by simpa using hround⟩

/-- A program without missing statements has a path of a single pass. -/
theorem exists_mem_traces {b : Block} (hb : b.complete = true) (n : Nat) : ∃ t, t ∈ b.traces n := by
  induction b generalizing n with
  | empty => exact ⟨[], Language.nil_mem_one⟩
  | assign write rest ih =>
      obtain ⟨u, hu⟩ := ih hb (n + 1)
      exact ⟨_, mem_traces_assign.2 ⟨u, hu, rfl⟩⟩
  | branch line cond yes no rest ihyes _ ih =>
      simp only [complete, Bool.and_eq_true] at hb
      obtain ⟨a, ha⟩ := ihyes hb.1.1 n
      obtain ⟨u, hu⟩ := ih hb.2 (n + yes.assignments + no.assignments)
      exact ⟨_, mem_traces_branch.2 ⟨a, Or.inl ha, u, hu, rfl⟩⟩
  | loop line cond body rest ihbody ih =>
      simp only [complete, Bool.and_eq_true] at hb
      obtain ⟨a, ha⟩ := ihbody hb.1 n
      obtain ⟨u, hu⟩ := ih hb.2 (n + body.assignments)
      exact ⟨_, mem_traces_loop.2 ⟨a, ha, u, hu, rfl⟩⟩
  | missing rest ih => exact absurd hb (by simp [complete])

/-- Everything that a program can do to a variable. -/
def accesses (b : Block) (n : Nat) : List Access :=
  readsOf b.reads ++ (b.sites n).map .write

/-- The paths with no other accesses than the given ones. -/
def pathsOver (as : List Access) : Language Access :=
  {t : List Access | t ⊆ as}

theorem single_le_pathsOver {as u : List Access} (h : u ⊆ as) : {u} ≤ pathsOver as := by
  rintro t rfl
  exact h

theorem mul_le_pathsOver {as : List Access} {T U : Language Access} (hT : T ≤ pathsOver as)
    (hU : U ≤ pathsOver as) : T * U ≤ pathsOver as := by
  intro t ht
  obtain ⟨a, ha, u, hu, rfl⟩ := Language.mem_mul.1 ht
  exact List.append_subset.2 ⟨hT ha, hU hu⟩

theorem kstar_le_pathsOver {as : List Access} {T : Language Access} (hT : T ≤ pathsOver as) :
    T∗ ≤ pathsOver as := by
  intro t ht
  obtain ⟨rounds, rfl, hrounds⟩ := Language.mem_kstar.1 ht
  intro a ha
  obtain ⟨u, hu, hau⟩ := List.mem_flatten.1 ha
  exact hT (hrounds u hu) hau

theorem readsOf_le_pathsOver {b : Block} {names : List UInt8} (h : ∀ v ∈ names, v ∈ b.reads)
    (n : Nat) : {readsOf names} ≤ pathsOver (b.accesses n) := by
  refine single_le_pathsOver (List.subset_append_of_subset_left _ ?_)
  exact List.map_subset _ fun v hv => h v hv

/-- A part of a program does nothing that the program does not do. -/
theorem pathsOver_accesses_mono {b c : Block} {m n : Nat} (hreads : ∀ v ∈ b.reads, v ∈ c.reads)
    (hsites : ∀ s ∈ b.sites m, s ∈ c.sites n) :
    pathsOver (b.accesses m) ≤ pathsOver (c.accesses n) := by
  have hsub : b.accesses m ⊆ c.accesses n := by
    intro a ha
    rcases List.mem_append.1 ha with ha | ha
    · exact List.mem_append_left _ (List.map_subset _ (fun v hv => hreads v hv) ha)
    · exact List.mem_append_right _ (List.map_subset _ (fun s hs => hsites s hs) ha)
  exact fun _ ht => List.Subset.trans ht hsub

/-- Paths read what the program reads, and write with the program's assignments. -/
theorem paths_le_pathsOver (b : Block) (n : Nat) :
    b.traces n ≤ pathsOver (b.accesses n) ∧ b.runs n ≤ pathsOver (b.accesses n) := by
  induction b generalizing n with
  | empty =>
      have hnil : (1 : Language Access) ≤ pathsOver (Block.empty.accesses n) :=
        single_le_pathsOver (List.nil_subset _)
      exact ⟨hnil, hnil⟩
  | assign write rest ih =>
      have hreads : {readsOf write.value.reads} ≤
          pathsOver ((Block.assign write rest).accesses n) :=
        readsOf_le_pathsOver (fun v hv => by simp [reads, hv]) n
      have hwrite : {[.write ⟨n, write⟩]} ≤ pathsOver ((Block.assign write rest).accesses n) :=
        single_le_pathsOver (by simp [accesses, sites])
      have hrest : pathsOver (rest.accesses (n + 1)) ≤
          pathsOver ((Block.assign write rest).accesses n) :=
        pathsOver_accesses_mono (fun v hv => by simp [reads, hv]) (fun s hs => by simp [sites, hs])
      have hfirst := mul_le_pathsOver hreads hwrite
      exact ⟨mul_le_pathsOver hfirst ((ih _).1.trans hrest),
        mul_le_pathsOver hfirst ((ih _).2.trans hrest)⟩
  | branch line cond yes no rest ihyes ihno ih =>
      have hcond : {readsOf cond.reads} ≤
          pathsOver ((Block.branch line cond yes no rest).accesses n) :=
        readsOf_le_pathsOver (fun v hv => by simp [reads, hv]) n
      have hyes : pathsOver (yes.accesses n) ≤
          pathsOver ((Block.branch line cond yes no rest).accesses n) :=
        pathsOver_accesses_mono (fun v hv => by simp [reads, hv]) (fun s hs => by simp [sites, hs])
      have hno : pathsOver (no.accesses (n + yes.assignments)) ≤
          pathsOver ((Block.branch line cond yes no rest).accesses n) :=
        pathsOver_accesses_mono (fun v hv => by simp [reads, hv]) (fun s hs => by simp [sites, hs])
      have hrest : pathsOver (rest.accesses (n + yes.assignments + no.assignments)) ≤
          pathsOver ((Block.branch line cond yes no rest).accesses n) :=
        pathsOver_accesses_mono (fun v hv => by simp [reads, hv]) (fun s hs => by simp [sites, hs])
      constructor
      · exact mul_le_pathsOver (mul_le_pathsOver hcond
          (sup_le ((ihyes _).1.trans hyes) ((ihno _).1.trans hno))) ((ih _).1.trans hrest)
      · exact mul_le_pathsOver (mul_le_pathsOver hcond
          (sup_le ((ihyes _).2.trans hyes) ((ihno _).2.trans hno))) ((ih _).2.trans hrest)
  | loop line cond body rest ihbody ih =>
      have hcond : {readsOf cond.reads} ≤
          pathsOver ((Block.loop line cond body rest).accesses n) :=
        readsOf_le_pathsOver (fun v hv => by simp [reads, hv]) n
      have hreplay : {readsOf body.reads} ≤
          pathsOver ((Block.loop line cond body rest).accesses n) :=
        readsOf_le_pathsOver (fun v hv => by simp [reads, hv]) n
      have hbody : pathsOver (body.accesses n) ≤
          pathsOver ((Block.loop line cond body rest).accesses n) :=
        pathsOver_accesses_mono (fun v hv => by simp [reads, hv]) (fun s hs => by simp [sites, hs])
      have hrest : pathsOver (rest.accesses (n + body.assignments)) ≤
          pathsOver ((Block.loop line cond body rest).accesses n) :=
        pathsOver_accesses_mono (fun v hv => by simp [reads, hv]) (fun s hs => by simp [sites, hs])
      constructor
      · exact mul_le_pathsOver (mul_le_pathsOver (mul_le_pathsOver (mul_le_pathsOver hcond
          ((ihbody _).1.trans hbody)) hreplay) hcond) ((ih _).1.trans hrest)
      · exact mul_le_pathsOver (mul_le_pathsOver (kstar_le_pathsOver
          (mul_le_pathsOver hcond ((ihbody _).2.trans hbody))) hcond) ((ih _).2.trans hrest)
  | missing rest ih => exact ⟨bot_le, bot_le⟩

/-- A path writes with the assignments of the program only. -/
theorem write_mem_traces {b : Block} {n : Nat} {t : List Access} (ht : t ∈ b.traces n) {s : Site}
    (hs : .write s ∈ t) : s ∈ b.sites n := by
  have hmem : .write s ∈ b.accesses n := (paths_le_pathsOver b n).1 ht hs
  simpa [accesses, readsOf] using hmem

/-- A value that the program never reads is read in no execution. -/
theorem not_readIn_of_not_mem_reads {b : Block} {n : Nat} {w : Site}
    (h : w.write.target ∉ b.reads) {t : List Access} (ht : t ∈ b.runs n) : ¬ w.ReadIn t := by
  rintro ⟨before, after, rfl, hnext⟩
  have hread : .read w.write.target ∈ after := List.mem_of_find?_eq_some hnext
  have hmem : .read w.write.target ∈ b.accesses n :=
    (paths_le_pathsOver b n).2 ht (by simp [hread])
  exact h (by simpa [accesses, readsOf] using hmem)

end Block

/-! ## A program

    while c < 1
      x = 1
      y = x
      x = 2
    end

The body reads `x`, but never the value of the last assignment: each round starts with another
one. -/

namespace StaleLoop

/-- The value `1`. -/
def one : Expr :=
  .number [0x31] ⟨0x3FF0000000000000⟩

/-- The value `2`. -/
def two : Expr :=
  .number [0x32] ⟨0x4000000000000000⟩

/-- The condition `c < 1`. -/
def cond : Expr :=
  .binary (.variable 0x63) .less one

/-- The assignment `y = x`. -/
def copy : Site :=
  ⟨1, ⟨3, 3⟩, 0x79, .variable 0x78⟩

/-- The assignment `x = 2`. -/
def last : Site :=
  ⟨2, ⟨4, 3⟩, 0x78, two⟩

/-- The assignments of a round. -/
def body : Block :=
  .assign ⟨⟨2, 3⟩, 0x78, one⟩ (.assign copy.write (.assign last.write .empty))

/-- The whole program. -/
def program : Block :=
  .loop 1 cond body .empty

theorem check_program : program.check .byLine = .ok [⟨copy, none⟩] := by
  decide +kernel

end StaleLoop

end StoreLint
