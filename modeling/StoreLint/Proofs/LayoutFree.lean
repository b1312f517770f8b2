import StoreLint.Analysis.Basic
import StoreLint.Proofs.AllPaths
import StoreLint.Proofs.Flattening

/-!
# Reports do not depend on layout

Blanks and line ends decide where the assignments of a program stand, and a report is sorted by
line.  Yet two texts with the same tokens get the same report, up to the places in it.

The walk through a program does not look at places: it commutes with forgetting them
(`Block.walk_unplaced`).  The order by line does look at them.  But the tokens of a text come in the
order of their places, and so do the assignments (`Block.InOrder`).  So sorting by line is sorting
by number (`Finding.before_eq`), whatever the layout.

`analysis_layout_free` puts the two together, for the whole analysis.
-/

namespace StoreLint

/-! ## Findings without places -/

/-- An assignment with its number and without its place. -/
def Site.unplaced (s : Site) : Site :=
  ⟨s.number, s.write.unplaced⟩

@[simp] theorem Site.number_unplaced (s : Site) : s.unplaced.number = s.number := rfl

/-- A finding without places. -/
def Finding.unplaced (f : Finding) : Finding :=
  ⟨f.dead.unplaced, f.overwriter.map Site.unplaced⟩

namespace Pending

/-- Waiting assignments without their places. -/
def unplaced (p : Pending) : Pending :=
  ⟨p.entries.map fun entry => (entry.1, entry.2.map Site.unplaced),
    p.ascending.map _ fun _ _ h => h⟩

theorem find_unplaced (v : UInt8) (entries : List (UInt8 × List Site)) :
    find v (entries.map fun entry => (entry.1, entry.2.map Site.unplaced)) =
      (find v entries).map Site.unplaced := by
  induction entries with
  | nil => rfl
  | cons entry rest ih =>
      obtain ⟨u, sites⟩ := entry
      simp only [List.map_cons, find]
      split
      · rfl
      · exact ih

theorem get_unplaced (p : Pending) (v : UInt8) :
    p.unplaced.get v = (p.get v).map Site.unplaced :=
  find_unplaced v p.entries

theorem clear_unplaced (p : Pending) (reads : List UInt8) :
    p.unplaced.clear reads = (p.clear reads).unplaced := by
  simp only [unplaced, clear, List.filter_map]
  rfl

theorem insert_unplaced (v : UInt8) (sites : List Site) (entries : List (UInt8 × List Site)) :
    insert v (sites.map Site.unplaced)
        (entries.map fun entry => (entry.1, entry.2.map Site.unplaced)) =
      (insert v sites entries).map fun entry => (entry.1, entry.2.map Site.unplaced) := by
  induction entries with
  | nil => rfl
  | cons entry rest ih =>
      obtain ⟨u, old⟩ := entry
      simp only [List.map_cons, insert, ih]
      split
      · rfl
      · split <;> rfl

theorem put_unplaced (p : Pending) (v : UInt8) (sites : List Site) :
    p.unplaced.put v (sites.map Site.unplaced) = (p.put v sites).unplaced := by
  simp only [put, unplaced, insert_unplaced]

theorem add_unplaced (p : Pending) (v : UInt8) (s : Site) :
    p.unplaced.add v s.unplaced = (p.add v s).unplaced := by
  have hany : ((p.get v).map Site.unplaced).any (fun t => t.number == s.unplaced.number) =
      (p.get v).any fun t => t.number == s.number := List.any_map
  rw [add, add, get_unplaced, hany]
  split
  · rfl
  · rw [← put_unplaced, List.map_append, List.map_singleton]

theorem merge_unplaced (p q : Pending) : p.unplaced.merge q.unplaced = (p.merge q).unplaced := by
  have hsites : ∀ (v : UInt8) (sites : List Site) (p : Pending),
      (sites.map Site.unplaced).foldl (add v) p.unplaced = (sites.foldl (add v) p).unplaced := by
    intro v sites
    induction sites with
    | nil => exact fun p => rfl
    | cons s sites ih =>
        intro p
        rw [List.map_cons, List.foldl_cons, List.foldl_cons, add_unplaced, ih]
  unfold merge
  rw [show q.unplaced.entries = q.entries.map _ from rfl]
  generalize q.entries = entries
  induction entries generalizing p with
  | nil => rfl
  | cons entry rest ih => rw [List.map_cons, List.foldl_cons, List.foldl_cons, hsites, ih]

theorem sites_unplaced (p : Pending) : p.unplaced.sites = p.sites.map Site.unplaced := by
  simp only [sites, unplaced, List.flatMap_map, List.map_flatMap]

end Pending

namespace Log

/-- What a walk has seen, without places. -/
def unplaced (log : Log) : Log :=
  ⟨log.next, log.found.map Finding.unplaced⟩

theorem report_unplaced (o : Option Site) (log : Log) (s : Site) :
    log.unplaced.report (o.map Site.unplaced) s.unplaced = (log.report o s).unplaced := by
  have hhas : log.unplaced.has s.unplaced = log.has s := by
    simp only [has, unplaced, List.any_map]
    rfl
  unfold report
  rw [hhas]
  split
  · rfl
  · simp [unplaced, Finding.unplaced]

theorem reportAll_unplaced (log : Log) (sites : List Site) (o : Option Site) :
    log.unplaced.reportAll (sites.map Site.unplaced) (o.map Site.unplaced) =
      (log.reportAll sites o).unplaced := by
  unfold reportAll
  induction sites generalizing log with
  | nil => rfl
  | cons s sites ih => rw [List.map_cons, List.foldl_cons, List.foldl_cons, report_unplaced, ih]

theorem overwrite_unplaced (log : Log) (sites : List Site) (site : Site) :
    log.unplaced.overwrite (sites.map Site.unplaced) site.unplaced =
      (log.overwrite sites site).unplaced := by
  have hreport := log.reportAll_unplaced sites (some site)
  rw [Option.map_some] at hreport
  rw [overwrite, hreport]
  rfl

end Log

/-! ## The walk -/

namespace Block

theorem replay_unplaced (b : Block) (p : Pending) :
    b.unplaced.replay p.unplaced = (b.replay p).map Pending.unplaced := by
  induction b generalizing p with
  | empty => rfl
  | assign write rest ih =>
      rw [unplaced, replay, replay, ← ih]
      exact congrArg _ (p.clear_unplaced write.value.reads)
  | branch line cond yes no rest ihyes ihno ih =>
      simp only [unplaced, replay, Pending.clear_unplaced, ihyes]
      cases yes.replay (p.clear cond.reads) with
      | error e => rfl
      | ok p =>
          simp only [Except.map, bind, Except.bind, ihno]
          cases no.replay p with
          | error e => rfl
          | ok p => exact ih p
  | loop line cond body rest ihbody ih =>
      simp only [unplaced, replay, Pending.clear_unplaced, ihbody]
      cases body.replay (p.clear cond.reads) with
      | error e => rfl
      | ok p => exact ih p
  | missing rest ih => rfl

/-- What waits and what has been found, without places. -/
def unplacedPair (r : Pending × Log) : Pending × Log :=
  (r.1.unplaced, r.2.unplaced)

/-- The walk through a program commutes with forgetting places. -/
theorem walk_unplaced (b : Block) (p : Pending) (log : Log) :
    b.unplaced.walk p.unplaced log.unplaced = (b.walk p log).map unplacedPair := by
  induction b generalizing p log with
  | empty => rfl
  | assign write rest ih =>
      rw [unplaced, walk_assign, walk_assign, ← ih, ← Pending.put_unplaced,
        ← Log.overwrite_unplaced, ← Pending.get_unplaced, ← Pending.clear_unplaced]
      rfl
  | branch line cond yes no rest ihyes ihno ih =>
      simp only [unplaced, walk, Pending.clear_unplaced, ihyes]
      cases yes.walk (p.clear cond.reads) log with
      | error e => rfl
      | ok afterYes =>
          simp only [Except.map, bind, Except.bind, unplacedPair, ihno]
          cases no.walk (p.clear cond.reads) afterYes.2 with
          | error e => rfl
          | ok afterNo =>
              simp only [Pending.merge_unplaced]
              exact ih _ _
  | loop line cond body rest ihbody ih =>
      simp only [unplaced, walk, Pending.clear_unplaced, ihbody]
      cases body.walk (p.clear cond.reads) log with
      | error e => rfl
      | ok after =>
          simp only [Except.map, bind, Except.bind, unplacedPair, replay_unplaced]
          cases body.replay after.1 with
          | error e => rfl
          | ok p =>
              simp only [Pending.clear_unplaced]
              exact ih _ _
  | missing rest ih => rfl

/-- In the order of discovery, the check commutes with forgetting places. -/
theorem check_discovery_unplaced (b : Block) :
    b.unplaced.check .discovery = (b.check .discovery).map (List.map Finding.unplaced) := by
  have hwalk := b.walk_unplaced .none .start
  unfold check
  rw [show Block.walk b.unplaced .none .start = _ from hwalk]
  cases b.walk .none .start with
  | error e => rfl
  | ok r =>
      obtain ⟨p, log⟩ := r
      have hreport := log.reportAll_unplaced p.sites none
      simp only [Except.map, bind, Except.bind, pure, Except.pure, unplacedPair,
        Pending.sites_unplaced]
      exact congrArg (fun log => Except.ok log.found) hreport

/-- A report by line has the findings of the check in another order. -/
theorem check_byLine (b : Block) :
    b.check .byLine = (b.check .discovery).map fun found => found.mergeSort Finding.before := by
  unfold check
  cases b.walk .none .start <;> rfl

/-! ## Lines and numbers -/

/-- Assignments stand at their target tokens, in the order of their numbers. -/
theorem WrittenAs.targets_sublist {b : Block} {ts : List Token} (h : b.WrittenAs ts) (n : Nat) :
    ((b.sites n).map fun s => (s.write.position, [s.write.target])).Sublist
      (ts.map fun t => (t.position, t.value)) := by
  induction h generalizing n with
  | empty => exact .slnil
  | assign _ letter _ _ _ ih =>
      simp only [sites, List.map_cons, List.map_append, (Parser.letter?_eq_some.1 letter).2]
      exact .cons_cons _ (.cons _ ((ih _).trans (List.sublist_append_right _ _)))
  | branch _ _ _ _ _ _ ihyes ih =>
      simp only [sites, List.map_cons, List.map_append, List.append_nil, List.append_assoc]
      exact .cons _ (((ihyes _).append (.cons _ (ih _))).trans (List.sublist_append_right _ _))
  | branchElse _ _ _ _ _ _ _ _ _ ihyes ihno ih =>
      simp only [sites, List.map_cons, List.map_append, List.append_assoc]
      exact .cons _ (((ihyes _).append (.cons _ ((ihno _).append (.cons _ (ih _))))).trans
        (List.sublist_append_right _ _))
  | loop _ _ _ _ _ _ ihbody ih =>
      simp only [sites, List.map_cons, List.map_append, List.append_assoc]
      exact .cons _ (((ihbody _).append (.cons _ (ih _))).trans (List.sublist_append_right _ _))

theorem WrittenAs.positions_sublist {b : Block} {ts : List Token} (h : b.WrittenAs ts) (n : Nat) :
    ((b.sites n).map fun s => s.write.position).Sublist (ts.map Token.position) := by
  simpa [Function.comp_def] using (h.targets_sublist n).map Prod.fst

/-- The assignments stand in the text in the order of their numbers. -/
def InOrder (b : Block) : Prop :=
  ∀ s ∈ b.sites 0, ∀ t ∈ b.sites 0, s.number < t.number →
    s.write.position.Before t.write.position

theorem WrittenAs.inOrder {b : Block} {ts : List Token} (h : b.WrittenAs ts)
    (ascending : ts.Pairwise fun t u => t.position.Before u.position) : b.InOrder := by
  have hplaces : (b.sites 0).Pairwise fun s t => s.write.position.Before t.write.position := by
    have htokens : (ts.map Token.position).Pairwise Position.Before := List.pairwise_map.2 ascending
    exact List.pairwise_map.1 (htokens.sublist (h.positions_sublist 0))
  -- of two assignments in the list, the one with the smaller number stands first
  intro s hs t ht
  refine List.Pairwise.forall_of_forall_of_flip (R := fun s t : Site =>
    s.number < t.number → s.write.position.Before t.write.position) ?_ ?_ ?_ hs ht
  · exact fun s _ hlt => absurd hlt (Nat.lt_irrefl _)
  · exact hplaces.imp_of_mem fun _ _ hbefore _ => hbefore
  · exact (pairwise_number_sites b 0).imp_of_mem fun _ _ hlt hgt => absurd hgt (Nat.lt_asymm hlt)

/-- Different assignments stand at different places. -/
theorem InOrder.eq_of_position_eq {b : Block} (h : b.InOrder) {s t : Site} (hs : s ∈ b.sites 0)
    (ht : t ∈ b.sites 0) (heq : s.write.position = t.write.position) : s = t := by
  refine eq_of_number_eq hs ht ?_
  have hst := h s hs t ht
  have hts := h t ht s hs
  simp only [Position.Before, heq] at hst hts
  omega

end Block

namespace Finding

/-- In a text, the order of a report by line is the order of numbers. -/
theorem before_eq {b : Block} (h : b.InOrder) {f g : Finding} (hf : f.dead ∈ b.sites 0)
    (hg : g.dead ∈ b.sites 0) : f.before g = decide (f.dead.number ≤ g.dead.number) := by
  have hfg := h f.dead hf g.dead hg
  have hgf := h g.dead hg f.dead hf
  have heq : f.dead.number = g.dead.number → f.dead = g.dead := Block.eq_of_number_eq hf hg
  rw [Bool.eq_iff_iff]
  simp only [before, Position.Before, Bool.or_eq_true, Bool.and_eq_true, decide_eq_true_eq,
    beq_iff_eq] at *
  -- lines may be equal for different numbers, but they never fall while numbers rise
  rcases Nat.lt_trichotomy f.dead.number g.dead.number with hlt | hnumber | hgt
  · have := hfg hlt
    omega
  · rw [heq hnumber]
    omega
  · have := hgf hgt
    omega

end Finding

namespace Block

/-- Programs that are the same up to places, each with its assignments in the order of the text,
have the same findings in the same order, up to places. -/
theorem check_congr_unplaced {b c : Block} (hsame : b.unplaced = c.unplaced)
    (hb : b.complete = true) (hc : c.complete = true) (hborder : b.InOrder) (hcorder : c.InOrder)
    (order : ReportOrder) :
    ∃ found found', b.check order = .ok found ∧ c.check order = .ok found' ∧
      found.map Finding.unplaced = found'.map Finding.unplaced ∧
      (∀ f ∈ found, f.Inside b) ∧ ∀ f ∈ found', f.Inside c := by
  obtain ⟨found, hfound, hinside⟩ := exists_check hb .discovery
  obtain ⟨found', hfound', hinside'⟩ := exists_check hc .discovery
  have hunplaced : found.map Finding.unplaced = found'.map Finding.unplaced := by
    have hforget := b.check_discovery_unplaced
    rw [hsame, c.check_discovery_unplaced, hfound, hfound'] at hforget
    exact (Except.ok.inj hforget).symm
  cases order with
  | discovery => exact ⟨found, found', hfound, hfound', hunplaced, hinside, hinside'⟩
  | byLine =>
      -- sorting by number does not look at places, so it is the same for both
      let byNumber (f g : Finding) : Bool := decide (f.dead.number ≤ g.dead.number)
      have hsort : (found.mergeSort Finding.before).map Finding.unplaced =
          (found.map Finding.unplaced).mergeSort byNumber :=
        List.map_mergeSort fun f hf g hg =>
          Finding.before_eq hborder (hinside f hf).dead (hinside g hg).dead
      have hsort' : (found'.mergeSort Finding.before).map Finding.unplaced =
          (found'.map Finding.unplaced).mergeSort byNumber :=
        List.map_mergeSort fun f hf g hg =>
          Finding.before_eq hcorder (hinside' f hf).dead (hinside' g hg).dead
      refine ⟨found.mergeSort Finding.before, found'.mergeSort Finding.before, ?_, ?_, ?_, ?_, ?_⟩
      · rw [check_byLine, hfound]
        rfl
      · rw [check_byLine, hfound']
        rfl
      · rw [hsort, hsort', hunplaced]
      · exact fun f hf => hinside f (List.mem_mergeSort.1 hf)
      · exact fun f hf => hinside' f (List.mem_mergeSort.1 hf)

/-- In a program that is parsed from a text no statement is missing, and its assignments stand in
the order of their numbers. -/
theorem inOrder_of_tokenize {source : Bytes} {ts : List Token} {b : Block}
    (htokenize : tokenize source = .ok ts) (hparse : parse ts = .ok b) :
    b.complete = true ∧ b.InOrder := by
  have hwritten := writtenAs_of_tokenize htokenize hparse
  exact ⟨complete_of_whole hwritten.whole,
    hwritten.inOrder (tokenize_ok_iff.1 htokenize).ascending⟩

end Block

/-! ## Reports -/

namespace DeadStore

/-- The report is about the assignment of the program with a number, and about the number of the
assignment that overwrote it, if one did. -/
def Reports (b : Block) (d : DeadStore) (number : Nat) (overwriter : Option Nat) : Prop :=
  ∃ f : Finding, f.toDeadStore = d ∧ f.Inside b ∧ f.dead.number = number ∧
    f.overwriter.map Site.number = overwriter

/-- The two reports, about two programs, are each about one assignment only.  These have the same
number, the same variable and the same text, and they are overwritten by assignments with the same
number or both by none. -/
structure Agrees (b c : Block) (d e : DeadStore) : Prop where
  number : ∃ n o, (∀ m p, d.Reports b m p ↔ m = n ∧ p = o) ∧
    ∀ m p, e.Reports c m p ↔ m = n ∧ p = o
  target : d.target = e.target
  statement : d.statement = e.statement

end DeadStore

namespace Finding

/-- Different findings are reported differently. -/
theorem eq_of_toDeadStore_eq {b : Block} (h : b.InOrder) {f g : Finding} (hf : f.Inside b)
    (hg : g.Inside b) (heq : f.toDeadStore = g.toDeadStore) : f = g := by
  obtain ⟨dead, overwriter⟩ := f
  obtain ⟨dead', overwriter'⟩ := g
  have hdead : dead = dead' :=
    h.eq_of_position_eq hf.dead hg.dead (congrArg DeadStore.position heq)
  have hover : overwriter.map (fun s => s.write.position) =
      overwriter'.map fun s => s.write.position := congrArg DeadStore.overwrittenAt heq
  subst hdead
  cases overwriter with
  | none =>
      cases overwriter' with
      | none => rfl
      | some o' => cases hover
  | some o =>
      cases overwriter' with
      | none => cases hover
      | some o' =>
          rw [h.eq_of_position_eq (hf.overwriter o rfl) (hg.overwriter o' rfl)
            (Option.some.inj hover)]

/-- The report of a finding is about that finding only. -/
theorem reports_iff {b : Block} (h : b.InOrder) {f : Finding} (hf : f.Inside b) (m : Nat)
    (p : Option Nat) :
    f.toDeadStore.Reports b m p ↔ m = f.dead.number ∧ p = f.overwriter.map Site.number := by
  constructor
  · rintro ⟨g, heq, hg, rfl, rfl⟩
    obtain rfl := eq_of_toDeadStore_eq h hf hg heq.symm
    exact ⟨rfl, rfl⟩
  · rintro ⟨rfl, rfl⟩
    exact ⟨f, rfl, hf, rfl, rfl⟩

/-- Findings that are the same up to places are reported alike. -/
theorem agrees_of_unplaced_eq {b c : Block} (hb : b.InOrder) (hc : c.InOrder) {f g : Finding}
    (hf : f.Inside b) (hg : g.Inside c) (hsame : f.unplaced = g.unplaced) :
    f.toDeadStore.Agrees b c g.toDeadStore := by
  have hdead : f.dead.unplaced = g.dead.unplaced := congrArg dead hsame
  have hwrite : f.dead.write.unplaced = g.dead.write.unplaced := congrArg Site.write hdead
  have hover : f.overwriter.map Site.number = g.overwriter.map Site.number := by
    have hmap := congrArg (Option.map Site.number) (congrArg overwriter hsame)
    simpa [unplaced, Function.comp_def] using hmap
  have hnumber : f.dead.unplaced.number = g.dead.unplaced.number := congrArg Site.number hdead
  have htarget : f.dead.write.unplaced.target = g.dead.write.unplaced.target :=
    congrArg Assign.target hwrite
  have hprint : f.dead.write.unplaced.print .pretty = g.dead.write.unplaced.print .pretty :=
    congrArg (Assign.print .pretty) hwrite
  refine ⟨⟨f.dead.number, f.overwriter.map Site.number, reports_iff hb hf, ?_⟩, htarget, hprint⟩
  rw [← f.dead.number_unplaced, hnumber, hover]
  exact reports_iff hc hg

end Finding

theorem agrees_of_map_unplaced_eq {b c : Block} (hb : b.InOrder) (hc : c.InOrder)
    {found found' : List Finding} (hsame : found.map Finding.unplaced = found'.map Finding.unplaced)
    (hinside : ∀ f ∈ found, f.Inside b) (hinside' : ∀ f ∈ found', f.Inside c) :
    List.Forall₂ (DeadStore.Agrees b c) (found.map Finding.toDeadStore)
      (found'.map Finding.toDeadStore) := by
  induction found generalizing found' with
  | nil =>
      cases found' with
      | nil => exact .nil
      | cons g found' => cases hsame
  | cons f found ih =>
      cases found' with
      | nil => cases hsame
      | cons g found' =>
          obtain ⟨hfirst, hrest⟩ := List.cons.inj hsame
          refine .cons ?_ (ih hrest (fun x hx => hinside x (.tail _ hx))
            fun x hx => hinside' x (.tail _ hx))
          exact Finding.agrees_of_unplaced_eq hb hc (hinside f (.head _)) (hinside' g (.head _))
            hfirst

/-- Two texts with the same tokens up to places are analysed alike, in any order and under any
rules.  Either both fail with the same error at the same token, or both give the same program up to
places, and dead assignments that agree one by one.  Apart from the number of lines, the counts are
the same. -/
theorem analysis_layout_free {first second : Bytes} {ts us : List Token}
    (hfirst : tokenize first = .ok ts) (hsecond : tokenize second = .ok us)
    (hsame : ts.map Token.unplaced = us.map Token.unplaced) (opts : AnalysisOptions) :
    ((∃ e f, parse ts = .error e ∧ parse us = .error f ∧
        e.cause.kind = f.cause.kind ∧ e.cause.message = f.cause.message ∧ e.index = f.index ∧
        (analyze opts first).faults = [(ParseError.grammar e).fault] ∧
        (analyze opts second).faults = [(ParseError.grammar f).fault] ∧
        (analyze opts first).deadStores = [] ∧ (analyze opts second).deadStores = []) ∨
      ∃ b c, parse ts = .ok b ∧ parse us = .ok c ∧ b.unplaced = c.unplaced ∧
        (analyze opts first).program = some b ∧ (analyze opts second).program = some c ∧
        (analyze opts first).faults = [] ∧ (analyze opts second).faults = [] ∧
        List.Forall₂ (DeadStore.Agrees b c) (analyze opts first).deadStores
          (analyze opts second).deadStores) ∧
      { (analyze opts first).stats with lines := 0 } =
        { (analyze opts second).stats with lines := 0 } := by
  have hlength : ts.length = us.length := by simpa using congrArg List.length hsame
  cases hparse : parse ts with
  | error e =>
      obtain ⟨f, hparse', hunplaced⟩ := parse_error_congr hsame hparse
      obtain ⟨-, hdead, hfaults, hstats⟩ := analyze_of_grammarError opts hfirst hparse
      obtain ⟨-, hdead', hfaults', hstats'⟩ :=
        analyze_of_grammarError opts hsecond hparse'
      have hcause : e.cause.unplaced = f.cause.unplaced :=
        (congrArg GrammarError.cause hunplaced).symm
      refine ⟨.inl ⟨e, f, rfl, hparse', ?_, ?_, ?_, hfaults, hfaults', hdead, hdead'⟩, ?_⟩
      · rw [← e.cause.kind_unplaced, hcause, f.cause.kind_unplaced]
      · rw [← e.cause.message_unplaced, hcause, f.cause.message_unplaced]
      · exact (congrArg GrammarError.index hunplaced).symm
      · rw [hstats, hstats', hlength]
  | ok b =>
      obtain ⟨c, hparse', hunplaced⟩ := parse_ok_congr hsame hparse
      obtain ⟨hb, hborder⟩ := Block.inOrder_of_tokenize hfirst hparse
      obtain ⟨hc, hcorder⟩ := Block.inOrder_of_tokenize hsecond hparse'
      obtain ⟨found, found', hcheck, hcheck', hfound, hinside, hinside'⟩ :=
        Block.check_congr_unplaced hunplaced.symm hb hc hborder hcorder opts.order
      obtain ⟨hprogram, hdead, hfaults, hstats⟩ := analyze_of_check hfirst hparse hcheck
      obtain ⟨hprogram', hdead', hfaults', hstats'⟩ := analyze_of_check hsecond hparse' hcheck'
      have hreported : List.Forall₂ (DeadStore.Agrees b c) (opts.reported found)
          (opts.reported found') := by
        unfold AnalysisOptions.reported
        split
        · exact .nil
        · exact agrees_of_map_unplaced_eq hborder hcorder hfound hinside hinside'
      refine ⟨.inr ⟨b, c, rfl, hparse', hunplaced.symm, hprogram, hprogram', hfaults, hfaults', ?_⟩,
        ?_⟩
      · rw [hdead, hdead']
        exact hreported
      · have hsize : b.size = c.size := by rw [← b.size_unplaced, ← hunplaced, c.size_unplaced]
        have hassignments : b.assignments = c.assignments := by
          rw [← b.assignments_unplaced, ← hunplaced, c.assignments_unplaced]
        rw [hstats, hstats', hlength, hsize, hassignments, hreported.length_eq]

/-! ## Four assignments -/

namespace FourWrites

/-- All on one line. -/
def oneLine : Bytes :=
  utf8 "y=1 x=1 x=2 y=x"

/-- The same tokens on five lines. -/
def fiveLines : Bytes :=
  utf8 "y=1\n\nx=\r\n1\tx=2\ry=x"

/-- The assignments at four places. -/
def program (p q r s : Position) : Block :=
  .assign ⟨p, 0x79, StaleLoop.one⟩ (.assign ⟨q, 0x78, StaleLoop.one⟩
    (.assign ⟨r, 0x78, StaleLoop.two⟩ (.assign ⟨s, 0x79, .variable 0x78⟩ .empty)))

/-- The findings by line: all but the third assignment are dead. -/
def found (p q r s : Position) : List Finding :=
  [⟨⟨0, p, 0x79, StaleLoop.one⟩, some ⟨3, s, 0x79, .variable 0x78⟩⟩,
    ⟨⟨1, q, 0x78, StaleLoop.one⟩, some ⟨2, r, 0x78, StaleLoop.two⟩⟩,
    ⟨⟨3, s, 0x79, .variable 0x78⟩, none⟩]

theorem parse_oneLine : parseSource oneLine = .ok (program ⟨1, 1⟩ ⟨1, 5⟩ ⟨1, 9⟩ ⟨1, 13⟩) :=
  eq_ok_of_toOption (by decide +kernel)

theorem parse_fiveLines : parseSource fiveLines = .ok (program ⟨1, 1⟩ ⟨3, 1⟩ ⟨4, 3⟩ ⟨5, 1⟩) :=
  eq_ok_of_toOption (by decide +kernel)

theorem tokens_agree : (tokenize oneLine).toOption.map (List.map Token.unplaced) =
    (tokenize fiveLines).toOption.map (List.map Token.unplaced) := by
  decide +kernel

/-- The check finds the second assignment first.  The report by line begins with the first one, also
where they share a line. -/
theorem check_program {p q r s : Position} (hfirst : p.line ≤ q.line) (hlast : q.line ≤ s.line) :
    (program p q r s).check .byLine = .ok (found p q r s) := by
  have hdiscovery : (program p q r s).check .discovery =
      .ok [⟨⟨1, q, 0x78, StaleLoop.one⟩, some ⟨2, r, 0x78, StaleLoop.two⟩⟩,
        ⟨⟨0, p, 0x79, StaleLoop.one⟩, some ⟨3, s, 0x79, .variable 0x78⟩⟩,
        ⟨⟨3, s, 0x79, .variable 0x78⟩, none⟩] := rfl
  have hlate : q.line < s.line ∨ q.line = s.line := by omega
  have hboth : p.line < s.line ∨ p.line = s.line := by omega
  rw [Block.check_byLine, hdiscovery]
  refine congrArg Except.ok ?_
  simp [List.mergeSort, List.MergeSort.Internal.splitInTwo, Finding.before, found, hfirst.not_gt,
    hlate, hboth]

end FourWrites

theorem analysis_layout_free_lines :
    ∃ ts us, tokenize FourWrites.oneLine = .ok ts ∧ tokenize FourWrites.fiveLines = .ok us ∧
      ts.map Token.unplaced = us.map Token.unplaced ∧
      (analyze .default FourWrites.oneLine).deadStores =
        [⟨⟨1, 1⟩, 0x79, utf8 "y = 1", some ⟨1, 13⟩⟩, ⟨⟨1, 5⟩, 0x78, utf8 "x = 1", some ⟨1, 9⟩⟩,
          ⟨⟨1, 13⟩, 0x79, utf8 "y = x", none⟩] ∧
      (analyze .default FourWrites.fiveLines).deadStores =
        [⟨⟨1, 1⟩, 0x79, utf8 "y = 1", some ⟨5, 1⟩⟩, ⟨⟨3, 1⟩, 0x78, utf8 "x = 1", some ⟨4, 3⟩⟩,
          ⟨⟨5, 1⟩, 0x79, utf8 "y = x", none⟩] ∧
      List.Forall₂
        (DeadStore.Agrees (FourWrites.program ⟨1, 1⟩ ⟨1, 5⟩ ⟨1, 9⟩ ⟨1, 13⟩)
          (FourWrites.program ⟨1, 1⟩ ⟨3, 1⟩ ⟨4, 3⟩ ⟨5, 1⟩))
        (analyze .default FourWrites.oneLine).deadStores
        (analyze .default FourWrites.fiveLines).deadStores ∧
      { (analyze .default FourWrites.oneLine).stats with lines := 0 } =
        { (analyze .default FourWrites.fiveLines).stats with lines := 0 } := by
  obtain ⟨ts, hts, hparse⟩ := parseSource_ok_iff.1 FourWrites.parse_oneLine
  obtain ⟨us, hus, hparse'⟩ := parseSource_ok_iff.1 FourWrites.parse_fiveLines
  have hsame := FourWrites.tokens_agree
  rw [hts, hus] at hsame
  have hdead : (analyze .default FourWrites.oneLine).deadStores = _ :=
    (analyze_of_check hts hparse (FourWrites.check_program (by decide) (by decide))).2.1
  have hdead' : (analyze .default FourWrites.fiveLines).deadStores = _ :=
    (analyze_of_check hus hparse' (FourWrites.check_program (by decide) (by decide))).2.1
  obtain ⟨hagree, hstats⟩ := analysis_layout_free hts hus (Option.some.inj hsame) .default
  refine ⟨ts, us, hts, hus, Option.some.inj hsame, hdead.trans (by decide +kernel),
    hdead'.trans (by decide +kernel), ?_, hstats⟩
  rcases hagree with ⟨e, f, herror, -⟩ | ⟨b, c, hb, hc, -, -, -, -, -, hforall⟩
  · rw [hparse] at herror
    cases herror
  · rw [hparse] at hb
    rw [hparse'] at hc
    cases hb
    cases hc
    exact hforall

end StoreLint
