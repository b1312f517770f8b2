import Mathlib.Data.List.Sort
import StoreLint.Proofs.ResultShape

/-!
# The order of a report

A check gives its findings in the order of discovery or by line.  Both reports have the same
findings; this file says in what order they stand.

* `Log.Chronological`: what is overwritten is reported at once, so the overwriters stand in the
  order of the text.  Every assignment keeps this, and so does the walk.
* `Log.exists_reportAll` and `Pending.pairwise_sites`: what waits at the end is reported behind, by
  variable.
* `Finding.pairwise_mergeSort`: a report by line ascends strictly by line and number.
* `Block.InOrder.of_precedes` and `Block.sublist_sites`: in a program that is read from a text,
  lines never fall while numbers rise, so the report by line follows the text.
* `reports_in_order` puts these together.
-/

namespace StoreLint

/-! ## The order of discovery -/

namespace Log

/-- A report of some assignments adds findings about some of them, in their order. -/
theorem exists_reportAll (log : Log) (sites : List Site) (o : Option Site) :
    ∃ new : List Site, new.Sublist sites ∧
      (log.reportAll sites o).found = log.found ++ new.map fun s => ⟨s, o⟩ := by
  unfold reportAll
  induction sites generalizing log with
  | nil => exact ⟨[], List.nil_sublist _, by simp⟩
  | cons s rest ih =>
      obtain ⟨new, hnew, hfound⟩ := ih (log.report o s)
      rw [List.foldl_cons, hfound, report]
      by_cases hs : log.has s = true
      · exact ⟨new, hnew.cons s, by rw [if_pos hs]⟩
      · exact ⟨s :: new, hnew.cons_cons s, by simp [hs]⟩

/-- Each finding has an overwriter, and these have been met in the order of the text. -/
structure Chronological (log : Log) : Prop where
  overwritten : ∀ f ∈ log.found, ∃ o, f.overwriter = some o ∧ o.number < log.next
  ascending : log.found.Pairwise fun f g =>
    ∀ o ∈ f.overwriter, ∀ o' ∈ g.overwriter, o.number ≤ o'.number

theorem chronological_start : start.Chronological where
  overwritten := fun _ hf => absurd hf List.not_mem_nil
  ascending := List.Pairwise.nil

/-- An assignment comes after all overwriters so far, and is the only new one. -/
theorem Chronological.overwrite {log : Log} (h : log.Chronological) (sites : List Site)
    (write : Assign) : (log.overwrite sites ⟨log.next, write⟩).Chronological := by
  obtain ⟨new, -, hnew⟩ := log.exists_reportAll sites (some ⟨log.next, write⟩)
  have hfound : (log.overwrite sites ⟨log.next, write⟩).found =
      log.found ++ new.map fun s => ⟨s, some ⟨log.next, write⟩⟩ := hnew
  constructor
  · intro f hf
    rw [hfound] at hf
    rw [next_overwrite]
    rcases List.mem_append.1 hf with hf | hf
    · obtain ⟨o, ho, hlt⟩ := h.overwritten f hf
      exact ⟨o, ho, Nat.lt_succ_of_lt hlt⟩
    · obtain ⟨s, -, rfl⟩ := List.mem_map.1 hf
      exact ⟨_, rfl, Nat.lt_succ_self _⟩
  · rw [hfound]
    refine List.pairwise_append.2 ⟨h.ascending, ?_, ?_⟩
    · -- the new findings have one overwriter
      refine List.pairwise_map.2 (List.pairwise_of_forall ?_)
      intro s t o ho o' ho'
      cases ho
      cases ho'
      exact Nat.le_refl _
    · intro f hf g hg o ho o' ho'
      obtain ⟨first, hfirst, hlt⟩ := h.overwritten f hf
      obtain ⟨s, -, rfl⟩ := List.mem_map.1 hg
      cases ho'
      cases hfirst.symm.trans ho
      exact Nat.le_of_lt hlt

end Log

/-- The waiting assignments stand by variable. -/
theorem Pending.pairwise_sites {p : Pending}
    (htarget : ∀ v, ∀ s ∈ p.get v, s.write.target = v) :
    p.sites.Pairwise fun s t => s.write.target ≤ t.write.target := by
  have hentry : ∀ entry ∈ p.entries, ∀ s ∈ entry.2, s.write.target = entry.1 := by
    intro entry he s hs
    refine htarget entry.1 s ?_
    rwa [get_of_mem he]
  refine List.pairwise_flatMap.2 ⟨?_, ?_⟩
  · intro entry he
    refine List.pairwise_of_forall_mem_list ?_
    intro s hs t ht
    rw [hentry entry he s hs, hentry entry he t ht]
    exact UInt8.le_refl _
  · refine List.Pairwise.imp_of_mem ?_ p.ascending
    intro entry entry' he he' hlt s hs t ht
    rw [hentry entry he s hs, hentry entry' he' t ht]
    exact UInt8.le_of_lt hlt

/-- The two parts of a report in the order of discovery.  First come the overwritten assignments, in
the order of their overwriters in the text, then the others by variable. -/
structure Discovered (overwritten waiting : List Finding) : Prop where
  named : ∀ f ∈ overwritten, f.overwriter ≠ none
  ascending : overwritten.Pairwise fun f g =>
    ∀ o ∈ f.overwriter, ∀ o' ∈ g.overwriter, o.number ≤ o'.number
  unnamed : ∀ f ∈ waiting, f.overwriter = none
  byVariable : waiting.Pairwise fun f g => f.dead.write.target ≤ g.dead.write.target

/-- The walk finds what is overwritten, and the end of the program finds what waits. -/
theorem Block.exists_discovered {b : Block} (hb : b.complete = true) :
    ∃ overwritten waiting, b.check .discovery = .ok (overwritten ++ waiting) ∧
      Discovered overwritten waiting := by
  obtain ⟨p, log, hwalk, -, hreached, -⟩ := walk_reached
    (fun s hs t ht => eq_of_number_eq hs ht) b 0 hb (fun s hs => hs) rfl
    (reached_start (b.sites 0))
  have hlog : log.Chronological :=
    walk_keeps (fun _ sites write h => h.overwrite sites write) hwalk Log.chronological_start
  have hvariable : p.sites.Pairwise fun s t => s.write.target ≤ t.write.target :=
    Pending.pairwise_sites fun v s hs => ((hreached.waiting v s).1 hs).1
  obtain ⟨new, hnew, hfound⟩ := log.exists_reportAll p.sites none
  have hcheck : b.check .discovery = .ok (log.reportAll p.sites none).found := by
    simp [check, hwalk, bind, Except.bind, pure, Except.pure]
  rw [hfound] at hcheck
  refine ⟨log.found, new.map fun s => ⟨s, none⟩, hcheck, ?_, hlog.ascending, ?_, ?_⟩
  · intro f hf
    obtain ⟨o, ho, -⟩ := hlog.overwritten f hf
    simp [ho]
  · intro f hf
    obtain ⟨s, -, rfl⟩ := List.mem_map.1 hf
    rfl
  · exact List.pairwise_map.2 (hvariable.sublist hnew)

/-! ## By line -/

/-- The first assignment stands on an earlier line, or on the same line and earlier in the text. -/
def Site.Precedes (s t : Site) : Prop :=
  s.write.position.line < t.write.position.line ∨
    s.write.position.line = t.write.position.line ∧ s.number < t.number

namespace Finding

theorem before_iff {f g : Finding} :
    f.before g = true ↔ f.dead.write.position.line < g.dead.write.position.line ∨
      f.dead.write.position.line = g.dead.write.position.line ∧ f.dead.number ≤ g.dead.number := by
  simp [before]

theorem before_trans (f g h : Finding) (hfg : f.before g = true) (hgh : g.before h = true) :
    f.before h = true := by
  rw [before_iff] at *
  omega

theorem before_total (f g : Finding) : (f.before g || g.before f) = true := by
  rw [Bool.or_eq_true, before_iff, before_iff]
  omega

/-- Sorting findings about different assignments makes them ascend strictly. -/
theorem pairwise_mergeSort {found : List Finding}
    (once : (found.map fun f => f.dead.number).Nodup) :
    (found.mergeSort before).Pairwise fun f g => f.dead.Precedes g.dead := by
  have hsorted : (found.mergeSort before).Pairwise fun f g => f.before g = true :=
    List.pairwise_mergeSort before_trans before_total found
  have honce : ((found.mergeSort before).map fun f => f.dead.number).Nodup :=
    ((List.mergeSort_perm found before).map _).nodup_iff.2 once
  refine hsorted.imp₂ ?_ (List.pairwise_map.1 honce)
  intro f g hbefore hne
  rw [before_iff] at hbefore
  unfold Site.Precedes
  omega

end Finding

/-! ## Programs that are read from a text -/

namespace Block

variable {b : Block}

/-- In a text, the order by line is the order of numbers and of places. -/
theorem InOrder.of_precedes (h : b.InOrder) {s t : Site} (hs : s ∈ b.sites 0) (ht : t ∈ b.sites 0)
    (hst : s.Precedes t) : s.number < t.number ∧ s.write.position.Before t.write.position := by
  have hnumber : s.number < t.number := by
    rcases Nat.lt_trichotomy s.number t.number with hlt | heq | hgt
    · exact hlt
    · have hsame : s = t := eq_of_number_eq hs ht heq
      subst hsame
      simp [Site.Precedes] at hst
    · have hback := h t ht s hs hgt
      unfold Site.Precedes at hst
      unfold Position.Before at hback
      omega
  exact ⟨hnumber, h s hs t ht hnumber⟩

/-- A report in the order of numbers is about part of the assignments, as they stand in the text. -/
theorem sublist_sites {found : List Finding} (hinside : ∀ f ∈ found, f.dead ∈ b.sites 0)
    (hsorted : found.Pairwise fun f g => f.dead.number < g.dead.number) :
    (found.map Finding.dead).Sublist (b.sites 0) := by
  have hdead : (found.map Finding.dead).Pairwise fun s t => s.number < t.number :=
    List.pairwise_map.2 hsorted
  have hsubset : found.map Finding.dead ⊆ b.sites 0 := by
    intro s hs
    obtain ⟨f, hf, rfl⟩ := List.mem_map.1 hs
    exact hinside f hf
  have hnodup : (found.map Finding.dead).Nodup := hdead.imp fun hlt heq => by simp [heq] at hlt
  have : Std.Antisymm fun s t : Site => s.number < t.number :=
    ⟨fun _ _ hlt hgt => absurd hgt (Nat.lt_asymm hlt)⟩
  exact List.sublist_of_subperm_of_pairwise (List.subperm_of_subset hnodup hsubset) hdead
    (pairwise_number_sites b 0)

/-! ## Both reports -/

/-- The findings of a check in the order of discovery, in two parts, and by line. -/
structure ReportsInOrder (b : Block) (overwritten waiting sorted : List Finding) : Prop where
  discovery : b.check .discovery = .ok (overwritten ++ waiting)
  byLine : b.check .byLine = .ok sorted
  same : sorted.Perm (overwritten ++ waiting)
  once : (sorted.map fun f => f.dead.number).Nodup
  inside : ∀ f ∈ sorted, f.dead ∈ b.sites 0
  ascending : sorted.Pairwise fun f g => f.dead.Precedes g.dead
  discovered : Discovered overwritten waiting

theorem exists_reportsInOrder (hb : b.complete = true) :
    ∃ overwritten waiting sorted, b.ReportsInOrder overwritten waiting sorted := by
  obtain ⟨overwritten, waiting, hcheck, hdiscovered⟩ := exists_discovered hb
  have hsorted : b.check .byLine = .ok ((overwritten ++ waiting).mergeSort Finding.before) := by
    rw [check_byLine, hcheck]
    rfl
  obtain ⟨found, hfound, hinside⟩ := exists_check hb .byLine
  cases hsorted.symm.trans hfound
  exact ⟨overwritten, waiting, _, hcheck, hsorted, List.mergeSort_perm _ _,
    check_reportedOnce hsorted, fun f hf => (hinside f hf).dead,
    Finding.pairwise_mergeSort (check_reportedOnce hcheck), hdiscovered⟩

/-- **The order of reports.**  The report by line and the one in the order of discovery have the
same findings, each about another assignment of the program.  The one ascends strictly by line and,
within a line, in the order of the text; the other has the overwritten assignments in the order of
their overwriters, and then the others by variable.  If the program is read from a text, the report
by line follows the text. -/
theorem reports_in_order :
    (∀ b : Block, b.complete = true →
      ∃ overwritten waiting sorted, b.ReportsInOrder overwritten waiting sorted) ∧
    ∀ source b, parseSource source = .ok b → ∃ sorted, b.check .byLine = .ok sorted ∧
      (sorted.map Finding.dead).Sublist (b.sites 0) ∧
      sorted.Pairwise fun f g => f.dead.write.position.Before g.dead.write.position := by
  refine ⟨fun b hb => exists_reportsInOrder hb, ?_⟩
  intro source b hparse
  obtain ⟨ts, htokens, hparse⟩ := parseSource_ok_iff.1 hparse
  obtain ⟨hb, horder⟩ := inOrder_of_tokenize htokens hparse
  obtain ⟨overwritten, waiting, sorted, h⟩ := exists_reportsInOrder hb
  have hascending : sorted.Pairwise fun f g =>
      f.dead.number < g.dead.number ∧ f.dead.write.position.Before g.dead.write.position :=
    h.ascending.imp_of_mem fun hf hg => horder.of_precedes (h.inside _ hf) (h.inside _ hg)
  exact ⟨sorted, h.byLine, sublist_sites h.inside (hascending.imp And.left),
    hascending.imp And.right⟩

end Block

/-! ## A program

    b = p  a = q
    b = r
    a = s

The first line is dead because of the others.  These are never read, and `a` comes before `b`. -/

namespace Crossed

/-- The text of the program. -/
def source : Bytes :=
  utf8 "b = p  a = q\nb = r\na = s"

/-- The assignments in the order of the text. -/
def sites : List Site :=
  [⟨0, ⟨1, 1⟩, 0x62, .variable 0x70⟩, ⟨1, ⟨1, 8⟩, 0x61, .variable 0x71⟩,
    ⟨2, ⟨2, 1⟩, 0x62, .variable 0x72⟩, ⟨3, ⟨3, 1⟩, 0x61, .variable 0x73⟩]

/-- The whole program. -/
def program : Block :=
  sites.foldr (fun s rest => .assign s.write rest) .empty

end Crossed

theorem Block.reports_in_order_crossed :
    Crossed.program.complete = true ∧ parseSource Crossed.source = .ok Crossed.program ∧
      (∃ overwritten waiting sorted,
        Crossed.program.ReportsInOrder overwritten waiting sorted ∧
          (overwritten ++ waiting).map (fun f => f.dead.number) = [0, 1, 3, 2]) ∧
      ∃ sorted, Crossed.program.check .byLine = .ok sorted ∧
        (sorted.map Finding.dead).Sublist Crossed.sites ∧
        sorted.Pairwise fun f g => f.dead.write.position.Before g.dead.write.position := by
  have hparse : parseSource Crossed.source = .ok Crossed.program :=
    eq_ok_of_toOption (by decide +kernel)
  have hfound : (Crossed.program.check .discovery).toOption.map
      (fun found => found.map fun f => f.dead.number) = some [0, 1, 3, 2] := by
    decide +kernel
  obtain ⟨overwritten, waiting, sorted, h⟩ := reports_in_order.1 Crossed.program rfl
  rw [h.discovery] at hfound
  exact ⟨rfl, hparse, ⟨overwritten, waiting, sorted, h, Option.some.inj hfound⟩,
    reports_in_order.2 Crossed.source Crossed.program hparse⟩

end StoreLint
