import StoreLint.Program.Chain

/-!
# Grouping by precedence

An expression without brackets is a sequence of operands with operators between them.  There are
many trees over one sequence.  This file says which of them is the grouped one, and that building a
chain from the right gives exactly that tree.

* `Expr.Grouped`: an operator on the left of another binds at least as tightly, one on the right
  binds tighter.  So operators of equal precedence group to the left.
* `Expr.before` and `Expr.last`: the sequence of a tree, in the form in which the parser collects
  it.
* `Chain.before_group`, `Chain.last_group`: grouping a sequence gives a tree over that sequence; no
  operand or operator is lost, doubled or moved.
* `Chain.grouped_group`: the tree is grouped.
* `Chain.group_sequence`: it is the only grouped tree over its sequence.
-/

namespace StoreLint

/-! ## Trees and sequences -/

namespace Expr

/-- The operator at the root of a tree. -/
def root? : Expr → Option Operator
  | .binary _ op _ => some op
  | _ => none

/-- Everywhere in the tree, the left operand of an operator binds at least as tightly as the
operator, and the right operand binds tighter.  What stands in brackets is grouped by itself. -/
def Grouped : Expr → Prop
  | .missing | .number _ _ | .variable _ => True
  | .bracket inner => inner.Grouped
  | .binary left op right =>
    left.Grouped ∧ right.Grouped ∧
      (∀ o ∈ left.root?, op.precedence ≤ o.precedence) ∧
      (∀ o ∈ right.root?, op.precedence < o.precedence)

/-- The last operand of the sequence that a tree stands for. -/
def last : Expr → Expr
  | .binary _ _ right => right.last
  | e => e

/-- The operands before the last one, each with the operator after it, from the last to the
first. -/
def before : Expr → List (Expr × Operator)
  | .binary left op right => right.before ++ (left.last, op) :: left.before
  | _ => []

/-- The first operand of the sequence that a tree stands for. -/
def first : Expr → Expr
  | .binary left _ _ => left.first
  | e => e

/-- The operators above the first operand with their right operands, from the innermost outwards. -/
def links : Expr → List (Operator × Expr)
  | .binary left op right => left.links ++ [(op, right)]
  | _ => []

theorem last_of_root? {e : Expr} (h : e.root? = none) : e.last = e := by
  cases e with
  | binary left op right => cases h
  | _ => rfl

theorem before_of_root? {e : Expr} (h : e.root? = none) : e.before = [] := by
  cases e with
  | binary left op right => cases h
  | _ => rfl

theorem links_of_root? {e : Expr} (h : e.root? = none) : e.links = [] := by
  cases e with
  | binary left op right => cases h
  | _ => rfl

end Expr

namespace Chain

variable {links : List (Operator × Expr)}

theorem close_append (e : Expr) (inner outer : List (Operator × Expr)) :
    close e (inner ++ outer) = close (close e inner) outer :=
  List.foldl_append ..

theorem close_links (e : Expr) : close e.first e.links = e := by
  induction e with
  | binary left op right ihleft _ => rw [Expr.first, Expr.links, close_append, ihleft]; rfl
  | _ => rfl

/-- The root of a closed chain is that of its operand or one of the links. -/
theorem root?_close {e : Expr} {o : Operator} (h : o ∈ (close e links).root?) :
    o ∈ e.root? ∨ ∃ link ∈ links, link.1 = o := by
  induction links generalizing e with
  | nil => exact Or.inl h
  | cons link links ih =>
      rcases ih h with h | ⟨other, hmem, rfl⟩
      · exact Or.inr ⟨link, List.mem_cons_self .., Option.some.inj h⟩
      · exact Or.inr ⟨other, List.mem_cons_of_mem _ hmem, rfl⟩

/-- Links that satisfy a test stand in front of those from the first on that does not. -/
theorem takeWhile_append_of_head? {p : Operator × Expr → Bool}
    {inner outer : List (Operator × Expr)}
    (hinner : ∀ link ∈ inner, p link = true) (houter : ∀ link ∈ outer.head?, p link = false) :
    (inner ++ outer).takeWhile p = inner ∧ (inner ++ outer).dropWhile p = outer := by
  rw [List.takeWhile_append_of_pos hinner, List.dropWhile_append_of_pos hinner]
  cases outer with
  | nil => simp
  | cons link outer => simp [houter link rfl]

/-! ## Nothing is lost -/

/-- What is put in front of the sequence of an operand is put in front of the sequence of any tree
that has this operand at its left end. -/
theorem sequence_close {e e' : Expr} {x : Expr × Operator} (hbefore : e'.before = e.before ++ [x])
    (hlast : e'.last = e.last) (links : List (Operator × Expr)) :
    (close e' links).before = (close e links).before ++ [x] ∧
      (close e' links).last = (close e links).last := by
  induction links generalizing e e' with
  | nil => exact ⟨hbefore, hlast⟩
  | cons link links ih =>
      refine ih ?_ rfl
      simp only [Expr.before, hbefore, hlast, List.append_assoc, List.cons_append]

theorem toExpr_eq_close (c : Chain) (op : Operator) :
    c.toExpr =
      close (close c.operand (c.links.takeWhile (tighter op)))
        (c.links.dropWhile (tighter op)) := by
  rw [← close_append, List.takeWhile_append_dropWhile, toExpr]

theorem toExpr_prepend (left : Expr) (op : Operator) (c : Chain) :
    (c.prepend left op).toExpr =
      close (.binary left op (close c.operand (c.links.takeWhile (tighter op))))
        (c.links.dropWhile (tighter op)) :=
  rfl

theorem sequence_prepend {left : Expr} (hleft : left.root? = none) (op : Operator) (c : Chain) :
    (c.prepend left op).toExpr.before = c.toExpr.before ++ [(left, op)] ∧
      (c.prepend left op).toExpr.last = c.toExpr.last := by
  rw [toExpr_prepend, toExpr_eq_close c op]
  refine sequence_close ?_ (by rw [Expr.last]) _
  rw [Expr.before, Expr.last_of_root? hleft, Expr.before_of_root? hleft]

theorem sequence_foldl {before : List (Expr × Operator)} (h : ∀ x ∈ before, x.1.root? = none)
    (c : Chain) :
    (before.foldl (fun c x => c.prepend x.1 x.2) c).toExpr.before = c.toExpr.before ++ before ∧
      (before.foldl (fun c x => c.prepend x.1 x.2) c).toExpr.last = c.toExpr.last := by
  induction before generalizing c with
  | nil => exact ⟨(List.append_nil _).symm, rfl⟩
  | cons x before ih =>
      obtain ⟨hbefore, hlast⟩ := sequence_prepend (h x (List.mem_cons_self ..)) x.2 c
      obtain ⟨ihbefore, ihlast⟩ :=
        ih (fun y hy => h y (List.mem_cons_of_mem _ hy)) (c.prepend x.1 x.2)
      refine ⟨?_, ihlast.trans hlast⟩
      rw [List.foldl_cons, ihbefore, hbefore, List.append_assoc]
      rfl

/-- Grouping keeps the operands before the last one, and the operators. -/
theorem before_group {before : List (Expr × Operator)} (h : ∀ x ∈ before, x.1.root? = none)
    {last : Expr} (hlast : last.root? = none) : (group before last).before = before := by
  rw [group, (sequence_foldl h _).1]
  exact (congrArg (· ++ before) (Expr.before_of_root? hlast)).trans (List.nil_append _)

/-- Grouping keeps the last operand. -/
theorem last_group {before : List (Expr × Operator)} (h : ∀ x ∈ before, x.1.root? = none)
    {last : Expr} (hlast : last.root? = none) : (group before last).last = last := by
  rw [group, (sequence_foldl h _).2]
  exact Expr.last_of_root? hlast

/-! ## The tree is grouped -/

/-- Of links that bind less and less tightly on the way out, those that stay open bind no tighter
than the operator that is put in front. -/
theorem precedence_dropWhile
    (h : links.Pairwise fun inner outer => outer.1.precedence ≤ inner.1.precedence)
    (op : Operator) :
    ∀ outer ∈ links.dropWhile (tighter op), outer.1.precedence ≤ op.precedence := by
  induction links with
  | nil => exact fun outer houter => absurd houter List.not_mem_nil
  | cons link links ih =>
      obtain ⟨hfirst, hlater⟩ := List.pairwise_cons.1 h
      by_cases htight : tighter op link = true
      · rw [List.dropWhile_cons_of_pos htight]
        exact ih hlater
      · rw [List.dropWhile_cons_of_neg htight]
        have hlink : link.1.precedence ≤ op.precedence := by simpa [tighter] using htight
        intro outer houter
        rcases List.mem_cons.1 houter with rfl | houter
        · exact hlink
        · exact Nat.le_trans (hfirst outer houter) hlink

/-- The links of a chain bind less and less tightly on the way out, and the right operand of each
binds tighter than the link. -/
structure Falling (links : List (Operator × Expr)) : Prop where
  order : links.Pairwise fun inner outer => outer.1.precedence ≤ inner.1.precedence
  right : ∀ link ∈ links,
    link.2.Grouped ∧ ∀ o ∈ link.2.root?, link.1.precedence < o.precedence

namespace Falling

theorem nil : Falling [] :=
  ⟨List.Pairwise.nil, fun _ h => absurd h List.not_mem_nil⟩

theorem sublist {inner : List (Operator × Expr)} (h : Falling links) (hsub : inner.Sublist links) :
    Falling inner :=
  ⟨h.order.sublist hsub, fun link hlink => h.right link (hsub.subset hlink)⟩

theorem cons {link : Operator × Expr}
    (hright : link.2.Grouped ∧ ∀ o ∈ link.2.root?, link.1.precedence < o.precedence)
    (horder : ∀ outer ∈ links, outer.1.precedence ≤ link.1.precedence) (h : Falling links) :
    Falling (link :: links) := by
  refine ⟨List.pairwise_cons.2 ⟨horder, h.order⟩, ?_⟩
  intro other hother
  rcases List.mem_cons.1 hother with rfl | hother
  · exact hright
  · exact h.right other hother

/-- Closing falling links gives a grouped tree. -/
theorem grouped_close (h : Falling links) {e : Expr} (he : e.Grouped)
    (hroot : ∀ link ∈ links, ∀ o ∈ e.root?, link.1.precedence ≤ o.precedence) :
    (close e links).Grouped := by
  induction links generalizing e with
  | nil => exact he
  | cons link links ih =>
      obtain ⟨hfirst, -⟩ := List.pairwise_cons.1 h.order
      obtain ⟨hgrouped, htighter⟩ := h.right link (List.mem_cons_self ..)
      refine ih (h.sublist (List.sublist_cons_self ..))
        ⟨he, hgrouped, hroot link (List.mem_cons_self ..), htighter⟩ ?_
      intro outer houter o ho
      cases ho
      exact hfirst outer houter

/-- The links that are closed give a right operand that binds tighter than the operator. -/
theorem right_takeWhile (h : Falling links) {e : Expr} (he : e.Grouped) (hroot : e.root? = none)
    (op : Operator) :
    (close e (links.takeWhile (tighter op))).Grouped ∧
      ∀ o ∈ (close e (links.takeWhile (tighter op))).root?, op.precedence < o.precedence := by
  constructor
  · refine (h.sublist (List.takeWhile_sublist _)).grouped_close he ?_
    intro link _ o ho
    rw [hroot] at ho
    cases ho
  · intro o ho
    rcases root?_close ho with ho | ⟨link, hlink, rfl⟩
    · rw [hroot] at ho
      cases ho
    · simpa [tighter] using List.all_eq_true.1 List.all_takeWhile link hlink

end Falling

theorem falling_foldl {before : List (Expr × Operator)}
    (h : ∀ x ∈ before, x.1.root? = none ∧ x.1.Grouped) {c : Chain} (hroot : c.operand.root? = none)
    (hgrouped : c.operand.Grouped) (hfalling : Falling c.links) :
    (before.foldl (fun c x => c.prepend x.1 x.2) c).toExpr.Grouped := by
  induction before generalizing c with
  | nil =>
      refine hfalling.grouped_close hgrouped ?_
      intro link _ o (ho : o ∈ c.operand.root?)
      rw [hroot] at ho
      cases ho
  | cons x before ih =>
      obtain ⟨hx, hxgrouped⟩ := h x (List.mem_cons_self ..)
      refine ih (fun y hy => h y (List.mem_cons_of_mem _ hy)) (c := c.prepend x.1 x.2) hx hxgrouped
        ?_
      exact Falling.cons (hfalling.right_takeWhile hgrouped hroot x.2)
        (precedence_dropWhile hfalling.order x.2) (hfalling.sublist (List.dropWhile_sublist _))

/-- Grouping gives a grouped tree. -/
theorem grouped_group {before : List (Expr × Operator)}
    (h : ∀ x ∈ before, x.1.root? = none ∧ x.1.Grouped) {last : Expr} (hroot : last.root? = none)
    (hgrouped : last.Grouped) : (group before last).Grouped :=
  falling_foldl h (c := single last) hroot hgrouped Falling.nil

/-! ## It is the only one -/

/-- The links of a grouped tree bind at least as tightly as its root. -/
theorem root?_le_links {e : Expr} (he : e.Grouped) {link : Operator × Expr} (hlink : link ∈ e.links)
    {o : Operator} (ho : o ∈ e.root?) : o.precedence ≤ link.1.precedence := by
  induction e generalizing o with
  | binary left op right ihleft _ =>
      obtain ⟨hleft, -, hle, -⟩ := he
      cases ho
      rcases List.mem_append.1 hlink with hlink | hlink
      · cases hroot : left.root? with
        | none =>
            rw [Expr.links_of_root? hroot] at hlink
            exact absurd hlink List.not_mem_nil
        | some o => exact Nat.le_trans (hle o hroot) (ihleft hleft hlink hroot)
      · obtain rfl := List.mem_singleton.1 hlink
        exact Nat.le_refl _
  | _ => cases ho

/-- Putting the sequence of a grouped tree in front of open links that bind no tighter than its root
opens the tree at its left end. -/
theorem foldl_sequence {e : Expr} (he : e.Grouped) (outer : List (Operator × Expr))
    (h : ∀ link ∈ outer, ∀ o ∈ e.root?, link.1.precedence ≤ o.precedence) :
    e.before.foldl (fun c x => c.prepend x.1 x.2) (Chain.mk e.last outer) =
      ⟨e.first, e.links ++ outer⟩ := by
  induction e generalizing outer with
  | binary left op right ihleft ihright =>
      obtain ⟨hleft, hright, hle, hlt⟩ := he
      have houter : ∀ link ∈ outer, link.1.precedence ≤ op.precedence :=
        fun link hlink => h link hlink op rfl
      have hinner : ∀ link ∈ right.links, tighter op link = true := by
        intro link hlink
        cases hroot : right.root? with
        | none =>
            rw [Expr.links_of_root? hroot] at hlink
            exact absurd hlink List.not_mem_nil
        | some o =>
            have := hlt o hroot
            have := root?_le_links hright hlink hroot
            simp only [tighter, decide_eq_true_eq]
            omega
      -- the operator closes the right operand, and nothing else
      have hopen : ∀ link ∈ outer.head?, tighter op link = false := by
        intro link hlink
        have hle := houter link (List.mem_of_head? hlink)
        simp [tighter, Nat.not_lt.2 hle]
      obtain ⟨htake, hdrop⟩ := takeWhile_append_of_head? hinner hopen
      have hprepend : prepend left.last op ⟨right.first, right.links ++ outer⟩ =
          ⟨left.last, (op, right) :: outer⟩ := by
        simp only [prepend, htake, hdrop, close_links]
      rw [Expr.before, Expr.last, List.foldl_append, List.foldl_cons]
      rw [ihright hright outer
        fun link hlink o ho => Nat.le_trans (houter link hlink) (Nat.le_of_lt (hlt o ho))]
      rw [hprepend, ihleft hleft]
      · simp [Expr.first, Expr.links]
      · intro link hlink o ho
        rcases List.mem_cons.1 hlink with rfl | hlink
        · exact hle o ho
        · exact Nat.le_trans (houter link hlink) (hle o ho)
  | _ => rfl

/-- A grouped tree is what grouping its sequence gives. -/
theorem group_sequence {e : Expr} (he : e.Grouped) : group e.before e.last = e := by
  have h := foldl_sequence he [] fun link hlink => absurd hlink List.not_mem_nil
  rw [group, single, h, List.append_nil]
  exact close_links e

/-! ## The spine of a chain -/

/-- The operators that links put on top of an operand, each with its operands, from the outermost
inwards. -/
def nodes (operand : Expr) : List (Operator × Expr) → List Expr
  | [] => []
  | link :: outer =>
    let node := .binary operand link.1 link.2
    nodes node outer ++ [node]

/-- The operators that a chain keeps open, each with its operands, from the outermost inwards. -/
def spine (c : Chain) : List Expr :=
  nodes c.operand c.links

theorem nodes_concat (operand : Expr) (inner : List (Operator × Expr)) (link : Operator × Expr) :
    nodes operand (inner ++ [link]) =
      close operand (inner ++ [link]) :: nodes operand inner := by
  induction inner generalizing operand with
  | nil => rfl
  | cons first inner ih =>
      rw [List.cons_append, nodes, ih]
      rfl

/-- The chain of a sequence, as far as it has been put together: the last operand, and the operands
before it, each with the operator after it, from the last to the first. -/
def ofSequence (before : List (Expr × Operator)) (last : Expr) : Chain :=
  before.foldl (fun c x => c.prepend x.1 x.2) (single last)

end Chain

end StoreLint
