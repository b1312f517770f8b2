import Mathlib.Data.List.Induction
import Mathlib.Data.List.TakeWhile
import StoreLint.Proofs.InPlace

/-!
# Grouping by rotation

What it means to put `left op` in front of a grouped tree can be said on the tree itself.  Go down
the left side past the operators that bind no tighter than `op`, make what is found there the right
operand of `op`, and put the operators that were passed back on top.  A chain does the same from the
other end: it starts at the innermost link, closes those that bind tighter, and leaves all others
alone.

* `Expr.rotate` is the rule on trees, and `Expr.leftSpine` the way that it goes down.
* `Chain.Open`: the operand of a chain is not an operator, and its links bind more tightly the
  further in they are.  So it makes no difference from which end one looks for the place
  (`Open.rotate_toExpr`), and putting an operand in front keeps this (`Open.prepend`).
* `Open.foldl_prepend`: a chain and a tree that are built side by side are the same at every step.
* `Building.Keeps`: a tree is in memory, and the nodes on its left side are kept open.
* `Building.keeps_rotated`: this holds of the rotated tree at every step of building it in place.
-/

namespace StoreLint

namespace Expr

/-- The tree with `left op` in front.  The operators on its left side that bind no tighter than `op`
stay above the new one, and what is below them becomes the right operand. -/
def rotate (left : Expr) (op : Operator) : Expr → Expr
  | .binary inner o right =>
    if o.precedence ≤ op.precedence then .binary (rotate left op inner) o right
    else .binary left op (.binary inner o right)
  | e => .binary left op e

/-- The operators on the left side of a tree, each with its operands, from the root inwards. -/
def leftSpine : Expr → List Expr
  | .binary left op right => .binary left op right :: left.leftSpine
  | _ => []

theorem rotate_of_root? {e : Expr} (h : e.root? = none) (left : Expr) (op : Operator) :
    left.rotate op e = .binary left op e := by
  cases e with
  | binary inner o right => cases h
  | _ => rfl

theorem leftSpine_of_root? {e : Expr} (h : e.root? = none) : e.leftSpine = [] := by
  cases e with
  | binary left op right => cases h
  | _ => rfl

end Expr

namespace Chain

variable {links : List (Operator × Expr)}

/-! ## The spine of a chain -/

theorem leftSpine_close (e : Expr) (links : List (Operator × Expr)) :
    (close e links).leftSpine = nodes e links ++ e.leftSpine := by
  induction links generalizing e with
  | nil => rfl
  | cons link outer ih =>
      show (close (.binary e link.1 link.2) outer).leftSpine = _
      rw [ih, nodes, List.append_assoc]
      rfl

/-! ## Both ends lead to the same place -/

/-- A link at the outer end that is not closed changes nothing about the links that are. -/
theorem prepended_concat {op : Operator} {outermost : Operator × Expr}
    (h : outermost.1.precedence ≤ op.precedence) (inner : List (Operator × Expr)) :
    (inner ++ [outermost]).takeWhile (tighter op) = inner.takeWhile (tighter op) ∧
      (inner ++ [outermost]).dropWhile (tighter op) =
        inner.dropWhile (tighter op) ++ [outermost] := by
  have hstays : tighter op outermost = false := by
    simp [tighter]
    omega
  induction inner with
  | nil => simp [hstays]
  | cons link inner ih =>
      by_cases htight : tighter op link = true
      · simp [htight, ih]
      · simp [htight]

/-- Rotating into closed links that bind more tightly the further in they are closes the tight ones
from the inner end. -/
theorem rotate_close {e : Expr} (he : e.root? = none)
    (h : links.Pairwise fun inner outer => outer.1.precedence ≤ inner.1.precedence) (left : Expr)
    (op : Operator) :
    left.rotate op (close e links) =
      close (.binary left op (close e (links.takeWhile (tighter op))))
        (links.dropWhile (tighter op)) := by
  -- the rotation starts at the root, so the induction takes the links from the outer end
  induction links using List.reverseRecOn with
  | nil => exact Expr.rotate_of_root? he left op
  | append_singleton inner outermost ih =>
      obtain ⟨hinner, -, hbelow⟩ := List.pairwise_append.1 h
      have hroot : close e (inner ++ [outermost]) =
          .binary (close e inner) outermost.1 outermost.2 :=
        close_append e inner [outermost]
      by_cases hstays : outermost.1.precedence ≤ op.precedence
      · obtain ⟨htake, hdrop⟩ := prepended_concat hstays inner
        rw [hroot, Expr.rotate, if_pos hstays, ih hinner, htake, hdrop, close_append]
        rfl
      · have htight : ∀ link ∈ inner ++ [outermost], tighter op link = true := by
          intro link hlink
          simp only [tighter, decide_eq_true_eq]
          rcases List.mem_append.1 hlink with hlink | hlink
          · have := hbelow link hlink outermost (List.mem_singleton_self outermost)
            omega
          · rw [List.mem_singleton.1 hlink]
            omega
        have htake : (inner ++ [outermost]).takeWhile (tighter op) = inner ++ [outermost] :=
          List.takeWhile_eq_self_iff.2 htight
        have hdrop : (inner ++ [outermost]).dropWhile (tighter op) = [] :=
          List.dropWhile_eq_nil_iff.2 htight
        rw [htake, hdrop, hroot, Expr.rotate, if_neg hstays]
        rfl

/-! ## Building side by side -/

/-- The operand of the chain is not an operator, and its links bind more tightly the further in they
are. -/
structure Open (c : Chain) : Prop where
  operand : c.operand.root? = none
  order : c.links.Pairwise fun inner outer => outer.1.precedence ≤ inner.1.precedence

namespace Open

theorem single {last : Expr} (h : last.root? = none) : Open (single last) :=
  ⟨h, List.Pairwise.nil⟩

theorem prepend {c : Chain} (h : c.Open) {left : Expr} (hleft : left.root? = none) (op : Operator) :
    (c.prepend left op).Open := by
  refine ⟨hleft, List.pairwise_cons.2 ⟨?_, ?_⟩⟩
  · exact precedence_dropWhile h.order op
  · exact h.order.sublist (List.dropWhile_sublist _)

theorem rotate_toExpr {c : Chain} (h : c.Open) (left : Expr) (op : Operator) :
    left.rotate op c.toExpr = (c.prepend left op).toExpr :=
  rotate_close h.operand h.order left op

theorem leftSpine_toExpr {c : Chain} (h : c.Open) : c.toExpr.leftSpine = c.spine := by
  rw [toExpr, leftSpine_close, Expr.leftSpine_of_root? h.operand, List.append_nil, spine]

end Open

/-- The tree of a sequence by rotation. -/
def rotated (before : List (Expr × Operator)) (last : Expr) : Expr :=
  before.foldl (fun e x => x.1.rotate x.2 e) last

/-- Putting operands in front of an open chain one after the other is rotating them into its
tree. -/
theorem Open.foldl_prepend {before : List (Expr × Operator)}
    (hbefore : ∀ x ∈ before, x.1.root? = none) {c : Chain} (h : c.Open) :
    (before.foldl (fun c x => c.prepend x.1 x.2) c).Open ∧
      (before.foldl (fun c x => c.prepend x.1 x.2) c).toExpr = rotated before c.toExpr := by
  induction before generalizing c with
  | nil => exact ⟨h, rfl⟩
  | cons x before ih =>
      obtain ⟨hx, hbefore⟩ := List.forall_mem_cons.1 hbefore
      obtain ⟨hopen, htree⟩ := ih hbefore (h.prepend hx x.2)
      refine ⟨hopen, ?_⟩
      rw [List.foldl_cons, htree, ← h.rotate_toExpr x.1 x.2]
      rfl

theorem Open.ofSequence {before : List (Expr × Operator)}
    (hbefore : ∀ x ∈ before, x.1.root? = none) {last : Expr} (hlast : last.root? = none) :
    (ofSequence before last).Open ∧ (ofSequence before last).toExpr = rotated before last :=
  (Open.single hlast).foldl_prepend hbefore

end Chain

/-! ## Building in place -/

namespace Building

/-- A tree is in memory, with the nodes on its left side kept open. -/
structure Keeps (b : Building) (tree : Expr) : Prop where
  /-- The reference to the tree leads to it, and to no other. -/
  root : ∀ e, b.Holds b.root e ↔ e = tree
  /-- The nodes that are kept open are those on the left of the tree, the outermost first. -/
  side : LeftSide b.memory b.root b.spine
  /-- They lead to the operators on the left of the tree with all that is below each. -/
  spine : List.Forall₂ (fun i => b.Holds (.node i)) b.spine tree.leftSpine
  /-- They bind no less tightly the further in they are. -/
  order : (b.spine.filterMap b.operator?).Pairwise fun outer inner =>
    outer.precedence ≤ inner.precedence

theorem Builds.keeps {b : Building} {c : Chain} (h : b.Builds c) (hopen : c.Open) :
    b.Keeps c.toExpr where
  root e := by
    constructor
    · intro he
      exact he.unique h.holds_root
    · rintro rfl
      exact h.holds_root
  side := h.leftSide
  spine := by
    rw [hopen.leftSpine_toExpr]
    exact h.holds_spine
  order := by
    rw [h.operators, List.pairwise_reverse, List.pairwise_map]
    exact hopen.order

/-- **Building in place is rotation.**  Take operands that are not operators themselves, and put
them in front of the last one from right to left, in place and by rotation.  After each of them, the
tree in memory is the rotated one.  The nodes that are kept open are those on its left side, the
outermost first, and they bind no less tightly the further in they are.  In the end, the tree is
what grouping the sequence gives. -/
theorem keeps_rotated {before : List (Expr × Operator)}
    (hbefore : ∀ x ∈ before, x.1.root? = none) {last : Expr} (hlast : last.root? = none) :
    (∀ done, done <+: before → (ofSequence done last).Keeps (Chain.rotated done last)) ∧
      Chain.group before last = Chain.rotated before last := by
  have hopen : ∀ done, done <+: before → (Chain.ofSequence done last).Open ∧
      (Chain.ofSequence done last).toExpr = Chain.rotated done last := fun done hdone =>
    Chain.Open.ofSequence (fun x hx => hbefore x (hdone.subset hx)) hlast
  refine ⟨?_, (hopen before List.prefix_rfl).2⟩
  intro done hdone
  obtain ⟨hchain, htree⟩ := hopen done hdone
  rw [← htree]
  exact (Builds.ofSequence done last).keeps hchain

/-- The operands of `a < b - c * (d)` before the last one, from the last to the first. -/
def mixedChain : List (Expr × Operator) :=
  [(.variable 0x63, .mul), (.variable 0x62, .sub), (.variable 0x61, .less)]

/-- The product is let go when the difference is put in front of it, and the comparison then becomes
the left operand of the difference. -/
theorem keeps_rotated_mixedChain :
    (∀ x ∈ mixedChain, x.1.root? = none) ∧
      ofSequence mixedChain (.bracket (.variable 0x64)) =
        { memory :=
            [⟨.leaf (.variable 0x63), .mul, .leaf (.bracket (.variable 0x64))⟩,
              ⟨.node 2, .sub, .node 0⟩, ⟨.leaf (.variable 0x61), .less, .leaf (.variable 0x62)⟩]
          root := .node 1
          spine := [1, 2] } ∧
      (ofSequence mixedChain (.bracket (.variable 0x64))).Keeps
        (.binary (.binary (.variable 0x61) .less (.variable 0x62)) .sub
          (.binary (.variable 0x63) .mul (.bracket (.variable 0x64)))) ∧
      Chain.group mixedChain (.bracket (.variable 0x64)) =
        .binary (.binary (.variable 0x61) .less (.variable 0x62)) .sub
          (.binary (.variable 0x63) .mul (.bracket (.variable 0x64))) := by
  have hoperands : ∀ x ∈ mixedChain, x.1.root? = none := by decide
  have hlast : (Expr.bracket (.variable 0x64)).root? = none := rfl
  obtain ⟨hkeeps, hgroup⟩ := keeps_rotated hoperands hlast
  exact ⟨hoperands, by decide, hkeeps mixedChain List.prefix_rfl, hgroup⟩

end Building

end StoreLint
