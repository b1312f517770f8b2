import Mathlib.Data.List.DropRight
import Mathlib.Data.List.TakeWhile
import StoreLint.Proofs.Grouping

/-!
# Chains that are built in place

A `Chain` keeps the operators that are still open apart from those that are closed.  The same tree
can be built in memory, by a program that keeps the tree and, beside it, a list of the operators on
its left side.  To put `left op` in front, it looks through that list from the inner end, makes a
new node, and changes one pointer: the left one of the innermost operator that stays, or the one to
the whole tree.

* `Building` is the memory of such a program with its two variables, and `Building.prepend` its
  step.
* `Held`: a reference leads to a tree, through nodes from a given set.  So what is changed outside
  of the set makes no difference (`Held.congr`).
* `Leads`: going left from a reference, past given nodes, leads to another reference.  The nodes
  ascend, and what is on the right of each was made between the node above and the node itself.
  This is why changing a pointer on the left side changes nothing on the right (`Leads.repoint`).
* `Building.Builds`: the building is in the state of a chain, and `Builds.prepend` keeps them
  together.
-/

namespace StoreLint

/-! ## Memory -/

/-- An operand that is kept as it is, or the place of a node in memory. -/
inductive Ref where
  | leaf (e : Expr)
  | node (i : Nat)
  deriving DecidableEq, Repr

/-- An operator in memory, with references to its operands. -/
structure OperatorNode where
  left : Ref
  op : Operator
  right : Ref
  deriving DecidableEq, Repr

/-- A tree that is being built: all nodes so far, a reference to the tree, and the places of the
nodes that are kept open, the outermost first. -/
structure Building where
  memory : List OperatorNode
  root : Ref
  spine : List Nat
  deriving DecidableEq, Repr

namespace Building

/-- A tree of a single operand. -/
def single (last : Expr) : Building :=
  ⟨[], .leaf last, []⟩

/-- The operator at a place. -/
def operator? (b : Building) (i : Nat) : Option Operator :=
  b.memory[i]?.map OperatorNode.op

/-- Does the node at a place bind tighter than the operator? -/
def tighter (b : Building) (op : Operator) (i : Nat) : Bool :=
  (b.operator? i).any fun o => op.precedence < o.precedence

/-- The left operand of the node at a place. -/
def leftOf (b : Building) (i : Nat) : Ref :=
  (b.memory[i]?.map OperatorNode.left).getD b.root

/-- What becomes the right operand of a new node, where nodes are let go below others that stay: the
outermost of those that are let go, or else what is left of the innermost that stays, or all of the
tree. -/
def displaced (b : Building) (above below : List Nat) : Ref :=
  match below.head?, above.getLast? with
  | some i, _ => .node i
  | none, some i => b.leftOf i
  | none, none => b.root

/-- Puts a new node below those that stay, as the left operand of the innermost of them or as the
whole tree. -/
def attach (b : Building) (above : List Nat) (n : OperatorNode) : Building :=
  let new := b.memory.length
  match above.getLast? with
  | some i =>
    { memory := b.memory.modify i (fun m => { m with left := .node new }) ++ [n]
      root := b.root
      spine := above ++ [new] }
  | none =>
    { memory := b.memory ++ [n]
      root := .node new
      spine := above ++ [new] }

/-- Puts `left op` in front of the tree.  Of the nodes that are kept open, those that bind tighter
than `op` are let go, from the inner end on. -/
def prepend (left : Expr) (op : Operator) (b : Building) : Building :=
  let above := b.spine.rdropWhile (b.tighter op)
  let below := b.spine.rtakeWhile (b.tighter op)
  b.attach above ⟨.leaf left, op, b.displaced above below⟩

/-- The building of a sequence, as far as it has been put together. -/
def ofSequence (before : List (Expr × Operator)) (last : Expr) : Building :=
  before.foldl (fun b x => b.prepend x.1 x.2) (single last)

end Building

/-! ## The tree at a reference -/

variable {memory memory' : List OperatorNode} {ref ref' hole : Ref} {e e' : Expr}

/-- A reference leads to a tree, through nodes from a set. -/
inductive Held (memory : List OperatorNode) (within : Nat → Prop) : Ref → Expr → Prop where
  | leaf (e : Expr) : Held memory within (.leaf e) e
  | node {i : Nat} {n : OperatorNode} {l r : Expr} (inside : within i) (found : memory[i]? = some n)
      (left : Held memory within n.left l) (right : Held memory within n.right r) :
      Held memory within (.node i) (.binary l n.op r)

namespace Held

variable {within within' : Nat → Prop}

theorem mono (h : Held memory within ref e) (hsub : ∀ i, within i → within' i) :
    Held memory within' ref e := by
  induction h with
  | leaf e => exact .leaf e
  | node inside found _ _ ihleft ihright => exact .node (hsub _ inside) found ihleft ihright

/-- Nodes that the tree does not use make no difference to it. -/
theorem congr (h : Held memory within ref e) (hsame : ∀ i, within i → memory'[i]? = memory[i]?) :
    Held memory' within ref e := by
  induction h with
  | leaf e => exact .leaf e
  | node inside found _ _ ihleft ihright =>
      exact .node inside ((hsame _ inside).trans found) ihleft ihright

/-- A reference leads to one tree only. -/
theorem unique (h : Held memory within ref e) (h' : Held memory within' ref e') : e = e' := by
  induction h generalizing e' with
  | leaf e =>
      cases h'
      rfl
  | node inside found _ _ ihleft ihright =>
      cases h' with
      | node inside' found' left' right' =>
          cases found.symm.trans found'
          rw [ihleft left', ihright right']

end Held

/-! ## The left side of a tree -/

/-- Going left from a reference past nodes leads to another one.  The nodes are the given ones, the
outermost first, and they have the given operators and right operands, the innermost first.  The
nodes and what is on their right were made from `start` on, what is on the right of a node before
the node, and what is found further in from `stop` on. -/
inductive Leads (memory : List OperatorNode) :
    (start : Nat) → Ref → List Nat → List (Operator × Expr) → (stop : Nat) → Ref → Prop where
  | here {start : Nat} {ref : Ref} : Leads memory start ref [] [] start ref
  | left {start stop i : Nat} {n : OperatorNode} {r : Expr} {nodes : List Nat}
      {links : List (Operator × Expr)} {hole : Ref}
      (later : start ≤ i) (found : memory[i]? = some n)
      (right : Held memory (fun j => start ≤ j ∧ j < i) n.right r)
      (further : Leads memory (i + 1) n.left nodes links stop hole) :
      Leads memory start (.node i) (i :: nodes) (links ++ [(n.op, r)]) stop hole

/-- Going left from a reference, as far as there are nodes, passes the given ones. -/
inductive LeftSide (memory : List OperatorNode) : Ref → List Nat → Prop where
  | leaf (e : Expr) : LeftSide memory (.leaf e) []
  | node {i : Nat} {n : OperatorNode} {nodes : List Nat} (found : memory[i]? = some n)
      (further : LeftSide memory n.left nodes) : LeftSide memory (.node i) (i :: nodes)

namespace Leads

variable {start mid stop : Nat} {nodes above below : List Nat}
  {links outer inner : List (Operator × Expr)}

theorem of_nil (h : Leads memory start ref [] links stop hole) :
    links = [] ∧ stop = start ∧ hole = ref := by
  cases h
  exact ⟨rfl, rfl, rfl⟩

theorem append (h : Leads memory start ref above outer mid ref')
    (h' : Leads memory mid ref' below inner stop hole) :
    Leads memory start ref (above ++ below) (inner ++ outer) stop hole := by
  induction h with
  | here => simpa using h'
  | left later found right _ ih =>
      rw [List.cons_append, ← List.append_assoc]
      exact .left later found right (ih h')

theorem split (h : Leads memory start ref (above ++ below) links stop hole) :
    ∃ inner outer mid ref', links = inner ++ outer ∧ Leads memory start ref above outer mid ref' ∧
      Leads memory mid ref' below inner stop hole := by
  induction above generalizing start ref links with
  | nil => exact ⟨links, [], start, ref, by simp, .here, h⟩
  | cons i above ih =>
      cases h with
      | left later found right further =>
          obtain ⟨inner, outer, mid, ref', rfl, habove, hbelow⟩ := ih further
          exact ⟨inner, _, mid, ref', List.append_assoc .., .left later found right habove, hbelow⟩

/-- The nodes have the operators of the links. -/
theorem operators (h : Leads memory start ref nodes links stop hole) :
    nodes.map (fun i => memory[i]?.map OperatorNode.op) =
      (links.map fun link => some link.1).reverse := by
  induction h with
  | here => rfl
  | left later found right _ ih =>
      rw [List.map_cons, ih, found, List.map_append, List.reverse_append]
      rfl

/-- The tree that is found by going left as far as an operand. -/
theorem held (h : Leads memory start ref nodes links stop (.leaf e)) :
    Held memory (fun j => start ≤ j ∧ j < memory.length) ref (Chain.close e links) := by
  generalize hhole : Ref.leaf e = hole at h
  induction h with
  | here =>
      subst hhole
      exact .leaf e
  | @left start stop i n r nodes links hole later found right _ ih =>
      have hi : i < memory.length := (List.getElem?_eq_some_iff.1 found).1
      rw [Chain.close_append]
      refine .node ⟨later, hi⟩ found ((ih hhole).mono ?_) (right.mono ?_)
      · intro j hj
        omega
      · intro j hj
        omega

/-- The trees at the nodes on the way to an operand. -/
theorem held_nodes (h : Leads memory start ref nodes links stop (.leaf e)) :
    List.Forall₂ (fun i => Held memory (fun _ => True) (.node i)) nodes (Chain.nodes e links) := by
  generalize hhole : Ref.leaf e = hole at h
  induction h with
  | here => exact .nil
  | left later found right further ih =>
      subst hhole
      rw [Chain.nodes_concat]
      refine .cons ?_ (ih rfl)
      exact (Leads.left later found right further).held.mono fun _ _ => trivial

theorem leftSide (h : Leads memory start ref nodes links stop (.leaf e)) :
    LeftSide memory ref nodes := by
  generalize hhole : Ref.leaf e = hole at h
  induction h with
  | here =>
      subst hhole
      exact .leaf e
  | left later found right _ ih => exact .node found (ih hhole)

theorem le_of_mem (h : Leads memory start ref nodes links stop hole) {i : Nat} (hi : i ∈ nodes) :
    start ≤ i := by
  induction h with
  | here => cases hi
  | left later _ _ _ ih =>
      rcases List.mem_cons.1 hi with rfl | hi
      · exact later
      · have := ih hi
        omega

/-- What is left of the last of the nodes. -/
theorem left_of_concat {i : Nat} (h : Leads memory start ref (above ++ [i]) links stop hole) :
    stop = i + 1 ∧ ∃ n, memory[i]? = some n ∧ n.left = hole := by
  obtain ⟨inner, outer, mid, ref', -, -, hlast⟩ := h.split
  cases hlast with
  | left later found right further =>
      obtain ⟨-, rfl, rfl⟩ := further.of_nil
      exact ⟨rfl, _, found, rfl⟩

/-- **Changing the left pointer of the last of the nodes** leads to where it points then.  Nothing
that is on the right of the nodes is touched. -/
theorem repoint {i : Nat} (h : Leads memory start ref (above ++ [i]) links stop hole)
    (hsame : ∀ j < i, memory'[j]? = memory[j]?)
    (hchanged : ∀ n, memory[i]? = some n → memory'[i]? = some { n with left := ref' }) :
    Leads memory' start ref (above ++ [i]) links stop ref' := by
  induction above generalizing start ref links with
  | nil =>
      cases h with
      | @left _ _ _ n _ _ _ _ later found right further =>
          obtain ⟨rfl, rfl, -⟩ := further.of_nil
          exact .left (n := { n with left := ref' }) later (hchanged n found)
            (right.congr fun j hj => hsame j hj.2) .here
  | cons k above ih =>
      cases h with
      | left later found right further =>
          have hk : k < i := further.le_of_mem (by simp)
          refine .left later ((hsame k hk).trans found) (right.congr fun j hj => ?_) (ih further)
          exact hsame j (hj.2.trans hk)

end Leads

/-! ## A building and its chain -/

namespace Building

/-- The building is in the state of a chain: its left side has the open nodes and ends at the
operand of the chain. -/
def Builds (b : Building) (c : Chain) : Prop :=
  ∃ stop, Leads b.memory 0 b.root b.spine c.links stop (.leaf c.operand)

/-- The tree that a reference leads to. -/
def Holds (b : Building) (ref : Ref) (e : Expr) : Prop :=
  Held b.memory (fun _ => True) ref e

theorem builds_single (last : Expr) : (single last).Builds (.single last) :=
  ⟨0, .here⟩

variable {b : Building} {c : Chain} {above below : List Nat} {mid stop : Nat}
  {outer inner : List (Operator × Expr)}

/-- The node that is displaced is where the nodes that stay lead to. -/
theorem displaced_eq (habove : Leads b.memory 0 b.root above outer mid ref)
    (hbelow : Leads b.memory mid ref below inner stop hole) : b.displaced above below = ref := by
  unfold displaced
  cases hbelow with
  | left later found right further => rfl
  | here =>
      rcases above.eq_nil_or_concat' with rfl | ⟨outermost, i, rfl⟩
      · exact habove.of_nil.2.2.symm
      · obtain ⟨-, n, hfound, hleft⟩ := habove.left_of_concat
        simp [leftOf, hfound, hleft]

/-- A new node below the nodes that stay, with what was there on its right. -/
theorem leads_attach {left right : Expr} (op : Operator)
    (habove : Leads b.memory 0 b.root above outer mid ref)
    (hright : Held b.memory (fun j => mid ≤ j ∧ j < b.memory.length) ref right) :
    ∃ stop, Leads (b.attach above ⟨.leaf left, op, ref⟩).memory 0
      (b.attach above ⟨.leaf left, op, ref⟩).root (b.attach above ⟨.leaf left, op, ref⟩).spine
      ((op, right) :: outer) stop (.leaf left) := by
  unfold attach
  rcases above.eq_nil_or_concat' with rfl | ⟨outermost, i, rfl⟩
  · obtain ⟨rfl, rfl, rfl⟩ := habove.of_nil
    simp only [List.getLast?_nil]
    refine ⟨_, .left (n := ⟨.leaf left, op, b.root⟩) (Nat.zero_le _) (by simp)
      (hright.congr fun j hj => ?_) .here⟩
    exact List.getElem?_append_left hj.2
  · obtain ⟨rfl, n, hfound, -⟩ := habove.left_of_concat
    have hi : i < b.memory.length := (List.getElem?_eq_some_iff.1 hfound).1
    simp only [List.getLast?_concat]
    have hother : ∀ j < b.memory.length, j ≠ i →
        (b.memory.modify i (fun m => { m with left := .node b.memory.length }) ++
          [⟨.leaf left, op, ref⟩])[j]? = b.memory[j]? := by
      intro j hj hne
      rw [List.getElem?_append_left (by simpa using hj), List.getElem?_modify]
      simp [Ne.symm hne]
    have hpointed : Leads _ 0 b.root (outermost ++ [i]) outer (i + 1) (.node b.memory.length) :=
      habove.repoint (fun j hj => hother j (hj.trans hi) (Nat.ne_of_lt hj)) fun m hm => by
        rw [List.getElem?_append_left (by simpa using hi), List.getElem?_modify, hm]
        simp
    have hnew := Leads.left hi (n := ⟨.leaf left, op, ref⟩) (by simp)
      (hright.congr fun j hj => hother j hj.2 (by omega)) .here
    exact ⟨_, hpointed.append hnew⟩

/-- The nodes bind tighter than an operator if and only if their links do. -/
theorem map_tighter {start : Nat} {nodes : List Nat} {links : List (Operator × Expr)}
    (h : Leads b.memory start ref nodes links stop hole) (op : Operator) :
    nodes.map (b.tighter op) = (links.map (Chain.tighter op)).reverse := by
  have hoperators := congrArg
    (List.map fun o : Option Operator => o.any fun o => op.precedence < o.precedence) h.operators
  rw [List.map_map, List.map_reverse, List.map_map] at hoperators
  exact hoperators

/-- The nodes that are let go are the links that a chain closes. -/
theorem closed_links {op : Operator}
    (habove : Leads b.memory 0 b.root (b.spine.rdropWhile (b.tighter op)) outer mid ref)
    (hbelow : Leads b.memory mid ref (b.spine.rtakeWhile (b.tighter op)) inner stop hole) :
    (inner ++ outer).takeWhile (Chain.tighter op) = inner ∧
      (inner ++ outer).dropWhile (Chain.tighter op) = outer := by
  refine Chain.takeWhile_append_of_head? ?_ ?_
  · intro link hlink
    have htight :
        Chain.tighter op link ∈ (b.spine.rtakeWhile (b.tighter op)).map (b.tighter op) := by
      rw [map_tighter hbelow]
      exact List.mem_reverse.2 (List.mem_map_of_mem hlink)
    obtain ⟨i, hi, heq⟩ := List.mem_map.1 htight
    rw [← heq]
    exact List.mem_rtakeWhile_imp hi
  · intro link hlink
    have hlast : ((b.spine.rdropWhile (b.tighter op)).map (b.tighter op)).getLast? =
        some (Chain.tighter op link) := by
      rw [map_tighter habove, List.getLast?_reverse, List.head?_map, Option.mem_def.1 hlink]
      rfl
    rw [List.getLast?_map, Option.map_eq_some_iff] at hlast
    obtain ⟨i, hi, heq⟩ := hlast
    obtain ⟨hsome, rfl⟩ := List.mem_getLast?_eq_getLast hi
    rw [← heq]
    exact Bool.eq_false_iff.2 (List.rdropWhile_last_not _ _ hsome)

/-- **Building in place goes along with the chain.** -/
theorem Builds.prepend (h : b.Builds c) (left : Expr) (op : Operator) :
    (b.prepend left op).Builds (c.prepend left op) := by
  obtain ⟨stop, hleads⟩ := h
  rw [← List.rdropWhile_append_rtakeWhile (p := b.tighter op) (l := b.spine)] at hleads
  obtain ⟨inner, outer, mid, ref, hlinks, habove, hbelow⟩ := hleads.split
  obtain ⟨htake, hdrop⟩ := closed_links habove hbelow
  have hchain : c.prepend left op = ⟨left, (op, Chain.close c.operand inner) :: outer⟩ := by
    rw [Chain.prepend, hlinks, htake, hdrop]
  rw [hchain, Building.prepend, displaced_eq habove hbelow]
  exact leads_attach op habove hbelow.held

theorem Builds.ofSequence (before : List (Expr × Operator)) (last : Expr) :
    (ofSequence before last).Builds (Chain.ofSequence before last) := by
  have hfold : ∀ (before : List (Expr × Operator)) (b : Building) (c : Chain), b.Builds c →
      (before.foldl (fun b x => b.prepend x.1 x.2) b).Builds
        (before.foldl (fun c x => c.prepend x.1 x.2) c) := by
    intro before
    induction before with
    | nil => exact fun b c h => h
    | cons x before ih => exact fun b c h => ih _ _ (h.prepend x.1 x.2)
  exact hfold before _ _ (builds_single last)

/-- A building that goes along with a chain leads to the tree of the chain. -/
theorem Builds.holds_root (h : b.Builds c) : b.Holds b.root c.toExpr := by
  obtain ⟨stop, hleads⟩ := h
  exact hleads.held.mono fun _ _ => trivial

/-- The nodes that are kept open are the left side of the tree. -/
theorem Builds.leftSide (h : b.Builds c) : LeftSide b.memory b.root b.spine := by
  obtain ⟨stop, hleads⟩ := h
  exact hleads.leftSide

/-- They lead to the operators that the chain keeps open. -/
theorem Builds.holds_spine (h : b.Builds c) :
    List.Forall₂ (fun i => b.Holds (.node i)) b.spine c.spine := by
  obtain ⟨stop, hleads⟩ := h
  exact hleads.held_nodes

theorem Builds.operators (h : b.Builds c) :
    b.spine.filterMap b.operator? = (c.links.map Prod.fst).reverse := by
  obtain ⟨stop, hleads⟩ := h
  have hoperators := congrArg (List.filterMap id) hleads.operators
  rw [List.filterMap_map, ← List.map_reverse, List.filterMap_map] at hoperators
  rw [← List.map_reverse, ← List.filterMap_eq_map]
  exact hoperators

end Building

end StoreLint
