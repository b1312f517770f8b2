import StoreLint.Program.Block

/-!
# Writes that wait for a read

While a program is walked, every variable has the assignments that have written it and have not been
read since.  On a single path there is at most one; where two branches meet there may be several.

`Pending` is that table, a list of variables in ascending order with the waiting assignments of
each.  The order is part of the table, so each variable stands in it once.  The operations are
`get`, `put`, `clear`, `add` and `merge`; the first ones have a lemma here that says what they do to
`get`.
-/

namespace StoreLint

/-- An assignment of a program: its number in the order of the text, and the assignment itself. -/
structure Site where
  number : Nat
  write : Assign
  deriving DecidableEq, Repr

/-- The variables with waiting assignments, in ascending order, and the assignments of each. -/
structure Pending where
  entries : List (UInt8 × List Site)
  /-- Each variable stands once, behind the smaller ones. -/
  ascending : entries.Pairwise fun a b => a.1 < b.1
  deriving DecidableEq, Repr

namespace Pending

/-- No assignment waits. -/
def none : Pending := ⟨[], .nil⟩

/-- The waiting assignments of a variable in a list of entries. -/
def find (v : UInt8) : List (UInt8 × List Site) → List Site
  | [] => []
  | (u, sites) :: rest => if u = v then sites else find v rest

/-- The waiting assignments of a variable. -/
def get (p : Pending) (v : UInt8) : List Site :=
  find v p.entries

/-- Sets the assignments of a variable in a list of entries, and keeps the variables in order. -/
def insert (v : UInt8) (sites : List Site) :
    List (UInt8 × List Site) → List (UInt8 × List Site)
  | [] => [(v, sites)]
  | (u, old) :: rest =>
    if v < u then (v, sites) :: (u, old) :: rest
    else if u = v then (v, sites) :: rest
    else (u, old) :: insert v sites rest

theorem mem_insert {v : UInt8} {sites : List Site} {entries : List (UInt8 × List Site)}
    {entry : UInt8 × List Site} (h : entry ∈ insert v sites entries) :
    entry = (v, sites) ∨ entry ∈ entries := by
  induction entries with
  | nil =>
      rw [insert, List.mem_singleton] at h
      exact Or.inl h
  | cons first rest ih =>
      obtain ⟨u, old⟩ := first
      unfold insert at h
      split at h
      · rcases List.mem_cons.1 h with rfl | h
        · exact Or.inl rfl
        · exact Or.inr h
      · split at h
        · rcases List.mem_cons.1 h with rfl | h
          · exact Or.inl rfl
          · exact Or.inr (List.mem_cons_of_mem _ h)
        · rcases List.mem_cons.1 h with rfl | h
          · exact Or.inr (List.mem_cons_self ..)
          · exact (ih h).imp_right (List.mem_cons_of_mem _)

theorem ascending_insert (v : UInt8) (sites : List Site) {entries : List (UInt8 × List Site)}
    (h : entries.Pairwise fun a b => a.1 < b.1) :
    (insert v sites entries).Pairwise fun a b => a.1 < b.1 := by
  induction entries with
  | nil => exact List.pairwise_singleton _ _
  | cons first rest ih =>
      obtain ⟨u, old⟩ := first
      obtain ⟨hrest, hasc⟩ := List.pairwise_cons.1 h
      unfold insert
      split
      · rename_i hlt
        refine List.pairwise_cons.2 ⟨?_, h⟩
        intro entry he
        rcases List.mem_cons.1 he with rfl | he
        · exact hlt
        · exact UInt8.lt_trans hlt (hrest entry he)
      · rename_i hnlt
        split
        · rename_i heq
          subst heq
          exact List.pairwise_cons.2 ⟨hrest, hasc⟩
        · rename_i hne
          have hlt : u < v := UInt8.lt_of_le_of_ne (UInt8.not_lt.1 hnlt) hne
          refine List.pairwise_cons.2 ⟨?_, ih hasc⟩
          intro entry he
          rcases mem_insert he with rfl | he
          · exact hlt
          · exact hrest entry he

/-- Sets the waiting assignments of a variable. -/
def put (p : Pending) (v : UInt8) (sites : List Site) : Pending :=
  ⟨insert v sites p.entries, ascending_insert v sites p.ascending⟩

/-- Drops the waiting assignments of all variables that are read. -/
def clear (p : Pending) (reads : List UInt8) : Pending :=
  ⟨p.entries.filter fun entry => !reads.contains entry.1, p.ascending.filter _⟩

/-- Lets one more assignment to a variable wait, unless it does already. -/
def add (v : UInt8) (p : Pending) (s : Site) : Pending :=
  if (p.get v).any fun t => t.number == s.number then p else p.put v (p.get v ++ [s])

/-- The waiting assignments where two branches meet: those of the first one, and then each of the
second one that does not wait yet. -/
def merge (p q : Pending) : Pending :=
  q.entries.foldl (fun out entry => entry.2.foldl (add entry.1) out) p

/-- All waiting assignments, by variable. -/
def sites (p : Pending) : List Site :=
  p.entries.flatMap fun entry => entry.2

/-! ## What the operations do to a variable -/

@[simp] theorem get_none (v : UInt8) : none.get v = [] := rfl

theorem find_insert (u v : UInt8) (sites : List Site) (entries : List (UInt8 × List Site)) :
    find u (insert v sites entries) = if u = v then sites else find u entries := by
  induction entries with
  | nil => simp only [insert, find, eq_comm]
  | cons entry rest ih =>
    obtain ⟨w, old⟩ := entry
    unfold insert
    split
    · simp only [find, eq_comm (a := v)]
    · split
      · subst w
        simp only [find, eq_comm (a := v)]
        split <;> rfl
      · rename_i hne
        simp only [find, ih]
        by_cases hw : w = u
        · subst hw
          simp [hne]
        · simp [hw]

/-- Setting a variable changes that variable alone. -/
@[simp] theorem get_put (p : Pending) (u v : UInt8) (sites : List Site) :
    (p.put v sites).get u = if u = v then sites else p.get u :=
  find_insert u v sites p.entries

theorem find_filter (v : UInt8) (reads : List UInt8) (entries : List (UInt8 × List Site)) :
    find v (entries.filter fun entry => !reads.contains entry.1) =
      if reads.contains v then [] else find v entries := by
  induction entries with
  | nil => simp [find]
  | cons entry rest ih =>
    obtain ⟨u, sites⟩ := entry
    by_cases hu : u = v
    · subst hu
      by_cases hr : reads.contains u = true
      · rw [List.filter_cons_of_neg (by simpa using hr), ih, if_pos hr, if_pos hr]
      · rw [List.filter_cons_of_pos (by simpa using hr), if_neg hr, find, if_pos rfl, find,
          if_pos rfl]
    · by_cases hr : reads.contains u = true
      · rw [List.filter_cons_of_neg (by simpa using hr), ih, find, if_neg hu]
      · rw [List.filter_cons_of_pos (by simpa using hr), find, if_neg hu, ih, find, if_neg hu]

/-- Clearing empties the variables that are read, and leaves the others as they are. -/
@[simp] theorem get_clear (p : Pending) (reads : List UInt8) (v : UInt8) :
    (p.clear reads).get v = if reads.contains v then [] else p.get v :=
  find_filter v reads p.entries

end Pending

end StoreLint
