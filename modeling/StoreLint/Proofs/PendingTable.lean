import StoreLint.Findings.Pending

/-!
# The table of waiting assignments as a map

`Pending` is a list of entries with ascending variables.  This file says what the operations do to
it as a map from variables to assignments.

* `Pending.mem_sites`: the assignments of the whole table are those of its variables.
* `Pending.get_merge`: where two branches meet, each variable has the assignments of the first
  branch and then, one by one, the new ones of the second.
* `Pending.mem_join`: leaving out the assignments whose number is there already loses nothing, as
  long as a number belongs to one assignment only.
-/

namespace StoreLint
namespace Pending

/-! ## Looking up entries -/

theorem find_of_lt {v : UInt8} {entries : List (UInt8 × List Site)}
    (h : ∀ entry ∈ entries, v < entry.1) : find v entries = [] := by
  induction entries with
  | nil => rfl
  | cons first rest ih =>
      obtain ⟨u, sites⟩ := first
      have hlt : v < u := h (u, sites) (List.mem_cons_self ..)
      rw [find, if_neg (Ne.symm (UInt8.ne_of_lt hlt))]
      exact ih fun entry he => h entry (List.mem_cons_of_mem _ he)

theorem find_of_mem {v : UInt8} {sites : List Site} {entries : List (UInt8 × List Site)}
    (hasc : entries.Pairwise fun a b => a.1 < b.1) (h : (v, sites) ∈ entries) :
    find v entries = sites := by
  induction entries with
  | nil => exact absurd h List.not_mem_nil
  | cons first rest ih =>
      obtain ⟨u, old⟩ := first
      obtain ⟨hlt, hrest⟩ := List.pairwise_cons.1 hasc
      rcases List.mem_cons.1 h with heq | h
      · cases heq
        exact if_pos rfl
      · rw [find, if_neg (UInt8.ne_of_lt (hlt _ h))]
        exact ih hrest h

theorem exists_of_mem_find {v : UInt8} {s : Site} {entries : List (UInt8 × List Site)}
    (h : s ∈ find v entries) : ∃ entry ∈ entries, s ∈ entry.2 := by
  induction entries with
  | nil => exact absurd h List.not_mem_nil
  | cons first rest ih =>
      obtain ⟨u, sites⟩ := first
      rw [find] at h
      split at h
      · exact ⟨(u, sites), List.mem_cons_self .., h⟩
      · obtain ⟨entry, he, hs⟩ := ih h
        exact ⟨entry, List.mem_cons_of_mem _ he, hs⟩

theorem get_of_mem {p : Pending} {v : UInt8} {sites : List Site} (h : (v, sites) ∈ p.entries) :
    p.get v = sites :=
  find_of_mem p.ascending h

/-- The assignments of the table are those of its variables. -/
theorem mem_sites {p : Pending} {s : Site} : s ∈ p.sites ↔ ∃ v, s ∈ p.get v := by
  rw [sites, List.mem_flatMap]
  constructor
  · rintro ⟨⟨v, old⟩, he, hs⟩
    refine ⟨v, ?_⟩
    rwa [get_of_mem he]
  · rintro ⟨v, hs⟩
    exact exists_of_mem_find hs

/-! ## Where two branches meet -/

/-- A list of assignments with one more at its end, unless its number is there. -/
def enqueue (sites : List Site) (s : Site) : List Site :=
  if sites.any fun t => t.number == s.number then sites else sites ++ [s]

/-- The first list, and then the assignments of the second one by one. -/
def join (first second : List Site) : List Site :=
  second.foldl enqueue first

theorem get_add (p : Pending) (u v : UInt8) (s : Site) :
    (p.add v s).get u = if u = v then enqueue (p.get v) s else p.get u := by
  unfold add enqueue
  by_cases hv : u = v
  · subst hv
    split <;> simp
  · split <;> simp [hv]

theorem get_foldl_add (p : Pending) (u v : UInt8) (sites : List Site) :
    (sites.foldl (add v) p).get u = if u = v then join (p.get v) sites else p.get u := by
  induction sites generalizing p with
  | nil =>
      rw [List.foldl_nil, join, List.foldl_nil]
      split
      · rename_i hv
        rw [hv]
      · rfl
  | cons s sites ih =>
      rw [List.foldl_cons, ih, get_add, get_add, if_pos rfl]
      by_cases hv : u = v
      · rw [if_pos hv, if_pos hv, join, join, List.foldl_cons]
      · rw [if_neg hv, if_neg hv, if_neg hv]

/-- A merge joins the assignments of each variable. -/
theorem get_merge (p q : Pending) (v : UInt8) :
    (p.merge q).get v = join (p.get v) (q.get v) := by
  obtain ⟨entries, hasc⟩ := q
  unfold merge
  show _ = join (p.get v) (find v entries)
  induction entries generalizing p with
  | nil => rfl
  | cons first rest ih =>
      obtain ⟨u, sites⟩ := first
      obtain ⟨hlt, hrest⟩ := List.pairwise_cons.1 hasc
      rw [List.foldl_cons, ih _ hrest, get_foldl_add, find]
      -- the variable of the first entry is in no later entry
      by_cases hv : v = u
      · subst hv
        rw [if_pos rfl, if_pos rfl, find_of_lt hlt]
        rfl
      · rw [if_neg hv, if_neg (Ne.symm hv)]

theorem mem_enqueue {sites : List Site} {s t : Site}
    (hinj : ∀ a ∈ sites, a.number = t.number → a = t) :
    s ∈ enqueue sites t ↔ s ∈ sites ∨ s = t := by
  unfold enqueue
  split
  · rename_i hdup
    obtain ⟨a, ha, hnumber⟩ := List.any_eq_true.1 hdup
    have hat : a = t := hinj a ha (by simpa using hnumber)
    constructor
    · exact Or.inl
    · rintro (h | rfl)
      · exact h
      · exact hat ▸ ha
  · simp

/-- Joining leaves out no assignment, if a number belongs to one assignment only. -/
theorem mem_join {first second : List Site} {s : Site}
    (hinj : ∀ a ∈ first ++ second, ∀ b ∈ second, a.number = b.number → a = b) :
    s ∈ join first second ↔ s ∈ first ∨ s ∈ second := by
  induction second generalizing first with
  | nil => simp [join]
  | cons t second ih =>
      have henqueue : ∀ a, a ∈ enqueue first t ↔ a ∈ first ∨ a = t := fun a =>
        mem_enqueue fun b hb => hinj b (by simp [hb]) t (by simp)
      rw [join, List.foldl_cons, ← join, ih, henqueue, List.mem_cons, or_assoc]
      intro a ha b hb
      refine hinj a ?_ b (by simp [hb])
      simpa [henqueue, or_assoc] using ha

end Pending
end StoreLint
