import NamedLambda.Name.Basic

/-!
New names for variables. Candidates come in tiers of twenty-six: the letters, then each letter with
a 1 after it, then with a 2, and so on. The new name is of the first tier that has an unused one.
No name belongs to two tiers, so a finite number of names in use cannot fill them all.
-/
namespace NamedLambda.Variable

/-- The letters that candidates begin with, in increasing order. -/
def letters : List Char :=
  "abcdefghijklmnopqrstuvwxyz".toList

/-- What stands after the letter: nothing in the first tier, later the tier in decimal. -/
def tierSuffix (n : Nat) : List Char :=
  if n = 0 then [] else Nat.toDigits 10 n

/-- The candidate of a tier that begins with the letter. -/
def candidate (n : Nat) (c : Char) : Variable :=
  ⟨String.ofList (c :: tierSuffix n)⟩

def tier (n : Nat) : List Variable :=
  letters.map (candidate n)

/-- The candidates of a tier that are not in use, in increasing order. -/
def unused (used : List Variable) (n : Nat) : List Variable :=
  (tier n).filter fun x => !used.contains x

/-- The least unused name of the tier that comes after `x`; failing that, the least unused one. -/
def pick (x : Variable) (used : List Variable) (n : Nat) : Option Variable :=
  ((unused used n).find? fun y => decide (x < y)).or (unused used n).head?

/-- A name that is not in use, taken after `x` where the tier allows it. One of the first
`used.length + 1` tiers has a name left. -/
def fresh (x : Variable) (used : List Variable) : Variable :=
  ((List.range (used.length + 1)).findSome? (pick x used)).getD x

theorem mem_unused {x : Variable} {used : List Variable} {n : Nat} :
    x ∈ unused used n ↔ x ∈ tier n ∧ x ∉ used := by
  simp [unused]

theorem mem_unused_of_pick {x y : Variable} {used : List Variable} {n : Nat}
    (h : pick x used n = some y) : y ∈ unused used n := by
  rcases Option.or_eq_some_iff.mp h with h | ⟨_, h⟩
  · exact List.mem_of_find?_eq_some h
  · exact List.mem_of_mem_head? h

/-- Nothing is picked only where the tier is all in use. -/
theorem mem_of_pick_eq_none {x y : Variable} {used : List Variable} {n : Nat}
    (h : pick x used n = none) (hy : y ∈ tier n) : y ∈ used := by
  have hnil : unused used n = [] := List.head?_eq_none_iff.mp (Option.or_eq_none_iff.mp h).2
  by_cases hu : y ∈ used
  · exact hu
  · have := mem_unused.mpr ⟨hy, hu⟩
    simp [hnil] at this

theorem ofDigitChars_tierSuffix (n : Nat) : Nat.ofDigitChars 10 (tierSuffix n) 0 = n := by
  unfold tierSuffix
  split
  · next h => simp [h]
  · exact Nat.ofDigitChars_ten_toDigits

/-- A candidate tells its tier. -/
theorem eq_of_candidate_eq {m n : Nat} {c d : Char} (h : candidate m c = candidate n d) :
    m = n := by
  have htail : tierSuffix m = tierSuffix n := by
    simp only [candidate, Variable.mk.injEq, String.ofList_inj, List.cons.injEq] at h
    exact h.2
  rw [← ofDigitChars_tierSuffix m, htail, ofDigitChars_tierSuffix]

theorem candidate_mem_tier (n : Nat) : candidate n 'a' ∈ tier n :=
  List.mem_map_of_mem (by decide)

/-- Among one tier more than there are names in use, one has a name left. -/
theorem exists_pick (x : Variable) (used : List Variable) :
    ∃ y, (List.range (used.length + 1)).findSome? (pick x used) = some y := by
  apply Option.isSome_iff_exists.mp
  apply Option.isSome_iff_ne_none.mpr
  intro hnone
  have hall : ∀ n ∈ List.range (used.length + 1), pick x used n = none :=
    List.findSome?_eq_none_iff.mp hnone
  have hnodup : ((List.range (used.length + 1)).map fun n => candidate n 'a').Nodup := by
    apply List.pairwise_map.mpr
    exact List.nodup_range.imp fun hne heq => hne (eq_of_candidate_eq heq)
  have hsub : ((List.range (used.length + 1)).map fun n => candidate n 'a') ⊆ used := by
    intro y hy
    obtain ⟨n, hn, rfl⟩ := List.mem_map.mp hy
    exact mem_of_pick_eq_none (hall n hn) (candidate_mem_tier n)
  have hlen := hnodup.length_le_of_subset hsub
  simp only [List.length_map, List.length_range] at hlen
  omega

/-- The new name is picked from some tier. -/
theorem exists_pick_eq_fresh (x : Variable) (used : List Variable) :
    ∃ n, pick x used n = some (fresh x used) := by
  obtain ⟨y, hy⟩ := exists_pick x used
  obtain ⟨n, _, hn⟩ := List.exists_of_findSome?_eq_some hy
  exact ⟨n, by rw [fresh, hy, hn, Option.getD_some]⟩

theorem fresh_mem_unused (x : Variable) (used : List Variable) :
    ∃ n, fresh x used ∈ unused used n := by
  obtain ⟨n, hn⟩ := exists_pick_eq_fresh x used
  exact ⟨n, mem_unused_of_pick hn⟩

theorem fresh_not_mem (x : Variable) (used : List Variable) : fresh x used ∉ used := by
  obtain ⟨n, hn⟩ := fresh_mem_unused x used
  exact (mem_unused.mp hn).2

theorem isNameTail_of_mem_tierSuffix {n : Nat} {c : Char} (h : c ∈ tierSuffix n) :
    isNameTail c = true := by
  unfold tierSuffix at h
  split at h
  · cases h
  · have hdigit : c.isDigit = true :=
      Nat.isDigit_of_mem_toDigits (by decide) (by decide) h
    simp [isNameTail, hdigit]

theorem isLower_of_mem_letters {c : Char} (h : c ∈ letters) : c.isLower = true :=
  List.all_eq_true.mp (by decide : letters.all Char.isLower) c h

theorem valid_of_mem_tier {x : Variable} {n : Nat} (h : x ∈ tier n) : x.Valid := by
  obtain ⟨c, hc, rfl⟩ := List.mem_map.mp h
  simp only [Valid, candidate, String.toList_ofList, isVariableName, isLower_of_mem_letters hc,
    Bool.true_and, List.all_eq_true]
  exact fun d hd => isNameTail_of_mem_tierSuffix hd

theorem valid_fresh (x : Variable) (used : List Variable) : (fresh x used).Valid := by
  obtain ⟨n, hn⟩ := fresh_mem_unused x used
  exact valid_of_mem_tier (mem_unused.mp hn).1

end NamedLambda.Variable
