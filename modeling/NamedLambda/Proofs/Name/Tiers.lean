import Mathlib.Data.Finset.Card
import Mathlib.Data.List.Flatten
import NamedLambda.Name.Fresh
import NamedLambda.Proofs.Text.Bytes

/-!
New names by their tiers. The search for one ends in the first tier that is not all in use, which
comes early, as the tiers before it use up twenty-six names each. In its tier the new name is the
first unused one after the old name, or else the first unused one.
-/
namespace NamedLambda.Variable

/-- The bytes of the name. -/
def bytes (x : Variable) : List UInt8 :=
  Text.bytes x.name

/-- A letter, with nothing behind it in the first tier, and with the number of the tier in decimal
in every other. -/
def InTier (n : Nat) (y : Variable) : Prop :=
  ∃ c, 'a' ≤ c ∧ c ≤ 'z' ∧ y.name = String.singleton c ++ if n = 0 then "" else toString n

/-- The first of the variables of a kind, byte by byte. -/
def IsFirst (P : Variable → Prop) (y : Variable) : Prop :=
  P y ∧ ∀ z, P z → y.bytes ≤ z.bytes

theorem bytes_lt_iff {x y : Variable} : x.bytes < y.bytes ↔ x < y :=
  Text.bytes_lt_iff

/-! ### What a tier holds -/

theorem mem_letters_iff {c : Char} : c ∈ letters ↔ 'a' ≤ c ∧ c ≤ 'z' := by
  constructor
  · intro h
    obtain ⟨ha, hz⟩ := Bool.and_eq_true_iff.mp (isLower_of_mem_letters h)
    exact ⟨of_decide_eq_true ha, of_decide_eq_true hz⟩
  · intro h
    have hletters : letters = (List.range 26).map fun i => Char.ofNat (97 + i) := by decide
    have hc : 97 ≤ c.toNat ∧ c.toNat ≤ 122 := h
    rw [hletters, List.mem_map]
    refine ⟨c.toNat - 97, List.mem_range.mpr (by omega), ?_⟩
    rw [Nat.add_sub_cancel' hc.1, Char.ofNat_toNat]

theorem mem_tier_iff {n : Nat} {y : Variable} : y ∈ tier n ↔ InTier n y := by
  have hname (c : Char) :
      (candidate n c).name = String.singleton c ++ if n = 0 then "" else toString n := by
    apply String.toList_inj.mp
    by_cases hn : n = 0 <;> simp [candidate, tierSuffix, hn]
  unfold tier InTier
  rw [List.mem_map]
  constructor
  · rintro ⟨c, hc, rfl⟩
    obtain ⟨ha, hz⟩ := mem_letters_iff.mp hc
    exact ⟨c, ha, hz, hname c⟩
  · rintro ⟨c, ha, hz, hy⟩
    refine ⟨c, mem_letters_iff.mpr ⟨ha, hz⟩, ?_⟩
    rw [← hname c] at hy
    exact (Variable.mk.injEq _ _).mpr hy.symm

@[simp] theorem length_tier (n : Nat) : (tier n).length = 26 := by
  rw [tier, List.length_map]
  rfl

theorem candidate_lt_candidate (n : Nat) {c d : Char} (h : c < d) :
    candidate n c < candidate n d := by
  change String.ofList _ < String.ofList _
  rw [String.lt_iff_toList_lt, String.toList_ofList, String.toList_ofList]
  exact List.cons_lt_cons_iff.mpr (Or.inl h)

/-- A tier is in increasing order. -/
theorem pairwise_tier (n : Nat) : (tier n).Pairwise (· < ·) := by
  have hletters : letters.Pairwise (· < ·) := by decide
  exact List.pairwise_map.mpr (hletters.imp fun h => candidate_lt_candidate n h)

theorem pairwise_unused (used : List Variable) (n : Nat) :
    (unused used n).Pairwise (· < ·) :=
  (pairwise_tier n).filter _

theorem lt_irrefl (x : Variable) : ¬ x < x := by
  intro h
  exact List.lt_irrefl _ (bytes_lt_iff.mpr h)

theorem nodup_tier (n : Nat) : (tier n).Nodup := by
  apply (pairwise_tier n).imp
  rintro y z hlt rfl
  exact lt_irrefl y hlt

/-- The tiers before the `n`th have `26 * n` names. -/
theorem nodup_tiers (n : Nat) : ((List.range n).flatMap tier).Nodup := by
  apply List.nodup_flatMap.mpr
  refine ⟨fun m _ => nodup_tier m, List.nodup_range.imp ?_⟩
  intro k m hne y hk hm
  obtain ⟨c, -, rfl⟩ := List.mem_map.mp hk
  obtain ⟨d, -, hd⟩ := List.mem_map.mp hm
  exact hne (eq_of_candidate_eq hd.symm)

theorem le_card_div_of_full {used : List Variable} {n : Nat}
    (h : ∀ m < n, ∀ y ∈ tier m, y ∈ used) : n ≤ used.toFinset.card / 26 := by
  have hsub : ((List.range n).flatMap tier).toFinset ⊆ used.toFinset := by
    intro y hy
    obtain ⟨m, hm, hym⟩ := List.mem_flatMap.mp (List.mem_toFinset.mp hy)
    exact List.mem_toFinset.mpr (h m (List.mem_range.mp hm) y hym)
  have hcard := Finset.card_le_card hsub
  rw [List.toFinset_card_of_nodup (nodup_tiers n)] at hcard
  have hlength : ((List.range n).flatMap tier).length = n * 26 := by
    simp [List.length_flatMap]
  rw [hlength] at hcard
  exact (Nat.le_div_iff_mul_le (by decide)).mpr hcard

/-! ### Which name is picked -/

/-- What stands from a place on in an ordered list comes after what stands there. -/
theorem mem_front_or_of_pairwise {α : Type} {r : α → α → Prop} {front back : List α} {a b : α}
    (h : (front ++ a :: back).Pairwise r) (hb : b ∈ front ++ a :: back) :
    b ∈ front ∨ b = a ∨ r a b := by
  rcases List.mem_append.mp hb with hb | hb
  · exact Or.inl hb
  · right
    have hback := (List.pairwise_cons.mp (List.pairwise_append.mp h).2.1).1
    exact (List.mem_cons.mp hb).imp_right (hback b)

section
variable {x y : Variable} {used : List Variable} {n : Nat}

theorem isFirst_of_find? {p : Variable → Bool} {l : List Variable} (hl : l.Pairwise (· < ·))
    (h : l.find? p = some y) : IsFirst (fun z => z ∈ l ∧ p z = true) y := by
  obtain ⟨hy, before, after, rfl, hbefore⟩ := List.find?_eq_some_iff_append.mp h
  refine ⟨⟨List.mem_append_right _ List.mem_cons_self, hy⟩, ?_⟩
  rintro z ⟨hz, hpz⟩
  rcases mem_front_or_of_pairwise hl hz with hfront | rfl | hlt
  · have hnot := hbefore z hfront
    rw [hpz] at hnot
    cases hnot
  · exact List.le_refl _
  · exact List.le_of_lt (bytes_lt_iff.mpr hlt)

theorem mem_unused_iff : y ∈ unused used n ↔ InTier n y ∧ y ∉ used := by
  rw [mem_unused, mem_tier_iff]

/-- The one that is picked is the first unused one of the tier after `x`, or there is none such and
it is the first unused one. -/
theorem isFirst_of_pick (h : pick x used n = some y) :
    IsFirst (fun z => (InTier n z ∧ z ∉ used) ∧ x.bytes < z.bytes) y ∨
      (∀ z, InTier n z → z ∉ used → ¬ x.bytes < z.bytes) ∧
        IsFirst (fun z => InTier n z ∧ z ∉ used) y := by
  have hsorted := pairwise_unused used n
  simp only [← mem_unused_iff, bytes_lt_iff]
  rcases Option.or_eq_some_iff.mp h with hafter | ⟨hnone, hfirst⟩
  · left
    simpa only [decide_eq_true_eq] using isFirst_of_find? hsorted hafter
  · right
    constructor
    · intro z hz hzused
      have hmem : z ∈ unused used n := mem_unused_iff.mpr ⟨hz, hzused⟩
      simpa using List.find?_eq_none.mp hnone z hmem
    · have hfind : (unused used n).find? (fun _ => true) = some y := by
        rw [← hfirst]
        cases unused used n <;> rfl
      simpa only [and_true] using isFirst_of_find? hsorted hfind

end

/-- The search ends in the first tier with an unused name. -/
theorem exists_first_pick (x : Variable) (used : List Variable) :
    ∃ n, pick x used n = some (fresh x used) ∧ ∀ m < n, pick x used m = none := by
  obtain ⟨y, hy⟩ := exists_pick x used
  obtain ⟨before, n, after, hrange, hn, hbefore⟩ := List.findSome?_eq_some_iff.mp hy
  refine ⟨n, ?_, ?_⟩
  · rw [fresh, hy, hn, Option.getD_some]
  · intro m hm
    have hmem (k : Nat) : k ∈ before ++ n :: after ↔ k < used.length + 1 := by
      rw [← hrange]
      exact List.mem_range
    have hsorted : (before ++ n :: after).Pairwise (· < ·) := hrange ▸ List.pairwise_lt_range
    have hn' := (hmem n).mp (List.mem_append_right _ List.mem_cons_self)
    have hm' := (hmem m).mpr (Nat.lt_trans hm hn')
    apply hbefore
    apply (mem_front_or_of_pairwise hsorted hm').resolve_right
    omega

/-- The new name is valid and is not in use. It is of the first tier in which some name is not in
use, where the search that goes from tier to tier ends, and which comes at the latest after as many
tiers as the names in use can fill. There it is the first unused name after the old one, byte by
byte, or the first unused one if none comes after. -/
theorem fresh_is_first_in_tier (x : Variable) (used : List Variable) :
    (fresh x used).Valid ∧ fresh x used ∉ used ∧
      ∃ n, InTier n (fresh x used) ∧
        (∀ m < n, ∀ y, InTier m y → y ∈ used) ∧ n ≤ used.toFinset.card / 26 ∧
        (∀ m < n, pick x used m = none) ∧ pick x used n = some (fresh x used) ∧
        (IsFirst (fun y => (InTier n y ∧ y ∉ used) ∧ x.bytes < y.bytes) (fresh x used) ∨
          (∀ y, InTier n y → y ∉ used → ¬ x.bytes < y.bytes) ∧
            IsFirst (fun y => InTier n y ∧ y ∉ used) (fresh x used)) := by
  obtain ⟨n, hpick, hnone⟩ := exists_first_pick x used
  obtain ⟨hname, hunused⟩ := mem_unused_iff.mp (mem_unused_of_pick hpick)
  have hfull : ∀ m < n, ∀ y ∈ tier m, y ∈ used :=
    fun m hm y hy => mem_of_pick_eq_none (hnone m hm) hy
  refine ⟨valid_fresh x used, hunused, n, hname, ?_, le_card_div_of_full hfull, hnone, hpick,
    isFirst_of_pick hpick⟩
  intro m hm y hy
  exact hfull m hm y (mem_tier_iff.mpr hy)

/-- With all letters in use the name is of the second tier, where it comes after the old one. -/
example : fresh ⟨"m1"⟩ (tier 0 ++ [⟨"n1"⟩]) = ⟨"o1"⟩ := by decide

end NamedLambda.Variable
