import Mathlib.Data.List.TakeWhile
import NamedLambda.Token.Language

/-!
What maximal munch takes. A class reaches as far as the longest of its tokens, so the class that is
taken spells the characters. By the first of them all other classes are out of the question, except
where it is the letter that spells the lambda and begins constants.
-/
namespace NamedLambda

theorem isUpper_eq_false_of_isLower {c : Char} (h : c.isLower = true) : c.isUpper = false := by
  have hlower : (decide (c.val ≥ 'a'.val) && decide (c.val ≤ 'z'.val)) = true := h
  rw [Bool.and_eq_true, decide_eq_true_eq] at hlower
  have hupper : ¬ (c.val ≥ 'A'.val ∧ c.val ≤ 'Z'.val) := by grind
  exact decide_eq_false hupper

namespace TokenClass

theorem furthest_eq_none_iff {cs : List Char} {ks : List TokenClass} :
    furthest cs ks = none ↔ ∀ k ∈ ks, k.reach cs = 0 := by
  induction ks with
  | nil => simp [furthest]
  | cons j ks ih =>
    rw [List.forall_mem_cons, ← ih, furthest]
    cases h : furthest cs ks with
    | none => simp
    | some found =>
      obtain ⟨i, m⟩ := found
      simp only [reduceCtorEq, and_false, iff_false]
      split <;> simp

/-- The class taken reaches further than those before it, and at least as far as those behind. -/
theorem exists_append_of_furthest {cs : List Char} {ks : List TokenClass} {k : TokenClass} {n : Nat}
    (h : furthest cs ks = some (k, n)) :
    k.reach cs = n ∧ ∃ front back, ks = front ++ k :: back ∧
      (∀ j ∈ front, j.reach cs < n) ∧ ∀ j ∈ back, j.reach cs ≤ n := by
  induction ks generalizing k n with
  | nil => cases h
  | cons j ks ih =>
    rw [furthest] at h
    cases hks : furthest cs ks with
    | none =>
      have hzero := furthest_eq_none_iff.mp hks
      simp only [hks] at h
      split at h <;> cases h
      exact ⟨rfl, [], ks, rfl, by simp, fun i hi => by rw [hzero i hi]; exact Nat.zero_le _⟩
    | some found =>
      obtain ⟨i, m⟩ := found
      obtain ⟨hi, front, back, rfl, hfront, hback⟩ := ih hks
      simp only [hks] at h
      split at h
      · next hlt =>
        cases h
        exact ⟨hi, j :: front, back, rfl, List.forall_mem_cons.mpr ⟨hlt, hfront⟩, hback⟩
      · next hle =>
        cases h
        have hm : m ≤ j.reach cs := Nat.not_lt.mp hle
        refine ⟨rfl, [], front ++ i :: back, rfl, by simp, ?_⟩
        rw [List.forall_mem_append, List.forall_mem_cons, hi]
        exact ⟨fun e he => Nat.le_trans (Nat.le_of_lt (hfront e he)) hm, hm,
          fun e he => Nat.le_trans (hback e he) hm⟩

theorem furthest_cons_of_le {cs : List Char} {ks : List TokenClass} {k : TokenClass}
    (hpos : 0 < k.reach cs) (hks : ∀ j ∈ ks, j.reach cs ≤ k.reach cs) :
    furthest cs (k :: ks) = some (k, k.reach cs) := by
  rw [furthest]
  cases h : furthest cs ks with
  | none => exact if_neg (Nat.ne_of_gt hpos)
  | some found =>
    obtain ⟨i, m⟩ := found
    obtain ⟨rfl, front, back, rfl, -⟩ := exists_append_of_furthest h
    exact if_neg (Nat.not_lt.mpr (hks i (by simp)))

theorem furthest_append_of_lt {cs : List Char} {front back : List TokenClass} {k : TokenClass}
    (hpos : 0 < k.reach cs) (hfront : ∀ j ∈ front, j.reach cs < k.reach cs)
    (hback : ∀ j ∈ back, j.reach cs ≤ k.reach cs) :
    furthest cs (front ++ k :: back) = some (k, k.reach cs) := by
  induction front with
  | nil => exact furthest_cons_of_le hpos hback
  | cons j front ih =>
    obtain ⟨hj, hfront⟩ := List.forall_mem_cons.mp hfront
    rw [List.cons_append, furthest, ih hfront]
    exact if_pos hj

theorem take_length_takeWhile (p : Char → Bool) (cs : List Char) :
    cs.take (cs.takeWhile p).length = cs.takeWhile p :=
  (List.prefix_iff_eq_take.mp (List.takeWhile_prefix p)).symm

/-- As far as a class reaches, there is a token of it. -/
theorem spells_take_reach {k : TokenClass} {cs : List Char} (h : 0 < k.reach cs) :
    k.Spells (cs.take (k.reach cs)) := by
  cases k with
  | blank =>
    rw [reach] at h ⊢
    rw [take_length_takeWhile]
    exact ⟨List.ne_nil_of_length_pos h, fun c hc => List.mem_takeWhile_imp hc⟩
  | openParen | closeParen | dot =>
    cases cs with
    | nil => cases h
    | cons d cs =>
      simp only [reach, reachOfChar] at h ⊢
      split at h
      · next hd => simp [hd, Spells]
      · cases h
  | lambda =>
    rw [reach, reachOfSpelling] at h ⊢
    cases hfind : lambdaSpellings.find? (·.isPrefixOf cs) with
    | none => simp [hfind] at h
    | some w =>
      have hw := List.find?_some hfind
      have hprefix : w <+: cs := List.isPrefixOf_iff_prefix.mp hw
      rw [Option.map_some, Option.getD_some, ← List.prefix_iff_eq_take.mp hprefix]
      exact List.mem_of_find?_eq_some hfind
  | constantName =>
    rw [reach] at h ⊢
    rw [take_length_takeWhile, Spells, isConstantName]
    simp only [Bool.and_eq_true, Bool.not_eq_true', List.isEmpty_eq_false_iff, List.all_eq_true]
    exact ⟨List.ne_nil_of_length_pos h, fun c hc => List.mem_takeWhile_imp hc⟩
  | variableName =>
    cases cs with
    | nil => cases h
    | cons d cs =>
      simp only [reach, reachOfVariable] at h ⊢
      split at h
      · next hd =>
        rw [if_pos hd, List.take_succ_cons, take_length_takeWhile, Spells, isVariableName, hd]
        simp only [Bool.true_and, List.all_eq_true]
        exact fun c hc => List.mem_takeWhile_imp hc
      · cases h

/-- No token of a class that the text begins with is longer than the class reaches. -/
theorem length_le_reach {k : TokenClass} {w : List Char} (h : k.Spells w) (rest : List Char) :
    w.length ≤ k.reach (w ++ rest) := by
  cases k with
  | blank =>
    rw [reach, List.takeWhile_append_of_pos h.2, List.length_append]
    omega
  | openParen | closeParen | dot =>
    rw [h]
    simp [reach, reachOfChar]
  | lambda =>
    simp only [Spells, lambdaSpellings, List.mem_cons, List.not_mem_nil, or_false] at h
    rcases h with rfl | rfl | rfl
    · simp [reach, reachOfSpelling, lambdaSpellings]
    · cases hlong : "ambda".toList.isPrefixOf rest <;>
        simp_all [reach, reachOfSpelling, lambdaSpellings]
    · simp [reach, reachOfSpelling, lambdaSpellings, lambdaSign]
  | constantName =>
    simp only [Spells, isConstantName, Bool.and_eq_true, List.all_eq_true] at h
    rw [reach, List.takeWhile_append_of_pos h.2, List.length_append]
    omega
  | variableName =>
    cases w with
    | nil => cases h
    | cons c cs =>
      simp only [Spells, isVariableName, Bool.and_eq_true, List.all_eq_true] at h
      rw [List.cons_append, reach, reachOfVariable, if_pos h.1, List.takeWhile_append_of_pos h.2,
        List.length_append, List.length_cons]
      omega

/-- Some token of the class begins with the character. -/
def begins : TokenClass → Char → Bool
  | .blank, c => isSeparator c
  | .openParen, c => c == '('
  | .closeParen, c => c == ')'
  | .dot, c => c == '.'
  | .lambda, c => c == 'L' || c == lambdaSign
  | .constantName, c => c.isUpper
  | .variableName, c => c.isLower

theorem reach_of_begins_eq_false {k : TokenClass} {c : Char} (h : k.begins c = false)
    (cs : List Char) : k.reach (c :: cs) = 0 := by
  cases k with
  | blank | constantName => simp_all [begins, reach]
  | openParen | closeParen | dot => simp_all [begins, reach, reachOfChar]
  | variableName => simp_all [begins, reach, reachOfVariable]
  | lambda =>
    simp only [begins, Bool.or_eq_false_iff, beq_eq_false_iff_ne] at h
    have hnone : lambdaSpellings.find? (·.isPrefixOf (c :: cs)) = none := by
      simp [lambdaSpellings, h.1.symm, h.2.symm]
    rw [reach, reachOfSpelling, hnone]
    rfl

theorem begins_of_reach_pos {k : TokenClass} {c : Char} {cs : List Char}
    (h : 0 < k.reach (c :: cs)) : k.begins c = true := by
  by_contra hc
  rw [reach_of_begins_eq_false (Bool.eq_false_iff.mpr hc)] at h
  exact absurd h (Nat.lt_irrefl 0)

/-- Every character that begins a token is one. -/
theorem spells_singleton {k : TokenClass} {c : Char} (h : k.begins c = true) : k.Spells [c] := by
  cases k with
  | lambda => simpa [begins, Spells, lambdaSpellings] using h
  | blank => simpa [begins, Spells] using h
  | openParen | closeParen | dot => simpa [begins, Spells] using h
  | constantName => simpa [begins, Spells, isConstantName] using h
  | variableName => simpa [begins, Spells, isVariableName] using h

theorem reach_pos_of_begins {k : TokenClass} {c : Char} (h : k.begins c = true) (cs : List Char) :
    0 < k.reach (c :: cs) :=
  length_le_reach (spells_singleton h) cs

/-- The characters with which a token other than a name begins, but for the letter of the lambda. -/
def signs : List Char :=
  [' ', '\t', '\r', '\n', '(', ')', '.', lambdaSign]

theorem eq_of_begins_of_mem_signs {j k : TokenClass} {c : Char} (hc : c ∈ signs)
    (hj : j.begins c = true) (hk : k.begins c = true) : j = k := by
  have hall : (signs.all fun c => all.all fun j => all.all fun k =>
      decide (j.begins c = true → k.begins c = true → j = k)) = true := by
    decide
  simp only [List.all_eq_true, decide_eq_true_eq] at hall
  exact hall c hc j j.mem_all k k.mem_all hj hk

/-- But for the letter of the lambda, a character begins tokens of one class only. -/
theorem eq_of_begins {j k : TokenClass} {c : Char} (hc : c ≠ 'L') (hj : j.begins c = true)
    (hk : k.begins c = true) : j = k := by
  by_cases hsigns : c ∈ signs
  · exact eq_of_begins_of_mem_signs hsigns hj hk
  · have hname {i : TokenClass} (hi : i.begins c = true) :
        i = .constantName ∨ i = .variableName := by
      simp only [signs, List.mem_cons, List.not_mem_nil, or_false, not_or] at hsigns
      cases i <;> simp_all [begins, isSeparator]
    rcases hname hj with rfl | rfl <;> rcases hname hk with rfl | rfl
    · rfl
    · exact absurd hj (by simp [begins, isUpper_eq_false_of_isLower hk])
    · exact absurd hk (by simp [begins, isUpper_eq_false_of_isLower hj])
    · rfl

/-- The sign that the tokens of a class are written as, other than blanks and names. -/
def sign : TokenClass → Option Char
  | .openParen => some '('
  | .closeParen => some ')'
  | .dot => some '.'
  | .lambda => some lambdaSign
  | .blank | .constantName | .variableName => none

end TokenClass

section
variable {k : TokenClass} {cs : List Char}

/-- The class that reaches further than all others is taken. -/
theorem munch_of_lt (hpos : 0 < k.reach cs) (h : ∀ j, j ≠ k → j.reach cs < k.reach cs) :
    munch cs = some (k, k.reach cs) := by
  obtain ⟨front, back, hall, hk⟩ := List.eq_append_cons_of_mem k.mem_all
  rw [munch, hall]
  apply TokenClass.furthest_append_of_lt hpos
  · intro j hj
    exact h j fun hjk => hk (hjk ▸ hj)
  · intro j _
    by_cases hjk : j = k
    · exact Nat.le_of_eq (congrArg (TokenClass.reach · cs) hjk)
    · exact Nat.le_of_lt (h j hjk)

/-- But for the letter of the lambda, the first character says which class is taken. -/
theorem munch_of_begins {c : Char} (hc : c ≠ 'L') (hk : k.begins c = true) (cs : List Char) :
    munch (c :: cs) = some (k, k.reach (c :: cs)) := by
  have hpos := TokenClass.reach_pos_of_begins hk cs
  apply munch_of_lt hpos
  intro j hj
  have hbegins : j.begins c = false :=
    Bool.eq_false_iff.mpr fun h => hj (TokenClass.eq_of_begins hc h hk)
  rw [TokenClass.reach_of_begins_eq_false hbegins]
  exact hpos

/-- A sign is a token by itself, whatever follows. -/
theorem munch_sign {c : Char} (h : k.sign = some c) (rest : List Char) :
    munch (c :: rest) = some (k, 1) := by
  have hk : c ≠ 'L' ∧ k.begins c = true ∧ k.reach (c :: rest) = 1 := by
    cases k <;> cases h <;> simp [TokenClass.begins, TokenClass.reach, TokenClass.reachOfChar,
      TokenClass.reachOfSpelling, lambdaSpellings, lambdaSign]
  rw [munch_of_begins hk.1 hk.2.1, hk.2.2]

theorem spells_of_munch {n : Nat} (h : munch cs = some (k, n)) : k.Spells (cs.take n) := by
  have hpos := munch_pos h
  obtain ⟨rfl, -⟩ := TokenClass.exists_append_of_furthest h
  exact TokenClass.spells_take_reach hpos

/-- A class that comes earlier in the order does not reach as far as the one taken. -/
theorem reach_lt_of_munch {j : TokenClass} {n : Nat} (h : munch cs = some (k, n))
    (hj : TokenClass.all.idxOf j < TokenClass.all.idxOf k) : j.reach cs < n := by
  obtain ⟨-, front, back, hall, hfront, -⟩ := TokenClass.exists_append_of_furthest h
  have hnodup : (front ++ k :: back).Nodup := hall ▸ by decide
  have hk : k ∉ front := fun hk =>
    (List.nodup_append.mp hnodup).2.2 k hk k List.mem_cons_self rfl
  apply hfront
  by_contra hjfront
  rw [hall, List.idxOf_append, List.idxOf_append, if_neg hk, if_neg hjfront,
    List.idxOf_cons_self] at hj
  omega

/-- No other token begins with a blank. -/
theorem reach_blank_of_munch {n : Nat} (h : munch cs = some (k, n)) (hk : k ≠ .blank) :
    TokenClass.reach .blank cs = 0 := by
  cases cs with
  | nil => rfl
  | cons c cs =>
    by_contra hblank
    have hc := TokenClass.begins_of_reach_pos (Nat.pos_of_ne_zero hblank)
    have hL : c ≠ 'L' := by
      rintro rfl
      exact absurd hc (by decide)
    have hpos := munch_pos h
    obtain ⟨rfl, -⟩ := TokenClass.exists_append_of_furthest h
    exact hk (TokenClass.eq_of_begins hL (TokenClass.begins_of_reach_pos hpos) hc)

/-- The letter that also spells the lambda is not taken as a constant. -/
theorem take_ne_of_munch_constantName {n : Nat} (h : munch cs = some (.constantName, n)) :
    cs.take n ≠ ['L'] := by
  intro htake
  have hlambda : TokenClass.reach .lambda cs < n := reach_lt_of_munch h (by decide)
  obtain ⟨rfl, -⟩ := TokenClass.exists_append_of_furthest h
  rw [TokenClass.reach] at hlambda htake
  rw [TokenClass.take_length_takeWhile] at htake
  have hprefix : ['L'] <+: cs := htake ▸ List.takeWhile_prefix Char.isUpper
  obtain ⟨rest, rfl⟩ := hprefix
  have hspells : TokenClass.Spells .lambda ['L'] := by simp [TokenClass.Spells, lambdaSpellings]
  have hreach := TokenClass.length_le_reach hspells rest
  rw [htake] at hlambda
  exact absurd hreach (Nat.not_le.mpr hlambda)

end

/-- What follows does not make a name longer. -/
def EndsName (rest : List Char) : Prop :=
  ∀ c ∈ rest.head?, isNameTail c = false ∧ c.isUpper = false

theorem endsName_nil : EndsName [] := by
  simp [EndsName]

theorem endsName_cons {c : Char} (hc : isNameTail c = false ∧ c.isUpper = false)
    (rest : List Char) : EndsName (c :: rest) := by
  simpa [EndsName] using hc

theorem endsName_space (rest : List Char) : EndsName (' ' :: rest) :=
  endsName_cons (by decide) rest

theorem endsName_closeParen (rest : List Char) : EndsName (')' :: rest) :=
  endsName_cons (by decide) rest

section
variable {w rest : List Char}

theorem takeWhile_append_eq {p : Char → Bool} (hw : ∀ c ∈ w, p c = true)
    (hrest : ∀ c ∈ rest.head?, p c = false) : (w ++ rest).takeWhile p = w := by
  rw [List.takeWhile_append_of_pos hw]
  cases rest with
  | nil => simp
  | cons c rest => simp [hrest c rfl]

theorem munch_variableName (hw : isVariableName w = true) (hrest : EndsName rest) :
    munch (w ++ rest) = some (.variableName, w.length) := by
  cases w with
  | nil => cases hw
  | cons c w =>
    simp only [isVariableName, Bool.and_eq_true, List.all_eq_true] at hw
    have hc : c ≠ 'L' := by
      rintro rfl
      exact absurd hw.1 (by decide)
    have hreach : TokenClass.reach .variableName (c :: (w ++ rest)) = (c :: w).length := by
      rw [TokenClass.reach, TokenClass.reachOfVariable, if_pos hw.1,
        takeWhile_append_eq hw.2 fun d hd => (hrest d hd).1, List.length_cons]
    rw [List.cons_append, munch_of_begins (k := .variableName) hc hw.1, hreach]

theorem reach_lambda_of_ne {c : Char} (hc : c ≠ 'a') (cs : List Char) :
    TokenClass.reach .lambda ('L' :: c :: cs) = 1 := by
  simp [TokenClass.reach, TokenClass.reachOfSpelling, lambdaSpellings, hc.symm]

theorem munch_constantName (hw : isConstantName w = true) (hL : w ≠ ['L'])
    (hrest : EndsName rest) : munch (w ++ rest) = some (.constantName, w.length) := by
  simp only [isConstantName, Bool.and_eq_true, Bool.not_eq_true', List.all_eq_true] at hw
  have hreach : TokenClass.reach .constantName (w ++ rest) = w.length := by
    rw [TokenClass.reach, takeWhile_append_eq hw.2 fun d hd => (hrest d hd).2]
  cases w with
  | nil => simp at hw
  | cons c w =>
    by_cases hc : c = 'L'
    · subst hc
      cases w with
      | nil => exact absurd rfl hL
      | cons d w =>
        have hd : d ≠ 'a' := by
          rintro rfl
          exact absurd (hw.2 'a' (by simp)) (by decide)
        rw [← hreach]
        -- the lambda begins here as well, but reaches no further than its letter
        apply munch_of_lt
        · rw [hreach]
          exact Nat.succ_pos _
        · intro j hj
          rw [hreach]
          by_cases hlambda : j = .lambda
          · rw [hlambda, List.cons_append, List.cons_append, reach_lambda_of_ne hd]
            simp
          · have hbegins : j.begins 'L' = false := by cases j <;> first | rfl | contradiction
            rw [List.cons_append, TokenClass.reach_of_begins_eq_false hbegins]
            exact Nat.succ_pos _
    · have hupper : c.isUpper = true := hw.2 c List.mem_cons_self
      rw [← hreach]
      exact munch_of_begins (k := .constantName) hc hupper (w ++ rest)

end

end NamedLambda
