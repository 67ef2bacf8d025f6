import NamedLambda.Proofs.Token.Munch
import NamedLambda.Token.Lexer

/-!
What a lexer yields: tokens, no more of them than characters, and then at most one error. Each token
is one that maximal munch takes.
-/
namespace NamedLambda

namespace Lexer
variable {l m : Lexer}

theorem length_rest_skip_le (l : Lexer) : l.skip.rest.length ≤ l.rest.length := by
  unfold skip
  split
  · exact Nat.le_refl _
  · rw [advance, List.length_drop]
    omega

/-- All that a step can do once the blanks are passed over: take the token at hand, or refuse the
character at hand. -/
theorem next_cases {item : LexItem} (h : l.next = (some item, m)) :
    (∃ k n, munch l.skip.rest = some (k, n) ∧
      item = .ok ⟨k, k.stored (l.skip.rest.take n), l.skip.position⟩ ∧ m = l.skip.advance n) ∨
    (∃ c cs, l.skip.rest = c :: cs ∧ munch l.skip.rest = none ∧
      item = .error ⟨c, l.skip.position⟩ ∧ m = { l.skip with failed := true }) := by
  unfold next at h
  split at h
  · simp at h
  · unfold take at h
    split at h
    · simp at h
    · next c cs hrest =>
      split at h
      · next hmunch =>
        cases h
        exact .inr ⟨c, cs, hrest, hmunch, rfl, rfl⟩
      · next k n hmunch =>
        cases h
        exact .inl ⟨k, n, hmunch, rfl, rfl⟩

/-- The two ways in which an item comes about. -/
theorem next_eq_some {item : LexItem} (h : l.next = (some item, m)) :
    (∃ tok, item = .ok tok ∧ m.rest.length < l.rest.length) ∨
      (∃ e, item = .error e ∧ m.failed = true) := by
  rcases next_cases h with ⟨k, n, hmunch, rfl, rfl⟩ | ⟨c, cs, hrest, hmunch, rfl, rfl⟩
  · have hn := munch_pos hmunch
    have hskip := l.length_rest_skip_le
    refine .inl ⟨_, rfl, ?_⟩
    cases hrest : l.skip.rest with
    | nil =>
      rw [hrest] at hmunch
      cases hmunch
    | cons c cs =>
      rw [hrest, List.length_cons] at hskip
      rw [advance, List.length_drop, hrest, List.length_cons]
      omega
  · exact .inr ⟨_, rfl, rfl⟩

theorem exists_tokens_items (l : Lexer) :
    ∃ (tokens : List Token) (failure : Option LexError),
      tokens.length ≤ l.rest.length ∧ l.items = tokens.map .ok ++ failure.toList.map .error := by
  match h : l.next with
  | (none, m) => exact ⟨[], none, Nat.zero_le _, items_of_next_none h⟩
  | (some item, m) =>
    rcases next_eq_some h with ⟨tok, rfl, hrest⟩ | ⟨e, rfl, hfailed⟩
    · obtain ⟨tokens, failure, hlength, hitems⟩ := m.exists_tokens_items
      refine ⟨tok :: tokens, failure, ?_, ?_⟩
      · rw [List.length_cons]
        omega
      · rw [items_of_next_some h, hitems]
        rfl
    · refine ⟨[], some e, Nat.zero_le _, ?_⟩
      rw [items_of_next_some h, items_of_failed hfailed]
      rfl
termination_by l.left
decreasing_by exact left_next_lt h

/-- What is yielded is a matter of the next step alone. -/
theorem items_eq_of_next_eq (h : l.next = m.next) : l.items = m.items := by
  match hm : m.next with
  | (none, _) => rw [items_of_next_none hm, items_of_next_none (h.trans hm)]
  | (some item, n) => rw [items_of_next_some hm, items_of_next_some (h.trans hm)]

/-- A token is munched from some text, and keeps what its class stores of it. -/
theorem exists_munch_of_mem_items {l : Lexer} {tok : Token} (h : .ok tok ∈ l.items) :
    ∃ cs n, munch cs = some (tok.cls, n) ∧ tok.text = tok.cls.stored (cs.take n) := by
  match hnext : l.next with
  | (none, m) =>
    rw [items_of_next_none hnext] at h
    cases h
  | (some item, m) =>
    rw [items_of_next_some hnext] at h
    rcases List.mem_cons.mp h with rfl | hmem
    · rcases next_cases hnext with ⟨k, n, hmunch, htok, -⟩ | ⟨c, cs, -, -, herror, -⟩
      · cases htok
        exact ⟨_, n, hmunch, rfl⟩
      · cases herror
    · exact exists_munch_of_mem_items hmem
termination_by l.left
decreasing_by exact left_next_lt hnext

theorem take_of_munch {k : TokenClass} {n : Nat} (h : munch l.rest = some (k, n)) :
    l.take = (some (.ok ⟨k, k.stored (l.rest.take n), l.position⟩), l.advance n) := by
  unfold take
  split
  · next hrest =>
    rw [hrest] at h
    cases h
  · next c cs hrest =>
    rw [h]

/-- A lexer on its way that passes over blanks, with this text left. -/
def facing (source rest : List Char) (position : Nat) : Lexer :=
  ⟨source, false, rest, position, false⟩

section
variable (source : List Char) (position : Nat)

theorem next_facing (rest : List Char) :
    (facing source rest position).next =
      (facing source (rest.drop (TokenClass.reach .blank rest))
        (position + TokenClass.reach .blank rest)).take := rfl

theorem items_facing_nil : (facing source [] position).items = [] :=
  items_of_next_none rfl

theorem items_facing_separator {c : Char} (hc : isSeparator c = true) (rest : List Char) :
    (facing source (c :: rest) position).items = (facing source rest (position + 1)).items := by
  have hreach : TokenClass.reach .blank (c :: rest) = TokenClass.reach .blank rest + 1 := by
    rw [TokenClass.reach, TokenClass.reach, List.takeWhile_cons_of_pos hc, List.length_cons]
  apply items_eq_of_next_eq
  rw [next_facing, next_facing, hreach, List.drop_succ_cons, Nat.add_assoc, Nat.add_comm 1]

/-- Where a text begins with characters that are taken as a token, this token is yielded first. -/
theorem items_facing_append {k : TokenClass} {w rest : List Char}
    (h : munch (w ++ rest) = some (k, w.length)) (hk : k ≠ .blank) :
    (facing source (w ++ rest) position).items =
      .ok ⟨k, k.stored w, position⟩ :: (facing source rest (position + w.length)).items := by
  apply items_of_next_some
  rw [next_facing, reach_blank_of_munch h hk, List.drop_zero, Nat.add_zero, take_of_munch h]
  simp only [facing, advance, List.take_left, List.drop_left]

theorem items_sign {k : TokenClass} {c : Char} (h : k.sign = some c) (rest : List Char) :
    (facing source (c :: rest) position).items =
      .ok ⟨k, String.singleton c, position⟩ :: (facing source rest (position + 1)).items := by
  have hmunch : munch ([c] ++ rest) = some (k, 1) := munch_sign h rest
  have hitems := items_facing_append source position hmunch
  cases k <;> cases h <;> exact hitems nofun

theorem items_space (rest : List Char) :
    (facing source (' ' :: rest) position).items = (facing source rest (position + 1)).items :=
  items_facing_separator source position rfl rest

theorem items_variable {x : Variable} (hx : x.Valid) {rest : List Char} (hrest : EndsName rest) :
    (facing source (x.name.toList ++ rest) position).items =
      .ok ⟨.variableName, x.name, position⟩ ::
        (facing source rest (position + x.name.toList.length)).items := by
  have hitems := items_facing_append source position (munch_variableName hx hrest) nofun
  simpa [TokenClass.stored] using hitems

theorem items_constant {c : Constant} (hc : c.Valid) (hL : c.name ≠ "L") {rest : List Char}
    (hrest : EndsName rest) :
    (facing source (c.name.toList ++ rest) position).items =
      .ok ⟨.constantName, c.name, position⟩ ::
        (facing source rest (position + c.name.toList.length)).items := by
  have hmunch := munch_constantName hc (fun h => hL (String.ext h)) hrest
  have hitems := items_facing_append source position hmunch nofun
  simpa [TokenClass.stored] using hitems

end

end Lexer

theorem collect_map_ok (tokens : List Token) : collect (tokens.map .ok) = .ok tokens := by
  induction tokens with
  | nil => rfl
  | cons tok tokens ih =>
    rw [List.map_cons, collect, ih]
    rfl

theorem collect_append_error (tokens : List Token) (e : LexError) :
    collect (tokens.map .ok ++ [.error e]) = .error e := by
  induction tokens with
  | nil => rfl
  | cons tok tokens ih =>
    rw [List.map_cons, List.cons_append, collect, ih]
    rfl

end NamedLambda
