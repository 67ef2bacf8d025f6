import NamedLambda.Proofs.Parse.Exactness

/-!
Reading under several limits. A result that a limit did not decide is the result under every higher
one.
-/
namespace NamedLambda

open Reader

/-- The second result is the first, unless the first is a refusal by the limit. -/
def Agrees {α : Type} (limit : Nat) (x y : Except ParseError α) : Prop :=
  x ≠ .error (.tooDeep limit) → y = x

section
variable {α β : Type} {limit limit' : Nat}

theorem agrees_refl (x : Except ParseError α) : Agrees limit x x :=
  fun _ => rfl

theorem agrees_tooDeep (y : Except ParseError α) : Agrees limit (.error (.tooDeep limit)) y :=
  fun h => absurd rfl h

theorem Agrees.bind {x y : Except ParseError α} {f g : α → Except ParseError β}
    (h : Agrees limit x y) (hf : ∀ a, Agrees limit (f a) (g a)) :
    Agrees limit (x.bind f) (y.bind g) := by
  intro hne
  cases x with
  | error e =>
    have hx : (.error e : Except ParseError α) ≠ .error (.tooDeep limit) := by
      intro he
      cases he
      exact hne rfl
    rw [h hx]
    rfl
  | ok a =>
    rw [h nofun]
    exact hf a hne

/-- What fits a limit fits the higher ones, and what does not is refused by it. -/
theorem agrees_ite {n : Nat} {x y : Except ParseError α} (hle : limit ≤ limit')
    (h : Agrees limit x y) :
    Agrees limit (if n ≤ limit then x else .error (.tooDeep limit))
      (if n ≤ limit' then y else .error (.tooDeep limit')) := by
  split
  · next hn =>
    rw [if_pos (Nat.le_trans hn hle)]
    exact h
  · exact agrees_tooDeep _

variable (hle : limit ≤ limit')
include hle

theorem deliver_agrees (t : Term) (frames : List Frame) :
    Agrees limit (deliver limit t frames) (deliver limit' t frames) := by
  match frames with
  | [] => exact agrees_refl _
  | .function d :: frames => exact agrees_refl _
  | .operand d spine :: frames => exact agrees_ite hle (agrees_refl _)
  | .body xs :: frames => exact agrees_refl _

theorem begin_agrees (d : Nat) (tok : Token) (frames : List Frame) :
    Agrees limit (begin limit d tok frames) (begin limit' d tok frames) := by
  unfold begin
  split
  · exact agrees_refl _
  · exact deliver_agrees hle _ frames
  · exact deliver_agrees hle _ frames
  · exact agrees_refl _

theorem accept_agrees (r : Reader) (tok : Token) :
    Agrees limit (r.accept limit tok) (r.accept limit' tok) := by
  unfold accept
  split
  · exact begin_agrees hle _ tok _
  · split
    · exact agrees_refl _
    · exact agrees_ite hle (begin_agrees hle _ tok _)
  · split
    · exact agrees_refl _
    · split
      · exact agrees_refl _
      · exact agrees_ite hle (agrees_refl _)
    · exact agrees_refl _
  · split
    · exact deliver_agrees hle _ _
    · exact agrees_refl _
  · split
    · exact deliver_agrees hle _ _
    · exact begin_agrees hle _ tok _
  · exact agrees_refl _

theorem acceptTokens_agrees (r : Reader) (tokens : List Token) :
    Agrees limit (r.acceptTokens limit tokens) (r.acceptTokens limit' tokens) := by
  induction tokens generalizing r with
  | nil => exact agrees_refl _
  | cons tok tokens ih => exact (accept_agrees hle r tok).bind ih

theorem finish_agrees (length : Nat) (r : Reader) :
    Agrees limit (r.finish limit length) (r.finish limit' length) := by
  unfold finish
  split
  · exact agrees_refl _
  · exact agrees_refl _
  · exact agrees_ite hle (agrees_refl _)
  · exact agrees_refl _
  · exact agrees_refl _
  · exact agrees_refl _

theorem parse_agrees (text : String) :
    Agrees limit (Term.parse limit text) (Term.parse limit' text) := by
  by_cases hlimit : 1 ≤ limit
  · obtain ⟨tokens, failure, -, hitems⟩ := (Lexer.start text.toList false).exists_tokens_items
    rw [parse_of_items hlimit hitems, parse_of_items (Nat.le_trans hlimit hle) hitems]
    refine (acceptTokens_agrees hle start tokens).bind fun r => ?_
    cases failure with
    | none => exact finish_agrees hle _ r
    | some e => exact agrees_refl _
  · rw [Term.parse, if_neg hlimit]
    exact agrees_tooDeep _

end

section
variable {limit limit' : Nat} {text : String}

/-- Limits that are not reached are all alike. -/
theorem parse_eq_of_ne_tooDeep (h : Term.parse limit text ≠ .error (.tooDeep limit))
    (h' : Term.parse limit' text ≠ .error (.tooDeep limit')) :
    Term.parse limit text = Term.parse limit' text := by
  rcases Nat.le_total limit limit' with hle | hle
  · exact (parse_agrees hle text h).symm
  · exact parse_agrees hle text h'

theorem parse_of_parse_eq_ok {t : Term} (h : Term.parse limit text = .ok t) (limit' : Nat) :
    Term.parse limit' text = if t.depth ≤ limit' then .ok t else .error (.tooDeep limit') := by
  obtain ⟨tokens, htokens, hderives⟩ := derives_of_parse h
  exact parse_of_derives htokens hderives

end

/-- What a text is read as under one limit, it is read as under every limit that the term fits, and
the others refuse it. An error that is not the limit's stays that error, or is forestalled by a
limit. No limit above the number of characters refuses anything, and a result that a limit did not
decide is that of all higher ones. -/
theorem parse_limited_by_depth :
    (∀ room text t, Term.parse room text = .ok t → ∀ limit,
      Term.parse limit text = if t.depth ≤ limit then .ok t else .error (.tooDeep limit)) ∧
    (∀ room text e, Term.parse room text = .error e → e ≠ .tooDeep room → ∀ limit,
      Term.parse limit text = .error e ∨ Term.parse limit text = .error (.tooDeep limit)) ∧
    (∀ room text, text.toList.length < room →
      Term.parse room text ≠ .error (.tooDeep room)) ∧
    (∀ limit limit' text, limit ≤ limit' → Term.parse limit text ≠ .error (.tooDeep limit) →
      Term.parse limit' text = Term.parse limit text) := by
  refine ⟨?_, ?_, ?_, ?_⟩
  · intro room text t h limit
    exact parse_of_parse_eq_ok h limit
  · intro room text e h he limit
    by_cases hdeep : Term.parse limit text = .error (.tooDeep limit)
    · exact .inr hdeep
    · have hroom : Term.parse room text ≠ .error (.tooDeep room) := by
        rw [h]
        exact fun heq => he (Except.error.inj heq)
      exact .inl ((parse_eq_of_ne_tooDeep hdeep hroom).trans h)
  · intro room text h
    exact parse_ne_tooDeep h
  · intro limit limit' text hle h
    exact parse_agrees hle text h

/-- The third operand pushes the other two down to the third level. -/
theorem parse_limited_by_depth_operands :
    let t : Term := .app (.app (.var ⟨"f"⟩) (.var ⟨"a"⟩)) (.var ⟨"b"⟩)
    Term.parse 3 "(f a b)" = .ok t ∧ Term.parse 2 "(f a b)" = .error (.tooDeep 2) := by
  intro t
  have hread : Term.parse 3 "(f a b)" = .ok t := by decide +kernel
  have hdepth : t.depth = 3 := by
    rw [Term.depth_eq_height]
    rfl
  refine ⟨hread, ?_⟩
  rw [parse_limited_by_depth.1 3 "(f a b)" t hread 2, hdepth]
  rfl

end NamedLambda
