import NamedLambda.Proofs.Parse.Depth
import NamedLambda.Proofs.Token.Items

/-!
Reading a text succeeds exactly if the text is cut into tokens and the grammar derives a term from
them, and that term is the result.
-/
namespace NamedLambda

open Reader

theorem derives_unique {tokens : List Token} {t u : Term} (ht : Derives tokens t)
    (hu : Derives tokens u) : t = u := by
  -- a limit of as many levels as there are tokens refuses neither term
  have hlimit : 1 ≤ tokens.length := Nat.lt_of_lt_of_le t.height_pos (height_le_of_derives ht)
  have htread := acceptTokens_start ht hlimit
  have huread := acceptTokens_start hu hlimit
  rw [if_pos (height_le_of_derives ht)] at htread
  rw [if_pos (height_le_of_derives hu), htread] at huread
  cases huread
  rfl

theorem tokenize_eq_ok_iff {text : String} {tokens : List Token} :
    tokenize text false = .ok tokens ↔
      (Lexer.start text.toList false).items = tokens.map .ok := by
  constructor
  · intro h
    obtain ⟨found, failure, -, hitems⟩ := (Lexer.start text.toList false).exists_tokens_items
    rw [tokenize, hitems] at h
    cases failure with
    | none =>
      have hfound := collect_map_ok found
      simp only [Option.toList_none, List.map_nil, List.append_nil] at h hitems
      rw [h] at hfound
      cases hfound
      exact hitems
    | some e =>
      have herror := collect_append_error found e
      simp only [Option.toList_some, List.map_cons, List.map_nil] at h
      rw [h] at herror
      cases herror
  · intro h
    rw [tokenize, h]
    exact collect_map_ok tokens

section
variable {limit : Nat} {text : String} {tokens : List Token} {t : Term}

theorem parse_of_items {failure : Option LexError} (hlimit : 1 ≤ limit)
    (hitems : (Lexer.start text.toList false).items =
      tokens.map .ok ++ failure.toList.map .error) :
    Term.parse limit text =
      (start.acceptTokens limit tokens).bind fun r =>
        match failure with
        | none => r.finish limit text.toList.length
        | some e => .error (.lexical e) := by
  rw [Term.parse, if_pos hlimit, hitems, acceptAll_append]
  cases start.acceptTokens limit tokens with
  | error e => rfl
  | ok r => cases failure <;> rfl

/-- A limit above the number of characters is never reached. -/
theorem parse_ne_tooDeep (h : text.toList.length < limit) :
    Term.parse limit text ≠ .error (.tooDeep limit) := by
  obtain ⟨tokens, failure, hlength, hitems⟩ := (Lexer.start text.toList false).exists_tokens_items
  have hfit : tokens.length < limit := Nat.lt_of_le_of_lt hlength h
  rw [parse_of_items (by omega) hitems]
  cases hread : start.acceptTokens limit tokens with
  | error e =>
    intro he
    cases he
    refine acceptTokens_ne_tooDeep consumed_start ?_ hread
    rw [List.length_nil]
    omega
  | ok r =>
    have hconsumed := consumed_acceptTokens consumed_start hread
    cases failure with
    | none => exact finish_ne_tooDeep hconsumed hfit text.toList.length
    | some e =>
      intro he
      cases he

theorem derives_of_parse (h : Term.parse limit text = .ok t) :
    ∃ tokens, tokenize text false = .ok tokens ∧ Derives tokens t := by
  by_cases hlimit : 1 ≤ limit
  · obtain ⟨tokens, failure, -, hitems⟩ := (Lexer.start text.toList false).exists_tokens_items
    rw [parse_of_items hlimit hitems] at h
    obtain ⟨r, hread, hfinish⟩ := Except.bind_eq_ok_iff.mp h
    cases failure with
    | some e => cases hfinish
    | none =>
      have hconsumed := consumed_acceptTokens consumed_start hread
      refine ⟨tokens, tokenize_eq_ok_iff.mpr (by simpa using hitems), ?_⟩
      cases hconsumed with
      | finished hderives =>
        cases hfinish
        exact hderives
      | group =>
        simp only [finish] at hfinish
        split at hfinish <;> cases hfinish
      | _ => cases hfinish
  · rw [Term.parse, if_neg hlimit] at h
    cases h

/-- Nothing but the limit can keep the reader from a term that the grammar derives. -/
theorem parse_of_derives (htokens : tokenize text false = .ok tokens) (h : Derives tokens t) :
    Term.parse limit text = if t.depth ≤ limit then .ok t else .error (.tooDeep limit) := by
  have hpos := t.height_pos
  have hitems : (Lexer.start text.toList false).items =
      tokens.map .ok ++ (none : Option LexError).toList.map .error := by
    simpa using tokenize_eq_ok_iff.mp htokens
  rw [Term.depth_eq_height]
  by_cases hlimit : 1 ≤ limit
  · rw [parse_of_items hlimit hitems, acceptTokens_start h hlimit]
    split <;> rfl
  · rw [Term.parse, if_neg hlimit, if_neg (by omega)]

end

/-- Under every limit that is not reached, and all those above the number of characters are not,
reading succeeds with the terms that the grammar derives from the tokens, of which there is at most
one. -/
theorem parse_accepts_grammar :
    (∀ limit text, Term.parse limit text ≠ .error (.tooDeep limit) →
      ∀ t, Term.parse limit text = .ok t ↔
        ∃ tokens, tokenize text false = .ok tokens ∧ Derives tokens t) ∧
    (∀ limit text, text.toList.length < limit →
      Term.parse limit text ≠ .error (.tooDeep limit)) ∧
    (∀ tokens t u, Derives tokens t → Derives tokens u → t = u) := by
  refine ⟨?_, ?_, ?_⟩
  · intro limit text hroom t
    constructor
    · exact derives_of_parse
    · rintro ⟨tokens, htokens, hderives⟩
      have hparse : Term.parse limit text = _ := parse_of_derives htokens hderives
      by_cases hfit : t.depth ≤ limit
      · rw [hparse, if_pos hfit]
      · rw [if_neg hfit] at hparse
        exact absurd hparse hroom
  · intro limit text h
    exact parse_ne_tooDeep h
  · intro tokens t u
    exact derives_unique

end NamedLambda
