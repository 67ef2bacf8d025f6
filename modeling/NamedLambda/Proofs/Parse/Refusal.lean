import Mathlib.Data.List.Induction
import NamedLambda.Proofs.Parse.Viable

/-!
What becomes of every text. Reading stops at the first token that the terms of the grammar do not go
on with, and what the grammar allows in place of this token says with which error.
-/
namespace NamedLambda

open Reader

/-- A closing parenthesis may come next. -/
def CanClose (tokens : List Token) : Prop :=
  ∃ closing : Token, closing.cls = .closeParen ∧ Viable (tokens ++ [closing])

/-- A closing parenthesis may come next, and nothing else. -/
def MustClose (tokens : List Token) : Prop :=
  ∀ tok : Token, Viable (tokens ++ [tok]) ↔ tok.cls = .closeParen

/-- The error for the first token that no term goes on with, by what stands in front of it. -/
inductive Refused (front : List Token) (tok : Token) : ParseError → Prop where
  | trailing {t : Term} (ht : Derives front t) :
      Refused front tok (.trailing tok.text tok.position)
  | noBinders {before : List Token} {lambda : Token} (hfront : front = before ++ [lambda])
      (hlambda : lambda.cls = .lambda) (hdot : tok.cls = .dot) :
      Refused front tok (.noBinders lambda.position)
  | unclosed (hclose : MustClose front) :
      Refused front tok (.unclosed (some tok.text) tok.position)
  | unexpected (hincomplete : ∀ t, ¬ Derives front t)
      (hbinders : ∀ before lambda, front = before ++ [lambda] → lambda.cls = .lambda →
        tok.cls ≠ .dot)
      (hclose : ¬ MustClose front) :
      Refused front tok (.unexpectedToken tok.text tok.position)

/-- What becomes of a text of `length` characters that is cut into the tokens, up to its end or up
to a failure of the lexer. -/
inductive Verdict (length : Nat) (tokens : List Token) (failure : Option LexError) :
    Except ParseError Term → Prop where
  /-- The tokens up to `tok` are the fewest that no term begins with. -/
  | refused {front back : List Token} {tok : Token} {e : ParseError}
      (htokens : tokens = front ++ tok :: back) (hfront : Viable front)
      (htok : ¬ Viable (front ++ [tok])) (he : Refused front tok e) :
      Verdict length tokens failure (.error e)
  | lexical {e : LexError} (hviable : Viable tokens) (hfailure : failure = some e) :
      Verdict length tokens failure (.error (.lexical e))
  | complete {t : Term} (ht : Derives tokens t) (hend : failure = none) :
      Verdict length tokens failure (.ok t)
  /-- The text ends where a closing parenthesis may come; its end is shown as `endShown`. -/
  | unclosed (hclose : CanClose tokens) (hend : failure = none) :
      Verdict length tokens failure (.error (.unclosed none length))
  | endOfText (hviable : Viable tokens) (hincomplete : ∀ t, ¬ Derives tokens t)
      (hclose : ¬ CanClose tokens) (hend : failure = none) :
      Verdict length tokens failure (.error .endOfText)

section
variable {limit : Nat} {front tokens : List Token} {tok : Token} {t : Term} {r : Reader}

/-- A reader that has taken a whole term is at its end. -/
theorem place_of_derives (h : Derives tokens t) (hread : start.acceptTokens limit tokens = .ok r)
    (hfit : tokens.length ≤ limit) : r.place = .finished t := by
  have hheight := height_le_of_derives h
  rw [acceptTokens_start h (Nat.le_trans t.height_pos (Nat.le_trans hheight hfit)),
    if_pos (Nat.le_trans hheight hfit)] at hread
  cases hread
  rfl

/-- Only the inside of a parenthesis goes on with a lambda, and then with binders. -/
theorem place_of_lambda {lambda : Token} (hlambda : lambda.cls = .lambda) {r' : Reader}
    (h : r.accept limit lambda = .ok r') : ∃ d, r'.place = .binders d lambda.position [] := by
  obtain ⟨place, frames⟩ := r
  cases place <;> simp [accept, begin, hlambda] at h
  subst h
  exact ⟨_, rfl⟩

/-- Wherever else a closing parenthesis may stand, a variable may stand too. -/
theorem Place.eq_bodyEnd {p : Place} (hclosing : p.Expects .closeParen)
    (hvar : ¬ p.Expects .variableName) : ∃ t, p = .bodyEnd t := by
  cases p with
  | bodyEnd t => exact ⟨t, rfl⟩
  | operands d spine => exact absurd (.inr (.inr (.inl rfl))) hvar
  | _ => simp [Expects, TokenClass.BeginsTerm] at hclosing

theorem mustClose_iff (hread : start.acceptTokens limit tokens = .ok r)
    (hfit : tokens.length < limit) : MustClose tokens ↔ ∃ t, r.place = .bodyEnd t := by
  constructor
  · intro h
    have hexpects (k : TokenClass) : r.place.Expects k ↔ k = .closeParen :=
      (viable_concat_iff hread hfit).symm.trans (h (.sample k))
    exact Place.eq_bodyEnd ((hexpects _).mpr rfl) (mt (hexpects _).mp nofun)
  · rintro ⟨t, ht⟩ tok
    rw [viable_concat_iff hread hfit, ht]
    rfl

theorem canClose_iff (hread : start.acceptTokens limit tokens = .ok r)
    (hfit : tokens.length < limit) : CanClose tokens ↔ r.place.Expects .closeParen := by
  constructor
  · rintro ⟨closing, hclosing, h⟩
    rw [viable_concat_iff hread hfit, hclosing] at h
    exact h
  · intro h
    exact ⟨.sample .closeParen, rfl, (viable_concat_iff hread hfit).mpr h⟩

theorem finish_of_expects (h : r.place.Expects .closeParen) (length : Nat) :
    r.finish limit length = .error (.unclosed none length) := by
  obtain ⟨place, frames⟩ := r
  cases place with
  | bodyEnd t => rfl
  | operands d spine => rfl
  | _ => simp [Place.Expects, TokenClass.BeginsTerm] at h

theorem finish_of_incomplete (h : Consumed r tokens) (hfit : tokens.length < limit)
    (hincomplete : ∀ t, ¬ Derives tokens t) (hclose : ¬ r.place.Expects .closeParen)
    (length : Nat) : r.finish limit length = .error .endOfText := by
  have hroom := finish_ne_tooDeep h hfit length
  cases h with
  | group =>
    simp only [finish] at hroom ⊢
    split at hroom
    · next hlimit => exact if_pos hlimit
    · exact absurd rfl hroom
  | bodyEnd => exact absurd rfl hclose
  | operands => exact absurd (.inl rfl) hclose
  | finished h => exact absurd h (hincomplete _)
  | _ => rfl

/-- The place of a reader tells the error that the tokens behind it call for. -/
theorem Refused.eq_refusal {e : ParseError} (h : Refused front tok e)
    (hread : start.acceptTokens limit front = .ok r) (hfit : front.length < limit)
    (htok : ¬ r.place.Expects tok.cls) : e = r.place.refusal tok := by
  cases h with
  | trailing ht =>
    rw [place_of_derives ht hread hfit.le]
    rfl
  | @noBinders before lambda hfront hlambda hdot =>
    rw [hfront] at hread
    obtain ⟨r', -, hlast⟩ := exists_of_acceptTokens_append _ _ hread
    rw [acceptTokens_singleton] at hlast
    obtain ⟨d, hplace⟩ := place_of_lambda hlambda hlast
    rw [hplace, Place.refusal, if_pos hdot]
  | unclosed hclose =>
    obtain ⟨t, hplace⟩ := (mustClose_iff hread hfit).mp hclose
    rw [hplace]
    rfl
  | unexpected hincomplete hbinders hclose =>
    have hconsumed := consumed_acceptTokens consumed_start hread
    rw [List.nil_append] at hconsumed
    cases hconsumed with
    | @binders d frames before binders opening lambda h hopening hlambda hall =>
      have hdot : tok.cls ≠ .dot := by
        intro hdot
        have hnone : variablesOf binders = [] := by
          by_contra hne
          exact htok (.inr ⟨hdot, hne⟩)
        have hnil : binders = [] := List.map_eq_nil_iff.mp hnone
        exact hbinders (before ++ [opening]) lambda (by simp [hnil]) hlambda hdot
      exact (if_neg hdot).symm
    | bodyEnd => exact absurd ((mustClose_iff hread hfit).mpr ⟨_, rfl⟩) hclose
    | finished h => exact absurd h (hincomplete _)
    | _ => rfl

/-- Every token that could be wrong is wrong in one of these ways. -/
theorem exists_refused (front : List Token) (tok : Token) : ∃ e, Refused front tok e := by
  by_cases hcomplete : ∃ t, Derives front t
  · obtain ⟨t, ht⟩ := hcomplete
    exact ⟨_, .trailing ht⟩
  · by_cases hbinders : ∃ before lambda, front = before ++ [lambda] ∧ lambda.cls = .lambda ∧
        tok.cls = .dot
    · obtain ⟨before, lambda, hfront, hlambda, hdot⟩ := hbinders
      exact ⟨_, .noBinders hfront hlambda hdot⟩
    · by_cases hclose : MustClose front
      · exact ⟨_, .unclosed hclose⟩
      · refine ⟨_, .unexpected (not_exists.mp hcomplete) ?_ hclose⟩
        intro before lambda hfront hlambda hdot
        exact hbinders ⟨before, lambda, hfront, hlambda, hdot⟩

end

/-- Tokens that no term begins with stop being the beginning of one at some token. -/
theorem exists_first_wrong {tokens : List Token} (h : ¬ Viable tokens) :
    ∃ front tok back, tokens = front ++ tok :: back ∧ Viable front ∧ ¬ Viable (front ++ [tok]) := by
  induction tokens using List.reverseRecOn with
  | nil => exact absurd (viable_of_consumed consumed_start) h
  | append_singleton front tok ih =>
    by_cases hfront : Viable front
    · exact ⟨front, tok, [], rfl, hfront, h⟩
    · obtain ⟨before, first, back, rfl, hbefore, hfirst⟩ := ih hfront
      exact ⟨before, first, back ++ [tok], by simp, hbefore, hfirst⟩

theorem exists_verdict (length : Nat) (tokens : List Token) (failure : Option LexError) :
    ∃ result, Verdict length tokens failure result := by
  by_cases hviable : Viable tokens
  · cases failure with
    | some e => exact ⟨_, .lexical hviable rfl⟩
    | none =>
      by_cases hcomplete : ∃ t, Derives tokens t
      · obtain ⟨t, ht⟩ := hcomplete
        exact ⟨_, .complete ht rfl⟩
      · by_cases hclose : CanClose tokens
        · exact ⟨_, .unclosed hclose rfl⟩
        · exact ⟨_, .endOfText hviable (not_exists.mp hcomplete) hclose rfl⟩
  · obtain ⟨front, tok, back, htokens, hfront, htok⟩ := exists_first_wrong hviable
    obtain ⟨e, he⟩ := exists_refused front tok
    exact ⟨_, .refused htokens hfront htok he⟩

section
variable {limit : Nat} {text : String} {tokens : List Token} {failure : Option LexError}
  {result : Except ParseError Term}

theorem parse_of_verdict
    (hitems : (Lexer.start text.toList false).items =
      tokens.map .ok ++ failure.toList.map .error)
    (hfit : tokens.length < limit) (h : Verdict text.toList.length tokens failure result) :
    Term.parse limit text = result := by
  rw [parse_of_items (by omega) hitems]
  cases h with
  | @refused front back tok e htokens hfront htok he =>
    have hroom : front.length < limit := by
      rw [htokens, List.length_append] at hfit
      omega
    obtain ⟨r, hread⟩ := acceptTokens_of_viable hfront hroom.le
    have hconsumed := consumed_acceptTokens consumed_start hread
    rw [viable_concat_iff hread hroom] at htok
    rw [htokens, acceptTokens_append, hread, Except.bind, acceptTokens_cons,
      he.eq_refusal hread hroom htok]
    rcases answers_accept limit tok r with hdeep | ⟨hexpects, -⟩ | ⟨-, herror⟩
    · exact absurd hdeep (accept_ne_tooDeep hconsumed hroom)
    · exact absurd hexpects htok
    · rw [herror]
      rfl
  | lexical hviable hfailure =>
    obtain ⟨r, hread⟩ := acceptTokens_of_viable hviable hfit.le
    rw [hread, hfailure]
    rfl
  | complete ht hend =>
    have hheight := height_le_of_derives ht
    rw [acceptTokens_start ht (by omega), if_pos (by omega), hend]
    rfl
  | unclosed hclose hend =>
    have hviable : Viable tokens := by
      obtain ⟨closing, -, h⟩ := hclose
      exact viable_of_append h
    obtain ⟨r, hread⟩ := acceptTokens_of_viable hviable hfit.le
    rw [hread, hend]
    exact finish_of_expects ((canClose_iff hread hfit).mp hclose) _
  | endOfText hviable hincomplete hclose hend =>
    obtain ⟨r, hread⟩ := acceptTokens_of_viable hviable hfit.le
    have hconsumed := consumed_acceptTokens consumed_start hread
    rw [canClose_iff hread hfit] at hclose
    rw [hread, hend]
    exact finish_of_incomplete hconsumed hfit hincomplete hclose _

end

/-- Under a limit that is not reached, reading gives the verdict of the grammar on every text. The
end of the text, where it is found in place of a parenthesis, is shown under a name of its own. -/
theorem parse_gives_verdict (limit : Nat) (text : String)
    (hroom : Term.parse limit text ≠ .error (.tooDeep limit)) :
    (∃ tokens failure,
      (Lexer.start text.toList false).items = tokens.map .ok ++ failure.toList.map .error ∧
      ∀ result, Term.parse limit text = result ↔
        Verdict text.toList.length tokens failure result) ∧
    ∀ position, (ParseError.unclosed none position).message =
      (ParseError.unclosed (some "end of input") position).message := by
  obtain ⟨tokens, failure, hlength, hitems⟩ := (Lexer.start text.toList false).exists_tokens_items
  -- a limit that no text of this length reaches gives the same result
  have hle : limit ≤ limit + text.toList.length + 1 := by omega
  have hfit : tokens.length < limit + text.toList.length + 1 := by
    have hrest : tokens.length ≤ text.toList.length := hlength
    omega
  rw [← parse_agrees hle text hroom]
  refine ⟨⟨tokens, failure, hitems, fun result => ⟨?_, parse_of_verdict hitems hfit⟩⟩, ?_⟩
  · rintro rfl
    obtain ⟨result, hresult⟩ := exists_verdict text.toList.length tokens failure
    rwa [parse_of_verdict hitems hfit hresult]
  · intro position
    rfl

/-- The dot is the first wrong token, and the lambda in front of it is what is reported. -/
theorem parse_gives_verdict_noBinders :
    Term.parse 1 "(λ.)" ≠ .error (.tooDeep 1) ∧
    ∃ tokens failure,
      (Lexer.start "(λ.)".toList false).items = tokens.map .ok ++ failure.toList.map .error ∧
      Verdict 4 tokens failure (.error (.noBinders 1)) := by
  have hitems : (Lexer.start "(λ.)".toList false).items =
      [⟨.openParen, "(", 0⟩, ⟨.lambda, "λ", 1⟩, ⟨.dot, ".", 2⟩, ⟨.closeParen, ")", 3⟩].map .ok ++
        (none : Option LexError).toList.map .error := by
    refine (Lexer.items_sign _ 0 (k := .openParen) rfl ['λ', '.', ')']).trans ?_
    rw [Lexer.items_sign _ _ (k := .lambda) (c := 'λ') rfl,
      Lexer.items_sign _ _ (k := .dot) rfl, Lexer.items_sign _ _ (k := .closeParen) rfl,
      Lexer.items_facing_nil]
    rfl
  have hparse : Term.parse 1 "(λ.)" = .error (.noBinders 1) := by
    rw [parse_of_items (Nat.le_refl 1) hitems]
    rfl
  have hroom : Term.parse 1 "(λ.)" ≠ .error (.tooDeep 1) := by
    rw [hparse]
    nofun
  obtain ⟨⟨tokens, failure, hlexed, hverdict⟩, -⟩ := parse_gives_verdict 1 "(λ.)" hroom
  exact ⟨hroom, tokens, failure, hlexed, (hverdict _).mp hparse⟩

end NamedLambda
