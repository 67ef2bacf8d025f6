import NamedLambda.Proofs.Parse.Limit

/-!
What a reader waits for. The tokens behind a reader can always be completed to a term, and it goes
on with a token exactly if the grammar does.
-/
namespace NamedLambda

open Reader

/-- The classes of the tokens that a term can begin with. -/
def TokenClass.BeginsTerm (k : TokenClass) : Prop :=
  k = .openParen ∨ k = .variableName ∨ k = .constantName

namespace Place

/-- Tokens of the class may stand at the place. -/
def Expects (k : TokenClass) : Place → Prop
  | .term _ => k.BeginsTerm
  | .group _ => k = .lambda ∨ k.BeginsTerm
  | .binders _ _ xs => k = .variableName ∨ (k = .dot ∧ xs ≠ [])
  | .bodyEnd _ => k = .closeParen
  | .operands _ _ => k = .closeParen ∨ k.BeginsTerm
  | .finished _ => False

/-- The error for a token that may not. -/
def refusal (tok : Token) : Place → ParseError
  | .binders _ position _ =>
    if tok.cls = .dot then .noBinders position else .unexpectedToken tok.text tok.position
  | .bodyEnd _ => .unclosed (some tok.text) tok.position
  | .finished _ => .trailing tok.text tok.position
  | .term _ | .group _ | .operands _ _ => .unexpectedToken tok.text tok.position

end Place

/-- The reader goes on where a token is expected, and else refuses the token, unless the limit is
reached at once. -/
def Answers (limit : Nat) (expected : Prop) (refusal : ParseError)
    (x : Except ParseError Reader) : Prop :=
  x = .error (.tooDeep limit) ∨ (expected ∧ ∃ r, x = .ok r) ∨ (¬ expected ∧ x = .error refusal)

theorem Answers.or_of_not {limit : Nat} {expected other : Prop} {refusal : ParseError}
    {x : Except ParseError Reader} (h : Answers limit expected refusal x) (hother : ¬ other) :
    Answers limit (other ∨ expected) refusal x := by
  rwa [or_iff_right hother]

section
variable (limit d : Nat) (t : Term) (tok : Token) (frames : List Frame)

theorem deliver_cases :
    deliver limit t frames = .error (.tooDeep limit) ∨ ∃ r, deliver limit t frames = .ok r := by
  match frames with
  | [] => exact .inr ⟨_, rfl⟩
  | .function d :: frames => exact .inr ⟨_, rfl⟩
  | .operand d spine :: frames =>
    rw [deliver]
    split
    · exact .inr ⟨_, rfl⟩
    · exact .inl rfl
  | .body xs :: frames => exact .inr ⟨_, rfl⟩

theorem answers_deliver {expected : Prop} (h : expected) (refusal : ParseError) :
    Answers limit expected refusal (deliver limit t frames) :=
  (deliver_cases limit t frames).imp_right fun hok => .inl ⟨h, hok⟩

theorem answers_begin :
    Answers limit tok.cls.BeginsTerm (.unexpectedToken tok.text tok.position)
      (begin limit d tok frames) := by
  unfold begin
  split
  · next hcls => exact .inr (.inl ⟨.inl hcls, _, rfl⟩)
  · next hcls => exact answers_deliver limit _ frames (.inr (.inl hcls)) _
  · next hcls => exact answers_deliver limit _ frames (.inr (.inr hcls)) _
  · next hopen hvar hconst =>
    refine .inr (.inr ⟨?_, rfl⟩)
    rintro (hcls | hcls | hcls)
    · exact hopen hcls
    · exact hvar hcls
    · exact hconst hcls

/-- All that a reader can do with a token. -/
theorem answers_accept (r : Reader) :
    Answers limit (r.place.Expects tok.cls) (r.place.refusal tok) (r.accept limit tok) := by
  obtain ⟨place, frames⟩ := r
  cases place with
  | term d => exact answers_begin limit d tok frames
  | group d =>
    simp only [accept]
    split
    · next hcls => exact .inr (.inl ⟨.inl hcls, _, rfl⟩)
    · next hcls =>
      split
      · exact (answers_begin limit (d + 1) tok _).or_of_not hcls
      · exact .inl rfl
  | binders d position xs =>
    simp only [accept]
    split
    · next hcls => exact .inr (.inl ⟨.inl hcls, _, rfl⟩)
    · next hcls =>
      rw [Place.refusal, if_pos hcls]
      split
      · next hxs =>
        refine .inr (.inr ⟨?_, rfl⟩)
        rintro (hvar | ⟨-, hne⟩)
        · rw [hcls] at hvar
          cases hvar
        · exact hne hxs
      · next hxs =>
        split
        · exact .inr (.inl ⟨.inr ⟨hcls, hxs⟩, _, rfl⟩)
        · exact .inl rfl
    · next hvar hdot =>
      rw [Place.refusal, if_neg hdot]
      refine .inr (.inr ⟨?_, rfl⟩)
      rintro (hcls | ⟨hcls, -⟩)
      · exact hvar hcls
      · exact hdot hcls
  | bodyEnd t =>
    simp only [accept]
    split
    · next hcls => exact answers_deliver limit t frames hcls _
    · next hcls => exact .inr (.inr ⟨hcls, rfl⟩)
  | operands d spine =>
    simp only [accept]
    split
    · next hcls => exact answers_deliver limit spine frames (.inl hcls) _
    · next hcls => exact (answers_begin limit (d + 1) tok _).or_of_not hcls
  | finished t => exact .inr (.inr ⟨id, rfl⟩)

end

/-- A token of the class. -/
def Token.sample (k : TokenClass) : Token :=
  ⟨k, "", 0⟩

section
variable {d : Nat} {frames : List Frame} {before tokens : List Token} {t : Term} {r : Reader}

/-- Whatever a term stands inside of can be closed after it. -/
theorem viable_of_opened (h : Opened d frames before) {phrase : List Token}
    (hphrase : Derives phrase t) : Viable (before ++ phrase) := by
  have hclosing : (Token.sample .closeParen).cls = .closeParen := rfl
  induction h generalizing phrase t with
  | nil => exact ⟨[], t, by simpa using hphrase⟩
  | function h hopening ih =>
    have hoperand : Derives [.sample .variableName] _ := .var rfl
    have happ := Derives.application hopening hphrase (List.cons_ne_nil (_, _) [])
      (List.forall_mem_singleton.mpr hoperand) hclosing
    exact viable_of_append (by simpa using ih happ)
  | operand h hopening hhead hoperands ih =>
    have hlast : ∀ p ∈ [(phrase, t)], Derives p.1 p.2 := List.forall_mem_singleton.mpr hphrase
    have happ := Derives.application hopening hhead (by simp)
      (List.forall_mem_append.mpr ⟨hoperands, hlast⟩) hclosing
    refine @viable_of_append _ [.sample .closeParen] ?_
    simpa using ih happ
  | body h hopening hlambda hne hbinders hdot ih =>
    have habs := Derives.abstraction hopening hlambda hne hbinders hdot hphrase hclosing
    refine @viable_of_append _ [.sample .closeParen] ?_
    simpa using ih habs

/-- A reader is never led where no term can end. -/
theorem viable_of_consumed (h : Consumed r tokens) : Viable tokens := by
  have hfiller : Derives [.sample .variableName] _ := .var rfl
  cases h with
  | term h => exact viable_of_append (viable_of_opened h hfiller)
  | group h hopening => exact viable_of_append (viable_of_opened (h.function hopening) hfiller)
  | binders h hopening hlambda hbinders =>
    have hall := List.forall_mem_append.mpr
      ⟨hbinders, List.forall_mem_singleton.mpr (rfl : (Token.sample .variableName).cls = _)⟩
    have hbody := h.body hopening hlambda (by simp) hall (rfl : (Token.sample .dot).cls = _)
    refine @viable_of_append _ [.sample .variableName, .sample .dot] ?_
    simpa using viable_of_append (viable_of_opened hbody hfiller)
  | bodyEnd h hopening hlambda hne hbinders hdot hbody =>
    simpa using viable_of_opened (h.body hopening hlambda hne hbinders hdot) hbody
  | operands h hopening hhead hne hoperands =>
    exact viable_of_append (viable_of_opened (h.operand hopening hhead hoperands) hfiller)
  | finished h => exact ⟨[], _, by simpa using h⟩

variable {limit : Nat}

/-- Tokens that can be completed are read, if there is room for them. -/
theorem acceptTokens_of_viable (h : Viable tokens) (hfit : tokens.length ≤ limit) :
    ∃ r, start.acceptTokens limit tokens = .ok r := by
  obtain ⟨later, t, ht⟩ := h
  -- a limit with room for the whole term lets the reader come to its end
  obtain ⟨limit', hle, hroom⟩ : ∃ limit', limit ≤ limit' ∧ t.height ≤ limit' :=
    ⟨max limit t.height, Nat.le_max_left _ _, Nat.le_max_right _ _⟩
  have hall := acceptTokens_start ht (Nat.le_trans t.height_pos hroom)
  rw [if_pos hroom] at hall
  obtain ⟨r, hread, -⟩ := exists_of_acceptTokens_append _ _ hall
  have hne : start.acceptTokens limit tokens ≠ .error (.tooDeep limit) :=
    acceptTokens_ne_tooDeep consumed_start (by simpa using hfit)
  rw [acceptTokens_agrees hle start tokens hne] at hread
  exact ⟨r, hread⟩

/-- A reader that has room for one more token expects those that the grammar goes on with. -/
theorem viable_concat_iff {tok : Token} (hread : start.acceptTokens limit tokens = .ok r)
    (hfit : tokens.length < limit) : Viable (tokens ++ [tok]) ↔ r.place.Expects tok.cls := by
  have hconsumed := consumed_acceptTokens consumed_start hread
  have hconcat : start.acceptTokens limit (tokens ++ [tok]) = r.accept limit tok := by
    rw [acceptTokens_append, hread, Except.bind, acceptTokens_singleton]
  constructor
  · intro h
    have hroom : (tokens ++ [tok]).length ≤ limit := by
      rw [List.length_append, List.length_singleton]
      exact hfit
    obtain ⟨r', hr'⟩ := acceptTokens_of_viable h hroom
    rw [hconcat] at hr'
    rcases answers_accept limit tok r with hdeep | ⟨hexpects, -⟩ | ⟨-, herror⟩
    · cases hr'.symm.trans hdeep
    · exact hexpects
    · cases hr'.symm.trans herror
  · intro h
    rcases answers_accept limit tok r with hdeep | ⟨-, r', hr'⟩ | ⟨hnot, -⟩
    · exact absurd hdeep (accept_ne_tooDeep hconsumed hfit)
    · exact viable_of_consumed (consumed_accept hconsumed hr')
    · exact absurd h hnot

end

end NamedLambda
