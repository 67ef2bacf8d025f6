import NamedLambda.Proofs.Parse.Reading

/-!
What a reader has behind it. Its frames and its place say which phrases of the grammar it is inside
of, and these are spelled out by the tokens that it has taken.
-/
namespace NamedLambda

open Reader

/-- The tokens before a term, with the frames and the depth that they put it at. -/
inductive Opened : Nat → List Frame → List Token → Prop where
  | nil : Opened 1 [] []
  | function {d : Nat} {frames : List Frame} {before : List Token} {opening : Token}
      (h : Opened d frames before) (hopening : opening.cls = .openParen) :
      Opened (d + 1) (.function d :: frames) (before ++ [opening])
  | operand {d : Nat} {frames : List Frame} {before head : List Token} {opening : Token} {f : Term}
      {operands : List Phrase} (h : Opened d frames before) (hopening : opening.cls = .openParen)
      (hhead : Derives head f) (hoperands : ∀ p ∈ operands, Derives p.1 p.2) :
      Opened (d + 1) (.operand d (f.apps operands) :: frames)
        (before ++ opening :: (head ++ tokensOf operands))
  | body {d : Nat} {frames : List Frame} {before binders : List Token} {opening lambda dot : Token}
      (h : Opened d frames before) (hopening : opening.cls = .openParen)
      (hlambda : lambda.cls = .lambda) (hne : binders ≠ [])
      (hbinders : ∀ tok ∈ binders, tok.cls = .variableName) (hdot : dot.cls = .dot) :
      Opened (d + binders.length) (.body (variablesOf binders) :: frames)
        (before ++ opening :: lambda :: (binders ++ [dot]))

/-- The tokens that lead a reader to where it is. -/
inductive Consumed : Reader → List Token → Prop where
  | term {d : Nat} {frames : List Frame} {before : List Token} (h : Opened d frames before) :
      Consumed ⟨.term d, frames⟩ before
  | group {d : Nat} {frames : List Frame} {before : List Token} {opening : Token}
      (h : Opened d frames before) (hopening : opening.cls = .openParen) :
      Consumed ⟨.group d, frames⟩ (before ++ [opening])
  | binders {d : Nat} {frames : List Frame} {before binders : List Token} {opening lambda : Token}
      (h : Opened d frames before) (hopening : opening.cls = .openParen)
      (hlambda : lambda.cls = .lambda) (hbinders : ∀ tok ∈ binders, tok.cls = .variableName) :
      Consumed ⟨.binders d lambda.position (variablesOf binders), frames⟩
        (before ++ opening :: lambda :: binders)
  | bodyEnd {d : Nat} {frames : List Frame} {before binders body : List Token}
      {opening lambda dot : Token} {t : Term} (h : Opened d frames before)
      (hopening : opening.cls = .openParen) (hlambda : lambda.cls = .lambda) (hne : binders ≠ [])
      (hbinders : ∀ tok ∈ binders, tok.cls = .variableName) (hdot : dot.cls = .dot)
      (hbody : Derives body t) :
      Consumed ⟨.bodyEnd (Term.lams (variablesOf binders) t), frames⟩
        (before ++ opening :: lambda :: (binders ++ dot :: body))
  | operands {d : Nat} {frames : List Frame} {before head : List Token} {opening : Token} {f : Term}
      {operands : List Phrase} (h : Opened d frames before) (hopening : opening.cls = .openParen)
      (hhead : Derives head f) (hne : operands ≠ [])
      (hoperands : ∀ p ∈ operands, Derives p.1 p.2) :
      Consumed ⟨.operands d (f.apps operands), frames⟩
        (before ++ opening :: (head ++ tokensOf operands))
  | finished {tokens : List Token} {t : Term} (h : Derives tokens t) :
      Consumed ⟨.finished t, []⟩ tokens

theorem consumed_start : Consumed start [] :=
  .term .nil

section
variable {limit d : Nat} {frames : List Frame} {before tokens : List Token} {t : Term}
  {tok : Token} {r r' : Reader}

theorem consumed_deliver {phrase : List Token} (h : Opened d frames before)
    (hphrase : Derives phrase t) (hr : deliver limit t frames = .ok r) :
    Consumed r (before ++ phrase) := by
  cases h with
  | nil =>
    cases hr
    exact .finished hphrase
  | function h hopening =>
    cases hr
    have hnone : ∀ p ∈ ([] : List Phrase), Derives p.1 p.2 := by simp
    have hterm := Consumed.term (h.operand hopening hphrase hnone)
    simpa [tokensOf, Term.apps] using hterm
  | operand h hopening hhead hoperands =>
    rw [deliver] at hr
    split at hr
    · cases hr
      have hlast : ∀ p ∈ [(phrase, t)], Derives p.1 p.2 := List.forall_mem_singleton.mpr hphrase
      have hall := List.forall_mem_append.mpr ⟨hoperands, hlast⟩
      simpa using Consumed.operands h hopening hhead (by simp) hall
    · cases hr
  | body h hopening hlambda hne hbinders hdot =>
    cases hr
    have hend := Consumed.bodyEnd h hopening hlambda hne hbinders hdot hphrase
    simpa using hend

theorem consumed_begin (h : Opened d frames before) (hr : begin limit d tok frames = .ok r) :
    Consumed r (before ++ [tok]) := by
  unfold begin at hr
  split at hr
  · next hcls =>
    cases hr
    exact .group h hcls
  · next hcls => exact consumed_deliver h (.var hcls) hr
  · next hcls => exact consumed_deliver h (.const hcls) hr
  · cases hr

/-- Taking a token keeps the tokens behind the reader in step with it. -/
theorem consumed_accept (h : Consumed r tokens) (hr : r.accept limit tok = .ok r') :
    Consumed r' (tokens ++ [tok]) := by
  cases h with
  | term h => exact consumed_begin h hr
  | group h hopening =>
    simp only [accept] at hr
    split at hr
    · next hlambda =>
      cases hr
      have hnone : ∀ b ∈ ([] : List Token), b.cls = .variableName := by simp
      simpa [variablesOf] using Consumed.binders h hopening hlambda hnone
    · split at hr
      · exact consumed_begin (h.function hopening) hr
      · cases hr
  | @binders d frames before binders opening lambda h hopening hlambda hbinders =>
    simp only [accept] at hr
    split at hr
    · next hcls =>
      cases hr
      have hall := List.forall_mem_append.mpr ⟨hbinders, List.forall_mem_singleton.mpr hcls⟩
      simpa [variablesOf] using Consumed.binders h hopening hlambda hall
    · next hdot =>
      split at hr
      · cases hr
      · next hxs =>
        split at hr
        · cases hr
          have hne : binders ≠ [] := by
            rintro rfl
            exact hxs rfl
          simpa using Consumed.term (h.body hopening hlambda hne hbinders hdot)
        · cases hr
    · cases hr
  | @bodyEnd d frames before binders body opening lambda dot t h hopening hlambda hne hbinders hdot
      hbody =>
    simp only [accept] at hr
    split at hr
    · next hclosing =>
      have hphrase := Derives.abstraction hopening hlambda hne hbinders hdot hbody hclosing
      simpa using consumed_deliver h hphrase hr
    · cases hr
  | operands h hopening hhead hne hoperands =>
    simp only [accept] at hr
    split at hr
    · next hclosing =>
      have hphrase := Derives.application hopening hhead hne hoperands hclosing
      simpa using consumed_deliver h hphrase hr
    · exact consumed_begin (h.operand hopening hhead hoperands) hr
  | finished h => cases hr

theorem consumed_acceptTokens (h : Consumed r before)
    (hr : r.acceptTokens limit tokens = .ok r') : Consumed r' (before ++ tokens) := by
  induction tokens generalizing r before with
  | nil =>
    cases hr
    simpa using h
  | cons tok tokens ih =>
    rw [acceptTokens_cons] at hr
    obtain ⟨next, hstep, hlater⟩ := Except.bind_eq_ok_iff.mp hr
    simpa using ih (consumed_accept h hstep) hlater

end

end NamedLambda
