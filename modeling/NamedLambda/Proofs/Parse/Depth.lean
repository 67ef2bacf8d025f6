import NamedLambda.Proofs.Parse.Consumed

/-!
How deep a reader gets. Every level that it stands below is opened by a token of its own, so a limit
that the tokens do not outnumber is never reached.
-/
namespace NamedLambda

open Reader

/-- One more operand deepens an application by no more than its own height. -/
theorem Term.height_apps_le (f : Term) (operands : List Phrase)
    (hoperands : ∀ p ∈ operands, p.2.height ≤ p.1.length) :
    (f.apps operands).height ≤ f.height + (tokensOf operands).length := by
  induction operands generalizing f with
  | nil => exact Nat.le_refl _
  | cons p ps ih =>
    have hf := f.height_pos
    have hp := p.2.height_pos
    obtain ⟨hfirst, hps⟩ := List.forall_mem_cons.mp hoperands
    have hrest := ih (.app f p.2) hps
    rw [Term.height_app] at hrest
    rw [Term.apps_cons, tokensOf_cons, List.length_append]
    omega

theorem height_le_of_derives {tokens : List Token} {t : Term} (h : Derives tokens t) :
    t.height ≤ tokens.length := by
  induction h with
  | var h => exact Nat.le_refl _
  | const h => exact Nat.le_refl _
  | abstraction hopening hlambda hne hbinders hdot hbody hclosing ih =>
    rw [Term.height_lams, length_variablesOf]
    simp only [List.length_cons, List.length_append]
    omega
  | @application opening closing head f operands hopening hhead hne hoperands hclosing ihhead ih =>
    have happs := f.height_apps_le operands ih
    simp only [List.length_cons, List.length_append]
    omega

section
variable {limit d : Nat} {frames : List Frame} {before tokens : List Token} {t : Term}
  {tok : Token} {r : Reader}

theorem Opened.depth_le (h : Opened d frames before) : d ≤ before.length + 1 := by
  induction h with
  | nil => exact Nat.le_refl _
  | function h hopening ih =>
    simp only [List.length_append, List.length_singleton]
    omega
  | operand h hopening hhead hoperands ih =>
    simp only [List.length_append, List.length_cons]
    omega
  | body h hopening hlambda hne hbinders hdot ih =>
    simp only [List.length_append, List.length_cons]
    omega

theorem deliver_ne_tooDeep {phrase : List Token} (h : Opened d frames before)
    (hphrase : Derives phrase t) (hfit : before.length + phrase.length ≤ limit) :
    deliver limit t frames ≠ .error (.tooDeep limit) := by
  cases h with
  | nil => simp [deliver]
  | function h hopening => simp [deliver]
  | body h hopening hlambda hne hbinders hdot => simp [deliver]
  | @operand d frames before head opening f operands h hopening hhead hoperands =>
    have hdepth := h.depth_le
    have hhead' := height_le_of_derives hhead
    have hphrase' := height_le_of_derives hphrase
    have happs := f.height_apps_le operands fun p hp => height_le_of_derives (hoperands p hp)
    have hfpos := (f.apps operands).height_pos
    have htpos := t.height_pos
    simp only [List.length_append, List.length_cons] at hfit
    have hroom : d - 1 + (Term.app (f.apps operands) t).height ≤ limit := by
      rw [Term.height_app]
      omega
    rw [deliver, Term.depth_eq_height, if_pos hroom]
    simp

theorem begin_ne_tooDeep (h : Opened d frames before) (hfit : before.length + 1 ≤ limit) :
    begin limit d tok frames ≠ .error (.tooDeep limit) := by
  unfold begin
  split
  · simp
  · next hcls => exact deliver_ne_tooDeep h (.var hcls) hfit
  · next hcls => exact deliver_ne_tooDeep h (.const hcls) hfit
  · simp

theorem accept_ne_tooDeep (h : Consumed r tokens) (hfit : tokens.length < limit) :
    r.accept limit tok ≠ .error (.tooDeep limit) := by
  cases h with
  | term h => exact begin_ne_tooDeep h hfit
  | group h hopening =>
    have hdepth := h.depth_le
    simp only [List.length_append, List.length_singleton] at hfit
    simp only [accept]
    split
    · simp
    · rw [if_pos (by omega)]
      exact begin_ne_tooDeep (h.function hopening) (by simp; omega)
  | @binders d frames before binders opening lambda h hopening hlambda hbinders =>
    have hdepth := h.depth_le
    simp only [List.length_append, List.length_cons] at hfit
    simp only [accept, length_variablesOf]
    split
    · simp
    · split
      · simp
      · rw [if_pos (by omega)]
        simp
    · simp
  | bodyEnd h hopening hlambda hne hbinders hdot hbody =>
    simp only [accept]
    split
    · next hclosing =>
      have hphrase := Derives.abstraction hopening hlambda hne hbinders hdot hbody hclosing
      refine deliver_ne_tooDeep h hphrase ?_
      simp only [List.length_append, List.length_cons, List.length_nil] at hfit ⊢
      omega
    · simp
  | operands h hopening hhead hne hoperands =>
    simp only [accept]
    split
    · next hclosing =>
      have hphrase := Derives.application hopening hhead hne hoperands hclosing
      refine deliver_ne_tooDeep h hphrase ?_
      simp only [List.length_append, List.length_cons, List.length_nil] at hfit ⊢
      omega
    · exact begin_ne_tooDeep (h.operand hopening hhead hoperands) hfit
  | finished h => simp [accept]

theorem acceptTokens_ne_tooDeep (h : Consumed r before)
    (hfit : before.length + tokens.length ≤ limit) :
    r.acceptTokens limit tokens ≠ .error (.tooDeep limit) := by
  induction tokens generalizing r before with
  | nil => simp
  | cons tok tokens ih =>
    rw [List.length_cons] at hfit
    rw [acceptTokens_cons]
    cases hstep : r.accept limit tok with
    | error e =>
      intro he
      cases he
      exact accept_ne_tooDeep h (by omega) hstep
    | ok next =>
      refine ih (consumed_accept h hstep) ?_
      rw [List.length_append, List.length_singleton]
      omega

theorem finish_ne_tooDeep (h : Consumed r tokens) (hfit : tokens.length < limit) (length : Nat) :
    r.finish limit length ≠ .error (.tooDeep limit) := by
  cases h with
  | group h hopening =>
    have hdepth := h.depth_le
    rw [List.length_append, List.length_singleton] at hfit
    simp only [finish]
    rw [if_pos (by omega)]
    simp
  | _ => simp [finish]

end

end NamedLambda
