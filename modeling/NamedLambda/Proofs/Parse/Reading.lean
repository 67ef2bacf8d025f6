import Mathlib.Data.List.Basic
import NamedLambda.Parse.Grammar
import NamedLambda.Proofs.Except
import NamedLambda.Term.Lemmas

/-!
What the reader does with the tokens of a term. Wherever a term may stand, it takes exactly the
tokens of one and hands the term on, or stops because the term does not fit the limit there.
-/
namespace NamedLambda

open Reader

@[simp] theorem variablesOf_append (front back : List Token) :
    variablesOf (front ++ back) = variablesOf front ++ variablesOf back :=
  List.map_append

@[simp] theorem length_variablesOf (binders : List Token) :
    (variablesOf binders).length = binders.length :=
  List.length_map _

@[simp] theorem tokensOf_cons (p : Phrase) (operands : List Phrase) :
    tokensOf (p :: operands) = p.1 ++ tokensOf operands := rfl

@[simp] theorem tokensOf_concat (operands : List Phrase) (p : Phrase) :
    tokensOf (operands ++ [p]) = tokensOf operands ++ p.1 := by
  simp [tokensOf]

theorem Term.apps_cons (f : Term) (p : Phrase) (operands : List Phrase) :
    f.apps (p :: operands) = (Term.app f p.2).apps operands := rfl

@[simp] theorem Term.apps_concat (f : Term) (operands : List Phrase) (p : Phrase) :
    f.apps (operands ++ [p]) = .app (f.apps operands) p.2 := by
  simp [Term.apps]

theorem Term.height_lams (xs : List Variable) (t : Term) :
    (Term.lams xs t).height = xs.length + t.height := by
  induction xs with
  | nil => simp
  | cons x xs ih =>
    rw [Term.lams_cons, Term.height_lam, ih, List.length_cons]
    omega

theorem Term.height_le_apps (f : Term) (operands : List Phrase) :
    f.height ≤ (f.apps operands).height := by
  induction operands generalizing f with
  | nil => exact Nat.le_refl _
  | cons p ps ih =>
    have happ := ih (.app f p.2)
    rw [Term.height_app] at happ
    rw [Term.apps_cons]
    omega

/-- The reader after these tokens. -/
def Reader.acceptTokens (limit : Nat) (r : Reader) (tokens : List Token) :
    Except ParseError Reader :=
  tokens.foldlM (fun r tok => r.accept limit tok) r

section
variable (limit : Nat) (r : Reader)

@[simp] theorem acceptTokens_nil : r.acceptTokens limit [] = .ok r := rfl

theorem acceptTokens_cons (tok : Token) (tokens : List Token) :
    r.acceptTokens limit (tok :: tokens) =
      (r.accept limit tok).bind fun r' => r'.acceptTokens limit tokens := rfl

theorem acceptTokens_append (front back : List Token) :
    r.acceptTokens limit (front ++ back) =
      (r.acceptTokens limit front).bind fun r' => r'.acceptTokens limit back :=
  List.foldlM_append

theorem exists_of_acceptTokens_append {front back : List Token} {r' : Reader}
    (h : r.acceptTokens limit (front ++ back) = .ok r') :
    ∃ m, r.acceptTokens limit front = .ok m ∧ m.acceptTokens limit back = .ok r' := by
  rw [acceptTokens_append] at h
  exact Except.bind_eq_ok_iff.mp h

theorem acceptTokens_singleton (tok : Token) :
    r.acceptTokens limit [tok] = r.accept limit tok := by
  rw [acceptTokens_cons]
  cases r.accept limit tok <;> rfl

/-- Tokens that a lexer yields are read as they come. -/
theorem acceptAll_append (tokens : List Token) (items : List LexItem) :
    r.acceptAll limit (tokens.map .ok ++ items) =
      (r.acceptTokens limit tokens).bind fun r' => r'.acceptAll limit items := by
  induction tokens generalizing r with
  | nil => rfl
  | cons tok tokens ih =>
    rw [acceptTokens_cons, List.map_cons, List.cons_append, acceptAll]
    cases h : r.accept limit tok with
    | error e => rfl
    | ok r' => exact ih r'

end

/-- At every depth and inside every frames that the limit lets a term begin in, the tokens are taken
as this term, or refused as too deep. -/
def Reads (limit : Nat) (tokens : List Token) (t : Term) : Prop :=
  ∀ n frames, n + 1 ≤ limit →
    Reader.acceptTokens limit ⟨.term (n + 1), frames⟩ tokens =
      if n + t.height ≤ limit then deliver limit t frames else .error (.tooDeep limit)

/-- No term begins with a lambda or a closing parenthesis. -/
theorem exists_cons_of_derives {tokens : List Token} {t : Term} (h : Derives tokens t) :
    ∃ tok rest, tokens = tok :: rest ∧ tok.cls ≠ .lambda ∧ tok.cls ≠ .closeParen := by
  cases h with
  | var h => exact ⟨_, _, rfl, by simp [h], by simp [h]⟩
  | const h => exact ⟨_, _, rfl, by simp [h], by simp [h]⟩
  | abstraction h => exact ⟨_, _, rfl, by simp [h], by simp [h]⟩
  | application h => exact ⟨_, _, rfl, by simp [h], by simp [h]⟩

section
variable {limit : Nat} {frames : List Frame} {tokens : List Token} {t : Term}

/-- The first operand is read like a term, one level further down. -/
theorem acceptTokens_group (h : Derives tokens t) (ht : Reads limit tokens t) {n : Nat}
    (hn : n + 1 ≤ limit) :
    Reader.acceptTokens limit ⟨.group (n + 1), frames⟩ tokens =
      if n + 1 + t.height ≤ limit then .ok ⟨.term (n + 2), .operand (n + 1) t :: frames⟩
      else .error (.tooDeep limit) := by
  have hpos := t.height_pos
  obtain ⟨tok, rest, rfl, hlambda, -⟩ := exists_cons_of_derives h
  by_cases hfit : n + 2 ≤ limit
  · have hread := ht (n + 1) (.function (n + 1) :: frames) hfit
    rw [deliver] at hread
    rw [← hread, acceptTokens_cons, acceptTokens_cons, accept, accept]
    simp only [hlambda, if_false, hfit, if_true]
  · have hdeep : ¬ n + 1 + t.height ≤ limit := by omega
    rw [acceptTokens_cons, accept]
    simp only [hlambda, if_false, hfit, hdeep]
    rfl

/-- A further operand is read like a term, and pushes those before it one level down. -/
theorem acceptTokens_operand (ht : Reads limit tokens t) {n : Nat} (hn : n + 2 ≤ limit)
    (spine : Term) :
    Reader.acceptTokens limit ⟨.term (n + 2), .operand (n + 1) spine :: frames⟩ tokens =
      if n + (Term.app spine t).height ≤ limit then .ok ⟨.operands (n + 1) (.app spine t), frames⟩
      else .error (.tooDeep limit) := by
  rw [ht (n + 1) _ hn, deliver, Nat.add_sub_cancel, Term.depth_eq_height]
  rw [Term.height_app]
  split_ifs <;> first | rfl | omega

/-- The inside of an application goes on with an operand as if the operand were awaited. -/
theorem acceptTokens_operands (h : Derives tokens t) (n : Nat) (spine : Term) :
    Reader.acceptTokens limit ⟨.operands (n + 1) spine, frames⟩ tokens =
      Reader.acceptTokens limit ⟨.term (n + 2), .operand (n + 1) spine :: frames⟩ tokens := by
  obtain ⟨tok, rest, rfl, -, hclosing⟩ := exists_cons_of_derives h
  rw [acceptTokens_cons, acceptTokens_cons, accept, accept]
  simp only [hclosing, if_false]

theorem acceptTokens_tokensOf {n : Nat} (hn : n + 2 ≤ limit) (operands : List Phrase)
    (hoperands : ∀ p ∈ operands, Derives p.1 p.2)
    (hreads : ∀ p ∈ operands, Reads limit p.1 p.2) (spine : Term)
    (hspine : n + spine.height ≤ limit) :
    Reader.acceptTokens limit ⟨.operands (n + 1) spine, frames⟩ (tokensOf operands) =
      if n + (spine.apps operands).height ≤ limit then
        .ok ⟨.operands (n + 1) (spine.apps operands), frames⟩
      else .error (.tooDeep limit) := by
  induction operands generalizing spine with
  | nil => exact (if_pos hspine).symm
  | cons p ps ih =>
    obtain ⟨hp, hps⟩ := List.forall_mem_cons.mp hoperands
    obtain ⟨hread, hreads⟩ := List.forall_mem_cons.mp hreads
    have hle := Term.height_le_apps (.app spine p.2) ps
    rw [tokensOf_cons, Term.apps_cons, acceptTokens_append, acceptTokens_operands hp,
      acceptTokens_operand hread hn]
    by_cases hfit : n + (Term.app spine p.2).height ≤ limit
    · rw [if_pos hfit]
      exact ih hps hreads (.app spine p.2) hfit
    · rw [if_neg hfit, if_neg (by omega)]
      rfl

theorem acceptTokens_variables (d position : Nat) (xs : List Variable) {binders : List Token}
    (hbinders : ∀ tok ∈ binders, tok.cls = .variableName) :
    Reader.acceptTokens limit ⟨.binders d position xs, frames⟩ binders =
      .ok ⟨.binders d position (xs ++ variablesOf binders), frames⟩ := by
  induction binders generalizing xs with
  | nil => simp [variablesOf]
  | cons tok binders ih =>
    obtain ⟨htok, hbinders⟩ := List.forall_mem_cons.mp hbinders
    have hstep : Reader.accept limit ⟨.binders d position xs, frames⟩ tok =
        .ok ⟨.binders d position (xs ++ [⟨tok.text⟩]), frames⟩ := by
      simp only [accept, htok]
    rw [acceptTokens_cons, hstep]
    refine (ih _ hbinders).trans ?_
    simp [variablesOf]

end

section
variable {limit : Nat}

theorem reads_var {tok : Token} (h : tok.cls = .variableName) :
    Reads limit [tok] (.var ⟨tok.text⟩) := by
  intro n frames hn
  rw [acceptTokens_singleton, accept, Term.height_var, if_pos hn]
  simp only [begin, h]

theorem reads_const {tok : Token} (h : tok.cls = .constantName) :
    Reads limit [tok] (.const ⟨tok.text⟩) := by
  intro n frames hn
  rw [acceptTokens_singleton, accept, Term.height_const, if_pos hn]
  simp only [begin, h]

theorem accept_openParen {opening : Token} (h : opening.cls = .openParen) (d : Nat)
    (frames : List Frame) :
    Reader.accept limit ⟨.term d, frames⟩ opening = .ok ⟨.group d, frames⟩ := by
  simp only [accept, begin, h]

theorem accept_lambda {lambda : Token} (h : lambda.cls = .lambda) (d : Nat) (frames : List Frame) :
    Reader.accept limit ⟨.group d, frames⟩ lambda =
      .ok ⟨.binders d lambda.position [], frames⟩ := by
  simp only [accept, h, if_true]

theorem accept_dot {dot : Token} (h : dot.cls = .dot) (d position : Nat) {xs : List Variable}
    (hxs : xs ≠ []) (frames : List Frame) :
    Reader.accept limit ⟨.binders d position xs, frames⟩ dot =
      if d + xs.length ≤ limit then .ok ⟨.term (d + xs.length), .body xs :: frames⟩
      else .error (.tooDeep limit) := by
  simp only [accept, h, hxs, if_false]

theorem accept_closing_body {closing : Token} (h : closing.cls = .closeParen) (t : Term)
    (frames : List Frame) :
    Reader.accept limit ⟨.bodyEnd t, frames⟩ closing = deliver limit t frames := by
  simp only [accept, h, if_true]

theorem accept_closing_operands {closing : Token} (h : closing.cls = .closeParen) (d : Nat)
    (spine : Term) (frames : List Frame) :
    Reader.accept limit ⟨.operands d spine, frames⟩ closing = deliver limit spine frames := by
  simp only [accept, h, if_true]

theorem reads_abstraction {opening lambda dot closing : Token} {binders body : List Token}
    {t : Term} (hopening : opening.cls = .openParen) (hlambda : lambda.cls = .lambda)
    (hne : binders ≠ []) (hbinders : ∀ tok ∈ binders, tok.cls = .variableName)
    (hdot : dot.cls = .dot) (hbody : Reads limit body t) (hclosing : closing.cls = .closeParen) :
    Reads limit (opening :: lambda :: (binders ++ dot :: (body ++ [closing])))
      (Term.lams (variablesOf binders) t) := by
  intro n frames hn
  have hpos := t.height_pos
  have hxs : variablesOf binders ≠ [] := by
    simpa [variablesOf] using hne
  have hcount : n + 1 + (variablesOf binders).length = n + (variablesOf binders).length + 1 := by
    omega
  rw [acceptTokens_cons, accept_openParen hopening, Except.bind, acceptTokens_cons,
    accept_lambda hlambda, Except.bind, acceptTokens_append, acceptTokens_variables _ _ _ hbinders,
    List.nil_append, Except.bind, acceptTokens_cons, accept_dot hdot _ _ hxs, hcount,
    Term.height_lams]
  -- the binders may fit the limit where the body does not
  by_cases hroom : n + (variablesOf binders).length + 1 ≤ limit
  · rw [if_pos hroom, Except.bind, acceptTokens_append, hbody _ _ hroom, ← Nat.add_assoc]
    by_cases hfit : n + (variablesOf binders).length + t.height ≤ limit
    · rw [if_pos hfit, if_pos hfit, deliver, Except.bind, acceptTokens_singleton,
        accept_closing_body hclosing]
    · rw [if_neg hfit, if_neg hfit]
      rfl
  · rw [if_neg hroom, if_neg (by omega)]
    rfl

theorem reads_application {opening closing : Token} {head : List Token} {f : Term}
    {operands : List Phrase} (hopening : opening.cls = .openParen) (hhead : Derives head f)
    (hne : operands ≠ []) (hoperands : ∀ p ∈ operands, Derives p.1 p.2)
    (hreadsHead : Reads limit head f) (hreads : ∀ p ∈ operands, Reads limit p.1 p.2)
    (hclosing : closing.cls = .closeParen) :
    Reads limit (opening :: (head ++ (tokensOf operands ++ [closing]))) (f.apps operands) := by
  intro n frames hn
  have hpos := f.height_pos
  obtain ⟨p, ps, rfl⟩ := List.exists_cons_of_ne_nil hne
  obtain ⟨-, hps⟩ := List.forall_mem_cons.mp hoperands
  obtain ⟨hread, hreads⟩ := List.forall_mem_cons.mp hreads
  have hle := Term.height_le_apps (.app f p.2) ps
  rw [acceptTokens_cons, accept_openParen hopening, Except.bind, acceptTokens_append,
    acceptTokens_group hhead hreadsHead hn, tokensOf_cons, List.append_assoc, Term.apps_cons]
  by_cases hhead' : n + 1 + f.height ≤ limit
  · rw [if_pos hhead', Except.bind, acceptTokens_append,
      acceptTokens_operand hread (by omega)]
    by_cases hfirst : n + (Term.app f p.2).height ≤ limit
    · rw [if_pos hfirst, Except.bind, acceptTokens_append,
        acceptTokens_tokensOf (by omega) ps hps hreads _ hfirst]
      by_cases hfit : n + ((Term.app f p.2).apps ps).height ≤ limit
      · rw [if_pos hfit, if_pos hfit, Except.bind, acceptTokens_singleton,
          accept_closing_operands hclosing]
      · rw [if_neg hfit, if_neg hfit]
        rfl
    · rw [if_neg hfirst, if_neg (by omega)]
      rfl
  · rw [Term.height_app] at hle
    rw [if_neg hhead', if_neg (by omega)]
    rfl

/-- The reader takes every phrase of the grammar, and as the grammar's term. -/
theorem reads_of_derives {tokens : List Token} {t : Term} (h : Derives tokens t) :
    Reads limit tokens t := by
  induction h with
  | var h => exact reads_var h
  | const h => exact reads_const h
  | abstraction hopening hlambda hne hbinders hdot hbody hclosing ih =>
    exact reads_abstraction hopening hlambda hne hbinders hdot ih hclosing
  | application hopening hhead hne hoperands hclosing ihhead ih =>
    exact reads_application hopening hhead hne hoperands ihhead ih hclosing

/-- Read alone from the start, a phrase is the whole term. -/
theorem acceptTokens_start {tokens : List Token} {t : Term} (h : Derives tokens t)
    (hlimit : 1 ≤ limit) :
    start.acceptTokens limit tokens =
      if t.height ≤ limit then .ok ⟨.finished t, []⟩ else .error (.tooDeep limit) := by
  have hread := reads_of_derives h 0 [] hlimit
  rw [Nat.zero_add t.height] at hread
  exact hread

end

end NamedLambda
