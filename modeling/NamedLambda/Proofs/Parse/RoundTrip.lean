import NamedLambda.Proofs.Parse.Exactness
import NamedLambda.Term.Print

/-!
Printing and reading. The text of a term is cut into tokens of which the grammar derives that term,
and what is read from any text has names that can be printed.
-/
namespace NamedLambda

open Lexer

namespace Term

/-- Names as a text can hold them: valid, and no constant that the lexer takes for a lambda. -/
def Printable : Term → Prop
  | .var x => x.Valid
  | .const c => c.Valid ∧ c.name ≠ "L"
  | .lam x body => x.Valid ∧ body.Printable
  | .app f a => f.Printable ∧ a.Printable

instance decidablePrintable : DecidablePred Printable
  | .var x => inferInstanceAs (Decidable x.Valid)
  | .const c => inferInstanceAs (Decidable (c.Valid ∧ c.name ≠ "L"))
  | .lam x body => @instDecidableAnd x.Valid body.Printable _ (decidablePrintable body)
  | .app f a => @instDecidableAnd _ _ (decidablePrintable f) (decidablePrintable a)

/-- The number of characters in the text of a term. -/
def width : Term → Nat
  | .var x => x.name.toList.length
  | .const c => c.name.toList.length
  | .lam x body => x.name.toList.length + body.width + 7
  | .app f a => f.width + a.width + 3

/-- The tokens of the text of a term that stands at the position. -/
def tokens (position : Nat) : Term → List Token
  | .var x => [⟨.variableName, x.name, position⟩]
  | .const c => [⟨.constantName, c.name, position⟩]
  | .lam x body =>
    let dot := position + 3 + x.name.toList.length + 1
    ⟨.openParen, "(", position⟩ :: ⟨.lambda, "λ", position + 1⟩ ::
      ⟨.variableName, x.name, position + 3⟩ :: ⟨.dot, ".", dot⟩ ::
        (body.tokens (dot + 2) ++ [⟨.closeParen, ")", dot + 2 + body.width⟩])
  | .app f a =>
    let argument := position + 1 + f.width + 1
    ⟨.openParen, "(", position⟩ ::
      (f.tokens (position + 1) ++
        (a.tokens argument ++ [⟨.closeParen, ")", argument + a.width⟩]))

theorem derives_tokens (t : Term) (position : Nat) : Derives (t.tokens position) t := by
  induction t generalizing position with
  | var x => exact .var rfl
  | const c => exact .const rfl
  | lam x body ih =>
    have hbinder : ∀ tok ∈ [(⟨.variableName, x.name, position + 3⟩ : Token)],
        tok.cls = .variableName := List.forall_mem_singleton.mpr rfl
    exact .abstraction rfl rfl (List.cons_ne_nil _ []) hbinder rfl (ih _) rfl
  | app f a ihf iha =>
    have hoperand := iha (position + 1 + f.width + 1)
    have hphrase : tokensOf [(a.tokens (position + 1 + f.width + 1), a)] =
        a.tokens (position + 1 + f.width + 1) := List.append_nil _
    rw [tokens, ← hphrase]
    exact .application rfl (ihf _) (List.cons_ne_nil _ []) (List.forall_mem_singleton.mpr hoperand)
      rfl

end Term

/-- Printed in front of a text that does not go on with a name, a term is cut into its tokens. -/
theorem items_write {t : Term} (ht : t.Printable) (source : List Char) (position : Nat)
    {rest : List Char} (hrest : EndsName rest) :
    (facing source (t.write rest) position).items =
      (t.tokens position).map .ok ++ (facing source rest (position + t.width)).items := by
  induction t generalizing position rest with
  | var x => exact items_variable source position ht hrest
  | const c => exact items_constant source position ht.1 ht.2 hrest
  | lam x body ih =>
    obtain ⟨hx, hbody⟩ := ht
    have hend : position + 3 + x.name.toList.length + 1 + 2 + body.width + 1 =
        position + (x.name.toList.length + body.width + 7) := by omega
    rw [Term.width, ← hend, Term.write, items_sign source position (k := .openParen) rfl,
      items_sign source _ (k := .lambda) rfl, items_space,
      items_variable source _ hx (endsName_space _), items_space,
      items_sign source _ (k := .dot) rfl, items_space, ih hbody _ (endsName_closeParen rest),
      items_sign source _ (k := .closeParen) rfl, Term.tokens]
    simp only [List.map_cons, List.map_append, List.map_nil, List.cons_append, List.append_assoc,
      List.nil_append]
    rfl
  | app f a ihf iha =>
    obtain ⟨hf, ha⟩ := ht
    have hend : position + 1 + f.width + 1 + a.width + 1 = position + (f.width + a.width + 3) := by
      omega
    rw [Term.width, ← hend, Term.write, items_sign source position (k := .openParen) rfl,
      ihf hf _ (endsName_space _), items_space, iha ha _ (endsName_closeParen rest),
      items_sign source _ (k := .closeParen) rfl, Term.tokens]
    simp only [List.map_cons, List.map_append, List.map_nil, List.cons_append, List.append_assoc,
      List.nil_append]
    rfl

theorem tokenize_render {t : Term} (ht : t.Printable) :
    tokenize t.render false = .ok (t.tokens 0) := by
  have hitems := items_write ht (t.write []) 0 endsName_nil
  rw [items_facing_nil, List.append_nil] at hitems
  rw [tokenize_eq_ok_iff, Term.toList_render]
  exact hitems

theorem parse_render {t : Term} (ht : t.Printable) (limit : Nat) :
    Term.parse limit t.render = if t.depth ≤ limit then .ok t else .error (.tooDeep limit) :=
  parse_of_derives (tokenize_render ht) (t.derives_tokens 0)

/-- The name of a token is that of a variable or a constant, if it is of such a class. -/
def Token.Proper (tok : Token) : Prop :=
  (tok.cls = .variableName → (Variable.mk tok.text).Valid) ∧
    (tok.cls = .constantName → (Constant.mk tok.text).Valid ∧ tok.text ≠ "L")

theorem proper_of_mem_tokenize {text : String} {tokens : List Token} {tok : Token}
    (h : tokenize text false = .ok tokens) (htok : tok ∈ tokens) : tok.Proper := by
  have hmem : .ok tok ∈ (Lexer.start text.toList false).items :=
    tokenize_eq_ok_iff.mp h ▸ List.mem_map_of_mem htok
  obtain ⟨cs, n, hmunch, htext⟩ := exists_munch_of_mem_items hmem
  constructor
  · intro hcls
    rw [hcls] at hmunch htext
    have hspells : isVariableName (cs.take n) = true := spells_of_munch hmunch
    rw [htext]
    simpa [Variable.Valid, TokenClass.stored] using hspells
  · intro hcls
    rw [hcls] at hmunch htext
    have hspells : isConstantName (cs.take n) = true := spells_of_munch hmunch
    have hne := take_ne_of_munch_constantName hmunch
    rw [htext]
    refine ⟨by simpa [Constant.Valid, TokenClass.stored] using hspells, fun hL => hne ?_⟩
    simpa [TokenClass.stored] using congrArg String.toList hL

theorem printable_lams {binders : List Token} {t : Term} (ht : t.Printable)
    (hbinders : ∀ tok ∈ binders, (Variable.mk tok.text).Valid) :
    (Term.lams (variablesOf binders) t).Printable := by
  induction binders with
  | nil => exact ht
  | cons tok binders ih =>
    obtain ⟨htok, hbinders⟩ := List.forall_mem_cons.mp hbinders
    exact ⟨htok, ih hbinders⟩

theorem printable_apps {f : Term} {operands : List Phrase} (hf : f.Printable)
    (hoperands : ∀ p ∈ operands, p.2.Printable) : (f.apps operands).Printable := by
  induction operands generalizing f with
  | nil => exact hf
  | cons p operands ih =>
    obtain ⟨hp, hoperands⟩ := List.forall_mem_cons.mp hoperands
    exact ih ⟨hf, hp⟩ hoperands

theorem printable_of_derives {tokens : List Token} {t : Term} (h : Derives tokens t)
    (hproper : ∀ tok ∈ tokens, tok.Proper) : t.Printable := by
  induction h with
  | @var tok hcls => exact (hproper tok (by simp)).1 hcls
  | @const tok hcls => exact (hproper tok (by simp)).2 hcls
  | abstraction hopening hlambda hne hbinders hdot hbody hclosing ih =>
    refine printable_lams (ih fun tok htok => hproper tok (by simp [htok])) fun tok htok => ?_
    exact (hproper tok (by simp [htok])).1 (hbinders tok htok)
  | @application opening closing head f operands hopening hhead hne hoperands hclosing ihhead ih =>
    refine printable_apps (ihhead fun tok htok => hproper tok (by simp [htok])) fun p hp => ?_
    refine ih p hp fun tok htok => hproper tok ?_
    have hmem : tok ∈ tokensOf operands := List.mem_flatten.mpr ⟨p.1, List.mem_map_of_mem hp, htok⟩
    simp [hmem]

/-- Names that are read can be printed. -/
theorem printable_of_parse {limit : Nat} {text : String} {t : Term}
    (h : Term.parse limit text = .ok t) : t.Printable := by
  obtain ⟨tokens, htokens, hderives⟩ := derives_of_parse h
  exact printable_of_derives hderives fun tok htok => proper_of_mem_tokenize htokens htok

theorem depth_le_of_parse {limit : Nat} {text : String} {t : Term}
    (h : Term.parse limit text = .ok t) : t.depth ≤ limit := by
  obtain ⟨tokens, htokens, hderives⟩ := derives_of_parse h
  rw [parse_of_derives htokens hderives] at h
  by_contra hdepth
  rw [if_neg hdepth] at h
  cases h

/-- Reading the text of a term gives back the term, or finds it too deep. Whatever is read from a
text can be printed, and is read back under the same limit. -/
theorem parse_inverts_render :
    (∀ t : Term, t.Printable → ∀ limit,
      Term.parse limit t.render = if t.depth ≤ limit then .ok t else .error (.tooDeep limit)) ∧
    (∀ limit text t, Term.parse limit text = .ok t →
      t.Printable ∧ Term.parse limit t.render = .ok t) := by
  refine ⟨fun t ht limit => parse_render ht limit, fun limit text t h => ?_⟩
  obtain ⟨tokens, htokens, hderives⟩ := derives_of_parse h
  have hprintable := printable_of_derives hderives fun tok htok =>
    proper_of_mem_tokenize htokens htok
  rw [parse_of_derives htokens hderives] at h
  rw [parse_render hprintable]
  exact ⟨hprintable, h⟩

/-- A term of depth three fits a limit of three and no lower one. -/
theorem parse_inverts_render_identity :
    let t : Term := .app (.lam ⟨"x_1"⟩ (.var ⟨"x_1"⟩)) (.const ⟨"LIST"⟩)
    t.Printable ∧ Term.parse 3 t.render = .ok t ∧ Term.parse 2 t.render = .error (.tooDeep 2) := by
  intro t
  have ht : t.Printable := by decide
  have hdepth : t.depth = 3 := by
    rw [Term.depth_eq_height]
    rfl
  have hparse := parse_inverts_render.1 t ht
  have hread : Term.parse 3 t.render = .ok t := by
    rw [hparse, hdepth]
    rfl
  obtain ⟨hprintable, hagain⟩ := parse_inverts_render.2 3 t.render t hread
  refine ⟨hprintable, hagain, ?_⟩
  rw [hparse, hdepth]
  rfl

end NamedLambda
