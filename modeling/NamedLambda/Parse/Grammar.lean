import NamedLambda.Parse.Reader

/-!
The grammar of terms, over tokens and without a reader. An abstraction may bind several variables,
the first outermost; an application may have several operands, the first two innermost.
-/
namespace NamedLambda

/-- Tokens with the term that they are read as. -/
abbrev Phrase := List Token × Term

/-- The variables that binder tokens name. -/
def variablesOf (binders : List Token) : List Variable :=
  binders.map fun tok => ⟨tok.text⟩

/-- The tokens of phrases, one after the other. -/
def tokensOf (phrases : List Phrase) : List Token :=
  (phrases.map Prod.fst).flatten

/-- Applies a term to operands from the left. -/
def Term.apps (f : Term) (operands : List Phrase) : Term :=
  operands.foldl (fun t p => .app t p.2) f

inductive Derives : List Token → Term → Prop where
  | var {tok : Token} (h : tok.cls = .variableName) : Derives [tok] (.var ⟨tok.text⟩)
  | const {tok : Token} (h : tok.cls = .constantName) : Derives [tok] (.const ⟨tok.text⟩)
  | abstraction {opening lambda dot closing : Token} {binders body : List Token} {t : Term}
      (hopening : opening.cls = .openParen) (hlambda : lambda.cls = .lambda)
      (hne : binders ≠ []) (hbinders : ∀ tok ∈ binders, tok.cls = .variableName)
      (hdot : dot.cls = .dot) (hbody : Derives body t) (hclosing : closing.cls = .closeParen) :
      Derives (opening :: lambda :: (binders ++ dot :: (body ++ [closing])))
        (Term.lams (variablesOf binders) t)
  | application {opening closing : Token} {head : List Token} {f : Term} {operands : List Phrase}
      (hopening : opening.cls = .openParen) (hhead : Derives head f) (hne : operands ≠ [])
      (hoperands : ∀ p ∈ operands, Derives p.1 p.2) (hclosing : closing.cls = .closeParen) :
      Derives (opening :: (head ++ (tokensOf operands ++ [closing]))) (f.apps operands)

/-- Some continuation of the tokens is a term. -/
def Viable (tokens : List Token) : Prop :=
  ∃ later t, Derives (tokens ++ later) t

theorem viable_of_append {front later : List Token} (h : Viable (front ++ later)) :
    Viable front := by
  obtain ⟨more, t, ht⟩ := h
  exact ⟨later ++ more, t, by simpa using ht⟩

theorem ne_nil_of_derives {tokens : List Token} {t : Term} (h : Derives tokens t) :
    tokens ≠ [] := by
  cases h <;> simp

end NamedLambda
