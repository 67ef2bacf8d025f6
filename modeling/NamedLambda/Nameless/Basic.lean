import NamedLambda.Term.Basic

/-!
Terms without names for what is bound. A bound occurrence is the number of binders between it and
its own; what is free keeps its name. Two named terms that differ only in the names of their binders
have one nameless form.
-/
namespace NamedLambda

inductive Nameless where
  | bound (i : Nat)
  | free (x : Variable)
  | const (c : Constant)
  | lam (body : Nameless)
  | app (function argument : Nameless)
  deriving DecidableEq, Repr

namespace Nameless

/-- Makes room for one more binder outside the innermost `d`. -/
def lift (d : Nat) : Nameless → Nameless
  | .bound i => .bound (if i < d then i else i + 1)
  | .free x => .free x
  | .const c => .const c
  | .lam body => .lam (body.lift (d + 1))
  | .app f a => .app (f.lift d) (a.lift d)

/-- Puts `r` for the name `x` wherever it is free. -/
def substFree (x : Variable) (r : Nameless) : Nameless → Nameless
  | .bound i => .bound i
  | .free y => if y = x then r else .free y
  | .const c => .const c
  | .lam body => .lam (substFree x (r.lift 0) body)
  | .app f a => .app (substFree x r f) (substFree x r a)

/-- Puts `r` for the binder outside the innermost `d`, which is taken away. -/
def instantiate (d : Nat) (r : Nameless) : Nameless → Nameless
  | .bound i => if i < d then .bound i else if i = d then r else .bound (i - 1)
  | .free x => .free x
  | .const c => .const c
  | .lam body => .lam (instantiate (d + 1) (r.lift 0) body)
  | .app f a => .app (instantiate d r f) (instantiate d r a)

/-- The term that a redex of this body and argument contracts to. -/
def beta (body argument : Nameless) : Nameless :=
  instantiate 0 argument body

/-- Contracts every redex that is not inside another one, each of them once. -/
def pass : Nameless → Nameless
  | .app (.lam body) a => beta body a
  | .app f a => .app f.pass a.pass
  | .lam body => .lam body.pass
  | t => t

/-- One redex, anywhere, is contracted. -/
inductive Contracts : Nameless → Nameless → Prop where
  | redex (body a : Nameless) : Contracts (.app (.lam body) a) (beta body a)
  | lam {t u : Nameless} (h : Contracts t u) : Contracts (.lam t) (.lam u)
  | function {f g : Nameless} (a : Nameless) (h : Contracts f g) : Contracts (.app f a) (.app g a)
  | argument (f : Nameless) {a b : Nameless} (h : Contracts a b) : Contracts (.app f a) (.app f b)

end Nameless

namespace Term

/-- An occurrence of `x` under these binders, the innermost first. -/
def resolve (scope : List Variable) (x : Variable) : Nameless :=
  match scope.idxOf? x with
  | some i => .bound i
  | none => .free x

/-- The nameless form of a term under these binders, the innermost first. -/
def namelessUnder (scope : List Variable) : Term → Nameless
  | .var x => resolve scope x
  | .const c => .const c
  | .lam x body => .lam (body.namelessUnder (x :: scope))
  | .app f a => .app (f.namelessUnder scope) (a.namelessUnder scope)

def nameless (t : Term) : Nameless :=
  t.namelessUnder []

/-- The terms differ only in the names of their binders. -/
def AlphaEquiv (t u : Term) : Prop :=
  t.nameless = u.nameless

instance (t u : Term) : Decidable (AlphaEquiv t u) :=
  inferInstanceAs (Decidable (_ = _))

theorem AlphaEquiv.refl (t : Term) : AlphaEquiv t t := rfl

theorem AlphaEquiv.symm {t u : Term} (h : AlphaEquiv t u) : AlphaEquiv u t := Eq.symm h

theorem AlphaEquiv.trans {t u v : Term} (h : AlphaEquiv t u) (h' : AlphaEquiv u v) :
    AlphaEquiv t v := Eq.trans h h'

@[simp] theorem nameless_var (x : Variable) : (var x).nameless = .free x := rfl

@[simp] theorem nameless_const (c : Constant) : (const c).nameless = .const c := rfl

@[simp] theorem nameless_app (f a : Term) :
    (app f a).nameless = .app f.nameless a.nameless := rfl

end Term

end NamedLambda
