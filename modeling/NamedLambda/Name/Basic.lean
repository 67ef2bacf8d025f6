import NamedLambda.Text.Quoted

/-!
Names of variables and constants. A variable may be bound; a constant stands for itself and is
written in capitals.
-/
namespace NamedLambda

structure Variable where
  name : String
  deriving DecidableEq, Repr

structure Constant where
  name : String
  deriving DecidableEq, Repr

/-- What may follow the first letter of a variable. -/
def isNameTail (c : Char) : Bool :=
  c.isLower || c.isDigit || c == '_'

/-- Variables are a lower-case ASCII letter followed by such letters, digits and underscores. -/
def isVariableName : List Char → Bool
  | [] => false
  | c :: cs => c.isLower && cs.all isNameTail

/-- Constants are one or more upper-case ASCII letters. -/
def isConstantName (cs : List Char) : Bool :=
  !cs.isEmpty && cs.all Char.isUpper

inductive NameKind where
  | variableName | constantName
  deriving DecidableEq, Repr

/-- A text refused as a name. -/
structure MalformedName where
  kind : NameKind
  text : String
  deriving DecidableEq, Repr

def NameKind.word : NameKind → String
  | .variableName => "variable"
  | .constantName => "macro"

def MalformedName.message (e : MalformedName) : String :=
  s!"malformed {e.kind.word} name: " ++ Text.quotedText e.text

namespace Variable

def Valid (x : Variable) : Prop :=
  isVariableName x.name.toList = true

instance (x : Variable) : Decidable x.Valid :=
  inferInstanceAs (Decidable (_ = true))

def ofText (text : String) : Except MalformedName Variable :=
  if isVariableName text.toList then .ok ⟨text⟩ else .error ⟨.variableName, text⟩

theorem ofText_eq_ok_iff {text : String} {x : Variable} :
    ofText text = .ok x ↔ x = ⟨text⟩ ∧ x.Valid := by
  by_cases h : isVariableName text.toList = true
  · simp only [ofText, h, if_true, Except.ok.injEq, Valid]
    exact ⟨fun e => e ▸ ⟨rfl, h⟩, fun e => e.1.symm⟩
  · simp only [ofText, h, Valid]
    exact ⟨nofun, by rintro ⟨rfl, h'⟩; exact absurd h' h⟩

theorem Valid.ne_nil {x : Variable} (h : x.Valid) : x.name.toList ≠ [] := by
  intro hnil
  unfold Valid at h
  rw [hnil] at h
  cases h

theorem Valid.isNameTail {x : Variable} (h : x.Valid) {c : Char} (hc : c ∈ x.name.toList) :
    isNameTail c = true := by
  unfold Valid at h
  cases hname : x.name.toList with
  | nil => exact absurd hname (Valid.ne_nil h)
  | cons d ds =>
    rw [hname] at h hc
    obtain ⟨hlower, htail⟩ := Bool.and_eq_true_iff.mp h
    rcases List.mem_cons.mp hc with rfl | hds
    · simp [NamedLambda.isNameTail, hlower]
    · exact List.all_eq_true.mp htail c hds

/-- Variables are ordered by their names, character by character. -/
instance : LT Variable :=
  ⟨fun x y => x.name < y.name⟩

instance (x y : Variable) : Decidable (x < y) :=
  inferInstanceAs (Decidable (x.name < y.name))

/-- The names of variables in increasing order. -/
def namesInOrder (xs : List Variable) : List String :=
  (xs.map name).mergeSort

end Variable

namespace Constant

def Valid (c : Constant) : Prop :=
  isConstantName c.name.toList = true

instance (c : Constant) : Decidable c.Valid :=
  inferInstanceAs (Decidable (_ = true))

def ofText (text : String) : Except MalformedName Constant :=
  if isConstantName text.toList then .ok ⟨text⟩ else .error ⟨.constantName, text⟩

theorem ofText_eq_ok_iff {text : String} {c : Constant} :
    ofText text = .ok c ↔ c = ⟨text⟩ ∧ c.Valid := by
  by_cases h : isConstantName text.toList = true
  · simp only [ofText, h, if_true, Except.ok.injEq, Valid]
    exact ⟨fun e => e ▸ ⟨rfl, h⟩, fun e => e.1.symm⟩
  · simp only [ofText, h, Valid]
    exact ⟨nofun, by rintro ⟨rfl, h'⟩; exact absurd h' h⟩

theorem Valid.ne_nil {c : Constant} (h : c.Valid) : c.name.toList ≠ [] := by
  intro hnil
  obtain ⟨hnonempty, -⟩ := Bool.and_eq_true_iff.mp h
  rw [hnil] at hnonempty
  cases hnonempty

theorem Valid.isUpper {c : Constant} (h : c.Valid) {d : Char} (hd : d ∈ c.name.toList) :
    d.isUpper = true :=
  List.all_eq_true.mp (Bool.and_eq_true_iff.mp h).2 d hd

end Constant

end NamedLambda
