import NamedLambda.Token.Munch

/-!
The lexer: a place in a text from which tokens are taken one at a time. It yields the error of the
first character that begins no token once, and nothing after it.
-/
namespace NamedLambda

/-- What a lexer yields at each step. -/
abbrev LexItem := Except LexError Token

structure Lexer where
  source : List Char
  keepBlanks : Bool
  rest : List Char
  position : Nat
  failed : Bool
  deriving DecidableEq, Repr

namespace Lexer

/-- A lexer at the start of a text, which yields the blanks between tokens or passes over them. -/
def start (source : List Char) (keepBlanks : Bool) : Lexer :=
  ⟨source, keepBlanks, source, 0, false⟩

/-- Back to the start of the text, also after an error. -/
def restart (l : Lexer) : Lexer :=
  start l.source l.keepBlanks

/-- Moves past the first `n` characters that are left. -/
def advance (l : Lexer) (n : Nat) : Lexer :=
  { l with rest := l.rest.drop n, position := l.position + n }

/-- Moves past the blanks at hand, unless they are to be yielded. -/
def skip (l : Lexer) : Lexer :=
  if l.keepBlanks then l else l.advance (TokenClass.reach .blank l.rest)

/-- The token or the error at the place itself, and the place after it. -/
def take (l : Lexer) : Option LexItem × Lexer :=
  match l.rest with
  | [] => (none, l)
  | c :: _ =>
    match munch l.rest with
    | none => (some (.error ⟨c, l.position⟩), { l with failed := true })
    | some (k, n) => (some (.ok ⟨k, k.stored (l.rest.take n), l.position⟩), l.advance n)

/-- The next item, and the lexer after it. -/
def next (l : Lexer) : Option LexItem × Lexer :=
  if l.failed then (none, l) else l.skip.take

/-- Falls with every item. -/
def left (l : Lexer) : Nat :=
  if l.failed then 0 else l.rest.length + 1

@[simp] theorem failed_skip (l : Lexer) : l.skip.failed = l.failed := by
  unfold skip advance; split <;> rfl

theorem left_skip_le (l : Lexer) : l.skip.left ≤ l.left := by
  unfold skip
  split
  · exact Nat.le_refl _
  · simp only [left, advance, List.length_drop]
    split <;> omega

theorem left_take_lt {l m : Lexer} {item : LexItem} (hl : l.failed = false)
    (h : l.take = (some item, m)) : m.left < l.left := by
  unfold take at h
  split at h
  · simp at h
  · next c cs hrest =>
    split at h
    · simp only [Prod.mk.injEq] at h
      simp [← h.2, left, hl]
    · next k n hm =>
      have hn := munch_pos hm
      simp only [Prod.mk.injEq] at h
      simp only [← h.2, left, hl, advance, List.length_drop, hrest, List.length_cons]
      simp
      omega

theorem left_next_lt {l m : Lexer} {item : LexItem} (h : l.next = (some item, m)) :
    m.left < l.left := by
  unfold next at h
  split at h
  · simp at h
  · next hf =>
    exact Nat.lt_of_lt_of_le (left_take_lt (by simpa using hf) h) (left_skip_le l)

/-- Everything that is left to be yielded. -/
def items (l : Lexer) : List LexItem :=
  match _h : l.next with
  | (none, _) => []
  | (some item, m) => item :: items m
termination_by l.left
decreasing_by exact left_next_lt (by assumption)

theorem items_of_next_none {l m : Lexer} (h : l.next = (none, m)) : l.items = [] := by
  rw [items]
  split <;> simp_all

theorem items_of_next_some {l m : Lexer} {item : LexItem} (h : l.next = (some item, m)) :
    l.items = item :: m.items := by
  rw [items]
  split <;> simp_all

@[simp] theorem items_of_failed {l : Lexer} (h : l.failed = true) : l.items = [] :=
  items_of_next_none (m := l) (by simp [next, h])

/-- The lexer once everything is yielded: it yields nothing more until it is restarted. -/
def exhaust (l : Lexer) : Lexer :=
  match _h : l.next with
  | (none, m) => m
  | (some _, m) => exhaust m
termination_by l.left
decreasing_by exact left_next_lt (by assumption)

end Lexer

/-- Items as one result: all the tokens, or the error that ends them. -/
def collect : List LexItem → Except LexError (List Token)
  | [] => .ok []
  | .error e :: _ => .error e
  | .ok t :: items => (collect items).map (t :: ·)

/-- The tokens of a whole text, with or without its blanks. -/
def tokenize (text : String) (keepBlanks : Bool) : Except LexError (List Token) :=
  collect (Lexer.start text.toList keepBlanks).items

end NamedLambda
