import NamedLambda.Proofs.Token.Partition
import NamedLambda.Token.Pool

/-!
A pool of lexers against a pool of numbers. All lexers over a text replay one stream of items, and
where a lexer stands in it is the number of items it has been asked for since it was last at the
start. What is done with one lexer is nothing to the others.
-/
namespace NamedLambda

namespace Lexer
variable {l m : Lexer}

/-- At the end of the text, or after an error, nothing is yielded at the next step either. -/
theorem items_after_of_next_none (h : l.next = (none, m)) : m.items = [] := by
  unfold next at h
  split at h
  · cases h
    exact items_of_failed ‹_›
  · next hfailed =>
    have hskip : l.skip.failed = false := by rwa [failed_skip, ← Bool.not_eq_true]
    unfold take at h
    split at h
    · next hrest =>
      cases h
      have hstuck : munch l.skip.rest = none := by rw [hrest, munch_nil]
      rw [items_of_stuck hskip hstuck, stuck, hrest]
      rfl
    · split at h <;> cases h

/-- A step yields the first of the items that are left. -/
theorem next_eq_head? (l : Lexer) : l.next.1 = l.items.head? := by
  match h : l.next with
  | (none, m) => rw [items_of_next_none h, List.head?_nil]
  | (some item, m) => rw [items_of_next_some h, List.head?_cons]

theorem items_next (l : Lexer) : l.next.2.items = l.items.tail := by
  match h : l.next with
  | (none, m) => rw [items_of_next_none h, items_after_of_next_none h, List.tail_nil]
  | (some item, m) => rw [items_of_next_some h, List.tail_cons]

@[simp] theorem restart_skip (l : Lexer) : l.skip.restart = l.restart := by
  unfold skip
  split <;> rfl

theorem restart_take (l : Lexer) : l.take.2.restart = l.restart := by
  unfold take
  split
  · rfl
  · split <;> rfl

@[simp] theorem restart_next (l : Lexer) : l.next.2.restart = l.restart := by
  unfold next
  split
  · rfl
  · rw [restart_take, restart_skip]

theorem items_exhaust (l : Lexer) : l.exhaust.items = [] := by
  fun_induction exhaust l with
  | case1 l m h => exact items_after_of_next_none h
  | case2 l item m h ih => exact ih

@[simp] theorem restart_exhaust (l : Lexer) : l.exhaust.restart = l.restart := by
  fun_induction exhaust l with
  | case1 l m h => rw [← l.restart_next, h]
  | case2 l item m h ih => rw [ih, ← l.restart_next, h]

/-- The lexer is at place `n` of the stream, and comes to its first place by a restart. -/
structure StandsAt (l : Lexer) (stream : List LexItem) (n : Nat) : Prop where
  items : l.items = stream.drop n
  again : l.restart.items = stream

section
variable {stream : List LexItem} {n : Nat}

theorem standsAt_start (source : List Char) (keepBlanks : Bool) :
    (start source keepBlanks).StandsAt (start source keepBlanks).items 0 :=
  ⟨rfl, rfl⟩

theorem StandsAt.next_eq (h : l.StandsAt stream n) : l.next.1 = stream[n]? := by
  rw [next_eq_head?, h.items, List.head?_drop]

theorem StandsAt.next (h : l.StandsAt stream n) : l.next.2.StandsAt stream (n + 1) where
  items := by rw [items_next, h.items, List.tail_drop]
  again := by rw [restart_next, h.again]

theorem StandsAt.exhaust (h : l.StandsAt stream n) : l.exhaust.StandsAt stream stream.length where
  items := by rw [items_exhaust, List.drop_length]
  again := by rw [restart_exhaust, h.again]

theorem StandsAt.restart (h : l.StandsAt stream n) : l.restart.StandsAt stream 0 :=
  ⟨h.again, h.again⟩

end

end Lexer

/-- A pool without its text. In the place of each lexer stands the number of items that it has been
asked for since it was last at the start, or that of all items if it has been asked for the rest. -/
structure Replay where
  stream : List LexItem
  places : List Nat

namespace Replay

/-- A single lexer, before the first item of the stream. -/
def start (stream : List LexItem) : Replay :=
  ⟨stream, [0]⟩

/-- The lexer at place `n` answers. Being asked moves it on, also past the end of the stream, and a
clone joins at the place of its model. -/
def answer (r : Replay) (n : Nat) : LexerCommand → LexerAnswer × Replay
  | .next i => (.item r.stream[n]?, ⟨r.stream, r.places.set i (n + 1)⟩)
  | .rest i => (.items (r.stream.drop n), ⟨r.stream, r.places.set i r.stream.length⟩)
  | .restart i => (.restarted, ⟨r.stream, r.places.set i 0⟩)
  | .clone _ => (.joined r.places.length, ⟨r.stream, r.places ++ [n]⟩)

def step (r : Replay) (c : LexerCommand) : LexerAnswer × Replay :=
  match r.places[c.number]? with
  | none => (.noSuchLexer, r)
  | some n => r.answer n c

def run (r : Replay) : List LexerCommand → List LexerAnswer
  | [] => []
  | c :: cs => (r.step c).1 :: (r.step c).2.run cs

end Replay

section
variable {α β : Type} {R : α → β → Prop} {xs : List α} {ys : List β}

/-- Lists related entry by entry have related entries everywhere, and end together. -/
theorem getElem?_cases_of_forall₂ (h : List.Forall₂ R xs ys) (i : Nat) :
    (xs[i]? = none ∧ ys[i]? = none) ∨ ∃ a b, xs[i]? = some a ∧ ys[i]? = some b ∧ R a b := by
  induction h generalizing i with
  | nil => exact .inl ⟨rfl, rfl⟩
  | @cons a b xs ys hab _ ih =>
    cases i with
    | zero => exact .inr ⟨a, b, rfl, rfl, hab⟩
    | succ i => simpa using ih i

theorem forall₂_set (h : List.Forall₂ R xs ys) {a : α} {b : β} (hab : R a b) (i : Nat) :
    List.Forall₂ R (xs.set i a) (ys.set i b) := by
  induction h generalizing i with
  | nil => exact .nil
  | cons hhead htail ih =>
    cases i with
    | zero => exact .cons hab htail
    | succ i => exact .cons hhead (ih i)

end

namespace LexerPool

/-- Each lexer of the pool is where the replay has it. -/
def Follows (p : LexerPool) (r : Replay) : Prop :=
  List.Forall₂ (fun l n => Lexer.StandsAt l r.stream n) p.lexers r.places

section
variable {p : LexerPool} {r : Replay}

theorem follows_start (text : String) (keepBlanks : Bool) :
    (start text keepBlanks).Follows (.start (Lexer.start text.toList keepBlanks).items) :=
  .cons (Lexer.standsAt_start text.toList keepBlanks) .nil

/-- A lexer answers what the replay says, and is where the replay puts it afterwards. -/
theorem Follows.answer {l : Lexer} {n : Nat} (h : p.Follows r) (hl : l.StandsAt r.stream n)
    (c : LexerCommand) :
    (p.answer l c).1 = (r.answer n c).1 ∧ (p.answer l c).2.Follows (r.answer n c).2 := by
  cases c with
  | next i => exact ⟨congrArg LexerAnswer.item hl.next_eq, forall₂_set h hl.next i⟩
  | rest i => exact ⟨congrArg LexerAnswer.items hl.items, forall₂_set h hl.exhaust i⟩
  | restart i => exact ⟨rfl, forall₂_set h hl.restart i⟩
  | clone i => exact ⟨congrArg LexerAnswer.joined h.length_eq, List.rel_append h (.cons hl .nil)⟩

theorem Follows.step (h : p.Follows r) (c : LexerCommand) :
    (p.step c).1 = (r.step c).1 ∧ (p.step c).2.Follows (r.step c).2 := by
  rcases getElem?_cases_of_forall₂ h c.number with ⟨hl, hn⟩ | ⟨l, n, hl, hn, hstands⟩
  · rw [LexerPool.step, Replay.step, hl, hn]
    exact ⟨rfl, h⟩
  · rw [LexerPool.step, Replay.step, hl, hn]
    exact h.answer hstands c

theorem Follows.run_eq (h : p.Follows r) (cs : List LexerCommand) : p.run cs = r.run cs := by
  induction cs generalizing p r with
  | nil => rfl
  | cons c cs ih =>
    obtain ⟨hanswer, hnext⟩ := h.step c
    rw [run_cons, Replay.run, hanswer, ih hnext]

end

end LexerPool

/-- The command is for lexer `i` and moves it. -/
def LexerCommand.moves (i : Nat) : LexerCommand → Bool
  | .next j | .rest j | .restart j => j == i
  | .clone _ => false

namespace LexerPool

/-- What lexer `i` answers in a run, in order, when it is asked for items or is restarted. -/
def answersOf (p : LexerPool) (i : Nat) (cs : List LexerCommand) : List LexerAnswer :=
  ((cs.zip (p.run cs)).filter fun q => q.1.moves i).map Prod.snd

section
variable {p p' : LexerPool} {i : Nat} {l : Lexer} {c : LexerCommand}

theorem answersOf_cons_of_moves (hc : c.moves i = true) (cs : List LexerCommand) :
    p.answersOf i (c :: cs) = (p.step c).1 :: (p.step c).2.answersOf i cs := by
  simp [answersOf, hc]

theorem answersOf_cons_of_not_moves (hc : c.moves i = false) (cs : List LexerCommand) :
    p.answersOf i (c :: cs) = (p.step c).2.answersOf i cs := by
  simp [answersOf, hc]

/-- What a lexer that is moved answers, and where it is afterwards, is a matter of that lexer. -/
theorem step_of_moves (hc : c.moves i = true) (hl : p.lexers[i]? = some l)
    (hl' : p'.lexers[i]? = some l) :
    (p.step c).1 = (p'.step c).1 ∧
      ∃ m, (p.step c).2.lexers[i]? = some m ∧ (p'.step c).2.lexers[i]? = some m := by
  have hlt := (List.getElem?_eq_some_iff.mp hl).1
  have hlt' := (List.getElem?_eq_some_iff.mp hl').1
  have hset (m : Lexer) : (p.lexers.set i m)[i]? = some m ∧ (p'.lexers.set i m)[i]? = some m :=
    ⟨List.getElem?_set_self hlt, List.getElem?_set_self hlt'⟩
  cases c with
  | next j | rest j | restart j =>
    obtain rfl : j = i := by simpa [LexerCommand.moves] using hc
    simp only [step, LexerCommand.number, hl, hl', answer, set]
    exact ⟨trivial, _, hset _⟩
  | clone j => cases hc

/-- A lexer that is not moved stays where it is, whatever is done with the others. -/
theorem step_of_not_moves (hc : c.moves i = false) (hl : p.lexers[i]? = some l) :
    (p.step c).2.lexers[i]? = some l := by
  unfold step
  split
  · exact hl
  · cases c with
    | next j | rest j | restart j =>
      have hji : j ≠ i := by simpa [LexerCommand.moves] using hc
      simp only [answer, set, List.getElem?_set_ne hji, hl]
    | clone j =>
      have hlt := (List.getElem?_eq_some_iff.mp hl).1
      simp only [answer, add, List.getElem?_append_left hlt, hl]

theorem answersOf_eq_run_filter (hl : p.lexers[i]? = some l) (hl' : p'.lexers[i]? = some l)
    (cs : List LexerCommand) : p.answersOf i cs = p'.run (cs.filter (·.moves i)) := by
  induction cs generalizing p p' l with
  | nil => rfl
  | cons c cs ih =>
    cases hc : c.moves i with
    | true =>
      obtain ⟨hanswer, m, hm, hm'⟩ := step_of_moves hc hl hl'
      rw [answersOf_cons_of_moves hc, List.filter_cons_of_pos hc, run_cons, hanswer, ih hm hm']
    | false =>
      have hm := step_of_not_moves hc hl
      rw [answersOf_cons_of_not_moves hc, List.filter_cons_of_neg (by simp [hc]), ih hm hl']

end

end LexerPool

/-- What one pass over a text yields: its tokens, or, where some character begins no token, those of
the text in front of it and then its error. -/
inductive Streams (text : String) (keepBlanks : Bool) : List LexItem → Prop where
  | whole {tokens : List Token} (h : tokenize text keepBlanks = .ok tokens) :
      Streams text keepBlanks (tokens.map .ok)
  | broken {e : LexError} {tokens : List Token} (h : tokenize text keepBlanks = .error e)
      (hfront : tokenize (String.ofList (text.toList.take e.position)) keepBlanks = .ok tokens) :
      Streams text keepBlanks (tokens.map .ok ++ [.error e])

theorem streams_items_start (text : String) (keepBlanks : Bool) :
    Streams text keepBlanks (Lexer.start text.toList keepBlanks).items := by
  obtain ⟨q, rest, tokens, hcut, hrest⟩ := exists_cut 0 text.toList
  have htokenize := tokenize_of_cut hcut hrest keepBlanks
  rw [items_start_of_cut hcut hrest]
  cases rest with
  | nil =>
    rw [List.head?_nil, Option.map_none, Option.toList_none, List.map_nil, List.append_nil]
    exact .whole htokenize
  | cons c rest =>
    obtain ⟨front, htext, hq, hfront⟩ := hcut.exists_append
    have htake : Cut q [] 0 (String.ofList (text.toList.take q)).toList tokens := by
      rw [String.toList_ofList, htext, hq, Nat.zero_add, List.take_left]
      rwa [hq, Nat.zero_add] at hfront
    exact .broken htokenize (tokenize_of_cut htake rfl keepBlanks)

/-- Lexers that are stepped, restarted and cloned in any order answer as places in one stream do,
which is what one pass over the text yields. And what one of them answers in the midst of others is
what it answers alone, without the commands to those. -/
theorem pool_replays_stream (text : String) (keepBlanks : Bool) :
    (∃ stream, Streams text keepBlanks stream ∧
      ∀ cs, (LexerPool.start text keepBlanks).run cs = (Replay.start stream).run cs) ∧
    ∀ (p : LexerPool) (i : Fin p.lexers.length) (cs : List LexerCommand),
      p.answersOf i cs = p.run (cs.filter (·.moves i)) := by
  constructor
  · refine ⟨_, streams_items_start text keepBlanks, fun cs => ?_⟩
    exact (LexerPool.follows_start text keepBlanks).run_eq cs
  · intro p i cs
    have hl : p.lexers[i.val]? = some p.lexers[i] := List.getElem?_eq_getElem i.isLt
    exact LexerPool.answersOf_eq_run_filter hl hl cs

end NamedLambda
