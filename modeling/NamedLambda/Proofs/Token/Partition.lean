import Mathlib.Data.List.Forall2
import NamedLambda.Proofs.Token.Items

/-!
The tokens of a text are a partition of it. The text is cut where one token ends and the next one
begins, and each token is the longest that begins there; a text that cannot be cut to its end is cut
up to the character with which no token begins. Leaving out the blanks leaves the cuts as they are.
-/
namespace NamedLambda

namespace TokenClass
variable {j k : TokenClass}

theorem reach_le_length (k : TokenClass) (cs : List Char) : k.reach cs ≤ cs.length := by
  cases k with
  | blank | constantName => exact (List.takeWhile_prefix _).length_le
  | openParen | closeParen | dot =>
    cases cs with
    | nil => exact Nat.le_refl 0
    | cons c cs =>
      rw [reach, reachOfChar, List.length_cons]
      split <;> omega
  | lambda =>
    rw [reach, reachOfSpelling]
    cases hfind : lambdaSpellings.find? (·.isPrefixOf cs) with
    | none => exact Nat.zero_le _
    | some w =>
      have hw := List.find?_some hfind
      exact (List.isPrefixOf_iff_prefix.mp hw).length_le
  | variableName =>
    cases cs with
    | nil => exact Nat.le_refl 0
    | cons c cs =>
      have htail : (cs.takeWhile isNameTail).length ≤ cs.length :=
        (List.takeWhile_prefix _).length_le
      rw [reach, reachOfVariable, List.length_cons]
      split <;> omega

theorem begins_of_spells {c : Char} {w : List Char} (h : k.Spells (c :: w)) : k.begins c = true :=
  begins_of_reach_pos (Nat.lt_of_lt_of_le (Nat.succ_pos _) (length_le_reach h []))

theorem eq_lambda_or_constantName (h : k.begins 'L' = true) : k = .lambda ∨ k = .constantName := by
  cases k with
  | lambda => exact .inl rfl
  | constantName => exact .inr rfl
  | _ => exact absurd h (by decide)

theorem eq_L_of_spells {w : List Char} (hlambda : Spells .lambda w)
    (hconstant : Spells .constantName w) : w = ['L'] := by
  simp only [Spells, lambdaSpellings, List.mem_cons, List.not_mem_nil, or_false] at hlambda
  rcases hlambda with rfl | rfl | rfl
  · exact absurd hconstant (by simp [Spells, isConstantName])
  · rfl
  · exact absurd hconstant (by simp [Spells, isConstantName, lambdaSign])

/-- Only the letter of the lambda is a token of two classes. -/
theorem eq_of_spells {w : List Char} (hj : j.Spells w) (hk : k.Spells w) (hw : w ≠ ['L']) :
    j = k := by
  obtain ⟨c, cs, rfl⟩ := List.exists_cons_of_ne_nil (ne_nil_of_spells hk)
  have hjc := begins_of_spells hj
  have hkc := begins_of_spells hk
  by_cases hc : c = 'L'
  · subst hc
    rcases eq_lambda_or_constantName hjc with rfl | rfl <;>
      rcases eq_lambda_or_constantName hkc with rfl | rfl
    · rfl
    · exact absurd (eq_L_of_spells hj hk) hw
    · exact absurd (eq_L_of_spells hk hj) hw
    · rfl
  · exact eq_of_begins hc hjc hkc

end TokenClass

/-- The characters are the next token of a text: it begins with them and with no longer token, and
nothing but the lambda takes them from another class that they belong to. -/
structure NextToken (cs : List Char) (k : TokenClass) (w : List Char) : Prop where
  spells : k.Spells w
  front : w <+: cs
  longest : ∀ (j : TokenClass) v, j.Spells v → v <+: cs → v.length ≤ w.length
  unrivalled : ∀ j : TokenClass, j.Spells w → j = k ∨ k = .lambda

section
variable {cs w : List Char} {k : TokenClass} {n : Nat}

theorem reach_le_of_munch (h : munch cs = some (k, n)) (j : TokenClass) : j.reach cs ≤ n := by
  obtain ⟨hk, front, back, hall, hfront, hback⟩ := TokenClass.exists_append_of_furthest h
  have hj := hall ▸ j.mem_all
  rcases List.mem_append.mp hj with hj | hj
  · exact Nat.le_of_lt (hfront j hj)
  · rcases List.mem_cons.mp hj with rfl | hj
    · exact Nat.le_of_eq hk
    · exact hback j hj

theorem length_take_of_munch (h : munch cs = some (k, n)) : (cs.take n).length = n := by
  obtain ⟨rfl, -⟩ := TokenClass.exists_append_of_furthest h
  exact List.length_take_of_le (k.reach_le_length cs)

/-- Maximal munch takes the next token. -/
theorem nextToken_of_munch (h : munch cs = some (k, n)) : NextToken cs k (cs.take n) where
  spells := spells_of_munch h
  front := List.take_prefix n cs
  longest j v hv hfront := by
    obtain ⟨rest, rfl⟩ := hfront
    rw [length_take_of_munch h]
    exact Nat.le_trans (TokenClass.length_le_reach hv rest) (reach_le_of_munch h j)
  unrivalled j hj := by
    by_cases hL : cs.take n = ['L']
    · right
      have hspells := spells_of_munch h
      rw [hL] at hspells
      have hbegins := TokenClass.begins_of_spells hspells
      rcases TokenClass.eq_lambda_or_constantName hbegins with rfl | rfl
      · rfl
      · exact absurd hL (take_ne_of_munch_constantName h)
    · exact .inl (TokenClass.eq_of_spells hj (spells_of_munch h) hL)

theorem NextToken.unique {j : TokenClass} {v : List Char} (h : NextToken cs k w)
    (h' : NextToken cs j v) : j = k ∧ v = w := by
  have hlength : v.length = w.length :=
    Nat.le_antisymm (h.longest j v h'.spells h'.front) (h'.longest k w h.spells h.front)
  have hvw : v = w := by
    rw [List.prefix_iff_eq_take.mp h'.front, hlength, ← List.prefix_iff_eq_take.mp h.front]
  subst hvw
  refine ⟨?_, rfl⟩
  rcases h.unrivalled j h'.spells with hjk | hk
  · exact hjk
  · rcases h'.unrivalled k h.spells with hkj | hj
    · exact hkj.symm
    · rw [hj, hk]

theorem munch_eq_none_iff : munch cs = none ↔ ∀ k w, TokenClass.Spells k w → ¬ w <+: cs := by
  rw [munch, TokenClass.furthest_eq_none_iff]
  constructor
  · rintro h k w hw ⟨rest, rfl⟩
    have hlength := TokenClass.length_le_reach hw rest
    rw [h k k.mem_all] at hlength
    exact TokenClass.ne_nil_of_spells hw (List.length_eq_zero_iff.mp (Nat.le_zero.mp hlength))
  · intro h k _
    by_contra hreach
    exact h k _ (TokenClass.spells_take_reach (Nat.pos_of_ne_zero hreach)) (List.take_prefix _ cs)

theorem munch_of_nextToken (h : NextToken cs k w) : munch cs = some (k, w.length) := by
  cases hmunch : munch cs with
  | none => exact absurd h.front (munch_eq_none_iff.mp hmunch k w h.spells)
  | some found =>
    obtain ⟨j, n⟩ := found
    obtain ⟨rfl, hw⟩ := h.unique (nextToken_of_munch hmunch)
    rw [← hw, length_take_of_munch hmunch]

theorem exists_append_of_munch (h : munch cs = some (k, n)) :
    ∃ w later, cs = w ++ later ∧ NextToken (w ++ later) k w := by
  have hnext := nextToken_of_munch h
  refine ⟨cs.take n, cs.drop n, (List.take_append_drop n cs).symm, ?_⟩
  rwa [List.take_append_drop]

/-- What stands further on than the next token has no part in it. -/
theorem NextToken.of_append {front rest : List Char} (h : NextToken (front ++ rest) k w)
    (hw : w <+: front) : NextToken front k w where
  spells := h.spells
  front := hw
  longest j v hv hfront := h.longest j v hv (hfront.trans (List.prefix_append front rest))
  unrivalled := h.unrivalled

end

/-- How a text whose first character stands at a position is cut into tokens, up to the text `rest`
at the position `q`. -/
inductive Cut (q : Nat) (rest : List Char) : Nat → List Char → List Token → Prop where
  | nil : Cut q rest q rest []
  | cons {p : Nat} {k : TokenClass} {w later : List Char} {tokens : List Token}
      (hnext : NextToken (w ++ later) k w) (hlater : Cut q rest (p + w.length) later tokens) :
      Cut q rest p (w ++ later) (⟨k, k.stored w, p⟩ :: tokens)

section
variable {p q : Nat} {cs rest : List Char} {tokens : List Token}

/-- Every text is cut as far as tokens begin. -/
theorem exists_cut (p : Nat) (cs : List Char) :
    ∃ q rest tokens, Cut q rest p cs tokens ∧ munch rest = none := by
  cases hmunch : munch cs with
  | none => exact ⟨p, cs, [], .nil, hmunch⟩
  | some found =>
    obtain ⟨k, n⟩ := found
    obtain ⟨w, later, hcs, hnext⟩ := exists_append_of_munch hmunch
    have hshorter : later.length < cs.length := by
      have hpos := List.length_pos_iff.mpr (TokenClass.ne_nil_of_spells hnext.spells)
      rw [hcs, List.length_append]
      omega
    obtain ⟨q, rest, tokens, hcut, hrest⟩ := exists_cut (p + w.length) later
    rw [hcs]
    exact ⟨q, rest, _, .cons hnext hcut, hrest⟩
termination_by cs.length

/-- The part of a text that is cut is cut in the same way by itself. -/
theorem Cut.exists_append (h : Cut q rest p cs tokens) :
    ∃ front, cs = front ++ rest ∧ q = p + front.length ∧ Cut q [] p front tokens := by
  induction h with
  | nil => exact ⟨[], rfl, rfl, .nil⟩
  | @cons p k w later tokens hnext hlater ih =>
    obtain ⟨front, rfl, hq, hfront⟩ := ih
    refine ⟨w ++ front, (List.append_assoc ..).symm, ?_, .cons ?_ hfront⟩
    · rw [hq, List.length_append, Nat.add_assoc]
    · rw [← List.append_assoc] at hnext
      exact hnext.of_append (List.prefix_append w front)

theorem Cut.position_eq {tok : Token} (h : Cut q rest p cs (tok :: tokens)) : tok.position = p := by
  cases h
  rfl

end

namespace Lexer

/-- A lexer on its way that yields the blanks as well, with this text left. -/
def keeping (source rest : List Char) (position : Nat) : Lexer :=
  ⟨source, true, rest, position, false⟩

section
variable (source : List Char) {p q : Nat} {cs rest : List Char} {tokens : List Token}

theorem items_keeping_append {k : TokenClass} {w : List Char} (p : Nat)
    (h : munch (w ++ rest) = some (k, w.length)) :
    (keeping source (w ++ rest) p).items =
      .ok ⟨k, k.stored w, p⟩ :: (keeping source rest (p + w.length)).items := by
  apply items_of_next_some
  have hnext : (keeping source (w ++ rest) p).next = (keeping source (w ++ rest) p).take := rfl
  rw [hnext, take_of_munch h]
  simp only [keeping, advance, List.take_left, List.drop_left]

theorem items_facing_blank {w : List Char} (p : Nat) (hw : ∀ c ∈ w, isSeparator c = true)
    (rest : List Char) :
    (facing source (w ++ rest) p).items = (facing source rest (p + w.length)).items := by
  induction w generalizing p with
  | nil => rfl
  | cons c w ih =>
    obtain ⟨hc, hw⟩ := List.forall_mem_cons.mp hw
    rw [List.cons_append, items_facing_separator source p hc, ih (p + 1) hw, List.length_cons,
      Nat.add_assoc, Nat.add_comm 1]

/-- A lexer yields the tokens that the text is cut into. -/
theorem items_keeping_of_cut (h : Cut q rest p cs tokens) :
    (keeping source cs p).items = tokens.map .ok ++ (keeping source rest q).items := by
  induction h with
  | nil => rfl
  | cons hnext hlater ih =>
    rw [items_keeping_append source _ (munch_of_nextToken hnext), ih]
    rfl

theorem items_facing_of_cut (h : Cut q rest p cs tokens) :
    (facing source cs p).items =
      (tokens.filter (·.cls ≠ .blank)).map .ok ++ (facing source rest q).items := by
  induction h with
  | nil => rfl
  | @cons p k w later tokens hnext hlater ih =>
    by_cases hk : k = .blank
    · subst hk
      rw [items_facing_blank source p hnext.spells.2, ih]
      rfl
    · rw [items_facing_append source p (munch_of_nextToken hnext) hk, ih,
        List.filter_cons_of_pos (by simpa using hk)]
      rfl

end

/-- The error of the character at hand. -/
def stuck (l : Lexer) : Option LexError :=
  l.rest.head?.map fun c => ⟨c, l.position⟩

/-- A lexer that stands where no token begins yields the error of the character there, or has come
to the end of the text. -/
theorem items_of_stuck {l : Lexer} (hfailed : l.failed = false) (h : munch l.rest = none) :
    l.items = l.stuck.toList.map .error := by
  have hblank : TokenClass.reach .blank l.rest = 0 :=
    TokenClass.furthest_eq_none_iff.mp h _ TokenClass.blank.mem_all
  have hskip : l.skip = l := by
    rw [skip, hblank]
    split <;> rfl
  have hnext : l.next = l.take := by
    rw [next, hskip, hfailed]
    rfl
  cases hrest : l.rest with
  | nil =>
    have htake : l.take = (none, l) := by
      unfold take
      rw [hrest]
    rw [items_of_next_none (hnext.trans htake), stuck, hrest]
    rfl
  | cons c cs =>
    have htake : l.take = (some (.error ⟨c, l.position⟩), { l with failed := true }) := by
      unfold take
      rw [hrest] at h ⊢
      simp only [h]
    rw [items_of_next_some (hnext.trans htake), items_of_failed rfl, stuck, hrest]
    rfl

end Lexer

theorem collect_append (tokens : List Token) (failure : Option LexError) :
    collect (tokens.map .ok ++ failure.toList.map .error) =
      match failure with
      | none => .ok tokens
      | some e => .error e := by
  cases failure with
  | none => simpa using collect_map_ok tokens
  | some e => exact collect_append_error tokens e

section
variable {text : String} {q : Nat} {rest : List Char} {tokens : List Token}

/-- What is yielded where a text is cut as far as tokens begin. -/
theorem items_start_of_cut (h : Cut q rest 0 text.toList tokens) (hrest : munch rest = none)
    (keepBlanks : Bool) :
    (Lexer.start text.toList keepBlanks).items =
      (if keepBlanks then tokens else tokens.filter (·.cls ≠ .blank)).map .ok ++
        (rest.head?.map fun c => LexError.mk c q).toList.map .error := by
  cases keepBlanks with
  | true =>
    have hkeeping := Lexer.items_keeping_of_cut text.toList h
    rw [Lexer.items_of_stuck (l := Lexer.keeping text.toList rest q) rfl hrest] at hkeeping
    exact hkeeping
  | false =>
    have hfacing := Lexer.items_facing_of_cut text.toList h
    rw [Lexer.items_of_stuck (l := Lexer.facing text.toList rest q) rfl hrest] at hfacing
    exact hfacing

/-- Both ways of cutting a text into tokens come to its end, or to the same failure. -/
theorem tokenize_of_cut (h : Cut q rest 0 text.toList tokens) (hrest : munch rest = none)
    (keepBlanks : Bool) :
    tokenize text keepBlanks =
      match rest with
      | [] => .ok (if keepBlanks then tokens else tokens.filter (·.cls ≠ .blank))
      | c :: _ => .error ⟨c, q⟩ := by
  rw [tokenize, items_start_of_cut h hrest, collect_append]
  cases rest <;> rfl

end

/-- The characters of each token: those from its position up to that of the next one, or up to the
end of the text. -/
def spans (cs : List Char) : List Token → List (List Char)
  | [] => []
  | [tok] => [cs.drop tok.position]
  | tok :: next :: tokens =>
    (cs.take next.position).drop tok.position :: spans cs (next :: tokens)

/-- The token is taken from these characters, which are the next token where it stands. They are its
text as well, but for the lambda, which is always written as its sign. -/
structure Token.TakenFrom (cs : List Char) (tok : Token) (span : List Char) : Prop where
  ne_nil : span ≠ []
  next : NextToken (cs.drop tok.position) tok.cls span
  text_eq : tok.text = if tok.cls = .lambda then "λ" else String.ofList span

theorem NextToken.takenFrom {w later : List Char} {k : TokenClass} (h : NextToken (w ++ later) k w)
    (before : List Char) :
    Token.TakenFrom (before ++ (w ++ later)) ⟨k, k.stored w, before.length⟩ w where
  ne_nil := TokenClass.ne_nil_of_spells h.spells
  next := by rwa [List.drop_left]
  text_eq := by cases k <;> rfl

/-- Where a text is cut to its end, the spans of the tokens are what it is cut into. -/
theorem Cut.spans_eq {p q : Nat} {cs : List Char} {tokens : List Token} (h : Cut q [] p cs tokens)
    (before : List Char) (hp : p = before.length) :
    (spans (before ++ cs) tokens).flatten = cs ∧
      List.Forall₂ (Token.TakenFrom (before ++ cs)) tokens (spans (before ++ cs) tokens) := by
  induction h generalizing before with
  | nil => exact ⟨rfl, .nil⟩
  | @cons p k w later tokens hnext hlater ih =>
    subst hp
    have htaken := hnext.takenFrom before
    have hlength : before.length + w.length = (before ++ w).length := List.length_append.symm
    obtain ⟨hflatten, hall⟩ := ih (before ++ w) hlength
    rw [List.append_assoc] at hflatten hall
    cases tokens with
    | nil =>
      have hspan : spans (before ++ (w ++ later)) [⟨k, k.stored w, before.length⟩] = [w] := by
        cases hlater
        rw [spans, List.drop_left, List.append_nil]
      rw [hspan]
      refine ⟨?_, .cons htaken .nil⟩
      cases hlater
      rfl
    | cons next tokens =>
      have hspan : spans (before ++ (w ++ later))
          (⟨k, k.stored w, before.length⟩ :: next :: tokens) =
            w :: spans (before ++ (w ++ later)) (next :: tokens) := by
        rw [spans, hlater.position_eq, hlength, ← List.append_assoc, List.take_left,
          List.drop_left]
      rw [hspan]
      exact ⟨by rw [List.flatten_cons, hflatten], .cons htaken hall⟩

/-- A text that is cut to its end is parted into the spans of the tokens, each the longest token
that begins there. A text that is not is cut as far as the first character with which no token
begins. Without its blanks a text has the same tokens in the same places, less the blanks. -/
theorem tokenize_munches (text : String) :
    (∀ tokens, tokenize text true = .ok tokens →
      (spans text.toList tokens).flatten = text.toList ∧
        List.Forall₂ (Token.TakenFrom text.toList) tokens (spans text.toList tokens)) ∧
    (∀ e, tokenize text true = .error e →
      text.toList[e.position]? = some e.character ∧
        (∃ tokens, tokenize (String.ofList (text.toList.take e.position)) true = .ok tokens) ∧
        ∀ k w, TokenClass.Spells k w → ¬ w <+: text.toList.drop e.position) ∧
    tokenize text false =
      (tokenize text true).map fun tokens => tokens.filter (·.cls ≠ .blank) := by
  obtain ⟨q, rest, tokens, hcut, hrest⟩ := exists_cut 0 text.toList
  rw [tokenize_of_cut hcut hrest true, tokenize_of_cut hcut hrest false]
  cases rest with
  | nil =>
    refine ⟨?_, nofun, rfl⟩
    intro found hfound
    cases hfound
    exact hcut.spans_eq [] rfl
  | cons c rest =>
    refine ⟨nofun, ?_, rfl⟩
    intro e he
    cases he
    obtain ⟨front, htext, hq, hfront⟩ := hcut.exists_append
    rw [Nat.zero_add] at hq
    subst hq
    rw [htext, List.take_left, List.drop_left]
    refine ⟨?_, ⟨tokens, ?_⟩, munch_eq_none_iff.mp hrest⟩
    · rw [List.getElem?_append_right (Nat.le_refl _), Nat.sub_self]
      rfl
    · have htake : Cut front.length [] 0 (String.ofList front).toList tokens := by
        rwa [String.toList_ofList]
      exact tokenize_of_cut htake rfl true

end NamedLambda
