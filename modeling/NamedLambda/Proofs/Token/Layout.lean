import NamedLambda.Proofs.Token.Partition

/-!
Texts that are laid out as words with blanks between them. No token but a blank has a separator in
it, so the blanks end every token that begins with a word, and the word itself is the longest.
-/
namespace NamedLambda

namespace TokenClass
variable {k : TokenClass} {c : Char} {w : List Char}

/-- A character with a property that no separator has is not one. -/
theorem isSeparator_eq_false {p : Char → Bool} (hp : [' ', '\t', '\r', '\n'].all (!p ·) = true)
    (hc : p c = true) : isSeparator c = false := by
  by_contra hsep
  have hmem : c ∈ [' ', '\t', '\r', '\n'] := by
    rw [Bool.not_eq_false] at hsep
    simpa [isSeparator, or_assoc] using hsep
  have hfalse := List.all_eq_true.mp hp c hmem
  rw [hc] at hfalse
  cases hfalse

/-- Blanks are made of separators, and nothing else has one. -/
theorem isSeparator_eq_false_of_spells (h : k.Spells w) (hk : k ≠ .blank) (hc : c ∈ w) :
    isSeparator c = false := by
  cases k with
  | blank => exact absurd rfl hk
  | openParen | closeParen | dot =>
    rw [h, List.mem_singleton] at hc
    subst hc
    rfl
  | lambda =>
    have hall : (lambdaSpellings.all fun v => v.all (!isSeparator ·)) = true := by decide
    simp only [List.all_eq_true, Bool.not_eq_true'] at hall
    exact hall w h c hc
  | constantName =>
    simp only [Spells, isConstantName, Bool.and_eq_true, List.all_eq_true] at h
    exact isSeparator_eq_false (by decide) (h.2 c hc)
  | variableName =>
    cases w with
    | nil => cases h
    | cons d w =>
      simp only [Spells, isVariableName, Bool.and_eq_true, List.all_eq_true] at h
      rcases List.mem_cons.mp hc with rfl | hc
      · exact isSeparator_eq_false (by decide) h.1
      · exact isSeparator_eq_false (by decide) (h.2 c hc)

end TokenClass

/-- A token as it may be written: any text of its class. Blanks are no words, and the letter that
spells the lambda is a word for the lambda only. -/
structure Word where
  cls : TokenClass
  chars : List Char
  spells : cls.Spells chars
  ne_blank : cls ≠ .blank
  ne_L : cls = .constantName → chars ≠ ['L']

/-- The text begins with a separator, or is empty. -/
def EndsWord (rest : List Char) : Prop :=
  ∀ c ∈ rest.head?, isSeparator c = true

theorem endsWord_nil : EndsWord [] := nofun

namespace Word
variable (w : Word) {rest : List Char}

/-- No token at the front of the text goes on after the word. -/
theorem length_le_of_prefix (hrest : EndsWord rest) {j : TokenClass} {v : List Char}
    (hv : j.Spells v) (hfront : v <+: w.chars ++ rest) : v.length ≤ w.chars.length := by
  by_contra hlonger
  have hw : w.chars <+: v :=
    List.prefix_of_prefix_length_le (List.prefix_append w.chars rest) hfront (by omega)
  obtain ⟨more, rfl⟩ := hw
  obtain ⟨c, cs, rfl⟩ : ∃ c cs, more = c :: cs := by
    apply List.exists_cons_of_ne_nil
    rintro rfl
    simp at hlonger
  have hc : isSeparator c = true := by
    obtain ⟨d, rfl⟩ := (List.prefix_append_right_inj w.chars).mp hfront
    exact hrest c rfl
  by_cases hj : j = .blank
  · -- the word itself would begin with a separator
    obtain ⟨d, ds, hd⟩ := List.exists_cons_of_ne_nil (TokenClass.ne_nil_of_spells w.spells)
    have hmem : d ∈ w.chars := hd ▸ List.mem_cons_self
    have hsep : isSeparator d = true := by
      rw [hj] at hv
      exact hv.2 d (List.mem_append_left _ hmem)
    rw [TokenClass.isSeparator_eq_false_of_spells w.spells w.ne_blank hmem] at hsep
    cases hsep
  · have hmem : c ∈ w.chars ++ c :: cs := List.mem_append_right _ List.mem_cons_self
    rw [TokenClass.isSeparator_eq_false_of_spells hv hj hmem] at hc
    cases hc

/-- A word that ends is the next token. -/
theorem nextToken (hrest : EndsWord rest) : NextToken (w.chars ++ rest) w.cls w.chars where
  spells := w.spells
  front := List.prefix_append w.chars rest
  longest j v hv hfront := w.length_le_of_prefix hrest hv hfront
  unrivalled j hj := by
    by_cases hL : w.chars = ['L']
    · right
      have hspells := w.spells
      rw [hL] at hspells
      have hbegins := TokenClass.begins_of_spells hspells
      exact (TokenClass.eq_lambda_or_constantName hbegins).resolve_right fun h => w.ne_L h hL
    · exact .inl (TokenClass.eq_of_spells hj w.spells hL)

/-- The token that the word is written for, all spellings of the lambda for one. -/
def tokenAt (position : Nat) : Token :=
  ⟨w.cls, if w.cls = .lambda then "λ" else String.ofList w.chars, position⟩

theorem stored_eq (position : Nat) :
    ⟨w.cls, w.cls.stored w.chars, position⟩ = w.tokenAt position := by
  unfold tokenAt
  cases w.cls <;> rfl

end Word

/-- Separators, or nothing. -/
abbrev Blanks := { cs : List Char // ∀ c ∈ cs, isSeparator c = true }

/-- Words, each with the blanks that come after it. -/
abbrev WordRow := List (Word × Blanks)

namespace WordRow

def chars (row : WordRow) : List Char :=
  row.flatMap fun p => p.1.chars ++ p.2.val

/-- No two words stand side by side. -/
def Parted (row : WordRow) : Prop :=
  ∀ gap ∈ (row.map Prod.snd).dropLast, gap.val ≠ []

/-- The tokens of a row that stands behind these characters. The position of each is the number of
all the characters in front of its word. -/
def tokensAfter (before : List Char) (row : WordRow) : List Token :=
  row.mapIdx fun i p => p.1.tokenAt (before ++ chars (row.take i)).length

variable {w : Word} {gap : Blanks} {row : WordRow}

theorem chars_cons (w : Word) (gap : Blanks) (row : WordRow) :
    chars ((w, gap) :: row) = w.chars ++ (gap.val ++ chars row) := by
  simp [chars]

theorem tokensAfter_cons (before : List Char) (w : Word) (gap : Blanks) (row : WordRow) :
    tokensAfter before ((w, gap) :: row) =
      w.tokenAt before.length :: tokensAfter (before ++ w.chars ++ gap.val) row := by
  simp [tokensAfter, chars, Nat.add_assoc]

theorem parted_cons (h : Parted ((w, gap) :: row)) : (row ≠ [] → gap.val ≠ []) ∧ Parted row := by
  cases row with
  | nil => exact ⟨fun hne => absurd rfl hne, nofun⟩
  | cons p row =>
    obtain ⟨hgap, hrow⟩ := List.forall_mem_cons.mp h
    exact ⟨fun _ => hgap, hrow⟩

/-- There is a separator after a word, or nothing at all. -/
theorem Parted.endsWord (h : Parted ((w, gap) :: row)) : EndsWord (gap.val ++ chars row) := by
  obtain ⟨cs, hcs⟩ := gap
  cases cs with
  | nil =>
    have hrow : row = [] := by
      by_contra hne
      exact (parted_cons h).1 hne rfl
    rw [hrow]
    exact endsWord_nil
  | cons c cs =>
    rintro d ⟨⟩
    exact hcs c List.mem_cons_self

/-- Each word is yielded as its token, and the blanks are passed over. -/
theorem items_eq (source : List Char) (h : Parted row) (before : List Char) :
    (Lexer.facing source (chars row) before.length).items = (tokensAfter before row).map .ok := by
  induction row generalizing before with
  | nil => exact Lexer.items_facing_nil source before.length
  | cons p row ih =>
    obtain ⟨w, gap⟩ := p
    have hmunch := munch_of_nextToken (w.nextToken h.endsWord)
    have hnext := ih (parted_cons h).2 (before ++ w.chars ++ gap.val)
    rw [List.length_append, List.length_append] at hnext
    rw [chars_cons, Lexer.items_facing_append source _ hmunch w.ne_blank, w.stored_eq,
      Lexer.items_facing_blank source _ gap.property, hnext, tokensAfter_cons, List.map_cons]

end WordRow

/-- A row of words with blanks on either side of each, of which there are some between two words. -/
structure Layout where
  lead : Blanks
  row : WordRow
  parted : row.Parted

namespace Layout

def chars (layout : Layout) : List Char :=
  layout.lead.val ++ layout.row.chars

def tokens (layout : Layout) : List Token :=
  layout.row.tokensAfter layout.lead.val

/-- However words are spelled and spaced, they are read back as their tokens, each where its word
stands. -/
theorem tokenize_undoes_layout (layout : Layout) :
    tokenize (String.ofList layout.chars) false = .ok layout.tokens := by
  obtain ⟨lead, row, hparted⟩ := layout
  have hlead := Lexer.items_facing_blank (lead.val ++ row.chars) 0 lead.property row.chars
  rw [Nat.zero_add, WordRow.items_eq _ hparted] at hlead
  rw [tokenize, String.toList_ofList]
  exact (congrArg collect hlead).trans (collect_map_ok _)

/-- All spellings of the lambda, and names that begin with the letter of one. -/
theorem tokenize_undoes_layout_spellings :
    tokenize "λ Lambda L\tLX\r\nl_1 " false =
      .ok [⟨.lambda, "λ", 0⟩, ⟨.lambda, "λ", 2⟩, ⟨.lambda, "λ", 9⟩, ⟨.constantName, "LX", 11⟩,
        ⟨.variableName, "l_1", 15⟩] := by
  have hsign : TokenClass.Spells .lambda ['λ'] := TokenClass.spells_singleton rfl
  have hlong : TokenClass.Spells .lambda "Lambda".toList := List.mem_cons_self
  have hshort : TokenClass.Spells .lambda ['L'] := TokenClass.spells_singleton rfl
  have hspace : ∀ c ∈ [' '], isSeparator c = true := List.all_eq_true.mp rfl
  have hparted : WordRow.Parted
      [(⟨.lambda, _, hsign, nofun, nofun⟩, ⟨[' '], hspace⟩),
        (⟨.lambda, _, hlong, nofun, nofun⟩, ⟨[' '], hspace⟩),
        (⟨.lambda, _, hshort, nofun, nofun⟩, ⟨['\t'], List.all_eq_true.mp rfl⟩),
        (⟨.constantName, ['L', 'X'], rfl, nofun, by simp⟩,
          ⟨['\r', '\n'], List.all_eq_true.mp rfl⟩),
        (⟨.variableName, "l_1".toList, rfl, nofun, nofun⟩, ⟨[' '], hspace⟩)] := by
    simp [WordRow.Parted]
  exact tokenize_undoes_layout ⟨⟨[], nofun⟩, _, hparted⟩

end Layout

end NamedLambda
