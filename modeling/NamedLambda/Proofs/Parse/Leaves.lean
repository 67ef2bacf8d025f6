import NamedLambda.Proofs.Parse.RoundTrip
import NamedLambda.Proofs.Token.Layout

/-!
Names and the texts of leaves. What is accepted as a name is cut into the one token of that name,
and so is read back as the leaf that it was printed from. The letter that spells the lambda is the
one name that is not: it is accepted for a constant, and is no token of one.
-/
namespace NamedLambda

/-- Characters are a token by themselves if their class has them and no other takes them. -/
theorem nextToken_self_iff {k : TokenClass} {w : List Char} (hk : k ≠ .blank) :
    NextToken w k w ↔ k.Spells w ∧ (k = .constantName → w ≠ ['L']) := by
  constructor
  · intro h
    refine ⟨h.spells, ?_⟩
    rintro rfl rfl
    -- the lambda has the letter as well, and takes it from the constants
    have hlambda : TokenClass.Spells .lambda ['L'] := TokenClass.spells_singleton rfl
    rcases h.unrivalled .lambda hlambda with hj | hj <;> cases hj
  · rintro ⟨hspells, hL⟩
    have hnext := (Word.mk k w hspells hk hL).nextToken endsWord_nil
    rwa [List.append_nil] at hnext

section
variable {text : String}

theorem tokenize_of_nextToken_self {k : TokenClass} (hk : k ≠ .blank)
    (h : NextToken text.toList k text.toList) (keepBlanks : Bool) :
    tokenize text keepBlanks = .ok [⟨k, k.stored text.toList, 0⟩] := by
  have hcut : Cut (0 + text.toList.length) [] 0 (text.toList ++ [])
      [⟨k, k.stored text.toList, 0⟩] := .cons (by rwa [List.append_nil]) .nil
  rw [List.append_nil] at hcut
  rw [tokenize_of_cut hcut rfl]
  cases keepBlanks with
  | true => rfl
  | false => simp [hk]

theorem nextToken_self_of_tokenize {tok : Token} (h : tokenize text true = .ok [tok]) :
    NextToken text.toList tok.cls text.toList := by
  obtain ⟨q, rest, tokens, hcut, hrest⟩ := exists_cut 0 text.toList
  rw [tokenize_of_cut hcut hrest] at h
  cases rest with
  | cons c rest => cases h
  | nil =>
    cases h
    -- the text is cut to its end by one token, which then is all of it
    generalize text.toList = cs at hcut
    cases hcut with
    | cons hnext hlater =>
      cases hlater
      rwa [List.append_nil] at hnext ⊢

/-- A token of another class than the lambda keeps its characters, so a text is the text of such a
token exactly if the class has it and the lambda does not take it. -/
theorem exists_token_iff {k : TokenClass} (hblank : k ≠ .blank) (hlambda : k ≠ .lambda) :
    (∃ tok, tokenize text true = .ok [tok] ∧ tok.cls = k ∧ tok.text = text) ↔
      k.Spells text.toList ∧ (k = .constantName → text ≠ "L") := by
  have hL : text ≠ "L" ↔ text.toList ≠ ['L'] := String.toList_inj.not.symm
  rw [hL, ← nextToken_self_iff hblank]
  constructor
  · rintro ⟨tok, htok, rfl, -⟩
    exact nextToken_self_of_tokenize htok
  · intro h
    have hstored : k.stored text.toList = text := by
      cases k with
      | lambda => exact absurd rfl hlambda
      | _ => exact String.ofList_toList
    exact ⟨_, tokenize_of_nextToken_self hblank h true, rfl, hstored⟩

theorem exists_variable_iff :
    (∃ x, Variable.ofText text = .ok x) ↔ TokenClass.Spells .variableName text.toList := by
  simp only [Variable.ofText_eq_ok_iff, exists_eq_left]
  rfl

theorem exists_constant_iff :
    (∃ c, Constant.ofText text = .ok c) ↔ TokenClass.Spells .constantName text.toList := by
  simp only [Constant.ofText_eq_ok_iff, exists_eq_left]
  rfl

theorem parse_leaf {t : Term} (ht : t.Printable) (hleaf : t.height = 1) (limit : Nat) :
    Term.parse limit t.render = if 1 ≤ limit then .ok t else .error (.tooDeep limit) := by
  rw [parse_render ht, Term.depth_eq_height, hleaf]

end

/-- A text is accepted as a name of a variable exactly if it is the one token of that name, and as a
name of a constant exactly if it is one or is the letter `L`. All names but this one are read back
as the leaves that they are printed from. -/
theorem names_are_tokens (text : String) :
    ((∃ x, Variable.ofText text = .ok x) ↔
      ∃ tok, tokenize text true = .ok [tok] ∧ tok.cls = .variableName ∧ tok.text = text) ∧
    ((∃ c, Constant.ofText text = .ok c) ↔
      text = "L" ∨
        ∃ tok, tokenize text true = .ok [tok] ∧ tok.cls = .constantName ∧ tok.text = text) ∧
    (∀ x limit, Variable.ofText text = .ok x →
      Term.parse limit (Term.var x).render =
        if 1 ≤ limit then .ok (.var x) else .error (.tooDeep limit)) ∧
    (∀ c limit, Constant.ofText text = .ok c → text ≠ "L" →
      Term.parse limit (Term.const c).render =
        if 1 ≤ limit then .ok (.const c) else .error (.tooDeep limit)) := by
  refine ⟨?_, ?_, ?_, ?_⟩
  · rw [exists_variable_iff, exists_token_iff (k := .variableName) nofun nofun]
    exact ⟨fun h => ⟨h, nofun⟩, And.left⟩
  · rw [exists_constant_iff, exists_token_iff (k := .constantName) nofun nofun]
    constructor
    · intro h
      by_cases hL : text = "L"
      · exact .inl hL
      · exact .inr ⟨h, fun _ => hL⟩
    · rintro (rfl | ⟨h, -⟩)
      · exact TokenClass.spells_singleton rfl
      · exact h
  · intro x limit hx
    exact parse_leaf (t := .var x) (Variable.ofText_eq_ok_iff.mp hx).2 rfl limit
  · intro c limit hc hL
    obtain ⟨rfl, hvalid⟩ := Constant.ofText_eq_ok_iff.mp hc
    exact parse_leaf (t := .const ⟨text⟩) ⟨hvalid, hL⟩ rfl limit

/-- A constant may begin with the letter of the lambda, and even with its longest spelling in
capitals. -/
theorem names_are_tokens_LAMBDA :
    Constant.ofText "LAMBDA" = .ok ⟨"LAMBDA"⟩ ∧ "LAMBDA" ≠ "L" ∧
      (∃ tok, tokenize "LAMBDA" true = .ok [tok] ∧ tok.cls = .constantName ∧
        tok.text = "LAMBDA") ∧
      Term.parse 1 (Term.const ⟨"LAMBDA"⟩).render = .ok (.const ⟨"LAMBDA"⟩) := by
  have hname : Constant.ofText "LAMBDA" = .ok ⟨"LAMBDA"⟩ := by decide
  have hL : "LAMBDA" ≠ "L" := by decide
  obtain ⟨-, htoken, -, hread⟩ := names_are_tokens "LAMBDA"
  exact ⟨hname, hL, (htoken.mp ⟨_, hname⟩).resolve_left hL, hread _ 1 hname hL⟩

/-- The letter `L` is accepted as the name of a constant. As a text it is the lambda, and is refused
where the constant was printed. -/
theorem constant_L_is_no_token :
    Constant.ofText "L" = .ok ⟨"L"⟩ ∧ tokenize "L" true = .ok [⟨.lambda, "λ", 0⟩] ∧
      ¬ ((∃ c, Constant.ofText "L" = .ok c) ↔
        ∃ tok, tokenize "L" true = .ok [tok] ∧ tok.cls = .constantName ∧ tok.text = "L") ∧
      Term.parse 1 (Term.const ⟨"L"⟩).render = .error (.unexpectedToken "λ" 0) := by
  have hname : Constant.ofText "L" = .ok ⟨"L"⟩ := by decide
  have hspells : TokenClass.Spells .lambda "L".toList := TokenClass.spells_singleton rfl
  have hnext : NextToken "L".toList .lambda "L".toList :=
    (nextToken_self_iff (k := .lambda) nofun).mpr ⟨hspells, nofun⟩
  have htokens := tokenize_of_nextToken_self (k := .lambda) nofun hnext
  refine ⟨hname, htokens true, ?_, ?_⟩
  · intro h
    obtain ⟨tok, htok, hcls, -⟩ := h.mp ⟨_, hname⟩
    rw [htokens true] at htok
    cases htok
    cases hcls
  · have hitems : (Lexer.start "L".toList false).items =
        [(⟨.lambda, "λ", 0⟩ : Token)].map .ok ++ (none : Option LexError).toList.map .error :=
      tokenize_eq_ok_iff.mp (htokens false)
    exact parse_of_items (Nat.le_refl 1) hitems

end NamedLambda
