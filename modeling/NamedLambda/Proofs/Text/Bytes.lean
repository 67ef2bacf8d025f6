import Mathlib.Data.String.Basic

/-!
Texts compared byte by byte. What comes first among texts by the numbers of their characters comes
first by the bytes that they are encoded in as well.
-/
namespace NamedLambda.Text

/-- The bytes that a text is encoded in. -/
def bytes (text : String) : List UInt8 :=
  text.toUTF8.data.toList

theorem bytes_eq_flatMap (text : String) :
    bytes text = text.toList.flatMap String.utf8EncodeChar := by
  have hencode : text.toByteArray = (text.toList.flatMap String.utf8EncodeChar).toByteArray := by
    conv => lhs; rw [← String.ofList_toList (s := text)]
    exact String.toByteArray_ofList
  unfold bytes
  rw [String.toUTF8_eq_toByteArray, hencode, List.toList_data_toByteArray]

/-- The bytes of a character, as numbers. The first of them tells how many there are; the others
hold six bits each. -/
def encoding (n : Nat) : List Nat :=
  if n ≤ 0x7F then [n]
  else if n ≤ 0x7FF then [n / 64 % 32 + 192, n % 64 + 128]
  else if n ≤ 0xFFFF then [n / 4096 % 16 + 224, n / 64 % 64 + 128, n % 64 + 128]
  else [n / 262144 % 8 + 240, n / 4096 % 64 + 128, n / 64 % 64 + 128, n % 64 + 128]

theorem utf8EncodeChar_eq (c : Char) :
    String.utf8EncodeChar c = (encoding c.toNat).map UInt8.ofNat := by
  unfold String.utf8EncodeChar encoding Char.toNat
  dsimp only
  split_ifs <;> rfl

theorem lt_of_mem_encoding {n b : Nat} (h : b ∈ encoding n) : b < 256 := by
  unfold encoding at h
  split_ifs at h <;> simp only [List.mem_cons, List.not_mem_nil, or_false] at h <;> omega

/-- At the first place where the lists differ, the number in the first one is less. -/
def Precedes : List Nat → List Nat → Prop
  | a :: as, b :: bs => a < b ∨ a = b ∧ Precedes as bs
  | _, _ => False

/-- The lists may be gone on with in any way, as neither is the beginning of the other. -/
theorem Precedes.map_append_lt {l m : List Nat} (h : Precedes l m) (hl : ∀ a ∈ l, a < 256)
    (hm : ∀ b ∈ m, b < 256) (as bs : List UInt8) :
    l.map UInt8.ofNat ++ as < m.map UInt8.ofNat ++ bs := by
  induction l generalizing m with
  | nil => exact h.elim
  | cons a l ih =>
    cases m with
    | nil => exact h.elim
    | cons b m =>
      obtain ⟨ha, hl'⟩ := List.forall_mem_cons.mp hl
      obtain ⟨hb, hm'⟩ := List.forall_mem_cons.mp hm
      apply List.cons_lt_cons_iff.mpr
      rcases h with hab | ⟨rfl, h⟩
      · exact Or.inl ((UInt8.ofNat_lt_iff_lt ha hb).mpr hab)
      · exact Or.inr ⟨rfl, ih h hl' hm'⟩

theorem encoding_precedes {m n : Nat} (h : m < n) (hn : n < 0x110000) :
    Precedes (encoding m) (encoding n) := by
  -- each byte has what the division by 64 leaves of the one before, and the first has room for it
  have hdigits (k : Nat) : k / 4096 = k / 64 / 64 ∧ k / 262144 = k / 4096 / 64 := by omega
  have hfirst (k : Nat) (hk : k < 0x110000) : k / 262144 % 8 = k / 262144 := by omega
  have hm := hdigits m
  have hm' := hfirst m (Nat.lt_trans h hn)
  have hn' := hdigits n
  have hn'' := hfirst n hn
  unfold encoding
  split_ifs <;> simp only [Precedes] <;> omega

theorem toNat_lt (c : Char) : c.toNat < 0x110000 := by
  rcases c.valid with h | ⟨-, h⟩
  · exact Nat.lt_trans h (by decide)
  · exact h

theorem utf8EncodeChar_append_lt {c d : Char} (h : c < d) (as bs : List UInt8) :
    String.utf8EncodeChar c ++ as < String.utf8EncodeChar d ++ bs := by
  rw [utf8EncodeChar_eq, utf8EncodeChar_eq]
  apply (encoding_precedes h (toNat_lt d)).map_append_lt
  · exact fun _ => lt_of_mem_encoding
  · exact fun _ => lt_of_mem_encoding

theorem flatMap_utf8EncodeChar_lt {cs ds : List Char} (h : cs < ds) :
    cs.flatMap String.utf8EncodeChar < ds.flatMap String.utf8EncodeChar := by
  induction cs generalizing ds with
  | nil =>
    cases ds with
    | nil => exact absurd h (List.lt_irrefl [])
    | cons d ds =>
      have hne : (d :: ds).flatMap String.utf8EncodeChar ≠ [] :=
        List.append_ne_nil_of_left_ne_nil (String.utf8EncodeChar_ne_nil (c := d)) _
      obtain ⟨b, bs, hbs⟩ := List.exists_cons_of_ne_nil hne
      rw [hbs]
      exact List.nil_lt_cons b bs
  | cons c cs ih =>
    cases ds with
    | nil => exact absurd h (List.not_lt_nil _)
    | cons d ds =>
      rw [List.flatMap_cons, List.flatMap_cons]
      rcases List.cons_lt_cons_iff.mp h with hcd | ⟨rfl, hlt⟩
      · exact utf8EncodeChar_append_lt hcd _ _
      · exact List.append_left_lt (ih hlt)

/-- Texts are in the order of their bytes. -/
theorem bytes_lt_iff {s t : String} : bytes s < bytes t ↔ s < t := by
  rw [bytes_eq_flatMap, bytes_eq_flatMap, String.lt_iff_toList_lt]
  refine ⟨fun h => ?_, flatMap_utf8EncodeChar_lt⟩
  by_contra hnot
  rcases List.le_iff_lt_or_eq.mp (List.not_lt.mp hnot) with hlt | heq
  · exact List.lt_asymm h (flatMap_utf8EncodeChar_lt hlt)
  · rw [heq] at h
    exact List.lt_irrefl _ h

end NamedLambda.Text
