import DocComment.Digits
import DocComment.Text.Quoted
import Mathlib.Data.List.Basic

/-!
# Quoted text read back

Each quoted character says where it ends: by itself, one character behind a backslash, or at the
brace that closes its code. So quoted text is read back character by character, whichever characters
are shown by their code, and two texts with one quotation are equal.
-/

namespace DocComment

/-- A number is read back from its hexadecimal digits. -/
theorem exists_toDigits (n : Nat) :
    ∃ digits, (∀ digit ∈ digits, digit < 16) ∧ Nat.toDigits 16 n = digits.map Nat.digitChar ∧
      ofDigits 16 digits = n := by
  induction n using Nat.strongRecOn with
  | ind n ih =>
    by_cases hsmall : n < 16
    · exact ⟨[n], by simpa using hsmall, Nat.toDigits_of_lt_base hsmall, by simp [ofDigits]⟩
    · obtain ⟨digits, hdigits, hfront, hvalue⟩ := ih (n / 16) (by omega)
      refine ⟨digits ++ [n % 16], ?_, ?_, ?_⟩
      · rw [List.forall_mem_append]
        exact ⟨hdigits, by simpa using Nat.mod_lt n (by decide)⟩
      · rw [Nat.toDigits_of_base_le (by decide) (by omega), hfront, List.map_append]
        rfl
      · rw [ofDigits_concat, hvalue, Nat.div_add_mod]

theorem ofDigits_filterMap_toDigits (n : Nat) :
    ofDigits 16 ((Nat.toDigits 16 n).filterMap hexDigit?) = n := by
  obtain ⟨digits, hsmall, hdigits, hvalue⟩ := exists_toDigits n
  rw [hdigits, List.filterMap_map, List.filterMap_congr (g := some), List.filterMap_some, hvalue]
  exact fun digit hdigit => hexDigit?_digitChar (hsmall digit hdigit)

theorem isAlphanum_of_mem_toDigits {n : Nat} {d : Char} (h : d ∈ Nat.toDigits 16 n) :
    d.isAlphanum = true := by
  have hall : ∀ digit < 16, (Nat.digitChar digit).isAlphanum = true := by decide
  obtain ⟨digits, hsmall, hdigits, -⟩ := exists_toDigits n
  rw [hdigits] at h
  obtain ⟨digit, hdigit, rfl⟩ := List.mem_map.1 h
  exact hall digit (hsmall digit hdigit)

section Unquoting

/-- The character that stands for another one behind a backslash. -/
def shortEscape? : Char → Option Char
  | 't' => some '\t'
  | 'r' => some '\r'
  | 'n' => some '\n'
  | '0' => some '\x00'
  | '"' => some '"'
  | '\\' => some '\\'
  | _ => none

/-- The character of a code, which ends at its closing brace, and what stands behind the brace. -/
def uncode (text : Text) : Char × Text :=
  (Char.ofNat (ofDigits 16 ((text.takeWhile (· != '\x7d')).tail.filterMap hexDigit?)),
    (text.dropWhile (· != '\x7d')).tail)

/-- The first character of a text between quotes, and what stands behind it; none at the closing
quote. -/
def unquoteChar? : Text → Option (Char × Text)
  | [] => none
  | c :: rest =>
    if c = '"' then none
    else if c = '\\' then
      match rest with
      | [] => none
      | letter :: rest =>
        if letter = 'u' then some (uncode rest) else (shortEscape? letter).map fun c => (c, rest)
    else some (c, rest)

theorem unquoteChar?_codeEscape (c : Char) (rest : Text) :
    unquoteChar? (codeEscape c ++ rest) = some (c, rest) := by
  have hinside : ∀ d ∈ '\x7b' :: Nat.toDigits 16 c.toNat, (d != '\x7d') = true := by
    intro d hd
    rcases List.mem_cons.1 hd with rfl | hd
    · rfl
    · rw [bne_iff_ne]
      rintro rfl
      cases isAlphanum_of_mem_toDigits hd
  have hcode : uncode (('\x7b' :: Nat.toDigits 16 c.toNat) ++ '\x7d' :: rest) = (c, rest) := by
    rw [uncode, List.takeWhile_append_of_pos hinside, List.dropWhile_append_of_pos hinside]
    simp [ofDigits_filterMap_toDigits]
  simpa [codeEscape, unquoteChar?] using hcode

variable (unprintable : Char → Bool)

/-- Each character is read back from its quotation, whatever stands behind it. -/
theorem unquoteChar?_quoteChar (c : Char) (rest : Text) :
    unquoteChar? (quoteChar unprintable c ++ rest) = some (c, rest) := by
  unfold quoteChar
  split
  · rfl
  · rfl
  · rfl
  · rfl
  · rfl
  · rfl
  · next hquote hslash =>
    split
    · exact unquoteChar?_codeEscape c rest
    · simp [unquoteChar?, Ne.intro hquote, Ne.intro hslash]

theorem unquoteChar?_flatMap_cons (c : Char) (text rest : Text) :
    unquoteChar? ((c :: text).flatMap (quoteChar unprintable) ++ rest) =
      some (c, text.flatMap (quoteChar unprintable) ++ rest) := by
  rw [List.flatMap_cons, List.append_assoc, unquoteChar?_quoteChar]

/-- A text is determined by its quotation. -/
theorem quote_injective : Function.Injective (quote unprintable) := by
  intro text other h
  rw [quote, quote, List.cons_append, List.cons_append, List.cons_inj_right] at h
  induction text generalizing other with
  | nil =>
    have hread := congrArg unquoteChar? h
    cases other with
    | nil => rfl
    | cons d other =>
      rw [unquoteChar?_flatMap_cons] at hread
      cases hread
  | cons c text ih =>
    have hread := congrArg unquoteChar? h
    rw [unquoteChar?_flatMap_cons] at hread
    cases other with
    | nil => cases hread
    | cons d other =>
      rw [unquoteChar?_flatMap_cons] at hread
      obtain ⟨rfl, hrest⟩ := Prod.mk.inj (Option.some.inj hread)
      rw [ih hrest]

variable {unprintable} in
/-- What stands before a quotation is told from it if it holds no quotation mark itself. -/
theorem append_quote_inj {front front' text text' : Text} (hfront : '"' ∉ front)
    (hfront' : '"' ∉ front')
    (h : front ++ quote unprintable text = front' ++ quote unprintable text') :
    front = front' ∧ text = text' := by
  obtain ⟨hfronts, hrest⟩ := append_cons_inj_of_not_mem hfront hfront' h
  exact ⟨hfronts, quote_injective unprintable (congrArg ('"' :: ·) hrest)⟩

theorem lineFeed_not_mem_quoteChar (c : Char) : '\n' ∉ quoteChar unprintable c := by
  unfold quoteChar
  split
  · decide
  · decide
  · decide
  · decide
  · decide
  · decide
  · next hbreak _ _ _ =>
    split
    · have hdigits : '\n' ∉ Nat.toDigits 16 c.toNat := by
        intro h
        cases isAlphanum_of_mem_toDigits h
      simp [codeEscape, hdigits]
    · simpa using Ne.symm hbreak

/-- A quotation stands on one line. -/
theorem lineFeed_not_mem_quote (text : Text) : '\n' ∉ quote unprintable text := by
  simp [quote, lineFeed_not_mem_quoteChar]

end Unquoting

end DocComment
