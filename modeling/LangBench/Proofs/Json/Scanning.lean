import LangBench.Json.Token
import LangBench.Json.Writer

/-!
Reading the tokens that were written.

A string is read back character by character, whether escaped or not, and a numeral up to the first
character that cannot be part of it. The digits of an integer are read as this integer as long as 64
bits hold it, or 63 of a negative one.
-/

namespace LangBench.Json

section Strings

theorem hexDigit?_hexDigit : ∀ n < 16, hexDigit? (hexDigit n) = some n := by decide

theorem scanText_unit {n : Nat} (hn : n < 256) (r : List Char) :
    scanText ('\\' :: 'u' :: '0' :: '0' :: hexDigit (n / 16) :: hexDigit (n % 16) :: r) =
      push (some (Char.ofNat n)) (scanText r) := by
  have hvalid : n.isValidChar := .inl (by omega)
  have hunit : hexUnit? '0' '0' (hexDigit (n / 16)) (hexDigit (n % 16)) = some n := by
    have hhigh := hexDigit?_hexDigit (n / 16) (by omega)
    have hlow := hexDigit?_hexDigit (n % 16) (by omega)
    have hzero : hexDigit? '0' = some 0 := rfl
    simp only [hexUnit?, hhigh, hlow, hzero, Option.bind_eq_bind, Option.bind_some,
      Option.pure_def]
    congr 1
    omega
  have hchar : unitChar? n = some (Char.ofNat n) := by
    rw [unitChar?, Char.ofNat, dif_pos hvalid, dif_pos hvalid]
  rw [scanText.eq_def]
  simp only [hunit, hchar, Option.any_some, hvalid, decide_true, if_true, Option.bind_some]

theorem scanText_escape (c : Char) (r : List Char) :
    scanText (escape c ++ r) = push (some c) (scanText r) := by
  by_cases hnamed :
    c = '"' ∨ c = '\\' ∨ c = '\x08' ∨ c = '\x0c' ∨ c = '\n' ∨ c = '\r' ∨ c = '\t'
  · rcases hnamed with rfl | rfl | rfl | rfl | rfl | rfl | rfl <;> rfl
  · simp only [not_or] at hnamed
    obtain ⟨hquote, hbackslash, h₁, h₂, h₃, h₄, h₅⟩ := hnamed
    simp only [escape, hquote, hbackslash, h₁, h₂, h₃, h₄, h₅, if_false]
    by_cases hcontrol : c < ' '
    · have hc : c.toNat < 32 := hcontrol
      rw [if_pos hcontrol]
      have h := scanText_unit (n := c.toNat) (by omega) r
      rwa [Char.ofNat_toNat] at h
    · rw [if_neg hcontrol, List.singleton_append, scanText.eq_6 c r hquote
        (fun _ _ _ _ _ h ↦ absurd h hbackslash) fun _ _ h ↦ absurd h hbackslash]
      simp [hcontrol, hbackslash]

theorem scanText_escapes (cs r : List Char) :
    scanText (cs.flatMap escape ++ '"' :: r) = some (cs, r) := by
  induction cs with
  | nil => rfl
  | cons c cs ih =>
    rw [List.flatMap_cons, List.append_assoc, scanText_escape, ih]
    rfl

end Strings

section Numerals

variable {ds rest : List Char} {n : Nat}

/-- What may follow a value: nothing, or a comma or the end of an array or object. -/
def Stops (rest : List Char) : Prop := ∀ c ∈ rest.head?, c ∈ [',', ']', '\x7d']

theorem Stops.digits_eq (hrest : Stops rest) :
    rest.takeWhile Char.isDigit = [] ∧ rest.dropWhile Char.isDigit = rest ∧
      scanFraction rest = (none, rest) ∧ scanExponent rest = (none, rest) := by
  cases rest with
  | nil => exact ⟨rfl, rfl, rfl, rfl⟩
  | cons c rest =>
    have hc := hrest c rfl
    simp only [List.mem_cons, List.not_mem_nil, or_false] at hc
    rcases hc with rfl | rfl | rfl <;> exact ⟨rfl, rfl, rfl, rfl⟩

/-- A run of digits before a stop is a numeral without fraction and exponent. -/
theorem scanNumeral_append (negative : Bool) (hds : ∀ c ∈ ds, c.isDigit = true)
    (hrest : Stops rest) :
    scanNumeral negative (ds ++ rest) = (⟨negative, ds, none, none⟩, rest) := by
  obtain ⟨htake, hdrop, hfraction, hexponent⟩ := hrest.digits_eq
  simp only [scanNumeral, digits, List.takeWhile_append_of_pos hds,
    List.dropWhile_append_of_pos hds, htake, hdrop, List.append_nil, hfraction, hexponent]

namespace Numeral

theorem le_ofDigitChars (ds : List Char) (n : Nat) : n ≤ Nat.ofDigitChars 10 ds n := by
  induction ds generalizing n with
  | nil => exact Nat.le_refl n
  | cons c ds ih =>
    rw [Nat.ofDigitChars_cons]
    exact Nat.le_trans (by omega) (ih _)

/-- Digits are taken in as long as the number fits, so all of them are if the whole number does. -/
theorem accumulate_eq (n : Nat) (h : Nat.ofDigitChars 10 ds n < UInt64.size) :
    accumulate n ds = (Nat.ofDigitChars 10 ds n, []) := by
  induction ds generalizing n with
  | nil => rfl
  | cons c ds ih =>
    rw [Nat.ofDigitChars_cons] at h ⊢
    rw [accumulate, if_pos (Nat.lt_of_le_of_lt (le_ofDigitChars ds _) h), ih _ h]

theorem accumulate_toDigits (hn : n < UInt64.size) :
    accumulate 0 (Nat.toDigits 10 n) = (n, []) := by
  have h := Nat.ofDigitChars_ten_toDigits (n := n)
  rw [accumulate_eq 0 (by rwa [h]), h]

theorem head?_toDigits_ne (hn : 0 < n) : (Nat.toDigits 10 n).head? ≠ some '0' := by
  induction n using Nat.strongRecOn with
  | ind n ih =>
    rw [Nat.toDigits_eq_if (by decide)]
    split
    · next h =>
      have hdigits : ∀ d < 10, 0 < d → Nat.digitChar d ≠ '0' := by decide
      simpa using hdigits n h hn
    · rw [List.head?_append, Option.or_of_isSome (by simp [Nat.toDigits_ne_nil])]
      exact ih (n / 10) (by omega) (by omega)

theorem wellFormed_toDigits (negative : Bool) (n : Nat) :
    wellFormed ⟨negative, Nat.toDigits 10 n, none, none⟩ = true := by
  have hlead : (Nat.toDigits 10 n).length = 1 ∨ (Nat.toDigits 10 n).head? ≠ some '0' := by
    rcases Nat.eq_zero_or_pos n with rfl | hn
    · exact .inl rfl
    · exact .inr (head?_toDigits_ne hn)
  simpa [wellFormed, Nat.toDigits_ne_nil] using hlead

theorem value?_natural (hn : n < UInt64.size) :
    value? ⟨false, Nat.toDigits 10 n, none, none⟩ = some (.int n) := by
  simp [value?, wellFormed_toDigits, accumulate_toDigits hn]

theorem value?_negative (hpos : 0 < n) (hn : n ≤ UInt64.size / 2) :
    value? ⟨true, Nat.toDigits 10 n, none, none⟩ = some (.int (-n)) := by
  have hhalf : UInt64.size / 2 < UInt64.size := by decide
  have hsize : n < UInt64.size := Nat.lt_of_le_of_lt hn hhalf
  simp [value?, wellFormed_toDigits, accumulate_toDigits hsize, hpos, hn]

end Numeral

theorem chars_ofNat (n : Nat) : (int (Int.ofNat n)).chars = Nat.toDigits 10 n := Nat.toList_repr

theorem chars_negSucc (n : Nat) : (int (Int.negSucc n)).chars = '-' :: Nat.toDigits 10 (n + 1) := by
  rw [← Nat.toList_repr]
  exact String.toList_append

end Numerals

namespace Token

variable {c : Char} {r rest : List Char} {t : Token} {n : Int}

theorem scan_digit (hc : c.isDigit = true) (r : List Char) :
    scan c r = (scanNumeral false (c :: r)).1.value?.map fun v ↦
      (scalar v, (scanNumeral false (c :: r)).2) := by
  unfold scan
  split
  case h_12 => rw [if_pos hc]
  all_goals exact absurd hc (by decide)

theorem isBlank_digit (hc : c.isDigit = true) : isBlank c = false := by
  refine Bool.eq_false_iff.2 fun h ↦ ?_
  simp only [isBlank, Bool.or_eq_true, decide_eq_true_eq] at h
  rcases h with ((rfl | rfl) | rfl) | rfl <;> exact absurd hc (by decide)

theorem ofChars?_nil : ofChars? [] = some [] := by
  rw [ofChars?]
  rfl

theorem ofChars?_cons (hc : isBlank c = false) (hscan : scan c r = some (t, rest)) :
    ofChars? (c :: r) = (ofChars? rest).map (t :: ·) := by
  have hdrop : (c :: r).dropWhile isBlank = c :: r := List.dropWhile_cons_of_neg (by simp [hc])
  rw [ofChars?]
  split
  · next h => rw [hdrop] at h; cases h
  · next c' r' h =>
    rw [hdrop] at h
    obtain ⟨rfl, rfl⟩ := List.cons.inj h
    split
    · next ht => rw [hscan] at ht; cases ht
    · next t' rest' ht =>
      rw [hscan] at ht
      cases ht
      rfl

theorem ofChars?_quote (s : String) (rest : List Char) :
    ofChars? (quote s ++ rest) = (ofChars? rest).map (text s :: ·) := by
  have hscan : scan '"' (s.toList.flatMap escape ++ '"' :: rest) = some (text s, rest) := by
    simp only [scan, scanText_escapes, Option.map_some, String.ofList_toList]
  rw [quote, List.append_assoc, List.cons_append]
  exact ofChars?_cons rfl hscan

theorem ofChars?_numeral {m : Nat} (hm : m < UInt64.size) (hrest : Stops rest) :
    ofChars? (Nat.toDigits 10 m ++ rest) = (ofChars? rest).map (scalar (.int m) :: ·) := by
  have hdigits (c : Char) (hc : c ∈ Nat.toDigits 10 m) : c.isDigit = true :=
    Nat.isDigit_of_mem_toDigits (by decide) (by decide) hc
  have hnumeral := scanNumeral_append false hdigits hrest
  obtain ⟨c, ds, hds⟩ := List.exists_cons_of_ne_nil (Nat.toDigits_ne_nil (n := m) (b := 10))
  have hc := hdigits c (hds ▸ List.mem_cons_self)
  have hscan : scan c (ds ++ rest) = some (scalar (.int m), rest) := by
    rw [scan_digit hc, ← List.cons_append, ← hds, hnumeral, Numeral.value?_natural hm]
    rfl
  rw [hds, List.cons_append]
  exact ofChars?_cons (isBlank_digit hc) hscan

theorem ofChars?_negative {m : Nat} (hpos : 0 < m) (hm : m ≤ UInt64.size / 2)
    (hrest : Stops rest) :
    ofChars? ('-' :: Nat.toDigits 10 m ++ rest) =
      (ofChars? rest).map (scalar (.int (-m)) :: ·) := by
  have hdigits (c : Char) (hc : c ∈ Nat.toDigits 10 m) : c.isDigit = true :=
    Nat.isDigit_of_mem_toDigits (by decide) (by decide) hc
  have hscan : scan '-' (Nat.toDigits 10 m ++ rest) = some (scalar (.int (-m)), rest) := by
    rw [scan, scanNumeral_append true hdigits hrest, Numeral.value?_negative hpos hm]
    rfl
  exact ofChars?_cons rfl hscan

/-- An integer is read back if 64 bits hold it, with a sign bit if it is negative. -/
theorem ofChars?_int (hlow : -(UInt64.size / 2 : Nat) ≤ n) (hhigh : n < UInt64.size)
    (hrest : Stops rest) :
    ofChars? ((int n).chars ++ rest) = (ofChars? rest).map (scalar (.int n) :: ·) := by
  cases n with
  | ofNat m =>
    rw [chars_ofNat]
    exact ofChars?_numeral (Int.ofNat_lt.1 hhigh) hrest
  | negSucc m =>
    rw [chars_negSucc]
    exact ofChars?_negative (Nat.succ_pos m) (by omega) hrest

end Token

end LangBench.Json
