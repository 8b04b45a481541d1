import LangBench.Json.Numeral

/-!
The tokens of a JSON text.

`Token.scan` reads one token off the front of a text that does not start with a blank;
`Token.ofText?` splits a whole text, dropping the blanks between tokens.
-/

namespace LangBench.Json

/-- A token. Words and numerals are values already. -/
inductive Token where
  | openArray
  | closeArray
  | openObject
  | closeObject
  | comma
  | colon
  | scalar (v : Json)
  | text (s : String)

def isBlank (c : Char) : Bool := c = ' ' || c = '\t' || c = '\n' || c = '\r'

def hexDigit? (c : Char) : Option Nat :=
  if '0' ≤ c && c ≤ '9' then some (c.toNat - '0'.toNat)
  else if 'a' ≤ c && c ≤ 'f' then some (c.toNat - 'a'.toNat + 10)
  else if 'A' ≤ c && c ≤ 'F' then some (c.toNat - 'A'.toNat + 10)
  else none

def hexUnit? (a b c d : Char) : Option Nat := do
  return ((← hexDigit? a) * 16 + (← hexDigit? b)) * 256 + (← hexDigit? c) * 16 + (← hexDigit? d)

def escaped? : Char → Option Char
  | '"' => some '"'
  | '\\' => some '\\'
  | '/' => some '/'
  | 'b' => some '\x08'
  | 'f' => some '\x0c'
  | 'n' => some '\n'
  | 'r' => some '\r'
  | 't' => some '\t'
  | _ => none

/-- The character of an escape by number, or `none` for half of a surrogate pair. -/
def unitChar? (n : Nat) : Option Char :=
  if h : n.isValidChar then some (.ofNatAux n h) else none

def pairChar? (high low : Nat) : Option Char :=
  if 0xd800 ≤ high && high < 0xdc00 && 0xdc00 ≤ low && low < 0xe000 then
    unitChar? (0x10000 + (high - 0xd800) * 0x400 + (low - 0xdc00))
  else none

/-- Put a character in front of the text that was read, if there are both. -/
def push : Option Char → Option (List Char × List Char) → Option (List Char × List Char)
  | some x, some (cs, rest) => some (x :: cs, rest)
  | _, _ => none

/-- The characters of a string up to its closing quote, and what follows the quote. -/
def scanText : List Char → Option (List Char × List Char)
  | [] => none
  | '"' :: r => some ([], r)
  | '\\' :: 'u' :: a :: b :: c :: d :: r =>
    let unit := hexUnit? a b c d
    if unit.any Nat.isValidChar then push (unit.bind unitChar?) (scanText r)
    else match r with
      | '\\' :: 'u' :: a' :: b' :: c' :: d' :: r =>
        push (unit.bind fun high ↦ (hexUnit? a' b' c' d').bind (pairChar? high)) (scanText r)
      | _ => none
  | '\\' :: c :: r => push (escaped? c) (scanText r)
  | c :: r => if c < ' ' || c = '\\' then none else push (some c) (scanText r)

theorem of_push_eq_some {x : Option Char} {r : Option (List Char × List Char)}
    {out rest : List Char} (h : push x r = some (out, rest)) : ∃ cs, r = some (cs, rest) := by
  unfold push at h
  split at h
  · next x cs rest' =>
    simp only [Option.some.injEq, Prod.mk.injEq] at h
    exact ⟨cs, by rw [h.2]⟩
  · simp at h

theorem scanText_length {cs out rest : List Char} (h : scanText cs = some (out, rest)) :
    rest.length < cs.length := by
  fun_induction scanText cs generalizing out with
  | case1 => simp at h
  | case2 r => simp_all
  | case3 =>
    rename_i ih
    obtain ⟨cs, hr⟩ := of_push_eq_some h
    have := ih hr
    simp only [List.length_cons]
    omega
  | case4 =>
    rename_i ih
    obtain ⟨cs, hr⟩ := of_push_eq_some h
    have := ih hr
    simp only [List.length_cons]
    omega
  | case5 => simp at h
  | case6 c r hne ih =>
    obtain ⟨cs, hr⟩ := of_push_eq_some h
    have := ih hr
    simp only [List.length_cons]
    omega
  | case7 => simp at h
  | case8 c r h₁ h₂ h₃ hc ih =>
    obtain ⟨cs, hr⟩ := of_push_eq_some h
    have := ih hr
    simp only [List.length_cons]
    omega

/-- A run of digits and what follows it. -/
def digits (cs : List Char) : List Char × List Char :=
  (cs.takeWhile Char.isDigit, cs.dropWhile Char.isDigit)

def scanFraction : List Char → Option (List Char) × List Char
  | '.' :: r => ((digits r).1, (digits r).2)
  | r => (none, r)

def scanExponent : List Char → Option (Bool × List Char) × List Char
  | [] => (none, [])
  | c :: r =>
    if c = 'e' || c = 'E' then
      match r with
      | '-' :: r => (some (true, (digits r).1), (digits r).2)
      | '+' :: r => (some (false, (digits r).1), (digits r).2)
      | r => (some (false, (digits r).1), (digits r).2)
    else (none, c :: r)

/-- The numeral at the front of a text and what follows it. -/
def scanNumeral (negative : Bool) (cs : List Char) : Numeral × List Char :=
  let (whole, r) := digits cs
  let (fraction, r) := scanFraction r
  let (exponent, r) := scanExponent r
  (⟨negative, whole, fraction, exponent⟩, r)

theorem digits_length (cs : List Char) : (digits cs).2.length ≤ cs.length :=
  (List.dropWhile_suffix _).length_le

theorem scanFraction_length (cs : List Char) : (scanFraction cs).2.length ≤ cs.length := by
  unfold scanFraction
  split
  · next r => exact Nat.le_succ_of_le (digits_length r)
  · exact Nat.le_refl _

theorem scanExponent_length (cs : List Char) : (scanExponent cs).2.length ≤ cs.length := by
  unfold scanExponent
  split
  · exact Nat.le_refl _
  · split
    · split
      · next r => exact Nat.le_succ_of_le (Nat.le_succ_of_le (digits_length r))
      · next r => exact Nat.le_succ_of_le (Nat.le_succ_of_le (digits_length r))
      · exact Nat.le_succ_of_le (digits_length _)
    · exact Nat.le_refl _

theorem scanNumeral_length (negative : Bool) (cs : List Char) :
    (scanNumeral negative cs).2.length ≤ cs.length :=
  Nat.le_trans (scanExponent_length _) (Nat.le_trans (scanFraction_length _) (digits_length _))

theorem scanNumeral_length_of_isDigit {c : Char} {r : List Char} (h : c.isDigit = true) :
    (scanNumeral false (c :: r)).2.length ≤ r.length := by
  refine Nat.le_trans (scanExponent_length _) (Nat.le_trans (scanFraction_length _) ?_)
  simp only [List.dropWhile_cons, h]
  exact (List.dropWhile_suffix _).length_le

namespace Token

/-- The token that starts with the character `c`, and what follows it in `r`. -/
def scan (c : Char) (r : List Char) : Option (Token × List Char) :=
  match c, r with
  | '[', r => some (openArray, r)
  | ']', r => some (closeArray, r)
  | '{', r => some (openObject, r)
  | '}', r => some (closeObject, r)
  | ',', r => some (comma, r)
  | ':', r => some (colon, r)
  | '"', r => (scanText r).map fun (cs, rest) ↦ (text (.ofList cs), rest)
  | 'n', 'u' :: 'l' :: 'l' :: r => some (scalar .null, r)
  | 't', 'r' :: 'u' :: 'e' :: r => some (scalar (.bool true), r)
  | 'f', 'a' :: 'l' :: 's' :: 'e' :: r => some (scalar (.bool false), r)
  | '-', r => (scanNumeral true r).1.value?.map fun v ↦ (scalar v, (scanNumeral true r).2)
  | c, r =>
    if c.isDigit then
      -- a numeral that starts with a digit takes at least this digit
      (scanNumeral false (c :: r)).1.value?.map fun v ↦
        (scalar v, (scanNumeral false (c :: r)).2)
    else none

theorem scan_length {c : Char} {r rest : List Char} {t : Token} (h : scan c r = some (t, rest)) :
    rest.length ≤ r.length := by
  unfold scan at h
  split at h
  case h_7 =>
    obtain ⟨⟨cs, rest'⟩, hr, heq⟩ := Option.map_eq_some_iff.1 h
    cases heq
    exact Nat.le_of_lt (scanText_length hr)
  case h_11 =>
    obtain ⟨v, -, heq⟩ := Option.map_eq_some_iff.1 h
    cases heq
    exact scanNumeral_length true _
  case h_12 =>
    split at h
    · next hd =>
      obtain ⟨v, -, heq⟩ := Option.map_eq_some_iff.1 h
      cases heq
      exact scanNumeral_length_of_isDigit hd
    · simp at h
  all_goals
    simp only [Option.some.injEq, Prod.mk.injEq] at h
    simp only [← h.2, List.length_cons]
    omega

/-- Split a text into its tokens, `none` if some part of it is no token. -/
def ofChars? (cs : List Char) : Option (List Token) :=
  match h : cs.dropWhile isBlank with
  | [] => some []
  | c :: r =>
    match ht : scan c r with
    | none => none
    | some (t, rest) =>
      have : rest.length < cs.length := by
        have h₁ := (List.dropWhile_suffix isBlank (l := cs)).length_le
        have h₂ := scan_length ht
        rw [h, List.length_cons] at h₁
        omega
      (ofChars? rest).map (t :: ·)
termination_by cs.length

end Token

end LangBench.Json
