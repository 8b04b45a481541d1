import LangBench.Grammar.Error
import LangBench.Text.Blank
import LangBench.Text.Name

/-!
The tokens of a line of a grammar text.

Terminals stand in quotes of either kind, with a backslash before any character that is to be taken
as it is; names are bare; blanks separate, and `#` starts a comment.
-/

namespace LangBench.Grammar

/-- A token of a line. -/
inductive Token where
  | arrow
  | bar
  | name (s : String)
  | quoted (s : String)
  deriving DecidableEq

def consText (c : Char) :
    Except LineFault (List Char × List Char) → Except LineFault (List Char × List Char) :=
  Except.map fun (cs, rest) ↦ (c :: cs, rest)

/-- The characters up to the closing quote, and what follows it. -/
def scanQuoted (quote : Char) : List Char → Except LineFault (List Char × List Char)
  | [] => .error .unterminatedTerminal
  | ['\\'] => .error .unterminatedEscape
  | '\\' :: c :: r => consText c (scanQuoted quote r)
  | c :: r => if c = quote then .ok ([], r) else consText c (scanQuoted quote r)

theorem of_consText_eq_ok {c : Char} {x : Except LineFault (List Char × List Char)}
    {out rest : List Char} (h : consText c x = .ok (out, rest)) : ∃ cs, x = .ok (cs, rest) := by
  cases x with
  | error e => simp [consText, Except.map] at h
  | ok p =>
    obtain ⟨cs, rest'⟩ := p
    simp only [consText, Except.map, Except.ok.injEq, Prod.mk.injEq] at h
    exact ⟨cs, by rw [h.2]⟩

theorem scanQuoted_length {quote : Char} {cs out rest : List Char}
    (h : scanQuoted quote cs = .ok (out, rest)) : rest.length < cs.length := by
  fun_induction scanQuoted quote cs generalizing out with
  | case1 => simp at h
  | case2 => simp at h
  | case3 c r ih =>
    obtain ⟨cs, hr⟩ := of_consText_eq_ok h
    have := ih hr
    simp only [List.length_cons]
    omega
  | case4 r =>
    simp only [Except.ok.injEq, Prod.mk.injEq] at h
    simp [h.2]
  | case5 c r _ _ _ ih =>
    obtain ⟨cs, hr⟩ := of_consText_eq_ok h
    have := ih hr
    simp only [List.length_cons]
    omega

/-- The tokens of a line, or what is wrong with the first part that is no token. -/
def tokenize (cs : List Char) : Except LineFault (List Token) :=
  match cs with
  | [] => .ok []
  | c :: r =>
    if Text.isBlank c then tokenize r
    else if c = '#' then .ok []
    else if c = '|' then (tokenize r).map (.bar :: ·)
    else if c = '-' then
      match r with
      | '>' :: r => (tokenize r).map (.arrow :: ·)
      | _ => .error .brokenArrow
    else if c = '\'' || c = '"' then
      match h : scanQuoted c r with
      | .error fault => .error fault
      | .ok (text, rest) =>
        have := scanQuoted_length h
        if text.isEmpty then .error .emptyTerminal
        else (tokenize rest).map (.quoted (.ofList text) :: ·)
    else if Text.isName c then
      have := (List.dropWhile_suffix Text.isName (l := r)).length_le
      (tokenize (r.dropWhile Text.isName)).map
        (.name (.ofList (c :: r.takeWhile Text.isName)) :: ·)
    else .error (.unexpectedCharacter c)
termination_by cs.length

end LangBench.Grammar
