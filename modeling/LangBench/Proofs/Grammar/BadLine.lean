import LangBench.Grammar.Basic
import LangBench.Proofs.Grammar.Layout
import Mathlib

/-!
Which line of a text is reported as bad: the first that cannot be read after the lines before it,
whatever comes after it.
-/

namespace LangBench

namespace Text

/-- The first lines of a text are the lines of a beginning of it. -/
theorem exists_prefix_lines (cs : List Char) (k : Nat) :
    ∃ before, before <+: cs ∧ lines before = (lines cs).take k := by
  induction k generalizing cs with
  | zero => exact ⟨[], List.nil_prefix, rfl⟩
  | succ k ih =>
    by_cases hmem : '\n' ∈ cs
    · obtain ⟨line, rest, rfl, hline⟩ := List.eq_append_cons_of_mem hmem
      obtain ⟨first, _, -, -, hsplit⟩ := exists_lines_append_lf hline
      obtain ⟨before, hbefore, hlines⟩ := ih rest
      refine ⟨line ++ '\n' :: before, ?_, ?_⟩
      · exact (List.prefix_append_right_inj line).2 ((List.prefix_cons_inj '\n').2 hbefore)
      · rw [(hsplit rest).2, (hsplit before).2, hlines, List.take_succ_cons]
    · refine ⟨cs, List.prefix_refl cs, ?_⟩
      rw [lines_of_last hmem]
      split
      · rfl
      · rw [List.take_succ_cons, List.take_nil]

end Text

namespace Grammar

variable {n : Nat} {current next : Option String} {line : List Char} {lines : List (List Char)}
  {text : String} {rules : List Rule} {table : List String} {e : GrammarError}

/-- Lines that can all be read, one after the other, from the name of the rule before them to that
of the last rule. -/
inductive Readable : Option String → List (List Char) → Option String → Prop
  | nil (current : Option String) : Readable current [] current
  | cons {current next : Option String} {line : List Char} {rest : List (List Char)}
      {result : Option (String × List (List RuleItem))} :
      readLine current line = .ok result → Readable (nameAfter current result) rest next →
      Readable current (line :: rest) next

theorem Readable.exists_rules (h : Readable current lines next) (n : Nat) :
    ∃ rules, readLines n current lines = .ok rules := by
  induction h generalizing n with
  | nil => exact ⟨[], rfl⟩
  | cons hline _ ih =>
    obtain ⟨rules, hrules⟩ := ih (n + 1)
    rw [readLines_cons, hline]
    exact ⟨_, map_eq_ok.2 ⟨rules, hrules, rfl⟩⟩

theorem Readable.readLines_eq_error {fault : LineFault} (h : Readable current lines next)
    (hline : readLine next line = .error fault) (n : Nat) (after : List (List Char)) :
    readLines n current (lines ++ line :: after) = .error (.badLine (n + lines.length) fault) := by
  induction h generalizing n with
  | nil =>
    rw [List.nil_append, readLines_cons, hline]
    rfl
  | cons hread _ ih =>
    rw [List.cons_append, readLines_cons, hread]
    refine map_eq_error.2 ((ih hline (n + 1)).trans ?_)
    rw [List.length_cons, Nat.add_assoc, Nat.add_comm 1]

/-- Lines are refused for the first of them that cannot be read after those before it. -/
theorem exists_bad_line (h : readLines n current lines = .error e) :
    ∃ before line after next fault, lines = before ++ line :: after ∧
      Readable current before next ∧ readLine next line = .error fault ∧
      e = .badLine (n + before.length) fault := by
  induction lines generalizing n current with
  | nil => cases h
  | cons first rest ih =>
    rw [readLines_cons] at h
    split at h
    · next fault hfirst =>
      exact ⟨[], first, rest, current, fault, rfl, .nil current, hfirst, (Except.error.inj h).symm⟩
    · next result hfirst =>
      obtain ⟨before, line, after, next, fault, rfl, hbefore, hline, rfl⟩ := ih (map_eq_error.1 h)
      refine ⟨first :: before, line, after, next, fault, rfl, .cons hfirst hbefore, hline, ?_⟩
      rw [List.length_cons, Nat.add_assoc, Nat.add_comm 1]

theorem ofRules_eq_error_iff :
    ofRules rules table = .error e ↔ rules = [] ∧ e = .noProductions := by
  unfold ofRules
  split
  · next h => simp [List.isEmpty_iff.1 h, eq_comm]
  · next h => simp [mt List.isEmpty_iff.2 h]

theorem parse_eq_error_iff :
    parse text = .error e ↔
      readRules text = .error e ∨ readRules text = .ok [] ∧ e = .noProductions := by
  rw [parse, bind_eq_error]
  simp only [ofRules_eq_error_iff]
  refine or_congr_right ⟨?_, fun h ↦ ⟨[], h.1, rfl, h.2⟩⟩
  rintro ⟨_, hrules, rfl, he⟩
  exact ⟨hrules, he⟩

theorem parse_eq_badLine_iff {fault : LineFault} :
    parse text = .error (.badLine n fault) ↔ readRules text = .error (.badLine n fault) := by
  simp [parse_eq_error_iff]

/-- The line that is reported is one of the text. The lines before it, taken alone, hold no bad
line, and any text that begins with the same lines up to it is refused for it in the same way. -/
theorem bad_line_is_first {fault : LineFault} (h : parse text = .error (.badLine n fault)) :
    1 ≤ n ∧ n ≤ (Text.lines text.toList).length ∧
    (∃ before : String, before.toList <+: text.toList ∧
      Text.lines before.toList = (Text.lines text.toList).take (n - 1)) ∧
    (∀ before : String, Text.lines before.toList = (Text.lines text.toList).take (n - 1) →
      ∀ m fault', parse before ≠ .error (.badLine m fault')) ∧
    ∀ text' : String, (Text.lines text'.toList).take n = (Text.lines text.toList).take n →
      parse text' = .error (.badLine n fault) := by
  obtain ⟨before, line, after, next, fault, hlines, hbefore, hline, heq⟩ :=
    exists_bad_line (parse_eq_badLine_iff.1 h)
  obtain ⟨rfl, rfl⟩ := GrammarError.badLine.inj heq
  have hearlier : (Text.lines text.toList).take (1 + before.length - 1) = before := by
    rw [hlines, Nat.add_sub_cancel_left, List.take_left]
  have hupto : (Text.lines text.toList).take (1 + before.length) = before ++ [line] := by
    rw [hlines, Nat.add_comm, List.take_length_add_append, List.take_succ_cons, List.take_zero]
  refine ⟨Nat.le_add_right _ _, ?_, ?_, fun text' h' m fault' hbad ↦ ?_, fun text' h' ↦ ?_⟩
  · rw [hlines, List.length_append, List.length_cons]
    omega
  · obtain ⟨cs, hprefix, hcs⟩ := Text.exists_prefix_lines text.toList (1 + before.length - 1)
    exact ⟨.ofList cs, by rwa [String.toList_ofList], by rwa [String.toList_ofList]⟩
  · obtain ⟨rules, hrules⟩ := hbefore.exists_rules 1
    rw [parse_eq_badLine_iff, readRules, h', hearlier, hrules] at hbad
    cases hbad
  · have hsplit := List.take_append_drop (1 + before.length) (Text.lines text'.toList)
    rw [h', hupto, List.append_assoc] at hsplit
    rw [parse_eq_badLine_iff, readRules, ← hsplit]
    exact hbefore.readLines_eq_error hline 1 _

/-- A terminal that is not closed, on a line that goes on with the rule before a blank line. -/
theorem bad_line_is_first_continued :
    parse "S -> 'a'\n\n | S 'b # open\nT = S" = .error (.badLine 3 .unterminatedTerminal) ∧
    (∀ m fault, parse "S -> 'a'\n\n" ≠ .error (.badLine m fault)) ∧
    parse "S -> 'a'\r\n\n | S 'b # open" = .error (.badLine 3 .unterminatedTerminal) := by
  have h : parse "S -> 'a'\n\n | S 'b # open\nT = S" =
      .error (.badLine 3 .unterminatedTerminal) := by cbv
  obtain ⟨-, -, -, hbefore, hsame⟩ := bad_line_is_first h
  exact ⟨h, hbefore _ (by cbv), hsame _ (by cbv)⟩

end Grammar

end LangBench
