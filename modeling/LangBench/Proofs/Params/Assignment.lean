import LangBench.Params.Assignment
import LangBench.Proofs.Json.RoundTrip
import LangBench.Proofs.Text

/-!
Assignments to parameters are read back.

Neither end of the text of a value is a blank, so that trimming leaves it as it is, and the name is
what stands before the first equals sign, so that others may be part of the value.
-/

namespace LangBench

open Text (Blank Tight trimChars)

namespace Json

variable {d : Nat} {v : Json} {c : Char}

theorem not_isBlank_of_mem_int {n : Int} (h : c ∈ (int n).chars) : Text.isBlank c = false := by
  have hdigits (m : Nat) (h : c ∈ Nat.toDigits 10 m) : Text.isBlank c = false :=
    Text.not_isBlank_of_isDigit (Nat.isDigit_of_mem_toDigits (by decide) (by decide) h)
  cases n with
  | ofNat m => exact hdigits m (chars_ofNat m ▸ h)
  | negSucc m =>
    rw [chars_negSucc, List.mem_cons] at h
    rcases h with rfl | h
    · rfl
    · exact hdigits (m + 1) h

/-- Neither end of the text of a value is a blank. -/
theorem Exact.tight (h : Exact d v) : Tight v.chars := by
  cases h with
  | null => exact Text.tight_enclosed rfl rfl ['u', 'l']
  | bool b =>
    cases b with
    | false => exact Text.tight_enclosed rfl rfl ['a', 'l', 's']
    | true => exact Text.tight_enclosed rfl rfl ['r', 'u']
  | int => exact Text.tight_of_forall fun c ↦ not_isBlank_of_mem_int
  | str s => exact Text.tight_enclosed rfl rfl _
  | arr => exact Text.tight_enclosed rfl rfl _
  | obj => exact Text.tight_enclosed rfl rfl _

end Json

namespace Params

def trim (s : String) : String := .ofList (trimChars s.toList)

variable {name value before after : String}

/-- What can be assigned to: a text without an equals sign that is not all blank. -/
structure IsTarget (name : String) : Prop where
  no_equals : '=' ∉ name.toList
  not_blank : ¬ Blank name.toList

theorem parseAssignment_eq_error (h : '=' ∉ name.toList) :
    parseAssignment name = .error (.invalidParameter name .noAssignment) := by
  have hdrop : name.toList.dropWhile (· != '=') = [] := by
    rw [← List.append_nil name.toList, List.dropWhile_append_of_pos fun c hc ↦ ?_]
    · rfl
    · exact bne_iff_ne.2 fun heq ↦ h (heq ▸ hc)
  simp only [parseAssignment, hdrop]

/-- The first equals sign ends the name. -/
theorem parseAssignment_eq (h : '=' ∉ name.toList) (value : String) :
    parseAssignment (name ++ "=" ++ value) =
      if Blank name.toList then .error (.invalidParameter (name ++ "=" ++ value) .emptyName)
      else .ok (trim name, (Json.parse? (trim value)).getD (.str (trim value))) := by
  have hname (c : Char) (hc : c ∈ name.toList) : (c != '=') = true :=
    bne_iff_ne.2 fun heq ↦ h (heq ▸ hc)
  have htext : (name ++ "=" ++ value).toList = name.toList ++ '=' :: value.toList := by simp
  have htake : (name ++ "=" ++ value).toList.takeWhile (· != '=') = name.toList := by
    rw [htext, List.takeWhile_append_of_pos hname]
    simp
  have hdrop : (name ++ "=" ++ value).toList.dropWhile (· != '=') = '=' :: value.toList := by
    rw [htext, List.dropWhile_append_of_pos hname]
    rfl
  simp only [parseAssignment, htake, hdrop, List.isEmpty_iff, Text.trimChars_eq_nil_iff]
  rfl

theorem parseAssignment_eq_ok (h : IsTarget name) (value : String) :
    parseAssignment (name ++ "=" ++ value) =
      .ok (trim name, (Json.parse? (trim value)).getD (.str (trim value))) := by
  rw [parseAssignment_eq h.no_equals, if_neg h.not_blank]

theorem exists_parseAssignment_eq_error_iff (text : String) :
    (∃ e, parseAssignment text = .error e) ↔ '=' ∉ text.toList ∨
      ∃ name value, text = name ++ "=" ++ value ∧ '=' ∉ name.toList ∧ Blank name.toList := by
  by_cases h : '=' ∈ text.toList
  · constructor
    · rintro ⟨e, he⟩
      obtain ⟨ns, vs, heq, hns⟩ := List.eq_append_cons_of_mem h
      have htext : text = .ofList ns ++ "=" ++ .ofList vs := by simp [String.ext_iff, heq]
      have hname : '=' ∉ (String.ofList ns).toList := by simpa using hns
      refine .inr ⟨_, _, htext, hname, ?_⟩
      by_contra hblank
      rw [htext, parseAssignment_eq hname, if_neg hblank] at he
      cases he
    · rintro (hnone | ⟨name, value, rfl, hname, hblank⟩)
      · exact absurd h hnone
      · exact ⟨_, by rw [parseAssignment_eq hname, if_pos hblank]⟩
  · exact iff_of_true ⟨_, parseAssignment_eq_error h⟩ (.inl h)

theorem trim_padded (hbefore : Blank before.toList) (hafter : Blank after.toList) (s : String) :
    trim (before ++ s ++ after) = trim s := by
  simp only [trim, String.toList_append, Text.trimChars_append hbefore hafter]

theorem no_equals_of_blank (h : Blank before.toList) : '=' ∉ before.toList := by
  intro hmem
  exact absurd (h '=' hmem) (by decide)

theorem IsTarget.padded (h : IsTarget name) (hbefore : Blank before.toList)
    (hafter : Blank after.toList) : IsTarget (before ++ name ++ after) := by
  constructor
  · simp [no_equals_of_blank hbefore, no_equals_of_blank hafter, h.no_equals]
  · intro hblank
    exact h.not_blank fun c hc ↦ hblank c (by simp [hc])

/-- Whatever is assigned with its JSON text is read back, whatever other text is read as a string, and
an assignment is refused only for want of an equals sign or of a name before the first one. -/
theorem assignments_read_back :
    (∀ name before after before' after' v, IsTarget name → Blank before.toList →
      Blank after.toList → Blank before'.toList → Blank after'.toList → Json.Exact 127 v →
      parseAssignment (before ++ name ++ after ++ "=" ++ (before' ++ v.render ++ after')) =
        .ok (trim name, v)) ∧
    (∀ name value, IsTarget name → Json.parse? (trim value) = none →
      parseAssignment (name ++ "=" ++ value) = .ok (trim name, .str (trim value))) ∧
    ∀ text, (∃ e, parseAssignment text = .error e) ↔ '=' ∉ text.toList ∨
      ∃ name value, text = name ++ "=" ++ value ∧ '=' ∉ name.toList ∧ Blank name.toList := by
  refine ⟨fun name before after before' after' v hname hbefore hafter hbefore' hafter' hv ↦ ?_,
    fun name value hname hvalue ↦ ?_, exists_parseAssignment_eq_error_iff⟩
  · have hvalue : trim (before' ++ v.render ++ after') = v.render := by
      rw [trim_padded hbefore' hafter', trim, Json.render, String.toList_ofList,
        Text.trimChars_tight hv.tight]
    rw [parseAssignment_eq_ok (hname.padded hbefore hafter), trim_padded hbefore hafter, hvalue,
      hv.parse?_eq]
    rfl
  · rw [parseAssignment_eq_ok hname, hvalue]
    rfl

theorem assignments_read_back_equals :
    parseAssignment ("\t" ++ "lang" ++ " " ++ "=" ++
        ("" ++ (Json.arr [.str "a=b", .int (-1)]).render ++ "\u2003")) =
      .ok ("lang", .arr [.str "a=b", .int (-1)]) ∧
    parseAssignment ("lang" ++ "=" ++ " a=b ") = .ok ("lang", .str "a=b") := by
  have hlang : IsTarget "lang" := ⟨by decide, by decide⟩
  have hpadding : ∀ s ∈ ["\t", " ", "", "\u2003"], Blank s.toList := by decide
  have hitems : ∀ v ∈ [Json.str "a=b", .int (-1)], Json.Exact 126 v := by
    simp only [List.mem_cons, List.not_mem_nil, or_false, forall_eq_or_imp, forall_eq]
    exact ⟨.str _, .int (by decide) (by decide)⟩
  have hnone : Json.parse? (trim " a=b ") = none := by cbv
  constructor
  · exact assignments_read_back.1 "lang" "\t" " " "" "\u2003" _ hlang (hpadding _ (by simp))
      (hpadding _ (by simp)) (hpadding _ (by simp)) (hpadding _ (by simp)) (.arr hitems)
  · exact assignments_read_back.2.1 "lang" " a=b " hlang hnone

end Params

end LangBench
