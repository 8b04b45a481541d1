import LangBench.Proofs.Grammar.BadLine
import LangBench.Proofs.Grammar.Table

/-!
Reading a grammar with an alphabet: it is refused for what it would be refused for without one, and
otherwise for the terminals that the alphabet lacks.
-/

namespace LangBench

theorem eraseDups_filter_concat (p : String → Bool) (l : List String) (a : String) :
    ((l ++ [a]).filter p).eraseDups =
      if p a = true ∧ a ∉ l then (l.filter p).eraseDups ++ [a] else (l.filter p).eraseDups := by
  rw [List.filter_append, List.eraseDups_append]
  by_cases hp : p a = true <;> by_cases ha : a ∈ l <;>
    simp [hp, ha, List.removeAll, List.eraseDups_cons]

/-- What is taken from a list without repetitions is in the order of the first occurrences. -/
theorem pairwise_eraseDups_filter (p : String → Bool) (l : List String) :
    (l.filter p).eraseDups.Pairwise fun s t ↦ l.idxOf s < l.idxOf t := by
  induction l using List.reverseRecOn with
  | nil => exact .nil
  | append_singleton l a ih =>
    have hmem {t : String} (ht : t ∈ (l.filter p).eraseDups) : t ∈ l :=
      (List.mem_filter.1 (List.mem_eraseDups.1 ht)).1
    have hplace {t : String} (ht : t ∈ l) : (l ++ [a]).idxOf t = l.idxOf t :=
      List.idxOf_append_of_mem ht
    have hold : (l.filter p).eraseDups.Pairwise fun s t ↦
        (l ++ [a]).idxOf s < (l ++ [a]).idxOf t :=
      ih.imp_of_mem fun hs ht hlt ↦ by rwa [hplace (hmem hs), hplace (hmem ht)]
    rw [eraseDups_filter_concat]
    split
    · next h =>
      refine List.pairwise_append.2 ⟨hold, List.pairwise_singleton _ _, fun s hs t ht ↦ ?_⟩
      obtain rfl := List.mem_singleton.1 ht
      rw [hplace (hmem hs), List.idxOf_append_of_notMem h.2]
      exact Nat.lt_add_right _ (List.idxOf_lt_length_iff.2 (hmem hs))
    · exact hold

namespace Grammar

variable {text : String} {alphabet : List String} {rules : List Rule} {e : GrammarError}

/-- The texts that are used but not declared, each once, in the order of their first use. -/
structure Uncovered (used alphabet missing : List String) : Prop where
  nodup : missing.Nodup
  mem_iff (t : String) : t ∈ missing ↔ t ∈ used ∧ t ∉ alphabet
  inOrder : missing.Pairwise fun s t ↦ used.idxOf s < used.idxOf t

theorem uncovered_eraseDups (used alphabet : List String) :
    Uncovered used alphabet (used.filter fun t ↦ !alphabet.contains t).eraseDups where
  nodup := nodup_eraseDups _
  mem_iff t := by simp [List.mem_eraseDups]
  inOrder := pairwise_eraseDups_filter _ used

theorem parseWithAlphabet_of_error (h : readRules text = .error e) (alphabet : List String) :
    parseWithAlphabet text alphabet = .error e :=
  bind_eq_error.2 (.inl h)

theorem parseWithAlphabet_of_covered (h : readRules text = .ok rules)
    (hall : ∀ t ∈ rules.flatMap Rule.terminals, t ∈ alphabet) :
    parseWithAlphabet text alphabet = ofRules rules alphabet.eraseDups := by
  have hnone : (rules.flatMap Rule.terminals).filter (fun t ↦ !alphabet.contains t) = [] := by
    simpa [List.filter_eq_nil_iff] using hall
  rw [parseWithAlphabet, h]
  show (if _ then _ else _) = _
  rw [hnone]
  rfl

theorem parseWithAlphabet_of_uncovered (h : readRules text = .ok rules) {t : String}
    (ht : t ∈ rules.flatMap Rule.terminals) (hnot : t ∉ alphabet) :
    ∃ missing, Uncovered (rules.flatMap Rule.terminals) alphabet missing ∧
      parseWithAlphabet text alphabet = .error (.uncovered missing) := by
  refine ⟨_, uncovered_eraseDups _ alphabet, ?_⟩
  have hsome : t ∈ (rules.flatMap Rule.terminals).filter (fun t ↦ !alphabet.contains t) := by
    simpa [hnot] using ht
  rw [parseWithAlphabet, h]
  exact if_neg fun hnil ↦ List.not_mem_nil (List.isEmpty_iff.1 hnil ▸ hsome)

theorem exists_ofRules_eq_ok (hne : rules ≠ []) (table : List String) :
    ∃ g, ofRules rules table = .ok g := by
  cases h : ofRules rules table with
  | error e => exact absurd (ofRules_eq_error_iff.1 h).1 hne
  | ok g => exact ⟨g, rfl⟩

section Rules

variable (hrules : readRules text = .ok rules) (hne : rules ≠ [])
include hrules hne

/-- Once there are rules, an alphabet is refused only for what it lacks. -/
theorem exists_uncovered (h : parseWithAlphabet text alphabet = .error e) :
    ∃ missing, e = .uncovered missing ∧
      Uncovered (rules.flatMap Rule.terminals) alphabet missing := by
  by_cases hall : ∀ t ∈ rules.flatMap Rule.terminals, t ∈ alphabet
  · obtain ⟨g, hg⟩ := exists_ofRules_eq_ok hne alphabet.eraseDups
    rw [parseWithAlphabet_of_covered hrules hall, hg] at h
    cases h
  · simp only [not_forall] at hall
    obtain ⟨t, ht, hnot⟩ := hall
    obtain ⟨missing, hmissing, hrefused⟩ := parseWithAlphabet_of_uncovered hrules ht hnot
    exact ⟨missing, Except.error.inj (h.symm.trans hrefused), hmissing⟩

theorem exists_parseWithAlphabet_eq_ok_iff (alphabet : List String) :
    (∃ g, parseWithAlphabet text alphabet = .ok g) ↔
      ∀ t ∈ rules.flatMap Rule.terminals, t ∈ alphabet := by
  constructor
  · rintro ⟨g, hg⟩ t ht
    by_contra hnot
    obtain ⟨_, -, hrefused⟩ := parseWithAlphabet_of_uncovered hrules ht hnot
    cases hg.symm.trans hrefused
  · intro hall
    rw [parseWithAlphabet_of_covered hrules hall]
    exact exists_ofRules_eq_ok hne _

theorem exists_parseWithAlphabet_eq_error_iff (alphabet : List String) :
    (∃ e, parseWithAlphabet text alphabet = .error e) ↔
      ∃ t ∈ rules.flatMap Rule.terminals, t ∉ alphabet := by
  constructor
  · rintro ⟨e, he⟩
    by_contra hnone
    obtain ⟨g, hg⟩ := (exists_parseWithAlphabet_eq_ok_iff hrules hne alphabet).2
      fun t ht ↦ by_contra fun hnot ↦ hnone ⟨t, ht, hnot⟩
    cases he.symm.trans hg
  · rintro ⟨t, ht, hnot⟩
    obtain ⟨missing, -, hrefused⟩ := parseWithAlphabet_of_uncovered hrules ht hnot
    exact ⟨_, hrefused⟩

end Rules

/-- With an alphabet a text is refused for a bad line or for want of rules just if it is without
one. If it is not, it is refused just if some terminal is used that is not declared; then all of
these are named, each once, in the order in which they are first used. -/
theorem alphabet_refusals (text : String) (alphabet : List String) :
    (∀ n fault, parseWithAlphabet text alphabet = .error (.badLine n fault) ↔
      parse text = .error (.badLine n fault)) ∧
    (parseWithAlphabet text alphabet = .error .noProductions ↔
      parse text = .error .noProductions) ∧
    (∀ missing, parse text ≠ .error (.uncovered missing)) ∧
    ∀ g, parse text = .ok g → ∃ rules, readRules text = .ok rules ∧
      ((∃ e, parseWithAlphabet text alphabet = .error e) ↔
        ∃ t ∈ rules.flatMap Rule.terminals, t ∉ alphabet) ∧
      (∀ e, parseWithAlphabet text alphabet = .error e → ∃ missing, e = .uncovered missing ∧
        Uncovered (rules.flatMap Rule.terminals) alphabet missing) ∧
      ((∃ g', parseWithAlphabet text alphabet = .ok g') ↔
        ∀ t ∈ rules.flatMap Rule.terminals, t ∈ alphabet) := by
  cases hrules : readRules text with
  | error e =>
    obtain ⟨_, _, _, _, _, -, -, -, rfl⟩ := exists_bad_line hrules
    have hparse := parse_eq_error_iff.2 (.inl hrules)
    rw [parseWithAlphabet_of_error hrules, hparse]
    simp
  | ok rules =>
    by_cases hnil : rules = []
    · subst hnil
      have hparse := parse_eq_error_iff.2 (.inr ⟨hrules, rfl⟩)
      have hempty : parseWithAlphabet text alphabet = .error .noProductions :=
        (parseWithAlphabet_of_covered hrules (by simp)).trans (ofRules_eq_error_iff.2 ⟨rfl, rfl⟩)
      rw [hempty, hparse]
      simp
    · obtain ⟨g, hg⟩ := exists_ofRules_eq_ok hnil (rules.flatMap Rule.terminals).eraseDups
      have hparse : parse text = .ok g := bind_eq_ok.2 ⟨rules, hrules, hg⟩
      have hlacks {e : GrammarError} (h : parseWithAlphabet text alphabet = .error e) :=
        exists_uncovered hrules hnil h
      rw [hparse]
      refine ⟨fun n fault ↦ iff_of_false (fun h ↦ ?_) nofun, iff_of_false (fun h ↦ ?_) nofun, nofun,
        fun _ _ ↦ ⟨rules, rfl, exists_parseWithAlphabet_eq_error_iff hrules hnil alphabet,
          fun _ ↦ hlacks, exists_parseWithAlphabet_eq_ok_iff hrules hnil alphabet⟩⟩
      · obtain ⟨_, heq, -⟩ := hlacks h
        cases heq
      · obtain ⟨_, heq, -⟩ := hlacks h
        cases heq

example : parseWithAlphabet "S -> 'b' S 'a' | 'c' 'b'" ["a"] = .error (.uncovered ["b", "c"]) := by
  cbv

end Grammar

end LangBench
