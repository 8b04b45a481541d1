import LangBench.Proofs.Grammar.Forest
import LangBench.Proofs.Outcome

/-!
Grammars that are read from a text use only nonterminals and terminals of their own tables.
-/

namespace LangBench.Grammar

variable {g : Grammar} {text : String} {rules : List Rule} {table : List String}

/-- The productions use numbers of the tables of names and of terminals. -/
structure WellFormed (g : Grammar) : Prop where
  lhs_lt : ∀ p ∈ g.productions, p.lhs < g.nonterminals.length
  nonterminal_lt : ∀ p ∈ g.productions, ∀ n, .nonterminal n ∈ p.rhs → n < g.nonterminals.length
  terminal_lt : ∀ p ∈ g.productions, ∀ x, .terminal x ∈ p.rhs → x.toNat < g.terminalCount

theorem symbolAt_toNat_le (i : Nat) : (symbolAt i).toNat ≤ i := by
  rw [symbolAt, UInt32.toNat_ofNat']
  exact Nat.mod_le _ _

theorem mem_names_of_nonterminal_mem {r : Rule} {s : String} (h : .nonterminal s ∈ r.items) :
    s ∈ r.names :=
  List.mem_cons_of_mem _ (List.mem_filterMap.2 ⟨_, h, rfl⟩)

theorem mem_terminals_iff {r : Rule} {t : String} : t ∈ r.terminals ↔ .terminal t ∈ r.items := by
  rw [Rule.terminals, List.mem_filterMap]
  constructor
  · intro hex
    obtain ⟨item, hitem, heq⟩ := hex
    cases item with
    | terminal t' =>
      obtain rfl := Option.some.inj heq
      exact hitem
    | nonterminal s => simp at heq
  · exact fun h ↦ ⟨_, h, rfl⟩

theorem ofRules_eq_ok (h : ofRules rules table = .ok g) :
    rules ≠ [] ∧ g.nonterminals = (rules.flatMap Rule.names).eraseDups ∧ g.terminals = table ∧
      g.productions = (rules.map (Rule.number g.nonterminals g.terminals)).toArray := by
  unfold ofRules at h
  split at h
  · simp at h
  · next hne =>
    cases h
    exact ⟨fun hnil ↦ hne (List.isEmpty_iff.2 hnil), rfl, rfl, rfl⟩

/-- The texts in whose order terminals are numbered: those that the alphabet declares, or without
one those that the rules use. -/
def declared (alphabet : Option (List String)) (rules : List Rule) : List String :=
  alphabet.getD (rules.flatMap Rule.terminals)

/-- A grammar that has been read is made of the rules of the text, all of whose terminals are
declared. Any other text of these rules gives it too. -/
theorem exists_ofRules {alphabet : Option (List String)} (h : parse? text alphabet = .ok g) :
    ∃ rules, readRules text = .ok rules ∧ rules.flatMap Rule.terminals ⊆ declared alphabet rules ∧
      ofRules rules (declared alphabet rules).eraseDups = .ok g ∧
      ∀ text', readRules text' = .ok rules → parse? text' alphabet = .ok g := by
  cases alphabet with
  | none =>
    obtain ⟨rules, hrules, hg⟩ := bind_eq_ok.1 h
    refine ⟨rules, hrules, List.Subset.refl _, hg, fun text' h' ↦ ?_⟩
    exact bind_eq_ok.2 ⟨rules, h', hg⟩
  | some alphabet =>
    obtain ⟨rules, hrules, hg⟩ := bind_eq_ok.1 h
    have hsame (text' : String) (h' : readRules text' = .ok rules) :
        parse? text' (some alphabet) = .ok g := bind_eq_ok.2 ⟨rules, h', hg⟩
    simp only at hg
    split at hg
    · next hmissing =>
      refine ⟨rules, hrules, fun t ht ↦ ?_, hg, hsame⟩
      rw [List.isEmpty_iff, List.filter_eq_nil_iff] at hmissing
      simpa [declared] using hmissing t ht
    · exact absurd hg throw_ne_ok

theorem wellFormed_of_ofRules (hterm : rules.flatMap Rule.terminals ⊆ table)
    (h : ofRules rules table.eraseDups = .ok g) : g.WellFormed := by
  obtain ⟨-, hnames, hterminals, hproductions⟩ := ofRules_eq_ok h
  have hname {r : Rule} (hr : r ∈ rules) {s : String} (hs : s ∈ r.names) :
      g.nonterminals.idxOf s < g.nonterminals.length := by
    refine List.idxOf_lt_length_iff.2 ?_
    rw [hnames]
    exact List.mem_eraseDups.2 (List.mem_flatMap.2 ⟨r, hr, hs⟩)
  have hrule {p : Production} (hp : p ∈ g.productions) :
      ∃ r ∈ rules, Rule.number g.nonterminals g.terminals r = p := by
    rw [hproductions] at hp
    exact List.mem_map.1 (List.mem_toArray.1 hp)
  refine ⟨fun p hp ↦ ?_, fun p hp n hn ↦ ?_, fun p hp x hx ↦ ?_⟩
  · obtain ⟨r, hr, rfl⟩ := hrule hp
    exact hname hr List.mem_cons_self
  · obtain ⟨r, hr, rfl⟩ := hrule hp
    obtain ⟨item, hitem, heq⟩ := List.mem_map.1 hn
    cases item with
    | terminal t => simp [RuleItem.number] at heq
    | nonterminal s =>
      obtain rfl := Item.nonterminal.inj heq
      exact hname hr (mem_names_of_nonterminal_mem hitem)
  · obtain ⟨r, hr, rfl⟩ := hrule hp
    obtain ⟨item, hitem, heq⟩ := List.mem_map.1 hx
    cases item with
    | nonterminal s => simp [RuleItem.number] at heq
    | terminal t =>
      obtain rfl := Item.terminal.inj heq
      have ht := hterm (List.mem_flatMap.2 ⟨r, hr, mem_terminals_iff.2 hitem⟩)
      refine Nat.lt_of_le_of_lt (symbolAt_toNat_le _) (List.idxOf_lt_length_iff.2 ?_)
      rw [hterminals]
      exact List.mem_eraseDups.2 ht

theorem wellFormed_of_parse? {alphabet : Option (List String)}
    (h : parse? text alphabet = .ok g) : g.WellFormed := by
  obtain ⟨rules, -, hterm, hg, -⟩ := exists_ofRules h
  exact wellFormed_of_ofRules hterm hg

end LangBench.Grammar
