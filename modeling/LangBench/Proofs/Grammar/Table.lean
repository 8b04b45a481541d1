import LangBench.Grammar.Cfg
import LangBench.Proofs.Dict
import LangBench.Proofs.Grammar.WellFormed
import LangBench.Proofs.Outcome
import Mathlib

/-!
The table of terminals of a grammar that has been read: every terminal of the rules is in it, and
none twice. As long as there are no more terminals than symbols, the list of texts and the map to
symbols undo each other, and so do coding and decoding.
-/

namespace LangBench

theorem nodup_eraseDups (l : List String) : l.eraseDups.Nodup := by
  cases l with
  | nil => exact .nil
  | cons a l =>
    rw [List.eraseDups_cons, List.nodup_cons]
    refine ⟨?_, nodup_eraseDups _⟩
    simp [List.mem_eraseDups]
termination_by l.length
decreasing_by exact Nat.lt_succ_of_le (List.length_filter_le _ _)

/-- How many different texts come before the first `t` in a list. -/
def distinctBefore (t : String) (l : List String) : Nat := (l.take (l.idxOf t)).toFinset.card

theorem length_eraseDups (l : List String) : l.eraseDups.length = l.toFinset.card := by
  rw [← List.toFinset_card_of_nodup (nodup_eraseDups l)]
  congr 1
  ext t
  simp [List.mem_eraseDups]

theorem idxOf_eraseDups {t : String} {l : List String} (h : t ∈ l) :
    l.eraseDups.idxOf t = distinctBefore t l := by
  obtain ⟨before, after, rfl, hnot⟩ := List.eq_append_cons_of_mem h
  have hnot' : t ∉ before.eraseDups := fun ht ↦ hnot (List.mem_eraseDups.1 ht)
  have hplace : (before ++ t :: after).idxOf t = before.length := by
    rw [List.idxOf_append_of_notMem hnot, List.idxOf_cons_self, Nat.add_zero]
  have hrest : (t :: after).removeAll before = t :: after.removeAll before :=
    List.filter_cons_of_pos (by simpa using hnot)
  rw [distinctBefore, hplace, List.take_left, List.eraseDups_append, hrest, List.eraseDups_cons,
    List.idxOf_append_of_notMem hnot', List.idxOf_cons_self, Nat.add_zero, length_eraseDups]

theorem distinctBefore_getElem {l : List String} (hnodup : l.Nodup) {i : Nat} (hi : i < l.length) :
    distinctBefore l[i] l = i := by
  rw [distinctBefore, hnodup.idxOf_getElem i hi, List.toFinset_card_of_nodup (hnodup.take),
    List.length_take_of_le hi.le]

namespace Grammar

variable {g : Grammar} {rules : List Rule} {t : String} {x : Symbol} {i : Nat}

theorem toNat_symbolAt (h : i < 2 ^ 32) : (symbolAt i).toNat = i := by
  rw [symbolAt, UInt32.toNat_ofNat', Nat.mod_eq_of_lt h]

theorem terminal?_symbolAt (hcount : g.terminalCount ≤ 2 ^ 32) (ht : t ∈ g.terminals) :
    g.terminal? (symbolAt (g.terminals.idxOf t)) = some t := by
  have hlt := List.idxOf_lt_length_iff.2 ht
  rw [terminal?, toNat_symbolAt (Nat.lt_of_lt_of_le hlt hcount), List.getElem?_idxOf ht]

theorem symbolTable_append_singleton (terminals : List String) (t : String) :
    symbolTable (terminals ++ [t]) =
      (symbolTable terminals).insert t (symbolAt terminals.length) := by
  simp [symbolTable, Dict.ofList, List.zipIdx_append]

theorem get?_symbolTable {terminals : List String} (hnodup : terminals.Nodup) :
    (symbolTable terminals).get? t = some x ↔ ∃ i, terminals[i]? = some t ∧ symbolAt i = x := by
  -- the terminals that are bound so far have their places, as the last is none of them
  induction terminals using List.reverseRecOn with
  | nil => simp [symbolTable, Dict.ofList, Dict.get?, Dict.empty]
  | append_singleton terminals last ih =>
    have hinit := hnodup.of_append_left
    have hplace (i : Nat) : (terminals ++ [last])[i]? = some t ↔
        terminals[i]? = some t ∨ terminals.length = i ∧ last = t := by
      grind
    rw [symbolTable_append_singleton, Dict.get?_insert]
    simp only [hplace, or_and_right, exists_or]
    by_cases hlast : t = last
    · subst hlast
      have hnot (i : Nat) : terminals[i]? ≠ some t := fun hi ↦
        List.disjoint_of_nodup_append hnodup (List.mem_of_getElem? hi) (List.mem_singleton_self t)
      simp [hnot]
    · simp [hlast, Ne.symm hlast, ih hinit]

/-- As long as no two terminals share a symbol, a terminal is encoded as what is decoded to it. -/
theorem symbol?_eq_some_iff (hcount : g.terminalCount ≤ 2 ^ 32) (hnodup : g.terminals.Nodup) :
    g.symbol? t = some x ↔ g.terminal? x = some t := by
  rw [symbol?, g.symbols_eq, get?_symbolTable hnodup]
  constructor
  · intro hex
    obtain ⟨i, hi, rfl⟩ := hex
    have hlt := (List.getElem?_eq_some_iff.1 hi).1
    rwa [terminal?, toNat_symbolAt (Nat.lt_of_lt_of_le hlt hcount)]
  · exact fun hx ↦ ⟨x.toNat, hx, UInt32.ofNat_toNat⟩

theorem isSome_terminal?_iff : (g.terminal? x).isSome = true ↔ x.toNat < g.terminalCount :=
  iff_of_eq (isSome_getElem? g.terminals x.toNat)

theorem symbol?_eq_some_iff_declared {texts : List String} (hcount : g.terminalCount ≤ 2 ^ 32)
    (hterminals : g.terminals = texts.eraseDups) :
    g.symbol? t = some x ↔ t ∈ texts ∧ x.toNat = distinctBefore t texts := by
  have hnodup : g.terminals.Nodup := hterminals ▸ nodup_eraseDups texts
  rw [symbol?_eq_some_iff hcount hnodup, terminal?, hterminals]
  constructor
  · intro hx
    obtain ⟨hlt, heq⟩ := List.getElem?_eq_some_iff.1 hx
    have ht : t ∈ texts := List.mem_eraseDups.1 (List.mem_of_getElem? hx)
    refine ⟨ht, ?_⟩
    rw [← idxOf_eraseDups ht, ← heq, (nodup_eraseDups texts).idxOf_getElem _ hlt]
  · intro hx
    obtain ⟨ht, heq⟩ := hx
    rw [heq, ← idxOf_eraseDups ht, List.getElem?_idxOf (List.mem_eraseDups.2 ht)]

theorem symbol?_getElem {texts : List String} (hcount : g.terminalCount ≤ 2 ^ 32)
    (hterminals : g.terminals = texts.eraseDups) (hnodup : texts.Nodup) (hi : i < texts.length) :
    g.symbol? texts[i] = some (symbolAt i) := by
  have hlength : g.terminalCount = texts.length := by
    rw [terminalCount, hterminals, length_eraseDups, List.toFinset_card_of_nodup hnodup]
  have hlt : i < 2 ^ 32 := Nat.lt_of_lt_of_le hi (hlength ▸ hcount)
  rw [symbol?_eq_some_iff_declared hcount hterminals, toNat_symbolAt hlt]
  exact ⟨List.getElem_mem hi, (distinctBefore_getElem hnodup hi).symm⟩

/-- A grammar that has been made of rules and of a table with all their terminals, which are no more
than there are symbols. -/
structure MadeOf (g : Grammar) (rules : List Rule) : Prop where
  rules_ne_nil : rules ≠ []
  names : g.nonterminals = (rules.flatMap Rule.names).eraseDups
  terminals : rules.flatMap Rule.terminals ⊆ g.terminals
  nodup : g.terminals.Nodup
  count_le : g.terminalCount ≤ 2 ^ 32
  productions : g.productions = (rules.map (Rule.number g.nonterminals g.terminals)).toArray

theorem exists_madeOf {text : String} {alphabet : Option (List String)}
    (h : parse? text alphabet = .ok g) (hcount : g.terminalCount ≤ 2 ^ 32) :
    ∃ rules, readRules text = .ok rules ∧ g.MadeOf rules ∧
      ∀ text', readRules text' = .ok rules → parse? text' alphabet = .ok g := by
  obtain ⟨rules, hrules, hterm, hof, hsame⟩ := exists_ofRules h
  obtain ⟨hne, hnames, hterminals, hproductions⟩ := ofRules_eq_ok hof
  refine ⟨rules, hrules, ⟨hne, hnames, fun t ht ↦ ?_, ?_, hcount, hproductions⟩, hsame⟩
  · rw [hterminals]
    exact List.mem_eraseDups.2 (hterm ht)
  · rw [hterminals]
    exact nodup_eraseDups _

namespace MadeOf

theorem names_subset (hg : g.MadeOf rules) {r : Rule} (hr : r ∈ rules) :
    r.names ⊆ g.nonterminals := by
  intro s hs
  rw [hg.names]
  exact List.mem_eraseDups.2 (List.mem_flatMap.2 ⟨r, hr, hs⟩)

theorem terminal?_symbolAt (hg : g.MadeOf rules) (ht : t ∈ rules.flatMap Rule.terminals) :
    g.terminal? (symbolAt (g.terminals.idxOf t)) = some t :=
  Grammar.terminal?_symbolAt hg.count_le (hg.terminals ht)

theorem symbol?_eq (hg : g.MadeOf rules) (ht : t ∈ rules.flatMap Rule.terminals) :
    g.symbol? t = some (symbolAt (g.terminals.idxOf t)) :=
  (symbol?_eq_some_iff hg.count_le hg.nodup).2 (hg.terminal?_symbolAt ht)

/-- Without an alphabet the terminals that are used make up the table, which has no more then. -/
theorem exists_parse (hg : g.MadeOf rules) {text : String} (h : readRules text = .ok rules) :
    ∃ g', parse text = .ok g' ∧ g'.MadeOf rules := by
  have hne : ¬ rules.isEmpty = true := fun hnil ↦ hg.rules_ne_nil (List.isEmpty_iff.1 hnil)
  have hnodup := nodup_eraseDups (rules.flatMap Rule.terminals)
  have hsub : (rules.flatMap Rule.terminals).eraseDups ⊆ g.terminals := fun t ht ↦
    hg.terminals (List.mem_eraseDups.1 ht)
  refine ⟨_, bind_eq_ok.2 ⟨rules, h, if_neg hne⟩, hg.rules_ne_nil, rfl, ?_, hnodup, ?_, rfl⟩
  · exact fun t ht ↦ List.mem_eraseDups.2 ht
  · exact Nat.le_trans (hnodup.subperm hsub).length_le hg.count_le

end MadeOf

end Grammar

namespace Cfg

theorem encode?_eq_some_iff {c : Cfg} (hcount : c.grammar.terminalCount ≤ 2 ^ 32)
    (hnodup : c.grammar.terminals.Nodup) {words : List String} {s : Sample} :
    c.encode? words = some s ↔ c.decode? s = some words := by
  have hterminal (t : String) (x : Symbol) := Grammar.symbol?_eq_some_iff (x := x) (t := t) hcount hnodup
  rw [encode?, decode?, mapM_eq_some_iff, mapM_eq_some_iff]
  simp only [hterminal]
  exact ⟨List.Forall₂.flip, List.Forall₂.flip⟩

theorem isSome_decode?_iff {c : Cfg} {s : Sample} :
    (c.decode? s).isSome = true ↔ s.withinAlphabet c.grammar.terminalCount = true := by
  rw [Sample.withinAlphabet_iff, decode?, isSome_mapM_iff]
  simp only [Grammar.isSome_terminal?_iff]

/-- The symbols below the number of terminals are those of the terminals that are declared: of each,
the number of different ones that come before it is first declared. So a sample is decoded just if
it is of the alphabet, and to what it is the code of. -/
theorem terminals_numbered {text : String} {alphabet : Option (List String)} {c : Cfg}
    (h : Grammar.parse? text alphabet = .ok c.grammar)
    (hcount : c.grammar.terminalCount ≤ 2 ^ 32) :
    (∀ t x, c.grammar.symbol? t = some x ↔ c.grammar.terminal? x = some t) ∧
    (∀ x, (c.grammar.terminal? x).isSome = true ↔ x.toNat < c.grammar.terminalCount) ∧
    (∃ rules, Grammar.readRules text = .ok rules ∧ ∀ t x, c.grammar.symbol? t = some x ↔
      t ∈ Grammar.declared alphabet rules ∧
        x.toNat = distinctBefore t (Grammar.declared alphabet rules)) ∧
    (∀ texts, alphabet = some texts → texts.Nodup → ∀ (i : Nat) (hi : i < texts.length),
      c.grammar.symbol? texts[i] = some (Grammar.symbolAt i)) ∧
    (∀ s, (c.decode? s).isSome = true ↔ s.withinAlphabet c.grammar.terminalCount = true) ∧
    ∀ s words, c.decode? s = some words ↔ c.encode? words = some s := by
  obtain ⟨rules, hrules, -, hof, -⟩ := Grammar.exists_ofRules h
  obtain ⟨-, -, hterminals, -⟩ := Grammar.ofRules_eq_ok hof
  have hnodup : c.grammar.terminals.Nodup := hterminals ▸ nodup_eraseDups _
  refine ⟨fun t x ↦ Grammar.symbol?_eq_some_iff hcount hnodup, fun x ↦ Grammar.isSome_terminal?_iff,
    ⟨rules, hrules, fun t x ↦ Grammar.symbol?_eq_some_iff_declared hcount hterminals⟩, ?_,
    fun s ↦ isSome_decode?_iff, fun s words ↦ (encode?_eq_some_iff hcount hnodup).symm⟩
  intro texts halphabet hdistinct i hi
  subst halphabet
  exact Grammar.symbol?_getElem hcount hterminals hdistinct hi

/-- With a text that is declared twice and one that is not used. -/
theorem terminals_numbered_repeated :
    ∃ c : Cfg, Grammar.parse? "S -> 'a' S 'b' | " (some ["b", "a", "b", "c"]) = .ok c.grammar ∧
      c.grammar.terminalCount = 3 ∧ c.grammar.terminalCount ≤ 2 ^ 32 ∧
      c.grammar.symbol? "c" = some 2 ∧ c.grammar.terminal? 2 = some "c" ∧
      c.decode? [1, 0] = some ["a", "b"] ∧ c.encode? ["a", "b"] = some [1, 0] ∧
      (c.decode? [1, 3]).isSome ≠ true := by
  obtain ⟨g, h, hthree, hdecode⟩ : ∃ g,
      Grammar.parse? "S -> 'a' S 'b' | " (some ["b", "a", "b", "c"]) = .ok g ∧
      g.terminalCount = 3 ∧ (Cfg.mk g none).decode? [1, 0] = some ["a", "b"] :=
    ⟨_, by cbv, by cbv, by cbv⟩
  have hcount : g.terminalCount ≤ 2 ^ 32 := by
    rw [hthree]
    decide
  obtain ⟨hterminal, -, ⟨rules, -, hplace⟩, -, hwithin, hencode⟩ :=
    @terminals_numbered _ _ ⟨g, none⟩ h hcount
  have hlast : g.symbol? "c" = some 2 :=
    (hplace "c" 2).2 ⟨show "c" ∈ ["b", "a", "b", "c"] by decide, by rfl⟩
  refine ⟨⟨g, none⟩, h, hthree, hcount, hlast, (hterminal _ _).1 hlast, hdecode,
    (hencode _ _).1 hdecode, fun hsome ↦ ?_⟩
  have hwithin' := (hwithin _).1 hsome
  rw [hthree] at hwithin'
  exact absurd hwithin' (by decide)

end Cfg

end LangBench
