import LangBench.Proofs.Grammar.Frames
import LangBench.Proofs.Grammar.Recognition
import LangBench.Proofs.Grammar.Renaming
import LangBench.Proofs.Grammar.Table

/-!
The numbers of terminals do not matter: grammars that have been read from one text, with different
alphabets or none, list the same rows of terminals and accept the same.
-/

namespace LangBench

namespace Grammar

variable {g g' : Grammar} {rules : List Rule} {t : String} {w : Sample}

/-- The symbol that another grammar has for a terminal. -/
def recode (g g' : Grammar) (x : Symbol) : Symbol := ((g.terminal? x).bind g'.symbol?).getD x

namespace MadeOf

theorem recode_symbolAt (hg : g.MadeOf rules) (hg' : g'.MadeOf rules)
    (ht : t ∈ rules.flatMap Rule.terminals) :
    recode g g' (symbolAt (g.terminals.idxOf t)) = symbolAt (g'.terminals.idxOf t) := by
  rw [recode, hg.terminal?_symbolAt ht, Option.bind_some, hg'.symbol?_eq ht, Option.getD_some]

theorem renamed (hg : g.MadeOf rules) (hg' : g'.MadeOf rules) : g.Renamed (recode g g') g' := by
  have hnames : g'.nonterminals = g.nonterminals := hg'.names.trans hg.names.symm
  refine ⟨congrArg List.length hnames, ?_⟩
  rw [hg.productions, hg'.productions, List.map_toArray, List.map_map, hnames]
  refine congrArg List.toArray (List.map_congr_left fun r hr ↦ ?_)
  rw [Function.comp_apply, Rule.number, Rule.number, Production.rename, List.map_map]
  refine congrArg (Production.mk _) (List.map_congr_left fun x hx ↦ ?_)
  cases x with
  | nonterminal s => rfl
  | terminal t =>
    have ht : t ∈ rules.flatMap Rule.terminals :=
      List.mem_flatMap.2 ⟨r, hr, mem_terminals_iff.2 hx⟩
    exact congrArg Item.terminal (hg.recode_symbolAt hg' ht).symm

/-- The symbols that derive from the start are those of terminals of the rules. -/
theorem exists_terminal (hg : g.MadeOf rules) (hw : g.Yields [.nonterminal g.start] w) :
    ∀ x ∈ w, ∃ t ∈ rules.flatMap Rule.terminals, x = symbolAt (g.terminals.idxOf t) := by
  obtain ⟨f, rfl⟩ := hw
  refine f.forall_mem_yield (fun p hp x hx ↦ ?_) (by simp)
  rw [hg.productions] at hp
  obtain ⟨r, hr, rfl⟩ := List.mem_map.1 (List.mem_toArray.1 hp)
  obtain ⟨item, hitem, heq⟩ := List.mem_map.1 hx
  cases item with
  | nonterminal s => simp [RuleItem.number] at heq
  | terminal t =>
    obtain rfl := Item.terminal.inj heq
    exact ⟨t, List.mem_flatMap.2 ⟨r, hr, mem_terminals_iff.2 hitem⟩, rfl⟩

/-- What derives from the start is decoded, and to the same terminals under the other numbers. -/
theorem exists_decode (hg : g.MadeOf rules) (hg' : g'.MadeOf rules)
    (hw : g.Yields [.nonterminal g.start] w) :
    ∃ words, w.mapM g.terminal? = some words ∧
      (w.map (recode g g')).mapM g'.terminal? = some words := by
  have hall := hg.exists_terminal hw
  clear hw
  induction w with
  | nil => exact ⟨[], rfl, rfl⟩
  | cons x w ih =>
    obtain ⟨⟨t, ht, rfl⟩, hrest⟩ := List.forall_mem_cons.1 hall
    obtain ⟨words, hwords, hwords'⟩ := ih hrest
    refine ⟨t :: words, ?_, ?_⟩
    · rw [List.mapM_cons, hg.terminal?_symbolAt ht, hwords]
      rfl
    · rw [List.map_cons, List.mapM_cons, hg.recode_symbolAt hg' ht,
        hg'.terminal?_symbolAt ht, hwords']
      rfl

/-- Samples that derive from the start stay the same rows of terminals under the other numbers. -/
theorem exists_rows (hg : g.MadeOf rules) (hg' : g'.MadeOf rules) {samples : List Sample}
    (h : ∀ w ∈ samples, g.Yields [.nonterminal g.start] w) :
    ∃ rows : List (List String), samples.map (·.mapM g.terminal?) = rows.map some ∧
      (samples.map (List.map (recode g g'))).map (·.mapM g'.terminal?) = rows.map some := by
  induction samples with
  | nil => exact ⟨[], rfl, rfl⟩
  | cons w samples ih =>
    obtain ⟨hw, hsamples⟩ := List.forall_mem_cons.1 h
    obtain ⟨words, hwords, hwords'⟩ := hg.exists_decode hg' hw
    obtain ⟨rows, hrows, hrows'⟩ := ih hsamples
    refine ⟨words :: rows, ?_, ?_⟩
    · rw [List.map_cons, hwords, hrows, List.map_cons]
    · rw [List.map_cons, List.map_cons, hwords', hrows', List.map_cons]

end MadeOf

end Grammar

namespace Cfg

open Grammar Derivations

variable {c c' : Cfg} {rules : List Rule} {text : String} {alphabet alphabet' : Option (List String)}

/-- A row of terminals that is accepted is accepted under the other numbers. -/
theorem accepts_of_madeOf (hc : c.grammar.MadeOf rules) (hc' : c'.grammar.MadeOf rules)
    (hwell : c.grammar.WellFormed) (hwell' : c'.grammar.WellFormed) {words : List String}
    (h : ∃ s, c.encode? words = some s ∧ c.accepts s = true) :
    ∃ s, c'.encode? words = some s ∧ c'.accepts s = true := by
  obtain ⟨s, hs, haccepts⟩ := h
  have hyields := (accepts_iff hwell s).1 haccepts
  have hdecode := (encode?_eq_some_iff hc.count_le hc.nodup).1 hs
  obtain ⟨words', hwords, hwords'⟩ := hc.exists_decode hc' hyields
  obtain rfl := Option.some.inj (hwords.symm.trans hdecode)
  refine ⟨s.map (recode c.grammar c'.grammar), ?_, ?_⟩
  · exact (encode?_eq_some_iff hc'.count_le hc'.nodup).2 hwords'
  · exact (accepts_iff hwell' _).2 ((hc.renamed hc').yields hyields)

/-- Grammars that have been read from one text list the same rows of terminals, one by one, and
accept the same rows, whatever their alphabets. -/
theorem same_terminals_of_same_text (h : parse? text alphabet = .ok c.grammar)
    (h' : parse? text alphabet' = .ok c'.grammar) (hdepth : c'.maxDepth = c.maxDepth)
    (hcount : c.grammar.terminalCount ≤ 2 ^ 32) (hcount' : c'.grammar.terminalCount ≤ 2 ^ 32) :
    (∀ maxLength budget n, ∃ rows : List (List String),
      (take step budget n (c.derivations maxLength)).samples.map c.decode? = rows.map some ∧
      (take step budget n (c'.derivations maxLength)).samples.map c'.decode? = rows.map some ∧
      (take step budget n (c'.derivations maxLength)).exhausted =
        (take step budget n (c.derivations maxLength)).exhausted ∧
      (take step budget n (c'.derivations maxLength)).stalled =
        (take step budget n (c.derivations maxLength)).stalled) ∧
    ∀ words, (∃ s, c'.encode? words = some s ∧ c'.accepts s = true) ↔
      ∃ s, c.encode? words = some s ∧ c.accepts s = true := by
  obtain ⟨rules, hrules, hc, -⟩ := exists_madeOf h hcount
  obtain ⟨rules', hrules', hc', -⟩ := exists_madeOf h' hcount'
  obtain rfl := Except.ok.inj (hrules.symm.trans hrules')
  refine ⟨fun maxLength budget n ↦ ?_, fun words ↦ ⟨?_, ?_⟩⟩
  · have htake := take_rename (hc.renamed hc') c.maxDepth maxLength budget n
    obtain ⟨rows, hrows, hrows'⟩ := hc.exists_rows hc' fun w hw ↦
      (yields_of_handsOut ⟨budget, n, hw⟩).1
    refine ⟨rows, hrows, ?_⟩
    rw [derivations, derivations, hdepth, htake]
    exact ⟨hrows', rfl, rfl⟩
  · exact accepts_of_madeOf hc' hc (wellFormed_of_parse? h') (wellFormed_of_parse? h)
  · exact accepts_of_madeOf hc hc' (wellFormed_of_parse? h) (wellFormed_of_parse? h')

/-- With an alphabet in another order, with a letter twice and one that is not used. -/
theorem same_terminals_of_same_text_reordered :
    ∃ c c' : Cfg, parse? "S -> 'b' S 'a' | 'a'" none = .ok c.grammar ∧
      parse? "S -> 'b' S 'a' | 'a'" (some ["a", "c", "a", "b"]) = .ok c'.grammar ∧
      c'.maxDepth = c.maxDepth ∧ c.grammar.terminalCount ≤ 2 ^ 32 ∧
      c'.grammar.terminalCount ≤ 2 ^ 32 ∧
      (take step 20 2 (c.derivations (some 3))).samples = [[1], [0, 1, 1]] ∧
      (take step 20 2 (c'.derivations (some 3))).samples.map c'.decode? =
        [some ["a"], some ["b", "a", "a"]] ∧
      ∃ s, c'.encode? ["b", "a", "a"] = some s ∧ c'.accepts s = true := by
  obtain ⟨g, h, htwo, hsamples, hrows, haccepts⟩ : ∃ g,
      parse? "S -> 'b' S 'a' | 'a'" none = .ok g ∧ g.terminalCount = 2 ∧
      (take step 20 2 ((Cfg.mk g none).derivations (some 3))).samples = [[1], [0, 1, 1]] ∧
      [[1], [0, 1, 1]].map (Cfg.mk g none).decode? = [some ["a"], some ["b", "a", "a"]] ∧
      ∃ s, (Cfg.mk g none).encode? ["b", "a", "a"] = some s ∧
        (Cfg.mk g none).accepts s = true :=
    ⟨_, by cbv, by cbv, by cbv, by cbv, _, by cbv, by cbv⟩
  obtain ⟨g', h', hthree⟩ : ∃ g', parse? "S -> 'b' S 'a' | 'a'" (some ["a", "c", "a", "b"]) = .ok g' ∧
      g'.terminalCount = 3 := ⟨_, by cbv, by cbv⟩
  have hcount : g.terminalCount ≤ 2 ^ 32 := by
    rw [htwo]
    decide
  have hcount' : g'.terminalCount ≤ 2 ^ 32 := by
    rw [hthree]
    decide
  obtain ⟨hlists, hiff⟩ :=
    @same_terminals_of_same_text ⟨g, none⟩ ⟨g', none⟩ _ _ _ h h' rfl hcount hcount'
  obtain ⟨rows, heq, heq', -⟩ := hlists (some 3) 20 2
  refine ⟨⟨g, none⟩, ⟨g', none⟩, h, h', rfl, hcount, hcount', hsamples, ?_, (hiff _).2 haccepts⟩
  rw [heq', ← heq, hsamples, hrows]

end Cfg

end LangBench
