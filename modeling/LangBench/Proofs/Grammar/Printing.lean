import LangBench.Proofs.Grammar.Layout
import LangBench.Proofs.Grammar.Table

/-!
A grammar that is written and read again is the same grammar.

What is written is one layout of the rules that the grammar was made of. They come in the same order
as before, so names and terminals get the numbers that they had.
-/

namespace LangBench.Grammar

variable {g : Grammar} {rules : List Rule} {r : Rule}

namespace MadeOf

theorem itemChars_number (hg : g.MadeOf rules) (hr : r ∈ rules) {x : RuleItem} (hx : x ∈ r.items) :
    g.itemChars (x.number g.nonterminals g.terminals) = x.token.chars := by
  cases x with
  | terminal t =>
    have ht := hg.terminal?_symbolAt (List.mem_flatMap.2 ⟨r, hr, mem_terminals_iff.2 hx⟩)
    rw [RuleItem.number, itemChars, ht, Option.getD_some]
    rfl
  | nonterminal s =>
    have hs := List.getElem?_idxOf (hg.names_subset hr (mem_names_of_nonterminal_mem hx))
    rw [RuleItem.number, itemChars, List.getD_eq_getElem?_getD, hs, Option.getD_some]
    rfl

theorem productionChars_number (hg : g.MadeOf rules) (hr : r ∈ rules) :
    g.productionChars (r.number g.nonterminals g.terminals) = r.chars ++ ['\n'] := by
  have hname := List.getElem?_idxOf (hg.names_subset hr List.mem_cons_self)
  have hitems : (r.items.map (RuleItem.number g.nonterminals g.terminals)).flatMap
      (fun x ↦ ' ' :: g.itemChars x) = r.items.flatMap fun x ↦ ' ' :: x.token.chars := by
    rw [List.flatMap_map]
    refine List.flatMap_congr fun x hx ↦ ?_
    rw [hg.itemChars_number hr hx]
  rw [Rule.number, productionChars, hitems, List.getD_eq_getElem?_getD, hname, Option.getD_some]
  rfl

/-- A grammar is written as the rules that it was made of, one on a line. -/
theorem toList_render (hg : g.MadeOf rules) :
    g.render.toList = rules.flatMap fun r ↦ r.chars ++ ['\n'] := by
  rw [render, String.toList_ofList, hg.productions, List.flatMap_map]
  exact List.flatMap_congr fun r hr ↦ hg.productionChars_number hr

theorem readRules_render {text : String} (hg : g.MadeOf rules) (h : readRules text = .ok rules) :
    readRules g.render = .ok rules := by
  have hwritable := (layout_of_readLines h).writable nofun
  rw [readRules, hg.toList_render]
  exact readLines_of_layout (layout_of_writable hwritable none) 1

end MadeOf

/-- A grammar that has been read is read again from what it is written as, with the alphabet that it
was read with, if any. Read without an alphabet it is written the same again. -/
theorem parse?_render {text : String} {alphabet : Option (List String)}
    (h : parse? text alphabet = .ok g) (hcount : g.terminalCount ≤ 2 ^ 32) :
    parse? g.render alphabet = .ok g ∧
      ∃ g', parse g.render = .ok g' ∧ g'.render = g.render := by
  obtain ⟨rules, hrules, hg, hsame⟩ := exists_madeOf h hcount
  have hread := hg.readRules_render hrules
  refine ⟨hsame _ hread, ?_⟩
  obtain ⟨g', h', hg'⟩ := hg.exists_parse hread
  refine ⟨g', h', String.toList_inj.1 ?_⟩
  rw [hg'.toList_render, hg.toList_render]

/-- Terminals with quotes, backslashes and bars, in another order than that of the alphabet. -/
theorem parse?_render_quotes :
    ∃ g, parse? "S -> 'it\\'s' B | \"a\\\\b\" |\r\nB -> '#|'"
        (some ["z", "#|", "a\\b", "it's"]) = .ok g ∧
      g.terminalCount ≤ 2 ^ 32 ∧
      parse? g.render (some ["z", "#|", "a\\b", "it's"]) = .ok g ∧
      ∃ g', parse g.render = .ok g' ∧ g'.render = g.render := by
  obtain ⟨g, h, hfour⟩ : ∃ g, parse? "S -> 'it\\'s' B | \"a\\\\b\" |\r\nB -> '#|'"
      (some ["z", "#|", "a\\b", "it's"]) = .ok g ∧ g.terminalCount = 4 := ⟨_, by cbv, by cbv⟩
  have hcount : g.terminalCount ≤ 2 ^ 32 := by
    rw [hfour]
    decide
  obtain ⟨hsame, hother⟩ := parse?_render h hcount
  exact ⟨g, h, hcount, hsame, hother⟩

example : (parse "S->\"it's\"S# and so on\n |").toOption.map render =
    some "S -> 'it\\'s' S\nS ->\n" := by cbv

end LangBench.Grammar
