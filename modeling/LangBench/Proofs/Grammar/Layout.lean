import LangBench.Grammar.Rule
import LangBench.Proofs.Grammar.Notation

/-!
How a list of rules may be laid out in a text, and that the reader of texts accepts just that.
-/

namespace LangBench.Grammar

def RuleItem.token : RuleItem → Token
  | .terminal s => .quoted s
  | .nonterminal s => .name s

/-- Alternatives with a bar between each and the next. -/
def alternativeTokens (alts : List (List RuleItem)) : List Token :=
  [Token.bar].intercalate (alts.map (List.map RuleItem.token))

/-- The rules that a line adds after a rule for `current`, and the name of the last rule then. A line
adds nothing, the alternatives of a name, or after a bar further ones of the name before. -/
inductive LineRules (current : Option String) :
    List Token → List Rule → Option String → Prop
  | nothing : LineRules current [] [] current
  | rules (name : String) {alts : List (List RuleItem)} : alts ≠ [] →
      LineRules current (.name name :: .arrow :: alternativeTokens alts)
        (alts.map (Rule.mk name)) (some name)
  | further {name : String} {alts : List (List RuleItem)} : current = some name → alts ≠ [] →
      LineRules current (.bar :: alternativeTokens alts) (alts.map (Rule.mk name)) (some name)

/-- A text from where a line begins, with the rules that it gives after a rule for `current`. Only the
last line may be without an end. -/
inductive Layout : Option String → List Rule → List Char → Prop
  | last {current next : Option String} {ts : List Token} {rules : List Rule} {line : List Char} :
      Line ts line → '\n' ∉ line → LineRules current ts rules next → Layout current rules line
  | line {current next : Option String} {ts : List Token} {rules later : List Rule}
      {line ending rest : List Char} :
      Line ts line → '\n' ∉ line → LineRules current ts rules next →
      ending = ['\n'] ∨ ending = ['\r', '\n'] → Layout next later rest →
      Layout current (rules ++ later) (line ++ ending ++ rest)

section Alternatives

variable {items : List RuleItem} {alts : List (List RuleItem)} {ts : List Token}

theorem alternativeTokens_singleton (items : List RuleItem) :
    alternativeTokens [items] = items.map RuleItem.token := by
  simp [alternativeTokens, List.intercalate]

theorem alternativeTokens_cons (items : List RuleItem) (hne : alts ≠ []) :
    alternativeTokens (items :: alts) =
      items.map RuleItem.token ++ .bar :: alternativeTokens alts := by
  obtain ⟨alt, alts, rfl⟩ := List.exists_cons_of_ne_nil hne
  simp [alternativeTokens, List.intercalate]

theorem alternativeTokens_consItem (x : RuleItem) (hne : alts ≠ []) :
    consItem x alts ≠ [] ∧ alternativeTokens (consItem x alts) = x.token :: alternativeTokens alts := by
  obtain ⟨items, alts, rfl⟩ := List.exists_cons_of_ne_nil hne
  refine ⟨List.cons_ne_nil _ _, ?_⟩
  cases alts with
  | nil => rw [consItem, alternativeTokens_singleton, alternativeTokens_singleton, List.map_cons]
  | cons alt alts =>
    rw [consItem, alternativeTokens_cons _ (List.cons_ne_nil _ _),
      alternativeTokens_cons _ (List.cons_ne_nil _ _), List.map_cons, List.cons_append]

theorem alternatives_append (items : List RuleItem) (h : alternatives ts = .ok ([] :: alts)) :
    alternatives (items.map RuleItem.token ++ ts) = .ok (items :: alts) := by
  induction items with
  | nil => exact h
  | cons x items ih =>
    cases x <;> rw [List.map_cons, List.cons_append, RuleItem.token, alternatives, ih] <;> rfl

theorem eq_alternativeTokens (h : alternatives ts = .ok alts) :
    alts ≠ [] ∧ ts = alternativeTokens alts := by
  induction ts generalizing alts with
  | nil =>
    cases h
    exact ⟨List.cons_ne_nil _ _, rfl⟩
  | cons t ts ih =>
    cases t with
    | arrow => cases h
    | bar =>
      obtain ⟨alts, hts, rfl⟩ := map_eq_ok.1 h
      obtain ⟨hne, rfl⟩ := ih hts
      exact ⟨List.cons_ne_nil _ _, (alternativeTokens_cons [] hne).symm⟩
    | name s =>
      obtain ⟨alts, hts, rfl⟩ := map_eq_ok.1 h
      obtain ⟨hne, rfl⟩ := ih hts
      obtain ⟨hne, heq⟩ := alternativeTokens_consItem (.nonterminal s) hne
      exact ⟨hne, heq.symm⟩
    | quoted s =>
      obtain ⟨alts, hts, rfl⟩ := map_eq_ok.1 h
      obtain ⟨hne, rfl⟩ := ih hts
      obtain ⟨hne, heq⟩ := alternativeTokens_consItem (.terminal s) hne
      exact ⟨hne, heq.symm⟩

theorem alternatives_alternativeTokens (hne : alts ≠ []) :
    alternatives (alternativeTokens alts) = .ok alts := by
  induction alts with
  | nil => exact absurd rfl hne
  | cons items alts ih =>
    cases alts with
    | nil =>
      rw [alternativeTokens_singleton, ← List.append_nil (items.map _)]
      exact alternatives_append items rfl
    | cons alt alts =>
      rw [alternativeTokens_cons _ (List.cons_ne_nil _ _)]
      refine alternatives_append items ?_
      rw [alternatives, ih (List.cons_ne_nil _ _)]
      rfl

end Alternatives

section Lines

variable {current next : Option String} {rules : List Rule} {ts : List Token}
  {line rest cs : List Char} {n : Nat}

/-- The rules of a line that has been read. -/
def rulesOf : Option (String × List (List RuleItem)) → List Rule
  | none => []
  | some (name, alts) => alts.map (Rule.mk name)

/-- The name of the last rule after a line that has been read. -/
def nameAfter (current : Option String) : Option (String × List (List RuleItem)) → Option String
  | none => current
  | some (name, _) => some name

theorem lineRules_of_readTokens {result : Option (String × List (List RuleItem))}
    (h : readTokens current ts = .ok result) :
    LineRules current ts (rulesOf result) (nameAfter current result) := by
  unfold readTokens at h
  split at h
  · cases h
    exact .nothing
  · obtain ⟨alts, hts, rfl⟩ := map_eq_ok.1 h
    obtain ⟨hne, rfl⟩ := eq_alternativeTokens hts
    exact .rules _ hne
  · split at h
    · cases h
    · obtain ⟨alts, hts, rfl⟩ := map_eq_ok.1 h
      obtain ⟨hne, rfl⟩ := eq_alternativeTokens hts
      exact .further rfl hne
  · cases h

theorem exists_readTokens (h : LineRules current ts rules next) :
    ∃ result, readTokens current ts = .ok result ∧ rules = rulesOf result ∧
      next = nameAfter current result := by
  cases h with
  | nothing => exact ⟨none, rfl, rfl, rfl⟩
  | @rules name alts hne =>
    refine ⟨some (name, alts), ?_, rfl, rfl⟩
    rw [readTokens, alternatives_alternativeTokens hne]
    rfl
  | @further name alts hcurrent hne =>
    refine ⟨some (name, alts), ?_, rfl, rfl⟩
    subst hcurrent
    rw [readTokens, alternatives_alternativeTokens hne]
    rfl

theorem readLines_cons (n : Nat) (current : Option String) (line : List Char)
    (rest : List (List Char)) :
    readLines n current (line :: rest) =
      match readLine current line with
      | .error fault => .error (.badLine n fault)
      | .ok result =>
        (readLines (n + 1) (nameAfter current result) rest).map (rulesOf result ++ ·) := by
  rw [readLines]
  split
  · next h => rw [h]
  · next h =>
    rw [h]
    show readLines (n + 1) current rest = (readLines (n + 1) current rest).map ([] ++ ·)
    cases readLines (n + 1) current rest <;> rfl
  · next h =>
    rw [h]
    rfl

/-- Lines are read just if the first of them gives some rules and the others give the rest. -/
theorem readLines_cons_eq_ok_iff {rest : List (List Char)} :
    readLines n current (line :: rest) = .ok rules ↔
      ∃ ts first next later, Line ts line ∧ LineRules current ts first next ∧
        readLines (n + 1) next rest = .ok later ∧ rules = first ++ later := by
  rw [readLines_cons]
  constructor
  · intro h
    split at h
    · cases h
    · next result hline =>
      obtain ⟨ts, hts, hread⟩ := bind_eq_ok.1 hline
      obtain ⟨later, hlater, rfl⟩ := map_eq_ok.1 h
      exact ⟨ts, _, _, later, tokenize_eq_ok_iff.1 hts, lineRules_of_readTokens hread, hlater, rfl⟩
  · rintro ⟨ts, first, next, later, hline, hrules, hlater, rfl⟩
    obtain ⟨result, hread, rfl, rfl⟩ := exists_readTokens hrules
    have hresult : readLine current line = .ok result :=
      bind_eq_ok.2 ⟨ts, tokenize_eq_ok_iff.2 hline, hread⟩
    rw [hresult]
    exact map_eq_ok.2 ⟨later, hlater, rfl⟩

theorem exists_lines_eq {ending : List Char} (h : Line ts line) (hline : '\n' ∉ line)
    (hending : ending = ['\n'] ∨ ending = ['\r', '\n']) (rest : List Char) :
    ∃ first, Line ts first ∧ Text.lines (line ++ ending ++ rest) = first :: Text.lines rest := by
  rw [List.append_assoc]
  rcases hending with rfl | rfl
  · obtain ⟨first, _, -, ⟨rfl, -⟩ | ⟨rfl, -⟩, hsplit⟩ := Text.exists_lines_append_lf hline
    · exact ⟨line, h, (hsplit rest).2⟩
    · exact ⟨first, h.of_append_cr, (hsplit rest).2⟩
  · exact ⟨line, h, Text.lines_append_crlf hline rest⟩

theorem readLines_of_layout (h : Layout current rules cs) (n : Nat) :
    readLines n current (Text.lines cs) = .ok rules := by
  induction h generalizing n with
  | @last _ _ ts rules line hline hnot hrules =>
    rw [Text.lines_of_last hnot]
    split
    · next heq =>
      rw [heq] at hline
      obtain rfl := hline.eq_nil
      cases hrules
      rfl
    · exact readLines_cons_eq_ok_iff.2
        ⟨ts, rules, _, [], hline, hrules, rfl, (List.append_nil _).symm⟩
  | @line _ _ ts rules later _ _ rest hline hnot hrules hending _ ih =>
    obtain ⟨first, hfirst, heq⟩ := exists_lines_eq hline hnot hending rest
    rw [heq]
    exact readLines_cons_eq_ok_iff.2 ⟨ts, rules, _, later, hfirst, hrules, ih (n + 1), rfl⟩

theorem layout_of_readLines {cs : List Char} {current : Option String} {rules : List Rule} {n : Nat}
    (h : readLines n current (Text.lines cs) = .ok rules) : Layout current rules cs := by
  by_cases hmem : '\n' ∈ cs
  · obtain ⟨line, rest, hcs, hline⟩ := List.eq_append_cons_of_mem hmem
    obtain ⟨first, ending, hfirst, hending, hsplit⟩ := Text.exists_lines_append_lf hline
    obtain ⟨heq, hlines⟩ := hsplit rest
    have hlt : rest.length < cs.length := by
      rw [hcs, List.length_append, List.length_cons]
      omega
    rw [hcs, hlines] at h
    obtain ⟨ts, rules, next, later, hts, hrules, hlater, rfl⟩ := readLines_cons_eq_ok_iff.1 h
    rw [hcs, heq]
    exact .line hts hfirst hrules (hending.imp And.right And.right) (layout_of_readLines hlater)
  · rw [Text.lines_of_last hmem] at h
    split at h
    · next heq =>
      cases h
      rw [heq]
      exact .last .nil List.not_mem_nil .nothing
    · obtain ⟨ts, rules, next, later, hts, hrules, hlater, rfl⟩ := readLines_cons_eq_ok_iff.1 h
      cases hlater
      rw [List.append_nil]
      exact .last hts hmem hrules
termination_by cs.length
decreasing_by exact hlt

end Lines

section Writable

variable {current next : Option String} {rules : List Rule} {ts : List Token} {cs : List Char}
  {r : Rule}

/-- A rule all of whose tokens can be written. -/
structure Rule.Writable (r : Rule) : Prop where
  name : (Token.name r.name).Writable
  items : ∀ x ∈ r.items, x.token.Writable

theorem token_mem_alternativeTokens {x : RuleItem} {items : List RuleItem}
    {alts : List (List RuleItem)} (hitems : items ∈ alts) (hx : x ∈ items) :
    x.token ∈ alternativeTokens alts := by
  induction alts with
  | nil => simp at hitems
  | cons alt alts ih =>
    cases alts with
    | nil =>
      obtain rfl := List.mem_singleton.1 hitems
      rw [alternativeTokens_singleton]
      exact List.mem_map_of_mem hx
    | cons alt' alts =>
      rw [alternativeTokens_cons _ (List.cons_ne_nil _ _), List.mem_append]
      rcases List.mem_cons.1 hitems with rfl | hitems
      · exact .inl (List.mem_map_of_mem hx)
      · exact .inr (List.mem_cons_of_mem _ (ih hitems))

theorem writable_alternatives {name : String} {alts : List (List RuleItem)}
    (hname : (Token.name name).Writable) (halts : ∀ t ∈ alternativeTokens alts, t.Writable) :
    ∀ r ∈ alts.map (Rule.mk name), r.Writable := by
  intro r hr
  obtain ⟨items, hitems, rfl⟩ := List.mem_map.1 hr
  exact ⟨hname, fun x hx ↦ halts _ (token_mem_alternativeTokens hitems hx)⟩

theorem LineRules.writable (h : LineRules current ts rules next) (hts : ∀ t ∈ ts, t.Writable)
    (hcurrent : ∀ name ∈ current, (Token.name name).Writable) :
    (∀ r ∈ rules, r.Writable) ∧ ∀ name ∈ next, (Token.name name).Writable := by
  cases h with
  | nothing => exact ⟨by simp, hcurrent⟩
  | rules name _ =>
    obtain ⟨hname, hrest⟩ := List.forall_mem_cons.1 hts
    refine ⟨writable_alternatives hname (List.forall_mem_cons.1 hrest).2, ?_⟩
    rintro _ ⟨⟩
    exact hname
  | @further name _ hname _ =>
    have hname := hcurrent name hname
    refine ⟨writable_alternatives hname (List.forall_mem_cons.1 hts).2, ?_⟩
    rintro _ ⟨⟩
    exact hname

theorem Layout.writable (h : Layout current rules cs)
    (hcurrent : ∀ name ∈ current, (Token.name name).Writable) : ∀ r ∈ rules, r.Writable := by
  induction h with
  | last hline hnot hrules => exact (hrules.writable (hline.writable hnot) hcurrent).1
  | line hline hnot hrules _ _ ih =>
    obtain ⟨hfirst, hnext⟩ := hrules.writable (hline.writable hnot) hcurrent
    exact List.forall_mem_append.2 ⟨hfirst, ih hnext⟩

/-- One way to write a rule: on a line of its own. -/
def Rule.chars (r : Rule) : List Char :=
  r.name.toList ++ [' ', '-', '>'] ++ r.items.flatMap (fun x ↦ ' ' :: x.token.chars)

theorem line_items {items : List RuleItem} (h : ∀ x ∈ items, x.token.Writable) :
    Line (items.map RuleItem.token) (items.flatMap fun x ↦ ' ' :: x.token.chars) := by
  induction items with
  | nil => exact .nil
  | cons x items ih =>
    obtain ⟨hx, hitems⟩ := List.forall_mem_cons.1 h
    rw [List.map_cons, List.flatMap_cons, List.cons_append]
    refine .blank rfl (.token hx.spelled (fun hclash ↦ ?_) (ih hitems))
    cases items with
    | nil => exact absurd hclash (Token.not_clashes_nil _)
    | cons y items => exact ⟨' ', _, rfl, rfl⟩

theorem Rule.Writable.line (h : r.Writable) :
    Line (.name r.name :: .arrow :: r.items.map RuleItem.token) r.chars := by
  rw [Rule.chars, List.append_assoc]
  have harrow := (line_items h.items).other .arrow (by simp)
  exact .token h.name.spelled nofun (.blank rfl harrow)

theorem Rule.Writable.newline_not_mem (h : r.Writable) : '\n' ∉ r.chars := by
  rw [Rule.chars, List.mem_append, List.mem_append, List.mem_flatMap]
  rintro ((hname | harrow) | ⟨x, hx, hmem⟩)
  · exact h.name.newline_not_mem hname
  · simp at harrow
  · exact (h.items x hx).newline_not_mem (List.mem_of_ne_of_mem (by decide) hmem)

theorem layout_of_writable (h : ∀ r ∈ rules, r.Writable) (current : Option String) :
    Layout current rules (rules.flatMap fun r ↦ r.chars ++ ['\n']) := by
  induction rules generalizing current with
  | nil => exact .last .nil List.not_mem_nil .nothing
  | cons r rules ih =>
    obtain ⟨hr, hrules⟩ := List.forall_mem_cons.1 h
    have hline : LineRules current _ [r] (some r.name) :=
      .rules r.name (List.cons_ne_nil r.items [])
    rw [alternativeTokens_singleton] at hline
    exact .line hr.line hr.newline_not_mem hline (.inl rfl) (ih hrules _)

end Writable

/-- The reader of texts gives some rules just if the text is a layout of them. There are layouts of
all rules whose names are names and whose terminals are not empty and on one line, and of no
others. -/
theorem readRules_eq_ok_iff (rules : List Rule) :
    (∀ text : String, readRules text = .ok rules ↔ Layout none rules text.toList) ∧
    ((∃ text : String, Layout none rules text.toList) ↔ ∀ r ∈ rules, r.Writable) := by
  refine ⟨fun text ↦ ⟨layout_of_readLines, fun h ↦ readLines_of_layout h 1⟩, ?_⟩
  constructor
  · rintro ⟨text, h⟩
    exact h.writable nofun
  · intro h
    refine ⟨.ofList (rules.flatMap fun r ↦ r.chars ++ ['\n']), ?_⟩
    rw [String.toList_ofList]
    exact layout_of_writable h none

example : readRules "S->'a'B # with no blanks\r\n\n  | \"it's\" | '\\\\'\nB ->" =
    .ok [⟨"S", [.terminal "a", .nonterminal "B"]⟩, ⟨"S", [.terminal "it's"]⟩,
      ⟨"S", [.terminal "\\"]⟩, ⟨"B", []⟩] := by cbv

end LangBench.Grammar
