import LangBench.Grammar.Printer
import LangBench.Proofs.Outcome
import LangBench.Proofs.Text

/-!
How the tokens of a line may be written, and that the reader of a line accepts just that.

The relations below say it from the side of the tokens, where there is a choice: of quotes, of
escapes and of the blanks between tokens.
-/

namespace LangBench.Grammar

/-- A text as it may stand between quotes: any character may have a backslash before it, and the
quote and the backslash must. -/
inductive Escaped (quote : Char) : List Char → List Char → Prop
  | nil : Escaped quote [] []
  | plain {c : Char} {text out : List Char} : c ≠ quote → c ≠ '\\' →
      Escaped quote text out → Escaped quote (c :: text) (c :: out)
  | escaped (c : Char) {text out : List Char} :
      Escaped quote text out → Escaped quote (c :: text) ('\\' :: c :: out)

inductive Spelled : Token → List Char → Prop
  | arrow : Spelled .arrow ['-', '>']
  | bar : Spelled .bar ['|']
  | name {cs : List Char} : cs ≠ [] → (∀ c ∈ cs, Text.isName c = true) →
      Spelled (.name (.ofList cs)) cs
  | quoted {quote : Char} {text out : List Char} : quote = '\'' ∨ quote = '"' → text ≠ [] →
      Escaped quote text out → Spelled (.quoted (.ofList text)) (quote :: out ++ [quote])

/-- Two names in a row would be read as one if nothing stood between them. -/
inductive Token.Clashes : Token → List Token → Prop
  | names (s s' : String) (ts : List Token) : Token.Clashes (.name s) (.name s' :: ts)

theorem Token.not_clashes_nil (t : Token) : ¬ t.Clashes [] := nofun

/-- A line with these tokens: blanks wherever it is not within one, needed only between two names,
and at the end perhaps a comment. -/
inductive Line : List Token → List Char → Prop
  | nil : Line [] []
  | comment (cs : List Char) : Line [] ('#' :: cs)
  | blank {c : Char} {ts : List Token} {cs : List Char} :
      Text.isBlank c = true → Line ts cs → Line ts (c :: cs)
  | token {t : Token} {ts : List Token} {out cs : List Char} : Spelled t out →
      (t.Clashes ts → ∃ c rest, cs = c :: rest ∧ Text.isBlank c = true) →
      Line ts cs → Line (t :: ts) (out ++ cs)

section Quoted

variable {quote : Char} {text out cs rest : List Char}

theorem consText_eq_ok {c : Char} {x : Except LineFault (List Char × List Char)}
    (h : consText c x = .ok (text, rest)) : ∃ text', x = .ok (text', rest) ∧ text = c :: text' := by
  cases x with
  | error e => simp [consText, Except.map] at h
  | ok p =>
    obtain ⟨text', rest'⟩ := p
    simp only [consText, Except.map, Except.ok.injEq, Prod.mk.injEq] at h
    obtain ⟨rfl, rfl⟩ := h
    exact ⟨text', rfl, rfl⟩

theorem scanQuoted_of_escaped (h : Escaped quote text out) (hquote : quote ≠ '\\')
    (rest : List Char) : scanQuoted quote (out ++ quote :: rest) = .ok (text, rest) := by
  induction h with
  | nil => simp [scanQuoted, hquote]
  | plain hc hslash _ ih =>
    rw [List.cons_append, scanQuoted, if_neg hc, ih]
    · rfl
    · exact fun h _ ↦ hslash h
    · exact fun _ _ h _ ↦ hslash h
  | escaped c _ ih =>
    rw [List.cons_append, List.cons_append, scanQuoted, ih]
    rfl

theorem exists_escaped (h : scanQuoted quote cs = .ok (text, rest)) :
    ∃ out, Escaped quote text out ∧ cs = out ++ quote :: rest := by
  fun_induction scanQuoted quote cs generalizing text with
  | case1 => simp at h
  | case2 => simp at h
  | case3 c r ih =>
    obtain ⟨text', h', rfl⟩ := consText_eq_ok h
    obtain ⟨out, hout, rfl⟩ := ih h'
    exact ⟨'\\' :: c :: out, .escaped c hout, rfl⟩
  | case4 r =>
    simp only [Except.ok.injEq, Prod.mk.injEq] at h
    obtain ⟨rfl, rfl⟩ := h
    exact ⟨[], .nil, rfl⟩
  | case5 c r hend hslash hquote ih =>
    obtain ⟨text', h', rfl⟩ := consText_eq_ok h
    obtain ⟨out, hout, rfl⟩ := ih h'
    refine ⟨c :: out, .plain hquote ?_ hout, rfl⟩
    rintro rfl
    cases hr : out ++ quote :: rest with
    | nil => simp at hr
    | cons d r => exact hslash d r rfl hr

end Quoted

section Tokens

variable {t : Token} {ts : List Token} {out cs : List Char}

/-- A line begins like a name only if a name is its first token. -/
theorem Line.not_isName_head {c : Char} (h : Line ts (c :: cs)) (hts : ∀ s ts', ts ≠ .name s :: ts') :
    Text.isName c = false := by
  generalize hl : c :: cs = line at h
  cases h with
  | nil => simp at hl
  | comment =>
    obtain rfl := (List.cons.inj hl).1
    decide
  | blank hblank _ =>
    obtain rfl := (List.cons.inj hl).1
    exact Text.not_isName_of_isBlank hblank
  | token hspelled _ _ =>
    cases hspelled with
    | arrow =>
      obtain rfl := (List.cons.inj hl).1
      decide
    | bar =>
      obtain rfl := (List.cons.inj hl).1
      decide
    | name => exact absurd rfl (hts _ _)
    | quoted hquote _ _ =>
      obtain rfl := (List.cons.inj hl).1
      rcases hquote with rfl | rfl <;> decide

/-- If a name is the first token of a line that does not begin like one, there are blanks before
it. -/
theorem Line.exists_blank {s : String} (h : Line (.name s :: ts) cs)
    (hhead : ∀ hne : cs ≠ [], Text.isName (cs.head hne) = false) :
    ∃ c rest, cs = c :: rest ∧ Text.isBlank c = true := by
  cases h with
  | blank hblank _ => exact ⟨_, _, rfl, hblank⟩
  | token hspelled _ _ =>
    cases hspelled with
    | @name cs hne hall =>
      obtain ⟨c, cs, rfl⟩ := List.exists_cons_of_ne_nil hne
      have hc := hall c List.mem_cons_self
      cases hc.symm.trans (hhead (List.cons_ne_nil _ _))

/-- Only a name has to be kept apart from what follows. -/
theorem Line.other (hrest : Line ts cs) (ht : Spelled t out) (hname : ∀ s, t ≠ .name s) :
    Line (t :: ts) (out ++ cs) := by
  refine .token ht (fun hclash ↦ ?_) hrest
  cases hclash
  exact absurd rfl (hname _)

theorem Line.quoted {quote : Char} {text rest : List Char} (hrest : Line ts rest)
    (hquote : quote = '\'' ∨ quote = '"') (hscan : scanQuoted quote cs = .ok (text, rest))
    (hne : text ≠ []) : Line (.quoted (.ofList text) :: ts) (quote :: cs) := by
  obtain ⟨out, hout, rfl⟩ := exists_escaped hscan
  have hline := hrest.other (.quoted hquote hne hout) (by simp)
  rwa [List.append_assoc] at hline

theorem Line.name {c : Char} (hrest : Line ts (cs.dropWhile Text.isName))
    (hc : Text.isName c = true) :
    Line (.name (.ofList (c :: cs.takeWhile Text.isName)) :: ts) (c :: cs) := by
  have hspelled : Spelled (.name (.ofList (c :: cs.takeWhile Text.isName)))
      (c :: cs.takeWhile Text.isName) := by
    refine .name (List.cons_ne_nil _ _) (List.forall_mem_cons.2 ⟨hc, ?_⟩)
    exact List.all_eq_true.1 List.all_takeWhile
  have hline := Line.token hspelled (fun hclash ↦ ?_) hrest
  · rwa [List.cons_append, List.takeWhile_append_dropWhile] at hline
  · cases hclash
    exact hrest.exists_blank (List.head_dropWhile_not Text.isName)

theorem line_of_tokenize (h : tokenize cs = .ok ts) : Line ts cs := by
  induction hn : cs.length using Nat.strongRecOn generalizing cs ts with
  | ind n ih =>
    have hrec {rest : List Char} {ts : List Token} (hlt : rest.length < n)
        (hrest : tokenize rest = .ok ts) : Line ts rest := ih _ hlt hrest rfl
    cases cs with
    | nil =>
      rw [tokenize] at h
      cases h
      exact .nil
    | cons c r =>
      rw [List.length_cons] at hn
      rw [tokenize.eq_def] at h
      dsimp only at h
      -- the tests that the reader makes, in their order
      split at h
      · next hblank => exact .blank hblank (hrec (by omega) h)
      split at h
      · next heq =>
        cases h
        rw [heq]
        exact .comment r
      split at h
      · next heq =>
        obtain ⟨ts, hr, rfl⟩ := map_eq_ok.1 h
        rw [heq]
        exact (hrec (by omega) hr).other .bar (by simp)
      split at h
      · next heq =>
        split at h
        · obtain ⟨ts, hr, rfl⟩ := map_eq_ok.1 h
          rw [List.length_cons] at hn
          rw [heq]
          exact (hrec (by omega) hr).other .arrow (by simp)
        · cases h
      split at h
      · next hquote =>
        split at h
        · cases h
        · next hscan =>
          split at h
          · cases h
          · next hne =>
            obtain ⟨ts, hr, rfl⟩ := map_eq_ok.1 h
            have hlt := scanQuoted_length hscan
            exact (hrec (by omega) hr).quoted (by simpa using hquote) hscan (by simpa using hne)
      split at h
      · next hname =>
        obtain ⟨ts, hr, rfl⟩ := map_eq_ok.1 h
        have hle := (List.dropWhile_suffix Text.isName (l := r)).length_le
        exact (hrec (by omega) hr).name hname
      · cases h

theorem tokenize_blank {c : Char} (h : Text.isBlank c = true) (cs : List Char) :
    tokenize (c :: cs) = tokenize cs := by
  rw [tokenize.eq_def]
  exact if_pos h

theorem tokenize_comment (cs : List Char) : tokenize ('#' :: cs) = .ok [] := by
  rw [tokenize.eq_def]
  rfl

theorem tokenize_bar (cs : List Char) : tokenize ('|' :: cs) = (tokenize cs).map (.bar :: ·) := by
  rw [tokenize.eq_def]
  rfl

theorem tokenize_arrow (cs : List Char) :
    tokenize ('-' :: '>' :: cs) = (tokenize cs).map (.arrow :: ·) := by
  rw [tokenize.eq_def]
  rfl

theorem tokenize_quoted {quote : Char} {text cs rest : List Char}
    (hquote : quote = '\'' ∨ quote = '"') (hscan : scanQuoted quote cs = .ok (text, rest))
    (hne : text ≠ []) :
    tokenize (quote :: cs) = (tokenize rest).map (.quoted (.ofList text) :: ·) := by
  have hempty : ¬ text.isEmpty = true := by simpa using hne
  have hblank : ¬ Text.isBlank quote = true := by rcases hquote with rfl | rfl <;> decide
  have hother : quote ≠ '#' ∧ quote ≠ '|' ∧ quote ≠ '-' := by
    rcases hquote with rfl | rfl <;> decide
  have hquoted : (decide (quote = '\'') || decide (quote = '"')) = true := by simpa using hquote
  rw [tokenize.eq_def]
  dsimp only
  rw [if_neg hblank, if_neg hother.1, if_neg hother.2.1, if_neg hother.2.2, if_pos hquoted]
  split
  · next heq => cases heq.symm.trans hscan
  · next heq =>
    cases heq.symm.trans hscan
    exact if_neg hempty

theorem tokenize_name {cs rest : List Char} (hne : cs ≠ []) (hall : ∀ c ∈ cs, Text.isName c = true)
    (hrest : ∀ hne : rest ≠ [], Text.isName (rest.head hne) = false) :
    tokenize (cs ++ rest) = (tokenize rest).map (.name (.ofList cs) :: ·) := by
  obtain ⟨c, cs, rfl⟩ := List.exists_cons_of_ne_nil hne
  obtain ⟨hc, hcs⟩ := List.forall_mem_cons.1 hall
  have hother {d : Char} (hd : Text.isName d = false) : c ≠ d := by
    rintro rfl
    cases hc.symm.trans hd
  have hblank : ¬ Text.isBlank c = true := fun hblank ↦ hother (Text.not_isName_of_isBlank hblank) rfl
  have hquoted : ¬ (decide (c = '\'') || decide (c = '"')) = true := by
    rw [Bool.or_eq_true, decide_eq_true_eq, decide_eq_true_eq]
    exact not_or.2 ⟨hother rfl, hother rfl⟩
  have hend : rest.takeWhile Text.isName = [] ∧ rest.dropWhile Text.isName = rest := by
    cases rest with
    | nil => exact ⟨rfl, rfl⟩
    | cons d rest =>
      have hd : ¬ Text.isName d = true := by simpa using hrest (List.cons_ne_nil _ _)
      exact ⟨List.takeWhile_cons_of_neg hd, List.dropWhile_cons_of_neg hd⟩
  rw [List.cons_append, tokenize.eq_def]
  dsimp only
  rw [if_neg hblank, if_neg (hother rfl), if_neg (hother rfl), if_neg (hother rfl), if_neg hquoted,
    if_pos hc, List.takeWhile_append_of_pos hcs, List.dropWhile_append_of_pos hcs, hend.1, hend.2,
    List.append_nil]

/-- After a name comes no character that could be part of it. -/
theorem Line.not_isName_of_clashes {s : String} (h : Line ts cs)
    (hclash : Token.Clashes (.name s) ts → ∃ c rest, cs = c :: rest ∧ Text.isBlank c = true)
    (hne : cs ≠ []) : Text.isName (cs.head hne) = false := by
  by_cases hts : Token.Clashes (.name s) ts
  · obtain ⟨c, rest, rfl, hblank⟩ := hclash hts
    exact Text.not_isName_of_isBlank hblank
  · obtain ⟨c, rest, rfl⟩ := List.exists_cons_of_ne_nil hne
    refine h.not_isName_head ?_
    rintro s' ts' rfl
    exact hts (.names s s' ts')

theorem tokenize_of_line (h : Line ts cs) : tokenize cs = .ok ts := by
  induction h with
  | nil => rw [tokenize]
  | comment cs => exact tokenize_comment cs
  | blank hblank _ ih => rw [tokenize_blank hblank, ih]
  | token hspelled hclash hline ih =>
    refine Eq.trans ?_ (congrArg (Except.map _) ih)
    cases hspelled with
    | arrow => exact tokenize_arrow _
    | bar => exact tokenize_bar _
    | name hne hall => exact tokenize_name hne hall (hline.not_isName_of_clashes hclash)
    | @quoted quote _ _ hquote hne hout =>
      have hslash : quote ≠ '\\' := by rcases hquote with rfl | rfl <;> decide
      rw [List.append_assoc]
      exact tokenize_quoted hquote (scanQuoted_of_escaped hout hslash _) hne

/-- The reader of a line gives some tokens just if the line may be written for them. -/
theorem tokenize_eq_ok_iff : tokenize cs = .ok ts ↔ Line ts cs :=
  ⟨line_of_tokenize, tokenize_of_line⟩

theorem Line.eq_nil (h : Line ts []) : ts = [] := by
  have htokens := tokenize_of_line h
  rw [tokenize] at htokens
  exact (Except.ok.inj htokens).symm

theorem Spelled.ne_append_cr (h : Spelled t out) : out ≠ cs ++ ['\r'] := by
  intro hl
  cases h with
  | arrow => simpa using congrArg List.getLast? hl
  | bar => simpa using congrArg List.getLast? hl
  | name _ hall =>
    have hcr := hall '\r' (by simp [hl])
    cases hcr
  | quoted hquote _ _ =>
    obtain ⟨-, heq⟩ := List.append_inj' hl rfl
    rcases hquote with rfl | rfl <;> cases heq

/-- A carriage return at the end of a line makes no difference. -/
theorem Line.of_append_cr (h : Line ts (cs ++ ['\r'])) : Line ts cs := by
  generalize hl : cs ++ ['\r'] = line at h
  induction h generalizing cs with
  | nil => simp at hl
  | comment rest =>
    cases cs with
    | nil => cases hl
    | cons c cs =>
      obtain ⟨rfl, -⟩ := List.cons.inj hl
      exact .comment cs
  | blank hblank hrest ih =>
    cases cs with
    | nil =>
      obtain ⟨-, rfl⟩ := List.cons.inj hl
      exact hrest
    | cons c cs =>
      obtain ⟨rfl, heq⟩ := List.cons.inj hl
      exact .blank hblank (ih heq)
  | @token t ts out rest hspelled hclash hrest ih =>
    obtain rfl | ⟨rest, d, rfl⟩ := List.eq_nil_or_concat rest
    · rw [List.append_nil] at hl
      exact absurd hl.symm hspelled.ne_append_cr
    · rw [List.concat_eq_append] at hl hclash ih
      rw [← List.append_assoc] at hl
      obtain ⟨rfl, heq⟩ := List.append_inj' hl rfl
      obtain rfl := List.singleton_inj.1 heq
      have hline := ih rfl
      refine .token hspelled (fun hts ↦ ?_) hline
      cases rest with
      | nil =>
        cases hts
        exact hline.exists_blank (fun hne ↦ absurd rfl hne)
      | cons c rest =>
        obtain ⟨c', r, hr, hblank⟩ := hclash hts
        exact ⟨c, rest, rfl, (List.cons.inj hr).1 ▸ hblank⟩

end Tokens

section Writable

variable {t : Token} {ts : List Token} {text out line : List Char}

/-- A token that can be written: a name is made of its characters, and a terminal is not empty and
is on one line. -/
def Token.Writable : Token → Prop
  | .name s => s.toList ≠ [] ∧ ∀ c ∈ s.toList, Text.isName c = true
  | .quoted s => s.toList ≠ [] ∧ '\n' ∉ s.toList
  | _ => True

theorem Escaped.subset {quote : Char} (h : Escaped quote text out) : text ⊆ out := by
  induction h with
  | nil => exact List.Subset.refl _
  | plain _ _ _ ih => exact List.cons_subset_cons _ ih
  | escaped c _ ih => exact List.subset_cons_of_subset _ (List.cons_subset_cons _ ih)

theorem Spelled.writable (h : Spelled t out) (hout : '\n' ∉ out) : t.Writable := by
  cases h with
  | arrow => trivial
  | bar => trivial
  | name hne hall => exact ⟨by simpa using hne, by simpa using hall⟩
  | quoted _ hne hescaped =>
    refine ⟨by simpa using hne, fun hmem ↦ hout ?_⟩
    rw [String.toList_ofList] at hmem
    simp [hescaped.subset hmem]

theorem Line.writable (h : Line ts line) (hline : '\n' ∉ line) : ∀ t ∈ ts, t.Writable := by
  induction h with
  | nil => simp
  | comment => simp
  | blank _ _ ih => exact ih (List.not_mem_of_not_mem_cons hline)
  | token hspelled _ _ ih =>
    rw [List.mem_append, not_or] at hline
    exact List.forall_mem_cons.2 ⟨hspelled.writable hline.1, ih hline.2⟩

/-- One way to write a token. -/
def Token.chars : Token → List Char
  | .arrow => ['-', '>']
  | .bar => ['|']
  | .name s => s.toList
  | .quoted s => quoteTerminal s

theorem escaped_flatMap (text : List Char) : Escaped '\'' text
    (text.flatMap fun c ↦ if c = '\\' || c = '\'' then ['\\', c] else [c]) := by
  induction text with
  | nil => exact .nil
  | cons c text ih =>
    rw [List.flatMap_cons]
    split
    · exact .escaped c ih
    · next h =>
      rw [Bool.or_eq_true, decide_eq_true_eq, decide_eq_true_eq, not_or] at h
      exact .plain h.2 h.1 ih

theorem Token.Writable.spelled (h : t.Writable) : Spelled t t.chars := by
  cases t with
  | arrow => exact .arrow
  | bar => exact .bar
  | name s =>
    have hspelled := Spelled.name h.1 h.2
    rwa [String.ofList_toList] at hspelled
  | quoted s =>
    have hspelled := Spelled.quoted (.inl rfl) h.1 (escaped_flatMap s.toList)
    rwa [String.ofList_toList] at hspelled

theorem Token.Writable.newline_not_mem (h : t.Writable) : '\n' ∉ t.chars := by
  cases t with
  | arrow => simp [Token.chars]
  | bar => simp [Token.chars]
  | name s =>
    intro hmem
    cases h.2 _ hmem
  | quoted s =>
    simp only [Token.chars, quoteTerminal, List.mem_append, List.mem_cons, List.mem_flatMap]
    rintro ((hquote | ⟨c, hc, hmem⟩) | hquote)
    · cases hquote
    · obtain rfl : c = '\n' := by
        split at hmem <;> simpa [eq_comm] using hmem
      exact h.2 hc
    · simp at hquote

end Writable

end LangBench.Grammar
