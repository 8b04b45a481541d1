import LangBench.Text.Blank
import LangBench.Text.Lines
import LangBench.Text.Name

/-!
The classes of characters that a reader tells apart, what trimming leaves, and the lines of a text.
-/

namespace LangBench.Text

variable {c : Char} {a b : Nat} {boundaries : List Nat}

theorem within_nil (c : Char) : within [] c = false := rfl

/-- The first two boundaries of an ascending list are a range of their own. -/
theorem within_cons_cons (hab : a ≤ b) (hrest : ∀ n ∈ boundaries, b ≤ n) :
    within (a :: b :: boundaries) c = true ↔
      (a ≤ c.toNat ∧ c.toNat < b) ∨ within boundaries c = true := by
  have hnone (h : c.toNat < b) : boundaries.countP (· ≤ c.toNat) = 0 := by
    refine List.countP_eq_zero.2 fun n hn ↦ ?_
    have hle := hrest n hn
    rw [decide_eq_true_eq]
    omega
  simp only [within, List.countP_cons, decide_eq_true_eq]
  by_cases hb : c.toNat < b
  · have hzero := hnone hb
    split <;> split <;> omega
  · split <;> split <;> omega

/-- The code points of the blanks. -/
def blankCodes : List Nat :=
  [0x9, 0xa, 0xb, 0xc, 0xd, 0x20, 0x85, 0xa0, 0x1680, 0x2000, 0x2001, 0x2002, 0x2003, 0x2004,
    0x2005, 0x2006, 0x2007, 0x2008, 0x2009, 0x200a, 0x2028, 0x2029, 0x202f, 0x205f, 0x3000]

theorem isBlank_iff : isBlank c = true ↔ c.toNat ∈ blankCodes := by
  simp [isBlank, blankBoundaries, within_cons_cons, within_nil, blankCodes]
  omega

/-- No character of a name is a blank. -/
theorem not_isName_of_isBlank (h : isBlank c = true) : isName c = false := by
  have hcodes : ∀ n ∈ blankCodes, isName (Char.ofNat n) = false := by decide +kernel
  have hname := hcodes c.toNat (isBlank_iff.1 h)
  rwa [Char.ofNat_toNat] at hname

theorem not_isBlank_of_isDigit (h : c.isDigit = true) : isBlank c = false := by
  refine Bool.eq_false_iff.2 fun hblank ↦ ?_
  have hcodes : ∀ n ∈ blankCodes, (Char.ofNat n).isDigit = false := by decide
  have hdigit := hcodes c.toNat (isBlank_iff.1 hblank)
  rw [Char.ofNat_toNat, h] at hdigit
  cases hdigit

section Trimming

variable {cs core before after : List Char}

/-- A padding: nothing but blanks. -/
def Blank (cs : List Char) : Prop := ∀ c ∈ cs, isBlank c = true

theorem blank_nil : Blank [] := nofun

instance : DecidablePred Blank := fun cs ↦ List.decidableBAll (isBlank · = true) cs

/-- There is no blank at either end. -/
structure Tight (cs : List Char) : Prop where
  head : ∀ c ∈ cs.head?, isBlank c = false
  last : ∀ c ∈ cs.getLast?, isBlank c = false

theorem tight_of_forall (h : ∀ c ∈ cs, isBlank c = false) : Tight cs :=
  ⟨fun c hc ↦ h c (List.mem_of_mem_head? hc), fun c hc ↦ h c (List.mem_of_mem_getLast? hc)⟩

theorem tight_enclosed {a b : Char} (ha : isBlank a = false) (hb : isBlank b = false)
    (cs : List Char) : Tight (a :: cs ++ [b]) := by
  refine ⟨fun c hc ↦ ?_, fun c hc ↦ ?_⟩
  · obtain rfl := Option.some.inj hc
    exact ha
  · rw [List.getLast?_concat] at hc
    obtain rfl := Option.some.inj hc
    exact hb

theorem dropWhile_tight (h : ∀ c ∈ cs.head?, isBlank c = false) : cs.dropWhile isBlank = cs := by
  cases cs with
  | nil => rfl
  | cons c cs => rw [List.dropWhile_cons_of_neg (by simp [h c rfl])]

theorem dropWhile_blank (h : Blank cs) : cs.dropWhile isBlank = [] := by
  have hdrop : (cs ++ []).dropWhile isBlank = [] := List.dropWhile_append_of_pos h
  rwa [List.append_nil] at hdrop

/-- Trimming takes a padding off both ends and nothing else. -/
theorem trimChars_padded (hcore : Tight core) (hbefore : Blank before) (hafter : Blank after) :
    trimChars (before ++ core ++ after) = core := by
  have hreverse : Blank after.reverse := fun c hc ↦ hafter c (List.mem_reverse.1 hc)
  rw [trimChars, List.append_assoc, List.dropWhile_append_of_pos hbefore]
  cases core with
  | nil => rw [List.nil_append, dropWhile_blank hafter]; rfl
  | cons c core =>
    have hhead : ∀ d ∈ (c :: core ++ after).head?, isBlank d = false := hcore.head
    rw [dropWhile_tight hhead, List.reverse_append, List.dropWhile_append_of_pos hreverse,
      dropWhile_tight fun d hd ↦ hcore.last d (List.head?_reverse ▸ hd), List.reverse_reverse]

theorem exists_padding (cs : List Char) : ∃ before after, Blank before ∧ Blank after ∧
    Tight (trimChars cs) ∧ cs = before ++ trimChars cs ++ after := by
  have hblank (l : List Char) : Blank (l.takeWhile isBlank) := List.all_eq_true.1 List.all_takeWhile
  have hhead (l : List Char) (c : Char) (hc : c ∈ (l.dropWhile isBlank).head?) :
      isBlank c = false := by
    have h := List.head?_dropWhile_not isBlank l
    rwa [Option.mem_def.1 hc] at h
  have hdrop : cs.dropWhile isBlank =
      trimChars cs ++ ((cs.dropWhile isBlank).reverse.takeWhile isBlank).reverse := by
    rw [trimChars, ← List.reverse_append, List.takeWhile_append_dropWhile, List.reverse_reverse]
  refine ⟨cs.takeWhile isBlank, ((cs.dropWhile isBlank).reverse.takeWhile isBlank).reverse,
    hblank cs, fun c hc ↦ hblank _ c (List.mem_reverse.1 hc), ⟨fun c hc ↦ ?_, fun c hc ↦ ?_⟩, ?_⟩
  · refine hhead cs c ?_
    rw [hdrop, List.head?_append, Option.mem_def.1 hc]
    rfl
  · rw [trimChars, List.getLast?_reverse] at hc
    exact hhead _ c hc
  · rw [List.append_assoc, ← hdrop, List.takeWhile_append_dropWhile]

theorem trimChars_eq_iff : trimChars cs = core ↔
    Tight core ∧ ∃ before after, Blank before ∧ Blank after ∧ cs = before ++ core ++ after := by
  constructor
  · rintro rfl
    obtain ⟨before, after, hbefore, hafter, htight, hcs⟩ := exists_padding cs
    exact ⟨htight, before, after, hbefore, hafter, hcs⟩
  · rintro ⟨htight, before, after, hbefore, hafter, rfl⟩
    exact trimChars_padded htight hbefore hafter

theorem trimChars_tight (h : Tight cs) : trimChars cs = cs :=
  trimChars_eq_iff.2 ⟨h, [], [], blank_nil, blank_nil, by simp⟩

theorem trimChars_eq_nil_iff : trimChars cs = [] ↔ Blank cs := by
  rw [trimChars_eq_iff]
  constructor
  · rintro ⟨-, before, after, hbefore, hafter, rfl⟩
    rw [List.append_nil]
    exact List.forall_mem_append.2 ⟨hbefore, hafter⟩
  · exact fun h ↦ ⟨⟨nofun, nofun⟩, cs, [], h, blank_nil, by simp⟩

/-- More padding makes no difference. -/
theorem trimChars_append (hbefore : Blank before) (hafter : Blank after) (cs : List Char) :
    trimChars (before ++ cs ++ after) = trimChars cs := by
  generalize hcore : trimChars cs = core
  obtain ⟨htight, before', after', hbefore', hafter', rfl⟩ := trimChars_eq_iff.1 hcore
  exact trimChars_eq_iff.2 ⟨htight, before ++ before', after' ++ after,
    List.forall_mem_append.2 ⟨hbefore, hbefore'⟩, List.forall_mem_append.2 ⟨hafter', hafter⟩,
    by simp⟩

end Trimming

section Lines

variable {line rest : List Char}

theorem lines_cons (hc : c ≠ '\n') (hrest : c = '\r' → ∀ r, rest ≠ '\n' :: r) :
    lines (c :: rest) = match lines rest with
      | [] => [[c]]
      | line :: later => (c :: line) :: later := by
  exact lines.eq_4 c rest hc fun r hr ↦ hrest hr r

/-- A last line has no end, and there is none after the end of the line before it. -/
theorem lines_of_last (h : '\n' ∉ line) : lines line = if line = [] then [] else [line] := by
  induction line with
  | nil => rfl
  | cons c line ih =>
    have hc := List.ne_of_not_mem_cons h
    have hline := List.not_mem_of_not_mem_cons h
    have hnext : c = '\r' → ∀ r, line ≠ '\n' :: r := by
      rintro - r rfl
      exact hline List.mem_cons_self
    rw [lines_cons (hc.symm) hnext, ih hline, if_neg (List.cons_ne_nil _ _)]
    cases line <;> rfl

theorem lines_append_crlf (h : '\n' ∉ line) (rest : List Char) :
    lines (line ++ '\r' :: '\n' :: rest) = line :: lines rest := by
  induction line with
  | nil => rfl
  | cons c line ih =>
    have hc := List.ne_of_not_mem_cons h
    have hline := List.not_mem_of_not_mem_cons h
    have hnext : c = '\r' → ∀ r, line ++ '\r' :: '\n' :: rest ≠ '\n' :: r := by
      rintro - r heq
      cases line with
      | nil => simp at heq
      | cons d line => exact hline (by simp [(List.cons.inj heq).1])
    rw [List.cons_append, lines_cons (hc.symm) hnext, ih hline]

theorem lines_append_lf (h : '\n' ∉ line) (hcr : ∀ l, line ≠ l ++ ['\r']) (rest : List Char) :
    lines (line ++ '\n' :: rest) = line :: lines rest := by
  induction line with
  | nil => rfl
  | cons c line ih =>
    have hc := List.ne_of_not_mem_cons h
    have hline := List.not_mem_of_not_mem_cons h
    have hnext : c = '\r' → ∀ r, line ++ '\n' :: rest ≠ '\n' :: r := by
      rintro rfl r heq
      cases line with
      | nil => exact hcr [] rfl
      | cons d line => exact hline (by simp [(List.cons.inj heq).1])
    have hcr' (l : List Char) : line ≠ l ++ ['\r'] := by
      rintro rfl
      exact hcr (c :: l) rfl
    rw [List.cons_append, lines_cons (hc.symm) hnext, ih hline hcr']

/-- The first line of a text and its end, of which a carriage return is part. -/
theorem exists_lines_append_lf (h : '\n' ∉ line) :
    ∃ first ending, '\n' ∉ first ∧
      (line = first ∧ ending = ['\n'] ∨ line = first ++ ['\r'] ∧ ending = ['\r', '\n']) ∧
      ∀ rest, line ++ '\n' :: rest = first ++ ending ++ rest ∧
        lines (line ++ '\n' :: rest) = first :: lines rest := by
  by_cases hcr : ∃ l, line = l ++ ['\r']
  · obtain ⟨l, rfl⟩ := hcr
    have hl : '\n' ∉ l := fun hl ↦ h (List.mem_append_left _ hl)
    refine ⟨l, ['\r', '\n'], hl, .inr ⟨rfl, rfl⟩, fun rest ↦ ⟨by simp, ?_⟩⟩
    rw [List.append_assoc]
    exact lines_append_crlf hl rest
  · refine ⟨line, ['\n'], h, .inl ⟨rfl, rfl⟩, fun rest ↦ ⟨by simp, ?_⟩⟩
    exact lines_append_lf h (not_exists.1 hcr) rest

end Lines

end LangBench.Text
