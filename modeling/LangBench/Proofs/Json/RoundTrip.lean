import LangBench.Json.Reader
import LangBench.Proofs.Dict
import LangBench.Proofs.Json.Scanning

/-!
Reading the values that were written.

The compact text of a value without floating-point numbers is read as this value if it is not nested
too deeply. This is an induction on the value: its text is split into tokens wherever it may stand,
and wherever a value is expected these tokens lead to it.
-/

namespace LangBench.Json

variable {d : Nat} {v : Json} {items : List Json} {fields : List (String × Json)}

/-- A value without floating-point numbers that is nested up to some depth. As in every document that
has been read, an integer has 64 bits, and the keys of an object ascend. -/
inductive Exact : Nat → Json → Prop where
  | null {d : Nat} : Exact d .null
  | bool {d : Nat} (b : Bool) : Exact d (.bool b)
  | int {d : Nat} {n : Int} (hlow : -(UInt64.size / 2 : Nat) ≤ n) (hhigh : n < UInt64.size) :
    Exact d (.int n)
  | str {d : Nat} (s : String) : Exact d (.str s)
  | arr {d : Nat} {items : List Json} (h : ∀ v ∈ items, Exact d v) : Exact (d + 1) (.arr items)
  | obj {d : Nat} {fields : List (String × Json)} (hkeys : fields.Pairwise fun a b ↦ a.1 < b.1)
    (h : ∀ f ∈ fields, Exact d f.2) : Exact (d + 1) (.obj fields)

theorem canonicalItems_eq_map (items : List Json) : canonicalItems items = items.map canonical := by
  induction items with
  | nil => rfl
  | cons v vs ih => rw [canonicalItems, ih, List.map_cons]

theorem canonicalFields_eq_map (fields : List (String × Json)) :
    canonicalFields fields = fields.map fun f ↦ (f.1, f.2.canonical) := by
  induction fields with
  | nil => rfl
  | cons f fs ih => rw [canonicalFields, ih, List.map_cons]

theorem Exact.canonical_eq (h : Exact d v) : v.canonical = v := by
  induction h with
  | null | bool | int | str => rfl
  | arr _ ih => rw [canonical, canonicalItems_eq_map, List.map_congr_left ih, List.map_id']
  | obj hkeys _ ih =>
    have hfields (f : String × Json) (hf : f ∈ _) : (f.1, f.2.canonical) = id f :=
      Prod.ext rfl (ih f hf)
    rw [canonical, canonicalFields_eq_map, List.map_congr_left hfields, List.map_id,
      Dict.ofList_eq hkeys]

namespace Assembly

variable {ts : List Token} {stack : List Open} {v : Json}

/-- Tokens that make a value as an item make it as the first item as well. -/
theorem foldlM_firstItem
    (h : ts.foldlM step (value (.array [] :: stack)) = some (complete stack v)) :
    ts.foldlM step (firstItem stack) = some (complete stack v) := by
  cases ts with
  | nil => cases h
  | cons t ts =>
    cases t with
    | closeArray => cases h
    | _ => exact h

theorem foldlM_firstKey (h : ts.foldlM step (key stack []) = some (complete stack v)) :
    ts.foldlM step (firstKey stack) = some (complete stack v) := by
  cases ts with
  | nil => cases h
  | cons t ts =>
    cases t with
    | text => exact h
    | _ => cases h

end Assembly

/-- The text of a value is split into the tokens, and from wherever a value may stand with so many
levels left they make the value. -/
structure Spells (d : Nat) (v : Json) (ts : List Token) : Prop where
  splits : ∀ rest, Stops rest →
    Token.ofChars? (v.chars ++ rest) = (Token.ofChars? rest).map (ts ++ ·)
  makes : ∀ stack, stack.length + d ≤ Assembly.maxDepth →
    ts.foldlM Assembly.step (.value stack) = some (.complete stack v)

theorem spells_scalar {t : Token} (hsplits : ∀ rest, Stops rest →
      Token.ofChars? (v.chars ++ rest) = (Token.ofChars? rest).map (t :: ·))
    (hstart : ∀ stack, Assembly.start stack t = some (.complete stack v)) : Spells d v [t] :=
  ⟨hsplits, fun stack _ ↦ by rw [List.foldlM_cons, Assembly.step, hstart]; rfl⟩

theorem stops_comma (rest : List Char) : Stops (',' :: rest) := by simp [Stops]

theorem stops_array (rest : List Char) : Stops (']' :: rest) := by simp [Stops]

theorem stops_object (rest : List Char) : Stops ('\x7d' :: rest) := by simp [Stops]

theorem itemChars_cons_cons (v w : Json) (vs : List Json) :
    itemChars (v :: w :: vs) = v.chars ++ ',' :: itemChars (w :: vs) := by
  simp [itemChars]

theorem fieldChars_cons_cons (f g : String × Json) (fs : List (String × Json)) :
    fieldChars (f :: g :: fs) =
      quote f.1 ++ ':' :: f.2.chars ++ ',' :: fieldChars (g :: fs) := by
  simp [fieldChars]

/-- The items of an array up to its end, after some that have been read. -/
theorem spells_items (hne : items ≠ []) (h : ∀ v ∈ items, ∃ ts, Spells d v ts) :
    ∃ ts, (∀ rest, Token.ofChars? (itemChars items ++ ']' :: rest) =
        (Token.ofChars? rest).map (ts ++ ·)) ∧
      ∀ stack read, stack.length + (d + 1) ≤ Assembly.maxDepth →
        ts.foldlM Assembly.step (.value (.array read :: stack)) =
          some (.complete stack (.arr (read.reverse ++ items))) := by
  -- `read` holds the items before these in reverse
  induction items with
  | nil => exact absurd rfl hne
  | cons v vs ih =>
    obtain ⟨ts, hts⟩ := h v List.mem_cons_self
    have hmakes (stack : List Open) (read : List Json)
        (hdepth : stack.length + (d + 1) ≤ Assembly.maxDepth) :
        ts.foldlM Assembly.step (.value (.array read :: stack)) =
          some (.complete (.array read :: stack) v) :=
      hts.makes _ (by rw [List.length_cons]; omega)
    cases vs with
    | nil =>
      refine ⟨ts ++ [.closeArray], fun rest ↦ ?_, fun stack read hdepth ↦ ?_⟩
      · rw [itemChars, hts.splits _ (stops_array rest), Token.ofChars?_cons rfl rfl]
        simp [Function.comp_def]
      · rw [List.foldlM_append, hmakes stack read hdepth]
        simp [Assembly.step]
    | cons w ws =>
      obtain ⟨ts', hsplits', hmakes'⟩ := ih (List.cons_ne_nil w ws) fun v hv ↦
        h v (List.mem_cons_of_mem _ hv)
      refine ⟨ts ++ .comma :: ts', fun rest ↦ ?_, fun stack read hdepth ↦ ?_⟩
      · rw [itemChars_cons_cons, List.append_assoc, List.cons_append, hts.splits _ (stops_comma _),
          Token.ofChars?_cons rfl rfl, hsplits']
        simp [Function.comp_def]
      · rw [List.foldlM_append, hmakes stack read hdepth]
        simp [Assembly.step, hmakes' stack (v :: read) hdepth]

/-- The fields of an object up to its end, after some that have been read. -/
theorem spells_fields (hne : fields ≠ []) (h : ∀ f ∈ fields, ∃ ts, Spells d f.2 ts) :
    ∃ ts, (∀ rest, Token.ofChars? (fieldChars fields ++ '\x7d' :: rest) =
        (Token.ofChars? rest).map (ts ++ ·)) ∧
      ∀ stack read, stack.length + (d + 1) ≤ Assembly.maxDepth →
        ts.foldlM Assembly.step (.key stack read) =
          some (.complete stack (.obj (read.reverse ++ fields))) := by
  induction fields with
  | nil => exact absurd rfl hne
  | cons f fs ih =>
    obtain ⟨ts, hts⟩ := h f List.mem_cons_self
    have hsplits (rest : List Char) (hrest : Stops rest) :
        Token.ofChars? (quote f.1 ++ ':' :: f.2.chars ++ rest) =
          (Token.ofChars? rest).map (.text f.1 :: .colon :: ts ++ ·) := by
      rw [List.append_assoc, List.cons_append, Token.ofChars?_quote, Token.ofChars?_cons rfl rfl,
        hts.splits rest hrest]
      simp [Function.comp_def]
    have hmakes (stack : List Open) (read : List (String × Json))
        (hdepth : stack.length + (d + 1) ≤ Assembly.maxDepth) :
        (.text f.1 :: .colon :: ts).foldlM Assembly.step (.key stack read) =
          some (.complete (.object read f.1 :: stack) f.2) :=
      hts.makes _ (by rw [List.length_cons]; omega)
    cases fs with
    | nil =>
      refine ⟨.text f.1 :: .colon :: ts ++ [.closeObject], fun rest ↦ ?_, fun stack read hdepth ↦ ?_⟩
      · rw [fieldChars, hsplits _ (stops_object rest), Token.ofChars?_cons rfl rfl]
        simp [Function.comp_def]
      · rw [List.foldlM_append, hmakes stack read hdepth]
        simp [Assembly.step]
    | cons g gs =>
      obtain ⟨ts', hsplits', hmakes'⟩ := ih (List.cons_ne_nil g gs) fun f hf ↦
        h f (List.mem_cons_of_mem _ hf)
      refine ⟨.text f.1 :: .colon :: ts ++ .comma :: ts', fun rest ↦ ?_, fun stack read hdepth ↦ ?_⟩
      · rw [fieldChars_cons_cons, List.append_assoc, List.cons_append, hsplits _ (stops_comma _),
          Token.ofChars?_cons rfl rfl, hsplits']
        simp [Function.comp_def]
      · rw [List.foldlM_append, hmakes stack read hdepth]
        simp [Assembly.step, hmakes' stack (f :: read) hdepth]

theorem spells_arr (h : ∀ v ∈ items, ∃ ts, Spells d v ts) :
    ∃ ts, Spells (d + 1) (.arr items) ts := by
  have hstart (stack : List Open) (hdepth : stack.length + (d + 1) ≤ Assembly.maxDepth) :
      Assembly.step (.value stack) .openArray = some (.firstItem stack) :=
    if_pos (by omega)
  by_cases hne : items = []
  · subst hne
    refine ⟨[.openArray, .closeArray], fun rest _ ↦ ?_, fun stack hdepth ↦ ?_⟩
    · have hchars : (arr []).chars ++ rest = '[' :: ']' :: rest := rfl
      rw [hchars, Token.ofChars?_cons rfl rfl, Token.ofChars?_cons rfl rfl]
      simp [Function.comp_def]
    · rw [List.foldlM_cons, hstart stack hdepth]
      rfl
  · obtain ⟨ts, hsplits, hmakes⟩ := spells_items hne h
    refine ⟨.openArray :: ts, fun rest _ ↦ ?_, fun stack hdepth ↦ ?_⟩
    · have hchars : (arr items).chars ++ rest = '[' :: (itemChars items ++ ']' :: rest) := by
        simp [chars]
      rw [hchars, Token.ofChars?_cons rfl rfl, hsplits]
      simp [Function.comp_def]
    · rw [List.foldlM_cons, hstart stack hdepth]
      exact Assembly.foldlM_firstItem (hmakes stack [] hdepth)

theorem spells_obj (h : ∀ f ∈ fields, ∃ ts, Spells d f.2 ts) :
    ∃ ts, Spells (d + 1) (.obj fields) ts := by
  have hstart (stack : List Open) (hdepth : stack.length + (d + 1) ≤ Assembly.maxDepth) :
      Assembly.step (.value stack) .openObject = some (.firstKey stack) :=
    if_pos (by omega)
  by_cases hne : fields = []
  · subst hne
    refine ⟨[.openObject, .closeObject], fun rest _ ↦ ?_, fun stack hdepth ↦ ?_⟩
    · have hchars : (obj []).chars ++ rest = '\x7b' :: '\x7d' :: rest := rfl
      rw [hchars, Token.ofChars?_cons rfl rfl, Token.ofChars?_cons rfl rfl]
      simp [Function.comp_def]
    · rw [List.foldlM_cons, hstart stack hdepth]
      rfl
  · obtain ⟨ts, hsplits, hmakes⟩ := spells_fields hne h
    refine ⟨.openObject :: ts, fun rest _ ↦ ?_, fun stack hdepth ↦ ?_⟩
    · have hchars : (obj fields).chars ++ rest =
          '\x7b' :: (fieldChars fields ++ '\x7d' :: rest) := by
        simp [chars]
      rw [hchars, Token.ofChars?_cons rfl rfl, hsplits]
      simp [Function.comp_def]
    · rw [List.foldlM_cons, hstart stack hdepth]
      exact Assembly.foldlM_firstKey (hmakes stack [] hdepth)

theorem Exact.spells (h : Exact d v) : ∃ ts, Spells d v ts := by
  induction h with
  | null => exact ⟨_, spells_scalar (fun rest _ ↦ Token.ofChars?_cons rfl rfl) fun _ ↦ rfl⟩
  | bool b =>
    cases b <;> exact ⟨_, spells_scalar (fun rest _ ↦ Token.ofChars?_cons rfl rfl) fun _ ↦ rfl⟩
  | int hlow hhigh =>
    exact ⟨_, spells_scalar (fun rest ↦ Token.ofChars?_int hlow hhigh) fun _ ↦ rfl⟩
  | str s => exact ⟨_, spells_scalar (fun rest _ ↦ Token.ofChars?_quote s rest) fun _ ↦ rfl⟩
  | arr _ ih => exact spells_arr ih
  | obj _ _ ih => exact spells_obj ih

theorem Exact.parseRaw?_eq (h : Exact Assembly.maxDepth v) : parseRaw? v.render = some v := by
  obtain ⟨ts, hts⟩ := h.spells
  have hsplits : Token.ofChars? v.chars = some ts := by
    have h := hts.splits [] nofun
    rwa [List.append_nil, Token.ofChars?_nil, Option.map_some, List.append_nil] at h
  have hmakes : ofTokens? ts = some v := by
    rw [ofTokens?, hts.makes [] (Nat.le_of_eq (Nat.zero_add _))]
    rfl
  rw [parseRaw?, render, String.toList_ofList, hsplits, Option.bind_some, hmakes]

/-- A value is read from its text. -/
theorem Exact.parse?_eq (h : Exact Assembly.maxDepth v) : parse? v.render = some v := by
  rw [parse?, h.parseRaw?_eq, Option.map_some, h.canonical_eq]

end LangBench.Json
