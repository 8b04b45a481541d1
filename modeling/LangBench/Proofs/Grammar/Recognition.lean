import LangBench.Grammar.Cfg
import LangBench.Proofs.Grammar.Entry

/-!
The columns of a chart hold what can be deduced to be in them, so a grammar recognises what it
derives.

While a column is filled, everything in it is on the agenda or has had its consequences added. The
completions of a production that was begun in the same column need not have been: such a production
derives the empty row, and what waits for its nonterminal has been moved over it by prediction.
-/

namespace LangBench

namespace Grammar

variable {g : Grammar} {w : Sample} {i : Nat} {d e : Dotted g}

section Consequences

variable {c : Column g} {earlier : Array (Column g)} {n : Nat}

theorem mem_productionsOf {p : Nat} :
    p ∈ g.productionsOf n ↔ ∃ h : p < g.productions.size, g.productions[p].lhs = n := by
  simp only [productionsOf_eq, placesOf, List.mem_filter, List.mem_range]
  constructor
  · intro hex
    obtain ⟨h, hp⟩ := hex
    exact ⟨h, by simpa [Array.getElem?_eq_getElem h] using hp⟩
  · intro hex
    obtain ⟨h, hp⟩ := hex
    exact ⟨h, by simpa [Array.getElem?_eq_getElem h] using hp⟩

theorem mem_predictions : e ∈ g.predictions i n ↔
    ∃ p : Fin g.productions.size, (Dotted.start p i).lhs = n ∧ e = .start p i := by
  simp only [predictions, List.mem_filterMap]
  constructor
  · intro hex
    obtain ⟨p, hp, he⟩ := hex
    obtain ⟨h, hlhs⟩ := mem_productionsOf.1 hp
    rw [dif_pos h] at he
    exact ⟨⟨p, h⟩, hlhs, (Option.some.inj he).symm⟩
  · intro hex
    obtain ⟨p, hlhs, rfl⟩ := hex
    exact ⟨p, mem_productionsOf.2 ⟨p.isLt, hlhs⟩, dif_pos p.isLt⟩

theorem mem_completions :
    e ∈ completions n c ↔ ∃ d ∈ c.items, d.awaits? = some n ∧ d.advance? = some e := by
  simp only [completions, List.mem_filterMap, c.mem_waiting, and_assoc]

theorem mem_scan {x : Symbol} :
    e ∈ scan x c ↔ ∃ d ∈ c.items, d.next? = some (.terminal x) ∧ d.advance? = some e := by
  simp only [scan, List.mem_filterMap, List.mem_filter, decide_eq_true_eq, and_assoc]

theorem mem_consequences : e ∈ consequences earlier i c d ↔
    (∃ n, d.awaits? = some n ∧
      (e ∈ g.predictions i n ∨ g.isNullable n = true ∧ d.advance? = some e)) ∨
    d.rest = [] ∧ e ∈ completions d.lhs (earlier[d.origin]?.getD c) := by
  unfold consequences Dotted.awaits?
  split
  · next h => simp [h]
  · next n row h =>
    cases hn : g.isNullable n <;> simp [h, hn]
  · next h => simp [h]

end Consequences

namespace Filling

variable {f : Filling g}

theorem mem_add :
    e ∈ (f.add i d).column.items ↔ e ∈ f.column.items ∨ e = d ∧ d.origin ≤ i := by
  unfold add
  split
  · next h =>
    rw [Bool.and_eq_true, decide_eq_true_eq] at h
    simp [Column.push, h.1, or_comm]
  · next h =>
    rw [Bool.and_eq_true, Bool.not_eq_true', decide_eq_true_eq] at h
    refine ⟨.inl, ?_⟩
    intro hcases
    rcases hcases with hmem | ⟨rfl, hle⟩
    · exact hmem
    · cases hk : f.known.contains e.key with
      | false => exact absurd ⟨hle, hk⟩ h
      | true => exact (f.key_mem_known e).1 hk

theorem mem_agenda_add : e ∈ (f.add i d).agenda ↔
    e ∈ f.agenda ∨ e ∈ (f.add i d).column.items ∧ e ∉ f.column.items := by
  unfold add
  split
  · next h =>
    rw [Bool.and_eq_true, Bool.not_eq_true', decide_eq_true_eq] at h
    have hd : d ∉ f.column.items := fun hmem ↦ by
      have := (f.key_mem_known d).2 hmem
      simp [h.2] at this
    simp only [Column.push, List.mem_cons]
    constructor
    · intro hcases
      rcases hcases with rfl | hmem
      · exact .inr ⟨.inl rfl, hd⟩
      · exact .inl hmem
    · intro hcases
      rcases hcases with hmem | ⟨rfl | hmem, hnot⟩
      · exact .inr hmem
      · exact .inl rfl
      · exact absurd hmem hnot
  · exact ⟨.inl, fun h ↦ h.resolve_right fun h ↦ h.2 h.1⟩

theorem mem_addAll {ds : List (Dotted g)} :
    e ∈ (f.addAll i ds).column.items ↔ e ∈ f.column.items ∨ e ∈ ds ∧ e.origin ≤ i := by
  induction ds generalizing f with
  | nil => simp [addAll]
  | cons d ds ih =>
    have hcons : f.addAll i (d :: ds) = (f.add i d).addAll i ds := rfl
    rw [hcons, ih, mem_add, List.mem_cons, or_and_right, or_assoc]
    refine or_congr_right (or_congr_left (and_congr_right fun h ↦ ?_))
    rw [h]

theorem mem_agenda_addAll {ds : List (Dotted g)} : e ∈ (f.addAll i ds).agenda ↔
    e ∈ f.agenda ∨ e ∈ (f.addAll i ds).column.items ∧ e ∉ f.column.items := by
  induction ds generalizing f with
  | nil => exact ⟨.inl, fun h ↦ h.resolve_right fun h ↦ h.2 h.1⟩
  | cons d ds ih =>
    have hcons : f.addAll i (d :: ds) = (f.add i d).addAll i ds := rfl
    rw [hcons, ih, mem_agenda_add]
    have hmono : e ∈ f.column.items → e ∈ (f.add i d).column.items := fun h ↦ mem_add.2 (.inl h)
    have hmono' : e ∈ (f.add i d).column.items → e ∈ ((f.add i d).addAll i ds).column.items :=
      fun h ↦ mem_addAll.2 (.inl h)
    grind

end Filling

/-- A column holds what can be deduced to be in column `i`. -/
def Exact (w : Sample) (i : Nat) (c : Column g) : Prop := ∀ d, d ∈ c.items ↔ g.Entry w i d

/-- The consequences of an item of column `i`, but for what it completes in the same column. -/
structure Settled (earlier : Array (Column g)) (i : Nat) (items : List (Dotted g)) (d : Dotted g) :
    Prop where
  predicted : ∀ n, d.awaits? = some n → ∀ e ∈ g.predictions i n, e ∈ items
  skipped : ∀ n, d.awaits? = some n → g.isNullable n = true → ∀ e, d.advance? = some e → e ∈ items
  completed : d.rest = [] → ∀ c, earlier[d.origin]? = some c → ∀ e ∈ completions d.lhs c, e ∈ items

theorem Settled.mono {earlier : Array (Column g)} {items items' : List (Dotted g)}
    (h : Settled earlier i items d) (hsub : ∀ e ∈ items, e ∈ items') :
    Settled earlier i items' d where
  predicted n hn e he := hsub e (h.predicted n hn e he)
  skipped n hn hnull e he := hsub e (h.skipped n hn hnull e he)
  completed hr c hc e he := hsub e (h.completed hr c hc e he)

/-- What is kept while column `i` is filled. -/
structure Filling.Ready (w : Sample) (earlier : Array (Column g)) (f : Filling g) : Prop where
  entry : ∀ d ∈ f.column.items, g.Entry w earlier.size d
  agenda_mem : ∀ d ∈ f.agenda, d ∈ f.column.items
  settled : ∀ d ∈ f.column.items, d ∈ f.agenda ∨ Settled earlier earlier.size f.column.items d

section Filling

variable {earlier : Array (Column g)} {f : Filling g}

theorem Entry.of_nullable (hg : g.WellFormed) {n : Nat} (hd : g.Entry w i d)
    (hn : d.awaits? = some n) (hnull : g.isNullable n = true) (he : d.advance? = some e) :
    g.Entry w i e := by
  obtain ⟨row, hrow⟩ := Dotted.awaits?_eq_some_iff.1 hn
  obtain ⟨tree, htree⟩ := hg.isNullable_iff.1 hnull
  have hprefix : tree.yield <+: w.drop i := htree ▸ List.nil_prefix
  obtain ⟨e', he', hp', hr', ho'⟩ := hd.exists_advance tree hrow hprefix
  obtain ⟨item, hr, hp, ho⟩ := Dotted.advance?_eq_some_iff.1 he
  have hrest : row = e.rest := (List.cons.inj (hrow.symm.trans hr)).2
  obtain rfl := Dotted.ext_rest (hp'.trans hp) (hr'.trans hrest) (ho'.trans ho)
  rwa [htree] at he'

/-- Everything that an item of a column adds to it can be deduced. -/
theorem Filling.Ready.entry_consequences (hg : g.WellFormed) (hf : f.Ready w earlier)
    (hearlier : ∀ k c, earlier[k]? = some c → Exact w k c) (hd : d ∈ f.column.items)
    (he : e ∈ consequences earlier earlier.size f.column d) : g.Entry w earlier.size e := by
  have hentry := hf.entry d hd
  rcases mem_consequences.1 he with ⟨n, hn, he | ⟨hnull, he⟩⟩ | ⟨hr, he⟩
  · obtain ⟨p, hp, rfl⟩ := mem_predictions.1 he
    exact .predict hentry hn p hp
  · exact hentry.of_nullable hg hn hnull he
  · obtain ⟨b, hb, hn, he⟩ := mem_completions.1 he
    refine .complete hentry hr ?_ hn he
    cases hc : earlier[d.origin]? with
    | some c =>
      rw [hc, Option.getD_some] at hb
      exact (hearlier _ c hc b).1 hb
    | none =>
      have horigin := Nat.le_antisymm hentry.sound.origin_le (Array.getElem?_eq_none_iff.1 hc)
      rw [hc, Option.getD_none] at hb
      exact horigin ▸ hf.entry b hb

theorem Filling.Ready.addAll (hg : g.WellFormed) (hf : f.Ready w earlier)
    (hearlier : ∀ k c, earlier[k]? = some c → Exact w k c) {agenda : List (Dotted g)}
    (hagenda : f.agenda = d :: agenda) :
    (Filling.addAll earlier.size { f with agenda }
      (consequences earlier earlier.size f.column d)).Ready w earlier := by
  have hd : d ∈ f.column.items := hf.agenda_mem d (hagenda ▸ List.mem_cons_self)
  have hnew {e : Dotted g} (he : e ∈ consequences earlier earlier.size f.column d) :
      e ∈ (Filling.addAll earlier.size { f with agenda }
        (consequences earlier earlier.size f.column d)).column.items :=
    mem_addAll.2 (.inr ⟨he, (hf.entry_consequences hg hearlier hd he).sound.origin_le⟩)
  have hold {e : Dotted g} (he : e ∈ f.column.items) :
      e ∈ (Filling.addAll earlier.size { f with agenda }
        (consequences earlier earlier.size f.column d)).column.items :=
    mem_addAll.2 (.inl he)
  refine ⟨fun e he ↦ ?_, fun e he ↦ ?_, fun e he ↦ ?_⟩
  · rcases mem_addAll.1 he with he | ⟨he, -⟩
    · exact hf.entry e he
    · exact hf.entry_consequences hg hearlier hd he
  · rcases mem_agenda_addAll.1 he with he | ⟨he, -⟩
    · exact hold (hf.agenda_mem e (hagenda ▸ List.mem_cons_of_mem d he))
    · exact he
  · by_cases hmem : e ∈ f.column.items
    · rcases hf.settled e hmem with hagenda' | hsettled
      · rcases List.mem_cons.1 (hagenda ▸ hagenda') with rfl | htail
        · refine .inr ⟨fun n hn b hb ↦ ?_, fun n hn hnull b hb ↦ ?_, fun hr c hc b hb ↦ ?_⟩
          · exact hnew (mem_consequences.2 (.inl ⟨n, hn, .inl hb⟩))
          · exact hnew (mem_consequences.2 (.inl ⟨n, hn, .inr ⟨hnull, hb⟩⟩))
          · exact hnew (mem_consequences.2 (.inr ⟨hr, by rwa [hc, Option.getD_some]⟩))
        · exact .inl (mem_agenda_addAll.2 (.inl htail))
      · exact .inr (hsettled.mono fun b hb ↦ hold hb)
    · exact .inl (mem_agenda_addAll.2 (.inr ⟨he, hmem⟩))

/-- When nothing is left on the agenda, the column has all its consequences. -/
theorem Filling.Ready.saturate (hg : g.WellFormed) (hf : f.Ready w earlier)
    (hearlier : ∀ k c, earlier[k]? = some c → Exact w k c) :
    let c := saturate earlier earlier.size f
    (∀ d ∈ f.column.items, d ∈ c.items) ∧
      ∀ d ∈ c.items, g.Entry w earlier.size d ∧ Settled earlier earlier.size c.items d := by
  fun_induction Grammar.saturate earlier earlier.size f with
  | case1 f h =>
    refine ⟨fun d hd ↦ hd, fun d hd ↦ ⟨hf.entry d hd, ?_⟩⟩
    exact (hf.settled d hd).resolve_left (by simp [h])
  | case2 f d agenda h _ ih =>
    obtain ⟨hsub, hall⟩ := ih (hf.addAll hg hearlier h)
    exact ⟨fun e he ↦ hsub e (mem_addAll.2 (.inl he)), hall⟩

end Filling

/-- What column `i` is begun with. -/
inductive Seed (g : Grammar) (w : Sample) : Nat → Dotted g → Prop
  | start (p : Fin g.productions.size) (hp : (Dotted.start p 0).lhs = g.start) :
      Seed g w 0 (.start p 0)
  | scan {i : Nat} {d e : Dotted g} {x : Symbol} (hd : g.Entry w i d) (hx : w[i]? = some x)
      (hn : d.next? = some (.terminal x)) (he : d.advance? = some e) : Seed g w (i + 1) e

theorem Seed.entry (h : g.Seed w i d) : g.Entry w i d := by
  cases h with
  | start p hp => exact .start p hp
  | scan hd hx hn he => exact .scan hd hx hn he

section Chart

variable {earlier : Array (Column g)} {seeds : List (Dotted g)}

theorem ready_seeds (hseeds : ∀ d, d ∈ seeds ↔ g.Seed w earlier.size d) :
    (Filling.addAll earlier.size .empty seeds).Ready w earlier where
  entry d hd := by
    rcases Filling.mem_addAll.1 hd with hd | ⟨hd, -⟩
    · simp [Filling.empty, Column.empty] at hd
    · exact ((hseeds d).1 hd).entry
  agenda_mem d hd := by
    rcases Filling.mem_agenda_addAll.1 hd with hd | ⟨hd, -⟩
    · simp [Filling.empty] at hd
    · exact hd
  settled d hd :=
    .inl (Filling.mem_agenda_addAll.2 (.inr ⟨hd, by simp [Filling.empty, Column.empty]⟩))

theorem exact_saturate (hg : g.WellFormed) (hearlier : ∀ k c, earlier[k]? = some c → Exact w k c)
    (hseeds : ∀ d, d ∈ seeds ↔ g.Seed w earlier.size d) :
    Exact w earlier.size (saturate earlier earlier.size (.addAll earlier.size .empty seeds)) := by
  obtain ⟨hsub, hall⟩ := (ready_seeds hseeds).saturate hg hearlier
  generalize saturate earlier earlier.size (.addAll earlier.size .empty seeds) = c at hsub hall
  have hseed {d : Dotted g} (hd : g.Seed w earlier.size d) : d ∈ c.items :=
    hsub d (Filling.mem_addAll.2 (.inr ⟨(hseeds d).2 hd, hd.entry.sound.origin_le⟩))
  refine fun d ↦ ⟨fun hd ↦ (hall d hd).1, fun hd ↦ ?_⟩
  generalize hi : earlier.size = i at hd
  induction hd with
  | start p hp =>
    refine hseed ?_
    rw [hi]
    exact .start p hp
  | scan hd hx hn he =>
    refine hseed ?_
    rw [hi]
    exact .scan hd hx hn he
  | @predict i n d hd hn p hp ih =>
    exact (hall d (ih hi)).2.predicted n hn _ (mem_predictions.2 ⟨p, hp, hi ▸ rfl⟩)
  | @complete i c' d e hc hr hd hn he ihc ihd =>
    subst hi
    rcases Nat.lt_or_eq_of_le hc.sound.origin_le with hlt | horigin
    · have hcol : earlier[c'.origin]? = some earlier[c'.origin] := Array.getElem?_eq_getElem hlt
      refine (hall c' (ihc rfl)).2.completed hr _ hcol e (mem_completions.2 ⟨d, ?_, hn, he⟩)
      exact (hearlier _ _ hcol d).2 hd
    · -- what was begun in this column has read nothing of the word
      have hnull : g.isNullable c'.lhs = true := by
        have hyields := hc.sound.yields_lhs hr
        rw [horigin, between_self] at hyields
        exact hg.isNullable_iff.2 hyields
      exact (hall d (ihd horigin.symm)).2.skipped _ hn hnull e he

theorem exact_push {c : Column g} (hearlier : ∀ k c, earlier[k]? = some c → Exact w k c)
    (hc : Exact w earlier.size c) : ∀ k d, (earlier.push c)[k]? = some d → Exact w k d := by
  intro k d hd
  rw [Array.getElem?_push] at hd
  split at hd
  · next hk =>
    obtain rfl := Option.some.inj hd
    exact hk ▸ hc
  · exact hearlier k d hd

theorem mem_scan_iff_seed {c : Column g} {x : Symbol} (hc : Exact w i c) (hx : w[i]? = some x) :
    d ∈ scan x c ↔ g.Seed w (i + 1) d := by
  rw [mem_scan]
  constructor
  · intro hex
    obtain ⟨b, hb, hn, he⟩ := hex
    exact .scan ((hc b).1 hb) hx hn he
  · intro h
    generalize hj : i + 1 = j at h
    cases h with
    | start => simp at hj
    | scan hb hx' hn he =>
      obtain rfl := Nat.succ.inj hj
      obtain rfl := Option.some.inj (hx.symm.trans hx')
      exact ⟨_, (hc _).2 hb, hn, he⟩

/-- All columns of a chart are exact, and there is one for each prefix of the word. -/
theorem exact_extendChart (hg : g.WellFormed) (before rest : Sample)
    (hsize : before.length = earlier.size) (hw : w = before ++ rest)
    (hearlier : ∀ k c, earlier[k]? = some c → Exact w k c)
    (hseeds : ∀ d, d ∈ seeds ↔ g.Seed w earlier.size d) :
    (extendChart earlier seeds rest).size = w.length + 1 ∧
      ∀ k c, (extendChart earlier seeds rest)[k]? = some c → Exact w k c := by
  induction rest generalizing before earlier seeds with
  | nil =>
    refine ⟨?_, exact_push hearlier (exact_saturate hg hearlier hseeds)⟩
    rw [extendChart, Array.size_push, hw, List.append_nil, hsize]
  | cons x rest ih =>
    have hexact := exact_saturate hg hearlier hseeds
    have hx : w[earlier.size]? = some x := by simp [hw, ← hsize]
    refine ih (before ++ [x]) ?_ (by simp [hw]) (exact_push hearlier hexact) fun d ↦ ?_
    · rw [List.length_append, Array.size_push, hsize]
      rfl
    · rw [Array.size_push]
      exact mem_scan_iff_seed hexact hx

theorem mem_predictions_iff_seed : d ∈ g.predictions 0 g.start ↔ g.Seed w 0 d := by
  rw [mem_predictions]
  constructor
  · intro h
    obtain ⟨p, hp, rfl⟩ := h
    exact .start p hp
  · intro hex
    obtain ⟨p, hp⟩ := hex
    exact ⟨p, hp, rfl⟩

/-- A chart has a column for each place of the word, which holds what can be deduced up to there. -/
theorem exact_chart (hg : g.WellFormed) (w : Sample) :
    (g.chart w).size = w.length + 1 ∧ ∀ k c, (g.chart w)[k]? = some c → Exact w k c :=
  exact_extendChart hg [] w rfl rfl (by simp) fun _ ↦ mem_predictions_iff_seed

/-- The last column of a chart holds what can be deduced from the whole word. -/
theorem exists_back_chart (hg : g.WellFormed) (w : Sample) :
    ∃ c, (g.chart w).back? = some c ∧ Exact w w.length c := by
  obtain ⟨hsize, hexact⟩ := exact_chart hg w
  have hlast : w.length < (g.chart w).size := by
    rw [hsize]
    exact Nat.lt_succ_self _
  refine ⟨(g.chart w)[w.length], ?_, hexact _ _ (Array.getElem?_eq_getElem hlast)⟩
  rw [Array.back?_eq_getElem?, ← Array.getElem?_eq_getElem hlast, hsize, Nat.add_sub_cancel]

end Chart

/-- What the start derives takes some production of the start from the first column to the last. -/
theorem yields_start_iff_entry : g.Yields [.nonterminal g.start] w ↔
    ∃ d, g.Entry w w.length d ∧ isAccepting d = true := by
  constructor
  · intro h
    obtain ⟨alt, halt, tree, htree⟩ := yields_nonterminal_iff.1 h
    obtain ⟨p, hlhs, hrow⟩ := Dotted.exists_start halt 0
    have hstart : g.Entry w 0 (.start p 0) := .start p hlhs
    have hprefix : tree.yield <+: w.drop 0 := by
      rw [htree]
      exact List.prefix_rfl
    obtain ⟨d, hd, hprod, hrest, horigin⟩ :=
      hstart.exists_advance tree (hrow.trans (List.append_nil _).symm) hprefix
    rw [htree, Nat.zero_add] at hd
    refine ⟨d, hd, ?_⟩
    rw [isAccepting, horigin, Dotted.lhs_congr hprod, hlhs, hrest]
    simp
  · intro hex
    obtain ⟨d, hd, hacc⟩ := hex
    simp only [isAccepting, Bool.and_eq_true, decide_eq_true_eq, List.isEmpty_iff] at hacc
    obtain ⟨⟨horigin, hlhs⟩, hrest⟩ := hacc
    have hyields := hd.sound.yields_lhs hrest
    rwa [hlhs, horigin, between_zero, List.take_length] at hyields

theorem WellFormed.recognizes_iff (hg : g.WellFormed) (w : Sample) :
    g.recognizes w = true ↔ g.Yields [.nonterminal g.start] w := by
  obtain ⟨c, hc, hexact⟩ := exists_back_chart hg w
  rw [recognizes, hc, Option.any_some, List.any_eq_true, yields_start_iff_entry]
  exact exists_congr fun d ↦ and_congr_left fun _ ↦ hexact d

/-- Whatever derives from a row of known items consists of known terminals. -/
theorem WellFormed.withinAlphabet_yield (hg : g.WellFormed) {row : List Item} (f : g.Forest row)
    (h : ∀ x, .terminal x ∈ row → x.toNat < g.terminalCount) :
    f.yield.withinAlphabet g.terminalCount = true := by
  rw [Sample.withinAlphabet_iff]
  exact f.forall_mem_yield hg.terminal_lt h

end Grammar

namespace Cfg

open Grammar

theorem accepts_iff {c : Cfg} (hg : c.grammar.WellFormed) (w : Sample) :
    c.accepts w = true ↔ c.grammar.Yields [.nonterminal c.grammar.start] w := by
  rw [accepts, Bool.and_eq_true, hg.recognizes_iff, and_iff_right_iff_imp]
  intro h
  obtain ⟨f, rfl⟩ := h
  exact hg.withinAlphabet_yield f (by simp)

end Cfg

end LangBench
