import LangBench.Net.Contexts
import LangBench.Proofs.Outcome
import LangBench.Proofs.Random.Weighted

/-!
What a tree of contexts knows after a symbol has been counted along a history.
-/

namespace LangBench

variable {x : Symbol}

theorem mem_bindSymbol {α : Type} {v : α} {e : Symbol × α} {es : List (Symbol × α)}
    (h : e ∈ bindSymbol x v es) : e = (x, v) ∨ e ∈ es := by
  induction es with
  | nil => exact .inl (List.mem_singleton.1 h)
  | cons f es ih =>
    unfold bindSymbol at h
    split at h
    · exact List.mem_cons.1 h
    · split at h
      · exact (List.mem_cons.1 h).imp_right (List.mem_cons_of_mem _)
      · rcases List.mem_cons.1 h with rfl | h
        · exact .inr List.mem_cons_self
        · exact (ih h).imp_right (List.mem_cons_of_mem _)

namespace ContextTree

variable {width : Nat} {t : ContextTree} {known : Option ContextTree} {y : Symbol}
  {older context : List Symbol}

/-- What follows a context, if there is a tree and it knows the context. -/
def tallyOf? (known : Option ContextTree) (context : List Symbol) : Option Tally :=
  known.bind (·.find? context)

theorem tallyOf?_nil (known : Option ContextTree) :
    (tallyOf? known []).getD (.empty width) = known.elim (.empty width) tally := by
  cases known <;> rfl

theorem tallyOf?_cons (known : Option ContextTree) (y : Symbol) (older : List Symbol) :
    tallyOf? known (y :: older) = tallyOf? ((known.elim [] longer).lookup y) older := by
  cases known <;> rfl

theorem observe_nil_eq_ok : observe width x [] known = .ok t ↔
    x.toNat < (known.elim (.empty width) tally).width ∧
      t = node ((known.elim (.empty width) tally).add x) (known.elim [] longer) := by
  rw [observe]
  split
  · next h => simp [h, eq_comm]
  · next h => simp [h]

theorem observe_cons_eq_ok : observe width x (y :: older) known = .ok t ↔
    x.toNat < (known.elim (.empty width) tally).width ∧
      ∃ l, observe width x older ((known.elim [] longer).lookup y) = .ok l ∧
        t = node ((known.elim (.empty width) tally).add x)
          (bindSymbol y l (known.elim [] longer)) := by
  rw [observe]
  split
  · next h =>
    rw [map_eq_ok]
    simp [h, eq_comm]
  · next h => simp [h]

/-- Counting a symbol along a history adds it to the tallies of all contexts at the end of the
history, and to no others. -/
theorem find?_observe {history : List Symbol} (h : observe width x history known = .ok t)
    (context : List Symbol) :
    t.find? context =
      if context <+: history then some (((tallyOf? known context).getD (.empty width)).add x)
      else tallyOf? known context := by
  induction history generalizing known t context with
  | nil =>
    obtain ⟨-, rfl⟩ := observe_nil_eq_ok.1 h
    cases context with
    | nil => simp [find?, tally, tallyOf?_nil]
    | cons y older =>
      simp only [find?, longer, tallyOf?_cons, List.prefix_nil, reduceCtorEq, if_false]
      rfl
  | cons z history ih =>
    obtain ⟨-, l, hl, rfl⟩ := observe_cons_eq_ok.1 h
    cases context with
    | nil => simp [find?, tally, tallyOf?_nil]
    | cons y older =>
      simp only [find?, longer, lookup_bindSymbol, List.cons_prefix_cons, tallyOf?_cons]
      by_cases hy : y = z
      · subst hy
        simpa using ih hl older
      · simp only [hy, if_false, false_and]
        rfl

theorem width_root (hwide : ∀ c tally, tallyOf? known c = some tally → tally.width = width) :
    (known.elim (.empty width) tally).width = width := by
  cases known with
  | none => rfl
  | some t => exact hwide [] t.tally rfl

/-- A symbol can be counted along every history if all tallies are wide enough for it. -/
theorem exists_observe (hwide : ∀ c tally, tallyOf? known c = some tally → tally.width = width)
    (hx : x.toNat < width) (history : List Symbol) :
    ∃ t, observe width x history known = .ok t := by
  induction history generalizing known with
  | nil => exact ⟨_, observe_nil_eq_ok.2 ⟨by rwa [width_root hwide], rfl⟩⟩
  | cons y older ih =>
    have hbranch : ∀ c tally, tallyOf? ((known.elim [] longer).lookup y) c = some tally →
        tally.width = width := fun c tally hc ↦ hwide (y :: c) tally (by rwa [tallyOf?_cons])
    obtain ⟨l, hl⟩ := ih hbranch
    exact ⟨_, observe_cons_eq_ok.2 ⟨by rwa [width_root hwide], l, hl, rfl⟩⟩

/-- What follows the longest known context is what follows a context at the end of the history that
is known, and that every other one is an end of. -/
theorem exists_longest (t : ContextTree) (history : List Symbol) :
    ∃ context, context <+: history ∧ t.find? context = some (t.longest history) ∧
      ∀ c, c <+: history → (t.find? c).isSome → c <+: context := by
  induction history generalizing t with
  | nil => exact ⟨[], List.prefix_rfl, rfl, fun c hc _ ↦ hc⟩
  | cons y older ih =>
    cases hy : t.longer.lookup y with
    | none =>
      refine ⟨[], List.nil_prefix, by rw [longest, hy]; rfl, fun c hc hknown ↦ ?_⟩
      cases c with
      | nil => exact List.prefix_rfl
      | cons z c =>
        obtain ⟨rfl, -⟩ := List.cons_prefix_cons.1 hc
        simp [find?, hy] at hknown
    | some l =>
      obtain ⟨context, hpre, hfind, hmax⟩ := ih l
      refine ⟨y :: context, List.cons_prefix_cons.2 ⟨rfl, hpre⟩, ?_, fun c hc hknown ↦ ?_⟩
      · rw [find?, longest, hy]
        exact hfind
      · cases c with
        | nil => exact List.nil_prefix
        | cons z c =>
          obtain ⟨rfl, holder⟩ := List.cons_prefix_cons.1 hc
          rw [find?, hy] at hknown
          exact List.cons_prefix_cons.2 ⟨rfl, hmax c holder hknown⟩

end ContextTree

end LangBench
