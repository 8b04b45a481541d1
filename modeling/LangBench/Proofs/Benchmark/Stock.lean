import LangBench.Benchmark.Prepared
import LangBench.Proofs.Automaton.Soundness
import LangBench.Proofs.Benchmark.Training
import LangBench.Proofs.Dict
import LangBench.Proofs.Grammar.Frames
import LangBench.Proofs.Grammar.Recognition
import LangBench.Proofs.Outcome

/-!
The backends of automata and grammars list only what they accept, and a language that is prepared
from a registry of such languages has such a backend.
-/

namespace LangBench

/-- The backends that come with the library: automata that have been built, and grammars that have
been read. -/
inductive Backend.Stock : Backend → Prop
  | automaton {a : Automaton} (h : a.Built) : Stock a.backend
  | grammar {text : String} {alphabet : Option (List String)} {g : Grammar}
      (h : Grammar.parse? text alphabet = .ok g) (maxDepth : Option Nat) :
      Stock (Cfg.backend ⟨g, maxDepth⟩)

section Source

variable {σ τ : Type} {step : σ → Step σ} {step' : τ → Step τ} {f : σ → τ} {P : Sample → Prop}

/-- Whatever an enumeration hands out under other names for its states, it hands out. -/
theorem Only.map {s : σ} (hstep : ∀ a, step' (f a) = (step a).map f) (h : Only step P s) :
    Only step' P (f s) := by
  intro x hx
  obtain ⟨out, t, hsteps, hx⟩ := handsOut_iff.1 hx
  obtain ⟨u, -, hu⟩ := Steps.of_map f hstep hsteps
  exact h x (handsOut_iff.2 ⟨out, u, hu, hx⟩)

end Source

theorem Automaton.withinAlphabet_of_accepts {a : Automaton} {w : Sample}
    (h : a.accepts w = true) : w.withinAlphabet a.alphabetSize = true := by
  unfold accepts at h
  split at h
  · exact (Bool.and_eq_true_iff.1 h).1
  · simp at h

namespace Backend.Stock

variable {b : Backend}

theorem withinAlphabet_of_accepts {x : Sample} (h : b.Stock) (hx : b.accepts x = true) :
    x.withinAlphabet b.alphabetSize = true := by
  cases h with
  | automaton h => exact Automaton.withinAlphabet_of_accepts hx
  | grammar h maxDepth => exact (Bool.and_eq_true_iff.1 hx).1

/-- A backend lists only samples that it accepts. -/
theorem only_accepted (h : b.Stock) (maxLength : Option Nat) :
    Only Enumeration.step (fun x ↦ b.accepts x = true) (b.generate maxLength) := by
  cases h with
  | @automaton a h =>
    exact Only.map (f := Enumeration.walk) (fun _ ↦ rfl) fun x hx ↦
      h.wellFormed.accepts_of_handsOut hx
  | @grammar text alphabet g h maxDepth =>
    refine Only.map (f := Enumeration.derivations) (fun _ ↦ rfl) fun x hx ↦ ?_
    have hg : (Cfg.mk g maxDepth).grammar.WellFormed := Grammar.wellFormed_of_parse? h
    exact (Cfg.accepts_iff hg x).2 (Derivations.yields_of_handsOut hx).1

/-- With a bound on lengths a backend lists only samples that are short enough. -/
theorem only_short (h : b.Stock) (bound : Nat) :
    Only Enumeration.step (·.length ≤ bound) (b.generate (some bound)) := by
  cases h with
  | @automaton a h =>
    refine Only.map (f := Enumeration.walk) (fun _ ↦ rfl) fun x hx ↦ ?_
    obtain ⟨samples, hlists, hmem⟩ := h.wellFormed.agree_start.bounded bound
    exact ((hmem x).1.1 (hlists.mem_iff.1 hx)).2
  | @grammar text alphabet g h maxDepth =>
    refine Only.map (f := Enumeration.derivations) (fun _ ↦ rfl) fun x hx ↦ ?_
    exact (Derivations.yields_of_handsOut hx).2 bound rfl

/-- With a bound on lengths a backend lists only samples that it accepts and that are short enough;
they use no symbols but its own. -/
theorem only_generate (h : b.Stock) (bound : Nat) :
    Only Enumeration.step
      (fun x ↦ b.accepts x = true ∧ x.length ≤ bound ∧ x.withinAlphabet b.alphabetSize = true)
      (b.generate (some bound)) := by
  intro x hx
  have haccepts := h.only_accepted (some bound) x hx
  exact ⟨haccepts, h.only_short bound x hx, h.withinAlphabet_of_accepts haccepts⟩

end Backend.Stock

namespace Language

theorem prepare_eq_ok {l : Language} {overrides : Params} {p : Prepared} :
    l.prepare overrides = .ok p ↔ ∃ b, l.build (l.mergedParams overrides) = .ok b ∧
      l.shape.checkCompatible b.shape = .ok () ∧ b.alphabetSize ≤ l.alphabetSize ∧
      p = ⟨l, l.mergedParams overrides, b⟩ := by
  refine bind_eq_ok.trans (exists_congr fun b ↦ and_congr_right fun _ ↦ check_bind_eq_ok.trans ?_)
  rw [mapError_eq_ok]
  refine and_congr_right fun _ ↦ ?_
  split
  · next hlt => simp [Nat.not_le_of_lt hlt, throw, throwThe, MonadExceptOf.throw]
  · next hle => simp [Nat.le_of_not_lt hle, pure, Except.pure, eq_comm (a := p)]

theorem prepare_ofAutomaton {name description : String} {n : Nat}
    {automaton : Except AutomatonError Automaton} {a : Automaton} (ha : automaton = .ok a)
    (hsize : a.alphabetSize ≤ n) (overrides : Params) :
    ∃ p, (ofAutomaton name description n automaton).prepare overrides = .ok p ∧
      p.backend = a.backend := by
  subst ha
  exact ⟨_, prepare_eq_ok.2 ⟨_, rfl, rfl, hsize, rfl⟩, rfl⟩

theorem prepare_ofGrammar {name description text : String} {alphabet : List String}
    {default depth : Nat} {g : Grammar} {overrides : Params}
    (hg : Grammar.parse? text (some alphabet) = .ok g) (hsize : g.terminalCount ≤ alphabet.length)
    (hdepth : ((ofGrammar name description text alphabet default).mergedParams overrides).nat
      "max_depth" = .ok depth) :
    ∃ p, (ofGrammar name description text alphabet default).prepare overrides = .ok p ∧
      p.backend = Cfg.backend ⟨g, some depth⟩ := by
  have hparse : Grammar.parseWithAlphabet text alphabet = .ok g := hg
  have hbuild : (ofGrammar name description text alphabet default).build
      ((ofGrammar name description text alphabet default).mergedParams overrides) =
        .ok (Cfg.backend ⟨g, some depth⟩) := by
    refine bind_eq_ok.2 ⟨depth, hdepth, ?_⟩
    rw [hparse]
    rfl
  exact ⟨_, prepare_eq_ok.2 ⟨_, hbuild, rfl, hsize, rfl⟩, rfl⟩

def Stock (l : Language) : Prop := ∀ params b, l.build params = .ok b → b.Stock

theorem stock_ofAutomaton {name description : String} {n : Nat}
    {automaton : Except AutomatonError Automaton} (h : ∀ a, automaton = .ok a → a.Built) :
    (ofAutomaton name description n automaton).Stock := by
  intro params b hb
  obtain ⟨a, ha, rfl⟩ := map_eq_ok.1 (mapError_eq_ok.1 hb)
  exact .automaton (h a ha)

theorem stock_ofGrammar (name description text : String) (alphabet : List String) (depth : Nat) :
    (ofGrammar name description text alphabet depth).Stock := by
  intro params b hb
  obtain ⟨maxDepth, -, hb⟩ := bind_eq_ok.1 hb
  split at hb
  · next g hg =>
    obtain rfl := Except.ok.inj hb
    exact .grammar (show Grammar.parse? text (some alphabet) = .ok g from hg) (some maxDepth)
  · exact absurd hb throw_ne_ok

end Language

namespace Registry

theorem prepare_eq_ok {r : Registry} {preset : String} {overrides : Params}
    {p : Prepared} : r.prepare preset overrides = .ok p ↔
      ∃ l, r.langs.get? preset = some l ∧ l.prepare overrides = .ok p := by
  unfold prepare
  split <;> simp_all

def Stock (r : Registry) : Prop := ∀ name l, r.langs.get? name = some l → l.Stock

theorem Stock.withLang {r : Registry} {l : Language} (hr : r.Stock) (hl : l.Stock) :
    (r.withLang l).Stock := by
  intro name l' hget
  rw [Registry.withLang, Dict.get?_insert] at hget
  split at hget
  · exact Option.some.inj hget ▸ hl
  · exact hr name l' hget

theorem stock_builtin : builtin.Stock := by
  have hempty : Registry.empty.Stock := fun _ _ h ↦ nomatch h
  have htoyFsm : Language.toyFsm.Stock :=
    Language.stock_ofAutomaton fun _ ↦ Automaton.built_of_ofParts
  have htoyCfg : Language.toyCfg.Stock := Language.stock_ofGrammar _ _ _ _ _
  have hparityFsm : Language.parityFsm.Stock :=
    Language.stock_ofAutomaton fun _ ↦ Automaton.built_of_ofParts
  have hdyckCfg : Language.dyckCfg.Stock := Language.stock_ofGrammar _ _ _ _ _
  exact hempty.withLang htoyFsm |>.withLang htoyCfg |>.withLang hparityFsm |>.withLang hdyckCfg

theorem Stock.backend {r : Registry} {preset : String} {overrides : Params} {p : Prepared}
    (hr : r.Stock) (h : r.prepare preset overrides = .ok p) : p.backend.Stock := by
  obtain ⟨l, hl, hp⟩ := prepare_eq_ok.1 h
  obtain ⟨b, hb, -, -, rfl⟩ := Language.prepare_eq_ok.1 hp
  exact hr preset l hl _ b hb

theorem alphabetSize_le_of_prepare {r : Registry} {preset : String} {overrides : Params}
    {p : Prepared} (h : r.prepare preset overrides = .ok p) :
    p.backend.alphabetSize ≤ p.lang.alphabetSize := by
  obtain ⟨l, -, hp⟩ := prepare_eq_ok.1 h
  obtain ⟨b, -, -, hle, rfl⟩ := Language.prepare_eq_ok.1 hp
  exact hle

end Registry

end LangBench
