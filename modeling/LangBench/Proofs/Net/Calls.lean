import LangBench.Net.Basic
import LangBench.Proofs.Outcome

/-!
Using a net that has been prepared: calls that train it and calls that ask it for a candidate, in
any order.
-/

namespace LangBench.Net

/-- A call to a net that has been prepared. -/
inductive Call where
  | train (samples : List Sample)
  | generate

def Call.samples : Call → List Sample
  | .train samples => samples
  | .generate => []

/-- The samples that calls offer for training, in order. -/
def samplesOf (calls : List Call) : List Sample := calls.flatMap Call.samples

/-- The candidates that a call returns, and the net after it. -/
def call (net : Net) (s : net.State) : Call → Except NetFault (List Sample × net.State)
  | .train samples => (net.train samples s).map fun (t, _) ↦ ([], t)
  | .generate => (net.generate s).map fun (x, t) ↦ ([x], t)

/-- The candidates that calls return one after the other, and the net after them. -/
def calls (net : Net) (s : net.State) : List Call → Except NetFault (List Sample × net.State)
  | [] => .ok ([], s)
  | c :: rest =>
    (net.call s c).bind fun (xs, t) ↦ (net.calls t rest).map fun (ys, u) ↦ (xs ++ ys, u)

variable {net : Net} {s t u : net.State} {out out' : List Sample}

def absorbAll (net : Net) (s : net.State) (samples : List Sample) : Except NetFault net.State :=
  samples.foldlM (fun s x ↦ net.absorb x s) s

/-- A net that always wants more absorbs all samples and leaves none. -/
theorem train_eq (hmore : ∀ absorbed, net.wantsMore absorbed = true) (samples : List Sample)
    (s : net.State) : net.train samples s = (net.absorbAll s samples).map fun t ↦ (t, []) := by
  suffices hgo : ∀ absorbed s,
      train.go net absorbed samples s = (net.absorbAll s samples).map fun t ↦ (t, []) from hgo 0 s
  induction samples with
  | nil => exact fun _ _ ↦ rfl
  | cons x samples ih =>
    intro absorbed s
    rw [train.go, if_pos (hmore absorbed), absorbAll, List.foldlM_cons]
    cases net.absorb x s with
    | error e => rfl
    | ok t => exact ih (absorbed + 1) t

theorem absorbAll_append (samples given : List Sample) (s : net.State) :
    net.absorbAll s (samples ++ given) =
      (net.absorbAll s samples).bind fun t ↦ net.absorbAll t given := List.foldlM_append

/-- What absorbing a sample keeps, absorbing samples keeps. -/
theorem absorbAll_invariant (I : net.State → Prop)
    (habsorb : ∀ x s t, I s → net.absorb x s = .ok t → I t) {samples : List Sample}
    (hs : I s) (h : net.absorbAll s samples = .ok t) : I t := by
  induction samples generalizing s with
  | nil => exact Except.ok.inj h ▸ hs
  | cons x samples ih =>
    obtain ⟨u, hu, hrest⟩ := bind_eq_ok.1 h
    exact ih (habsorb x s u hs hu) hrest

theorem call_train (hmore : ∀ absorbed, net.wantsMore absorbed = true) {samples : List Sample}
    (h : net.absorbAll s samples = .ok t) : net.call s (.train samples) = .ok ([], t) := by
  rw [call, train_eq hmore, h]
  rfl

theorem call_train_eq_ok (hmore : ∀ absorbed, net.wantsMore absorbed = true)
    {samples : List Sample} : net.call s (.train samples) = .ok (out, t) ↔
      out = [] ∧ net.absorbAll s samples = .ok t := by
  rw [call, train_eq hmore]
  cases net.absorbAll s samples <;> simp [Except.map, eq_comm]

theorem call_generate_eq_ok : net.call s .generate = .ok (out, t) ↔
    ∃ x, out = [x] ∧ net.generate s = .ok (x, t) := by
  rw [call]
  cases net.generate s with
  | error e => simp [Except.map]
  | ok r => cases r; simp [Except.map, eq_comm]

theorem calls_cons {c : Call} {rest : List Call} (h : net.call s c = .ok (out, t))
    (hrest : net.calls t rest = .ok (out', u)) :
    net.calls s (c :: rest) = .ok (out ++ out', u) := by
  rw [calls, h]
  exact congrArg (Except.map _) hrest

theorem calls_cons_eq_ok {c : Call} {rest : List Call} :
    net.calls s (c :: rest) = .ok (out, u) ↔ ∃ xs ys t, out = xs ++ ys ∧
      net.call s c = .ok (xs, t) ∧ net.calls t rest = .ok (ys, u) := by
  constructor
  · intro h
    obtain ⟨⟨xs, t⟩, hcall, h⟩ := bind_eq_ok.1 h
    obtain ⟨⟨ys, _⟩, hrest, heq⟩ := map_eq_ok.1 h
    obtain ⟨rfl, rfl⟩ := Prod.mk.inj heq
    exact ⟨xs, ys, t, rfl, hcall, hrest⟩
  · intro hex
    obtain ⟨xs, ys, t, rfl, hcall, hrest⟩ := hex
    exact calls_cons hcall hrest

/-- Whatever is done with a net that always wants more, it keeps an invariant, under which its
candidates have a property. -/
structure Upholds (net : Net) (I : net.State → Prop) (P : Sample → Prop) : Prop where
  wantsMore : ∀ absorbed, net.wantsMore absorbed = true
  absorb : ∀ x s t, I s → net.absorb x s = .ok t → I t
  generate : ∀ s x t, I s → net.generate s = .ok (x, t) → P x ∧ I t

section Upholds

variable {I : net.State → Prop} {P : Sample → Prop}

theorem Upholds.call (hnet : net.Upholds I P) {c : Call} (hs : I s)
    (h : net.call s c = .ok (out, t)) : (∀ x ∈ out, P x) ∧ I t := by
  cases c with
  | train samples =>
    obtain ⟨rfl, habsorb⟩ := (call_train_eq_ok hnet.wantsMore).1 h
    exact ⟨nofun, absorbAll_invariant I hnet.absorb hs habsorb⟩
  | generate =>
    obtain ⟨x, rfl, hx⟩ := call_generate_eq_ok.1 h
    rw [List.forall_mem_singleton]
    exact hnet.generate s x t hs hx

theorem Upholds.calls (hnet : net.Upholds I P) {calls : List Call} (hs : I s)
    (h : net.calls s calls = .ok (out, t)) : (∀ x ∈ out, P x) ∧ I t := by
  induction calls generalizing s out with
  | nil =>
    obtain ⟨rfl, rfl⟩ := Prod.mk.inj (Except.ok.inj h)
    exact ⟨nofun, hs⟩
  | cons c calls ih =>
    obtain ⟨xs, ys, u, rfl, hc, hrest⟩ := calls_cons_eq_ok.1 h
    obtain ⟨hxs, hu⟩ := hnet.call hs hc
    obtain ⟨hys, ht⟩ := ih hu hrest
    exact ⟨List.forall_mem_append.2 ⟨hxs, hys⟩, ht⟩

end Upholds

theorem calls_append {first second : List Call} (h : net.calls s first = .ok (out, t))
    (hsecond : net.calls t second = .ok (out', u)) :
    net.calls s (first ++ second) = .ok (out ++ out', u) := by
  induction first generalizing s out with
  | nil =>
    obtain ⟨rfl, rfl⟩ := Prod.mk.inj (Except.ok.inj h)
    exact hsecond
  | cons c first ih =>
    obtain ⟨xs, ys, v, rfl, hcall, hfirst⟩ := calls_cons_eq_ok.1 h
    rw [List.append_assoc]
    exact calls_cons hcall (ih hfirst)

/-- Calls that only train a net come to absorbing all that they offer. -/
theorem calls_train (hmore : ∀ absorbed, net.wantsMore absorbed = true)
    {given : List (List Sample)} (h : net.absorbAll s given.flatten = .ok t) :
    net.calls s (given.map .train) = .ok ([], t) := by
  induction given generalizing s with
  | nil =>
    cases h
    rfl
  | cons samples given ih =>
    rw [List.flatten_cons, absorbAll_append] at h
    obtain ⟨u, hu, hrest⟩ := bind_eq_ok.1 h
    exact calls_cons (call_train hmore hu) (ih hrest)

end LangBench.Net
