import Mathlib.Data.List.Forall2

/-!
What has gone well when a computation that may fail succeeds.
-/

namespace LangBench

section Option

variable {α β : Type} {f : α → Option β} {g : α → β} {l : List α} {l' : List β}

theorem mapM_eq_some_iff : l.mapM f = some l' ↔ List.Forall₂ (fun a b ↦ f a = some b) l l' := by
  induction l generalizing l' with
  | nil => cases l' <;> simp
  | cons a l ih =>
    cases l' with
    | nil => simp [List.mapM_cons, Option.bind_eq_some_iff]
    | cons b l' => simp [List.mapM_cons, Option.bind_eq_some_iff, ih]

theorem mapM_eq_some_map (h : ∀ a ∈ l, f a = some (g a)) : l.mapM f = some (l.map g) := by
  rw [mapM_eq_some_iff, List.forall₂_map_right_iff, List.forall₂_same]
  exact h

theorem isSome_mapM_iff : (l.mapM f).isSome = true ↔ ∀ a ∈ l, (f a).isSome = true := by
  induction l with
  | nil => simp
  | cons a l ih =>
    rw [List.forall_mem_cons, ← ih, List.mapM_cons]
    cases f a <;> cases l.mapM f <;> simp

variable {R : α → β → Prop} {a : α} {x : Option α} {y z : Option β}

theorem exists_of_rel_some (h : Option.Rel R (some a) y) : ∃ b, y = some b ∧ R a b := by
  cases h with
  | some hab => exact ⟨_, rfl, hab⟩

theorem rel_unique (hR : Relator.RightUnique R) (hy : Option.Rel R x y) (hz : Option.Rel R x z) :
    y = z := by
  cases hy with
  | none => cases hz; rfl
  | some hab =>
    obtain ⟨c, rfl, hac⟩ := exists_of_rel_some hz
    rw [hR hab hac]

end Option

section Except

variable {ε ε' α β : Type} {x : Except ε α} {f : α → Except ε β} {a : α} {b : β} {e : ε}

theorem bind_eq_ok : x >>= f = .ok b ↔ ∃ a, x = .ok a ∧ f a = .ok b := by
  cases x <;> simp [bind, Except.bind]

theorem check_bind_eq_ok {x : Except ε Unit} {f : Unit → Except ε β} :
    x >>= f = .ok b ↔ x = .ok () ∧ f () = .ok b := by
  rw [bind_eq_ok]
  exact ⟨fun ⟨(), hx, hf⟩ ↦ ⟨hx, hf⟩, fun ⟨hx, hf⟩ ↦ ⟨(), hx, hf⟩⟩

theorem throw_ne_ok {e : ε} : (throw e : Except ε α) ≠ .ok a := nofun

theorem map_eq_ok {f : α → β} : x.map f = .ok b ↔ ∃ a, x = .ok a ∧ f a = b := by
  cases x <;> simp [Except.map]

theorem map_eq_error {f : α → β} : x.map f = .error e ↔ x = .error e := by
  cases x <;> simp [Except.map]

theorem mapError_eq_ok {f : ε → ε'} : x.mapError f = .ok a ↔ x = .ok a := by
  cases x with
  | error e => exact ⟨nofun, nofun⟩
  | ok b => exact ⟨fun h ↦ Except.ok.inj h ▸ rfl, fun h ↦ Except.ok.inj h ▸ rfl⟩

theorem forM_eq_ok {l : List α} {f : α → Except ε Unit} :
    l.forM f = .ok () ↔ ∀ a ∈ l, f a = .ok () := by
  induction l with
  | nil => exact iff_of_true rfl fun _ h ↦ nomatch h
  | cons a l ih =>
    rw [List.forall_mem_cons, ← ih]
    exact check_bind_eq_ok (f := fun _ ↦ l.forM f)

theorem mapM_eq_ok {l : List α} {l' : List β} :
    l.mapM f = .ok l' ↔ List.Forall₂ (fun a b ↦ f a = .ok b) l l' := by
  induction l generalizing l' with
  | nil => cases l' <;> simp [pure, Except.pure]
  | cons a l ih =>
    cases l' with
    | nil => simp [List.mapM_cons, bind_eq_ok, pure, Except.pure]
    | cons b l' => simp [List.mapM_cons, bind_eq_ok, pure, Except.pure, ih]

/-- What can be folded in pairs in any order can be folded in any order. -/
theorem foldlM_perm {σ : Type} {f : σ → α → Except ε σ}
    (hcomm : ∀ s a b t u, f s a = .ok t → f t b = .ok u → ∃ t', f s b = .ok t' ∧ f t' a = .ok u)
    {xs ys : List α} (h : xs.Perm ys) {s t : σ} (hxs : xs.foldlM f s = .ok t) :
    ys.foldlM f s = .ok t := by
  induction h generalizing s t with
  | nil => exact hxs
  | cons a _ ih =>
    rw [List.foldlM_cons, bind_eq_ok] at hxs ⊢
    obtain ⟨u, hu, hxs⟩ := hxs
    exact ⟨u, hu, ih hxs⟩
  | swap a b xs =>
    simp only [List.foldlM_cons, bind_eq_ok] at hxs ⊢
    obtain ⟨u, hu, v, hv, hxs⟩ := hxs
    obtain ⟨w, hw, hwv⟩ := hcomm s b a u v hu hv
    exact ⟨w, hw, v, hwv, hxs⟩
  | trans _ _ ih₁ ih₂ => exact ih₂ (ih₁ hxs)

theorem bind_eq_error : x >>= f = .error e ↔ x = .error e ∨ ∃ a, x = .ok a ∧ f a = .error e := by
  cases x <;> simp [bind, Except.bind]

/-- Everything before the first failure goes well. -/
theorem mapM_eq_error {l : List α} : l.mapM f = .error e ↔
    ∃ before a after, l = before ++ a :: after ∧ (∀ x ∈ before, ∃ b, f x = .ok b) ∧
      f a = .error e := by
  induction l with
  | nil => simp [pure, Except.pure]
  | cons a l ih =>
    have hcons : (a :: l).mapM f = .error e ↔
        f a = .error e ∨ (∃ b, f a = .ok b) ∧ l.mapM f = .error e := by
      simp [List.mapM_cons, bind_eq_error, pure, Except.pure]
    rw [hcons, ih]
    constructor
    · rintro (h | ⟨ha, before, x, after, rfl, hbefore, hx⟩)
      · exact ⟨[], a, l, rfl, fun _ hmem ↦ absurd hmem List.not_mem_nil, h⟩
      · exact ⟨a :: before, x, after, rfl, List.forall_mem_cons.2 ⟨ha, hbefore⟩, hx⟩
    · rintro ⟨_ | ⟨y, before⟩, x, after, heq, hbefore, hx⟩
      · obtain ⟨rfl, rfl⟩ := List.cons.inj heq
        exact .inl hx
      · obtain ⟨rfl, rfl⟩ := List.cons.inj heq
        obtain ⟨ha, hbefore⟩ := List.forall_mem_cons.1 hbefore
        exact .inr ⟨ha, before, x, after, rfl, hbefore, hx⟩

end Except

section Succeeds

variable {ε σ α β : Type} {x : ExceptT ε (StateM σ) α} {f : α → ExceptT ε (StateM σ) β} {s t : σ}
  {a a' : α} {b : β}

/-- What may fail and has a state succeeds from one state to another. -/
def Succeeds (x : ExceptT ε (StateM σ) α) (s : σ) (a : α) (t : σ) : Prop :=
  (x.run.run s).run = (.ok a, t)

theorem succeeds_bind :
    Succeeds (x >>= f) s b t ↔ ∃ a s', Succeeds x s a s' ∧ Succeeds (f a) s' b t := by
  rcases hx : (x.run.run s).run with ⟨e | a, s'⟩
  · have hrun : ((x >>= f).run.run s).run = (.error e, s') := by
      rw [ExceptT.run_bind, StateT.run_bind, show x.run.run s = (.error e, s') from hx]
      rfl
    simp only [Succeeds, hrun, hx, Prod.mk.injEq, reduceCtorEq, false_and, exists_false]
  · have hrun : ((x >>= f).run.run s).run = ((f a).run.run s').run := by
      rw [ExceptT.run_bind, StateT.run_bind, show x.run.run s = (.ok a, s') from hx]
      rfl
    simp only [Succeeds, hrun, hx, Prod.mk.injEq, Except.ok.injEq]
    constructor
    · exact fun h ↦ ⟨a, s', ⟨rfl, rfl⟩, h⟩
    · intro hex
      obtain ⟨_, _, ⟨rfl, rfl⟩, h⟩ := hex
      exact h

theorem succeeds_pure : Succeeds (pure a : ExceptT ε (StateM σ) α) s a' t ↔ a = a' ∧ s = t := by
  simp [Succeeds]

theorem not_succeeds_throw {e : ε} : ¬ Succeeds (throw e : ExceptT ε (StateM σ) α) s a t := by
  simp [Succeeds]

theorem succeeds_liftExcept {e : Except ε α} :
    Succeeds (liftExcept e : ExceptT ε (StateM σ) α) s a t ↔ e = .ok a ∧ s = t := by
  have hrun : ((liftExcept e : ExceptT ε (StateM σ) α).run.run s).run = (e, s) := by
    cases e <;> rfl
  simp [Succeeds, hrun]

theorem succeeds_modify {f : σ → σ} {u : Unit} :
    Succeeds (modify f : ExceptT ε (StateM σ) Unit) s u t ↔ f s = t := by
  have hrun : ((modify f : ExceptT ε (StateM σ) Unit).run.run s).run = (.ok (), f s) := rfl
  simp [Succeeds, hrun]

theorem liftExcept_map_bind {β' : Type} {e : Except ε β} (g : β → β')
    (k : β' → ExceptT ε (StateM σ) α) :
    (liftExcept (e.map g) : ExceptT ε (StateM σ) β') >>= k = liftExcept e >>= fun b ↦ k (g b) := by
  cases e <;> rfl

variable {e : ε}

variable {γ : Type} {view : σ → γ} {c : γ}

/-- Something of the state is the same afterwards, whether the computation succeeds or not. -/
def Leaves (view : σ → γ) (x : ExceptT ε (StateM σ) α) : Prop :=
  ∀ s, view (x.run.run s).run.2 = view s

/-- What comes of something in the state by a computation stays if the rest leaves it. -/
theorem view_bind (view : σ → γ) (hx : view (x.run.run s).run.2 = c) (hf : ∀ a, Leaves view (f a)) :
    view ((x >>= f).run.run s).run.2 = c := by
  rw [ExceptT.run_bind, StateT.run_bind]
  generalize x.run.run s = r at hx
  obtain ⟨e | a, s'⟩ := r
  · exact hx
  · exact (hf a s').trans hx

theorem exists_ok_of_view (view : σ → γ) {x : Except ε β} {f : β → ExceptT ε (StateM σ) α}
    (h : view ((liftExcept x >>= f).run.run s).run.2 ≠ view s) :
    ∃ b, x = .ok b ∧ view ((f b).run.run s).run.2 ≠ view s := by
  cases x with
  | error e => exact absurd rfl h
  | ok b => exact ⟨b, rfl, h⟩

theorem Leaves.bind (hx : Leaves view x) (hf : ∀ a, Leaves view (f a)) : Leaves view (x >>= f) :=
  fun s ↦ view_bind view (hx s) hf

theorem leaves_pure : Leaves view (pure a : ExceptT ε (StateM σ) α) := fun _ ↦ rfl

theorem leaves_liftExcept (x : Except ε α) :
    Leaves view (liftExcept x : ExceptT ε (StateM σ) α) := by
  cases x <;> exact fun _ ↦ rfl

theorem leaves_modify {f : σ → σ} (h : ∀ s, view (f s) = view s) :
    Leaves view (modify f : ExceptT ε (StateM σ) Unit) := h

end Succeeds

end LangBench
