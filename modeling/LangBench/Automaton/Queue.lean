/-!
First-in, first-out queues.

The front is held in order and the back in reverse. `toList` is the queue in the order in which its
elements come out.
-/

namespace LangBench

universe u

/-- A queue of elements of `α`. -/
structure Queue (α : Type u) where
  front : List α
  /-- The elements added last, the latest first. -/
  back : List α

namespace Queue

variable {α : Type u}

def singleton (x : α) : Queue α := ⟨[x], []⟩

def toList (q : Queue α) : List α := q.front ++ q.back.reverse

def pushAll (q : Queue α) (xs : List α) : Queue α := ⟨q.front, xs.reverseAux q.back⟩

def pop? (q : Queue α) : Option (α × Queue α) :=
  match q.front with
  | x :: front => some (x, ⟨front, q.back⟩)
  | [] =>
    match q.back.reverse with
    | x :: front => some (x, ⟨front, []⟩)
    | [] => none

@[simp] theorem toList_singleton (x : α) : (singleton x).toList = [x] := rfl

@[simp] theorem toList_pushAll (q : Queue α) (xs : List α) :
    (q.pushAll xs).toList = q.toList ++ xs := by
  simp [pushAll, toList, List.reverseAux_eq]

theorem pop?_eq_none_iff {q : Queue α} : q.pop? = none ↔ q.toList = [] := by
  unfold pop? toList
  split
  · next x front h => simp [h]
  · next h => split <;> simp_all

theorem pop?_eq_some {q q' : Queue α} {x : α} (h : q.pop? = some (x, q')) :
    q.toList = x :: q'.toList := by
  unfold pop? at h
  split at h
  · next front hf =>
    cases h
    simp [toList, hf]
  · next hf =>
    split at h
    · next front hb =>
      cases h
      simp [toList, hf, hb]
    · simp at h

end Queue

end LangBench
