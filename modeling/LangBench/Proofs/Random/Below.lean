import LangBench.Random.Draw

/-!
Numbers that are drawn are below their bound, whatever the stream of words.
-/

namespace LangBench.Draw

variable {m n : Nat} {word : Draw Nat}

theorem word32_lt (s : WordStream) : (word32.run s).1 < UInt32.size := s.next.1.toNat_lt

theorem word64_lt (s : WordStream) : (word64.run s).1 < UInt64.size := by
  have hlow := word32_lt s
  have hhigh := word32_lt (word32.run s).2
  have hsum : (word64.run s).1 =
      (word32.run s).1 + (word32.run (word32.run s).2).1 * UInt32.size := rfl
  rw [hsum]
  simp only [UInt32.size, UInt64.size] at *
  omega

theorem mul_div_lt {w : Nat} (hw : w < m) (hn : 0 < n) : w * n / m < n :=
  Nat.div_lt_of_lt_mul (Nat.mul_lt_mul_of_pos_right hw hn)

theorem belowFair_lt (hword : ∀ s, (word.run s).1 < m) (hn : 0 < n) (tries : Nat)
    (s : WordStream) : ((belowFair word m n tries).run s).1 < n := by
  induction tries generalizing s with
  | zero => exact mul_div_lt (hword s) hn
  | succ tries ih =>
    have hrun : (belowFair word m n (tries + 1)).run s =
        (if (m - n) % n ≤ (word.run s).1 * n % m then pure ((word.run s).1 * n / m)
          else belowFair word m n tries : Draw Nat).run (word.run s).2 := rfl
    rw [hrun]
    split
    · exact mul_div_lt (hword s) hn
    · exact ih _

/-- With the carry from a second word the quotient is that of a sum which is still short of `m * n`. -/
theorem div_add_carry_lt {w c : Nat} (hw : w < m) (hc : c < n) :
    w * n / m + (w * n % m + c) / m < n := by
  have hm : 0 < m := Nat.lt_of_le_of_lt (Nat.zero_le _) hw
  have hsum : w * n + c < m * n := calc
    w * n + c < (w + 1) * n := by
      rw [Nat.succ_mul]
      exact Nat.add_lt_add_left hc _
    _ ≤ m * n := Nat.mul_le_mul_right n hw
  calc
    w * n / m + (w * n % m + c) / m = (w * n % m + c + m * (w * n / m)) / m := by
      rw [Nat.add_mul_div_left _ _ hm, Nat.add_comm]
    _ = (w * n + c) / m := by rw [Nat.add_right_comm, Nat.mod_add_div]
    _ < n := Nat.div_lt_of_lt_mul hsum

theorem below_lt (hword : ∀ s, (word.run s).1 < m) (hn : 0 < n) (s : WordStream) :
    ((below word m n).run s).1 < n := by
  have hrun : (below word m n).run s =
      (if m - n < (word.run s).1 * n % m then do
          let carry := ((word.run s).1 * n % m + (← word) * n / m) / m
          return (word.run s).1 * n / m + carry
        else pure ((word.run s).1 * n / m) : Draw Nat).run (word.run s).2 := rfl
  rw [hrun]
  split
  · exact div_add_carry_lt (hword s) (mul_div_lt (hword _) hn)
  · exact mul_div_lt (hword s) hn

theorem upTo_le (bound : Nat) (s : WordStream) : ((upTo bound).run s).1 ≤ bound := by
  unfold upTo
  apply Nat.le_of_lt_succ
  split
  · exact below_lt word32_lt (Nat.succ_pos bound) s
  · exact below_lt word64_lt (Nat.succ_pos bound) s

end LangBench.Draw
