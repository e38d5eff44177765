import ProjectOrder.Name.Rank

/-! Ranks are compared by a total preorder. -/
namespace ProjectOrder.Name
open Std

instance : OrientedCmp Token.compare where
  eq_swap {a b} := by
    cases a <;> cases b <;> simp only [Token.compare, Ordering.swap_lt, Ordering.swap_gt]
    · rw [Ordering.swap_then, ← OrientedOrd.eq_swap, ← OrientedOrd.eq_swap]
    · exact OrientedOrd.eq_swap

instance : TransCmp Token.compare where
  isLE_trans {a b c} hab hbc := by
    cases a <;> cases b <;> cases c <;>
      simp only [Token.compare, Ordering.isLE_lt, Ordering.isLE_gt, Bool.false_eq_true] at hab hbc ⊢
    · have h := @TransCmp.isLE_trans _ (compareLex (compareOn Prod.fst) (compareOn Prod.snd))
        inferInstance (_, _) (_, _) (_, _) hab hbc
      exact h
    · exact TransOrd.isLE_trans hab hbc

instance : TransCmp compareTokens :=
  inferInstanceAs (TransCmp (List.compareLex Token.compare))

instance : OrientedCmp Rank.compare where
  eq_swap {a b} := by
    obtain ⟨fa, na⟩ := a
    obtain ⟨fb, nb⟩ := b
    cases fa <;> cases fb <;> simp only [Rank.compare, Ordering.swap_lt, Ordering.swap_gt]
    all_goals exact (inferInstance : OrientedCmp compareTokens).eq_swap

instance : TransCmp Rank.compare where
  isLE_trans {a b c} hab hbc := by
    obtain ⟨fa, na⟩ := a
    obtain ⟨fb, nb⟩ := b
    obtain ⟨fc, nc⟩ := c
    cases fa <;> cases fb <;> cases fc <;>
      simp only [Rank.compare, Ordering.isLE_lt, Ordering.isLE_gt, Bool.false_eq_true] at hab hbc ⊢
    all_goals exact (inferInstance : TransCmp compareTokens).isLE_trans hab hbc

/-- The first rank is at most the second. -/
def Rank.Le (a b : Rank) : Prop :=
  (a.compare b).isLE

instance : DecidableRel Rank.Le :=
  fun a b => inferInstanceAs (Decidable ((a.compare b).isLE = true))

theorem Rank.Le.trans {a b c : Rank} (hab : a.Le b) (hbc : b.Le c) : a.Le c :=
  TransCmp.isLE_trans hab hbc

theorem Rank.Le.antisymm {a b : Rank} (hab : a.Le b) (hba : b.Le a) : a.compare b = .eq :=
  OrientedCmp.isLE_antisymm hab hba

theorem Rank.le_total (a b : Rank) : a.Le b ∨ b.Le a := by
  have hs : b.compare a = (a.compare b).swap := OrientedCmp.eq_swap
  unfold Rank.Le
  cases h : a.compare b <;> simp [hs, h]

end ProjectOrder.Name
