import Std.Data.HashSet

/-! Lists without repetitions. -/
namespace ProjectOrder

/-- Characters are hashed by their code points, whatever other instances are in scope. -/
instance (priority := 2000) hashableChar : Hashable Char where
  hash c := c.val.toUInt64

variable [DecidableEq β] [Hashable β]

/-- The items of which `f` gives something new, after what is in `seen`. -/
def distinctAfter (f : α → β) (seen : Std.HashSet β) : List α → List α
  | [] => []
  | a :: r =>
    let b := f a
    if seen.contains b then distinctAfter f seen r else a :: distinctAfter f (seen.insert b) r

/-- The first of each group of items that `f` does not tell apart, in their order. -/
def distinctBy (f : α → β) (items : List α) : List α :=
  distinctAfter f ∅ items

theorem distinctAfter_congr (f : α → β) {s t : Std.HashSet β}
    (h : ∀ b, s.contains b = t.contains b) (items : List α) :
    distinctAfter f s items = distinctAfter f t items := by
  induction items generalizing s t with
  | nil => rfl
  | cons a r ih =>
    simp only [distinctAfter, h (f a)]
    split
    · exact ih h
    · exact congrArg (a :: ·) (ih fun b => by simp [h b])

theorem distinctAfter_insert (f : α → β) (seen : Std.HashSet β) (b : β) (items : List α) :
    distinctAfter f (seen.insert b) items = (distinctAfter f seen items).filter (f · ≠ b) := by
  induction items generalizing seen with
  | nil => rfl
  | cons a r ih =>
    by_cases ha : seen.contains (f a)
    · simp [distinctAfter, ha, ih]
    · by_cases hb : f a = b
      · subst hb
        simp [distinctAfter, ha, ih, List.filter_filter]
      · have hswap := distinctAfter_congr f (s := (seen.insert b).insert (f a))
          (t := (seen.insert (f a)).insert b) (fun c => by simp [Bool.or_left_comm]) r
        have hba : ¬ b = f a := fun h => hb h.symm
        simp [distinctAfter, ha, hb, hba, hswap, ih]

@[simp] theorem distinctBy_nil (f : α → β) : distinctBy f [] = [] := rfl

theorem distinctBy_cons (f : α → β) (a : α) (r : List α) :
    distinctBy f (a :: r) = a :: (distinctBy f r).filter (f · ≠ f a) := by
  simp [distinctBy, distinctAfter, distinctAfter_insert]

/-- Each item once, where it first occurs. -/
abbrev distinct [DecidableEq α] [Hashable α] : List α → List α :=
  distinctBy id

end ProjectOrder
