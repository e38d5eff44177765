/-! Splitting a text at a separator, and joining the pieces again. -/
namespace ProjectOrder.Text

/-- The pieces between the occurrences of `sep`, of which there is always one. -/
def splitAt (sep : Char) : List Char → List (List Char)
  | [] => [[]]
  | c :: r =>
    if c = sep then [] :: splitAt sep r
    else match splitAt sep r with
      | [] => [[c]]
      | p :: ps => (c :: p) :: ps

def joinWith (sep : Char) : List (List Char) → List Char
  | [] => []
  | [p] => p
  | p :: q :: ps => p ++ sep :: joinWith sep (q :: ps)

theorem splitAt_ne_nil (sep : Char) (s : List Char) : splitAt sep s ≠ [] := by
  induction s with
  | nil => simp [splitAt]
  | cons c r ih =>
    unfold splitAt
    split
    · simp
    · split <;> simp

theorem joinWith_splitAt (sep : Char) (s : List Char) : joinWith sep (splitAt sep s) = s := by
  induction s with
  | nil => rfl
  | cons c r ih =>
    obtain ⟨p, ps, hp⟩ := List.exists_cons_of_ne_nil (splitAt_ne_nil sep r)
    rw [hp] at ih
    by_cases hc : c = sep
    · simp [splitAt, hc, hp, joinWith, ih]
    · cases ps with
      | nil => simpa [splitAt, hc, hp, joinWith] using ih
      | cons q ps => simpa [splitAt, hc, hp, joinWith] using ih

theorem not_mem_of_mem_splitAt {sep : Char} {s : List Char} : ∀ p ∈ splitAt sep s, sep ∉ p := by
  induction s with
  | nil => simp [splitAt]
  | cons c r ih =>
    obtain ⟨p, ps, hp⟩ := List.exists_cons_of_ne_nil (splitAt_ne_nil sep r)
    rw [hp] at ih
    by_cases hc : c = sep
    · simpa [splitAt, hc, hp] using ih
    · have hc' : ¬ sep = c := fun h => hc h.symm
      simpa [splitAt, hc, hp, hc'] using ih

theorem splitAt_append {sep : Char} {p : List Char} (hp : sep ∉ p) (s : List Char) :
    splitAt sep (p ++ sep :: s) = p :: splitAt sep s := by
  induction p with
  | nil => simp [splitAt]
  | cons c r ih =>
    have hc : ¬ c = sep := fun h => hp (by simp [h])
    have ih := ih fun h => hp (by simp [h])
    simp [splitAt, hc, ih]

theorem splitAt_of_not_mem {sep : Char} {p : List Char} (hp : sep ∉ p) : splitAt sep p = [p] := by
  induction p with
  | nil => rfl
  | cons c r ih =>
    have hc : ¬ c = sep := fun h => hp (by simp [h])
    have ih := ih fun h => hp (by simp [h])
    simp [splitAt, hc, ih]

theorem splitAt_append_sep (sep : Char) (s t : List Char) :
    splitAt sep (s ++ sep :: t) = splitAt sep s ++ splitAt sep t := by
  induction s with
  | nil => simp [splitAt]
  | cons c r ih =>
    obtain ⟨p, ps, hp⟩ := List.exists_cons_of_ne_nil (splitAt_ne_nil sep r)
    by_cases hc : c = sep
    · simp [splitAt, hc, ih]
    · simp [splitAt, hc, ih, hp]

theorem exists_joinWith_cons (sep : Char) (p : List Char) (ps : List (List Char)) :
    ∃ rest, joinWith sep (p :: ps) = p ++ rest := by
  cases ps with
  | nil => exact ⟨[], (List.append_nil p).symm⟩
  | cons q ps => exact ⟨sep :: joinWith sep (q :: ps), rfl⟩

theorem joinWith_append {sep : Char} {ps qs : List (List Char)} (hp : ps ≠ []) (hq : qs ≠ []) :
    joinWith sep (ps ++ qs) = joinWith sep ps ++ sep :: joinWith sep qs := by
  induction ps with
  | nil => exact absurd rfl hp
  | cons p ps ih =>
    cases ps with
    | nil =>
      obtain ⟨q, qs, rfl⟩ := List.exists_cons_of_ne_nil hq
      rfl
    | cons r ps =>
      have ih := ih (by simp)
      simpa [joinWith] using ih

theorem splitAt_joinWith {sep : Char} {ps : List (List Char)} (hne : ps ≠ [])
    (hsep : ∀ p ∈ ps, sep ∉ p) : splitAt sep (joinWith sep ps) = ps := by
  induction ps with
  | nil => exact absurd rfl hne
  | cons p ps ih =>
    have hp : sep ∉ p := hsep p (by simp)
    cases ps with
    | nil => exact splitAt_of_not_mem hp
    | cons q ps =>
      rw [joinWith, splitAt_append hp, ih (by simp) fun x hx => hsep x (List.mem_cons_of_mem _ hx)]

/-- The lines of a document. A carriage return before a line feed belongs to its line, and a last
line feed is followed by an empty line. -/
abbrev lines : List Char → List (List Char) :=
  splitAt '\n'

abbrev unlines : List (List Char) → List Char :=
  joinWith '\n'

end ProjectOrder.Text
