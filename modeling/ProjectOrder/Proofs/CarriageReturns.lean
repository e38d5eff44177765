import Mathlib.Data.List.Basic
import Mathlib.Data.List.TakeWhile
import ProjectOrder.Text.Search
import ProjectOrder.Text.Split

/-! Scans and searches that take no notice of carriage returns before line feeds. -/
namespace ProjectOrder.Text

/-- The other text has carriage returns before some of its line feeds, or at its end, and is the same
otherwise. -/
inductive Returns : List Char → List Char → Prop
  | nil : Returns [] []
  | last : Returns [] ['\r']
  | feed {s t : List Char} : Returns s t → Returns ('\n' :: s) ('\r' :: '\n' :: t)
  | char (c : Char) {s t : List Char} : Returns s t → Returns (c :: s) (c :: t)

theorem isBlank_return : isBlank '\r' = true := by
  decide

theorem isBlank_feed : isBlank '\n' = true := by
  decide

theorem rel_bind {R : α → β → Prop} {S : γ → δ → Prop} {x : Option α} {y : Option β}
    {f : α → Option γ} {g : β → Option δ} (h : Option.Rel R x y)
    (hf : ∀ a b, R a b → Option.Rel S (f a) (g b)) : Option.Rel S (x.bind f) (y.bind g) := by
  cases h with
  | some h => exact hf _ _ h
  | none => exact .none

theorem eq_of_rel_eq {x y : Option α} (h : Option.Rel (· = ·) x y) : x = y := by
  cases h with
  | some h => exact congrArg some h
  | none => rfl

theorem rel_eq_of_eq {x y : Option α} (h : x = y) : Option.Rel (· = ·) x y := by
  subst h
  cases x with
  | some a => exact .some rfl
  | none => exact .none

theorem isSome_eq_of_rel {R : α → β → Prop} {x : Option α} {y : Option β} (h : Option.Rel R x y) :
    x.isSome = y.isSome := by
  cases h with
  | some _ => rfl
  | none => rfl

theorem rel_findSome? {R : β → γ → Prop} {f : α → Option β} {g : α → Option γ} {l : List α}
    (h : ∀ x ∈ l, Option.Rel R (f x) (g x)) : Option.Rel R (l.findSome? f) (l.findSome? g) := by
  induction l with
  | nil => exact .none
  | cons x l ih =>
    have hx := h x (by simp)
    have ih := ih fun y hy => h y (by simp [hy])
    rw [List.findSome?_cons, List.findSome?_cons]
    generalize f x = a at hx ⊢
    generalize g x = b at hx ⊢
    cases hx with
    | none => exact ih
    | some hab => exact .some hab

theorem returns_append (s : List Char) : Returns s (s ++ ['\r']) := by
  induction s with
  | nil => exact .last
  | cons c s ih => exact .char c ih

/-- A carriage return before the line feed after the first line. -/
theorem Returns.line {s t : List Char} (h : Returns s t) (line : List Char) :
    Returns (line ++ '\n' :: s) (line ++ ['\r'] ++ '\n' :: t) := by
  induction line with
  | nil => exact .feed h
  | cons c line ih => exact .char c ih

theorem returns_unlines {lines : List (List Char)} (h : lines ≠ []) :
    Returns (unlines lines) (unlines (lines.map (· ++ ['\r']))) := by
  induction lines with
  | nil => exact absurd rfl h
  | cons line lines ih =>
    cases lines with
    | nil => exact returns_append line
    | cons other lines => exact (ih (by simp)).line line

namespace Returns
variable {s t : List Char}

theorem all_eq (h : Returns s t) : s.all isBlank = t.all isBlank := by
  induction h with
  | nil => rfl
  | last => rfl
  | feed _ ih => simp [isBlank_return, isBlank_feed, ih]
  | char c _ ih => simp [ih]

theorem skipBlanks (h : Returns s t) : Returns (skipBlanks s) (skipBlanks t) := by
  induction h with
  | nil => exact .nil
  | last => exact .nil
  | feed _ ih => exact ih
  | char c h ih =>
    by_cases hc : isBlank c
    · simpa [Text.skipBlanks, hc] using ih
    · simpa [Text.skipBlanks, hc] using h.char c

/-- What is read of a start that holds no such character is the same, and so is what follows it. -/
theorem span (h : Returns s t) {p : Char → Bool} (hreturn : p '\r' = false)
    (hfeed : p '\n' = false) :
    s.takeWhile p = t.takeWhile p ∧ Returns (s.dropWhile p) (t.dropWhile p) := by
  induction h with
  | nil => exact ⟨rfl, .nil⟩
  | last => simpa [hreturn] using .last
  | feed h _ => simpa [hreturn, hfeed] using h.feed
  | char c h ih =>
    by_cases hc : p c
    · simpa [hc] using ih
    · simpa [hc] using h.char c

/-- Nothing but blanks are told apart, and where they end, by what is read first. -/
theorem head?_eq (h : Returns s t) {c : Char} (hc : isBlank c = false) :
    (s.head? == some c) = (t.head? == some c) := by
  have hreturn : '\r' ≠ c := by
    rintro rfl
    exact absurd hc (by decide)
  have hfeed : '\n' ≠ c := by
    rintro rfl
    exact absurd hc (by decide)
  cases h with
  | nil => rfl
  | last => simpa using hreturn
  | feed h => simp [hreturn, hfeed]
  | char d h => rfl

theorem leadsTo_eq (h : Returns s t) {c : Char} (hc : isBlank c = false) :
    leadsTo c s = leadsTo c t :=
  h.skipBlanks.head?_eq hc

theorem skipBlanks_eq_nil_iff (h : Returns s t) :
    Text.skipBlanks s = [] ↔ Text.skipBlanks t = [] := by
  have hall : ∀ u, Text.skipBlanks u = [] ↔ u.all isBlank = true := by
    intro u
    rw [Text.skipBlanks, List.dropWhile_eq_nil_iff, List.all_eq_true]
  rw [hall, hall, h.all_eq]

end Returns

/-- The function takes no notice of the carriage returns. -/
def Blind (f : List Char → α) : Prop :=
  ∀ ⦃s t : List Char⦄, Returns s t → f s = f t

/-- What the function leaves to be read is the same but for the carriage returns. -/
def Passes (f : List Char → Option (List Char)) : Prop :=
  ∀ ⦃s t : List Char⦄, Returns s t → Option.Rel Returns (f s) (f t)

/-- At least one character, and no blanks. -/
abbrev IsWord (word : List Char) : Prop :=
  word ≠ [] ∧ word.all (!isBlank ·)

theorem passes_isPrefixOf? (word : List Char) (hw : word.all (!isBlank ·)) :
    Passes word.isPrefixOf? := by
  induction word with
  | nil => exact fun s t h => .some h
  | cons c word ih =>
    rw [List.all_cons, Bool.and_eq_true, Bool.not_eq_true'] at hw
    obtain ⟨hc, hw⟩ := hw
    have hreturn : (c == '\r') = false := by
      rw [beq_eq_false_iff_ne]
      rintro rfl
      exact absurd hc (by decide)
    have hfeed : (c == '\n') = false := by
      rw [beq_eq_false_iff_ne]
      rintro rfl
      exact absurd hc (by decide)
    intro s t h
    cases h with
    | nil => exact .none
    | last => simp [List.isPrefixOf?, hreturn]
    | feed h => simp [List.isPrefixOf?, hreturn, hfeed]
    | char d h =>
      by_cases hd : c == d
      · simpa [List.isPrefixOf?, hd] using ih hw h
      · simp [List.isPrefixOf?, hd]

theorem passes_after? (word : String) (hw : word.toList.all (!isBlank ·)) :
    Passes (after? word) :=
  passes_isPrefixOf? word.toList hw

/-- After blanks, of which there must be one, a text that is not empty is read. -/
theorem rel_skipSomeBlanks? {R : α → β → Prop} {f : List Char → Option α} {g : List Char → Option β}
    (hf : ∀ ⦃a b : List Char⦄, Returns a b → Option.Rel R (f a) (g b)) (hnil : f [] = none)
    {s t : List Char} (h : Returns s t) :
    Option.Rel R ((skipSomeBlanks? s).bind f) ((skipSomeBlanks? t).bind g) := by
  cases h with
  | nil => exact .none
  | last =>
    have hg : Option.Rel R (f []) (g []) := hf .nil
    rw [hnil] at hg
    exact hg
  | feed h => exact hf h.skipBlanks
  | char c h =>
    by_cases hc : isBlank c
    · simpa [skipSomeBlanks?, hc] using hf h.skipBlanks
    · simp [skipSomeBlanks?, hc]

theorem passes_someBlanks_after? (word : String) (hw : IsWord word.toList) :
    Passes fun s => (skipSomeBlanks? s).bind (after? word) := by
  have hnil : after? word [] = none := by
    obtain ⟨c, cs, hc⟩ := List.exists_cons_of_ne_nil hw.1
    simp [after?, hc, List.isPrefixOf?]
  exact fun s t h => rel_skipSomeBlanks? (passes_after? word hw.2) hnil h

theorem isSuffix_skipBlanks (s : List Char) : skipBlanks s <:+ s :=
  List.dropWhile_suffix isBlank

theorem append_of_after? {word : String} {s r : List Char} (h : after? word s = some r) :
    word.toList ++ r = s :=
  List.isPrefixOf?_eq_some_iff_append_eq.mp h

theorem isSuffix_of_after? {word : String} {s r : List Char} (h : after? word s = some r) :
    r <:+ s :=
  ⟨word.toList, append_of_after? h⟩

theorem exists_of_skipSomeBlanks? {s r : List Char} (h : skipSomeBlanks? s = some r) :
    ∃ c t, isBlank c = true ∧ s = c :: t ∧ r = skipBlanks t := by
  cases s with
  | nil => simp [skipSomeBlanks?] at h
  | cons c t =>
    simp only [skipSomeBlanks?, Option.ite_none_right_eq_some, Option.some.injEq] at h
    exact ⟨c, t, h.1, rfl, h.2.symm⟩

theorem exists_isSuffix_of_skipSomeBlanks? {s r : List Char} (h : skipSomeBlanks? s = some r) :
    ∃ c, isBlank c = true ∧ c :: r <:+ s := by
  obtain ⟨c, t, hc, rfl, rfl⟩ := exists_of_skipSomeBlanks? h
  clear h
  -- the last of the blanks that are skipped
  induction t generalizing c with
  | nil => exact ⟨c, hc, List.suffix_refl _⟩
  | cons d t ih =>
    by_cases hd : isBlank d
    · obtain ⟨e, he, hs⟩ := ih d hd
      rw [skipBlanks, List.dropWhile_cons_of_pos hd]
      exact ⟨e, he, hs.trans (List.suffix_cons c _)⟩
    · rw [skipBlanks, List.dropWhile_cons_of_neg hd]
      exact ⟨c, hc, List.suffix_refl _⟩

theorem exists_of_firstMatch {f : List Char → Option α} {s : List Char} {x : α}
    (h : firstMatch f s = some x) : ∃ t, f t = some x := by
  induction s with
  | nil => exact ⟨_, h⟩
  | cons c s ih =>
    rcases Option.or_eq_some_iff.mp h with h | ⟨-, h⟩
    · exact ⟨_, h⟩
    · exact ih h

section Searches
variable {stop : List Char → Bool} {s t : List Char}

/-- What ends a name has to take no notice of carriage returns in the text that is searched. -/
def BlindIn (stop : List Char → Bool) (s : List Char) : Prop :=
  ∀ ⦃a b : List Char⦄, a <:+ s → Returns a b → stop a = stop b

theorem BlindIn.tail {c : Char} (h : BlindIn stop (c :: s)) : BlindIn stop s :=
  fun _ _ hs => h (hs.trans (List.suffix_cons c s))

theorem Blind.blindIn (h : Blind stop) (s : List Char) : BlindIn stop s :=
  fun _ _ _ hr => h hr

theorem upTo_eq (h : Returns s t) (hstop : BlindIn stop s) : upTo stop s = upTo stop t := by
  induction h with
  | nil => rfl
  | last => simp [upTo, hstop (List.suffix_refl []) .last, isLineTerminator]
  | feed h _ =>
    simp [upTo, hstop (List.suffix_refl _) h.feed, isLineTerminator]
  | char c h ih =>
    simp only [upTo, hstop (List.suffix_refl _) (h.char c), ih hstop.tail]

theorem someUpTo_eq (h : Returns s t) (hstop : BlindIn stop s) :
    someUpTo stop s = someUpTo stop t := by
  cases h with
  | nil => rfl
  | last => rfl
  | feed h => rfl
  | char c h => simp only [someUpTo, upTo_eq h hstop.tail]

theorem nameUpTo_eq (h : Returns s t) (hstop : BlindIn stop s) :
    nameUpTo stop s = nameUpTo stop t := by
  have hreturn : ∀ u, someUpTo stop ('\r' :: u) = none := fun _ => rfl
  have hfeed : ∀ u, someUpTo stop ('\n' :: u) = none := fun _ => rfl
  induction h with
  | nil => rfl
  | last => simp [nameUpTo, isBlank_return, hreturn]
  | feed h ih =>
    simp [nameUpTo, isBlank_return, isBlank_feed, hreturn, hfeed, ih hstop.tail]
  | char c h ih => simp only [nameUpTo, ih hstop.tail, someUpTo_eq (h.char c) hstop]

theorem firstMatch_eq {f : List Char → Option α} (h : Returns s t) (hf : Blind f) :
    firstMatch f s = firstMatch f t := by
  induction h with
  | nil => rfl
  | last =>
    have hlast : f [] = f ['\r'] := hf .last
    simp only [firstMatch, ← hlast]
    cases f [] <;> rfl
  | feed h ih =>
    simp only [firstMatch, ← ih, ← hf h.feed, ← hf (h.char '\n')]
    cases f ('\n' :: _) <;> rfl
  | char c h ih => simp only [firstMatch, ih, hf (h.char c)]

theorem anywhere_eq {test : List Char → Bool} (h : Returns s t) (ht : Blind test) :
    anywhere test s = anywhere test t := by
  induction h with
  | nil => rfl
  | last => simp [anywhere, ht .last]
  | feed h ih => simp [anywhere, ← ih, ← ht h.feed, ← ht (h.char '\n')]
  | char c h ih => simp only [anywhere, ih, ht (h.char c)]

/-- A place before a carriage return is one more place to search, where nothing new is found. -/
theorem findSome?_restsAfter_eq {f : List Char → Option α} {p : Char → Bool} (h : Returns s t)
    (hreturn : p '\r' = true) (hfeed : p '\n' = true) (hf : Blind f) (hnil : f [] = none)
    (hskip : ∀ u, f ('\n' :: u) = none ∨ f ('\n' :: u) = f u) :
    (restsAfter p s).findSome? f = (restsAfter p t).findSome? f := by
  induction h with
  | nil => rfl
  | last => simp [restsAfter, hreturn, hnil]
  | @feed s t h ih =>
    simp only [restsAfter, hreturn, hfeed, if_true, List.findSome?_cons, ih, hf h]
    rcases hskip t with hn | hn <;> rw [hn]
    cases f t <;> rfl
  | char c h ih =>
    by_cases hc : p c
    · simp only [restsAfter, hc, if_true, List.findSome?_cons, ih, hf h]
    · simp only [restsAfter, hc, Bool.false_eq_true, if_false, ih]

end Searches

end ProjectOrder.Text
