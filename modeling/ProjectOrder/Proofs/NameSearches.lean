import Mathlib.Data.List.Basic
import ProjectOrder.Proofs.CarriageReturns

/-! What a search for a name finds: the shortest stretch of a line up to where a name may end. -/
namespace ProjectOrder.Text

/-- All characters stand on one line. -/
abbrev IsLine (s : List Char) : Prop :=
  s.all (!isLineTerminator ·)

abbrev AllBlank (s : List Char) : Prop :=
  s.all isBlank

/-- No blank stands at either end. -/
def IsTrimmed (s : List Char) : Prop :=
  s.head?.all (!isBlank ·) ∧ s.getLast?.all (!isBlank ·)

instance (s : List Char) : Decidable (IsTrimmed s) :=
  inferInstanceAs (Decidable (_ ∧ _))

/-- A text of one line that can be found between blanks. -/
structure IsName (name : List Char) : Prop where
  ne_nil : name ≠ []
  isLine : IsLine name
  isTrimmed : IsTrimmed name

section Blanks
variable {c : Char} {blanks rest s t name : List Char}

theorem allBlank_append_cons_iff :
    AllBlank (s ++ c :: t) ↔ AllBlank s ∧ isBlank c ∧ AllBlank t := by
  simp only [AllBlank, List.all_append, List.all_cons, Bool.and_eq_true]

theorem skipBlanks_append (h : AllBlank blanks) (s : List Char) :
    skipBlanks (blanks ++ s) = skipBlanks s :=
  List.dropWhile_append_of_pos (List.all_eq_true.mp h)

theorem skipBlanks_cons (h : isBlank c = false) (s : List Char) :
    skipBlanks (c :: s) = c :: s := by
  simp [skipBlanks, h]

/-- Every text is cut in one way into the blanks that it starts with and what follows them. -/
theorem exists_blanks_append (s : List Char) :
    ∃ blanks, AllBlank blanks ∧ s = blanks ++ skipBlanks s ∧
      ∀ c ∈ (skipBlanks s).head?, isBlank c = false := by
  refine ⟨s.takeWhile isBlank, List.all_takeWhile, List.takeWhile_append_dropWhile.symm, ?_⟩
  intro c hc
  have hhead := List.head?_dropWhile_not isBlank s
  rw [← skipBlanks, Option.mem_def.mp hc] at hhead
  simpa using hhead

theorem skipBlanks_of_head? (h : ∀ c ∈ s.head?, isBlank c = false) : skipBlanks s = s := by
  cases s with
  | nil => rfl
  | cons c s => exact skipBlanks_cons (h c rfl) s

theorem isBlank_head?_of_isWord (hw : IsWord s) (rest : List Char) :
    ∀ c ∈ (s ++ rest).head?, isBlank c = false := by
  obtain ⟨hne, hall⟩ := hw
  obtain ⟨d, s, rfl⟩ := List.exists_cons_of_ne_nil hne
  rintro c ⟨rfl⟩
  rw [List.all_cons, Bool.and_eq_true, Bool.not_eq_true'] at hall
  exact hall.1

/-- There is no other such cut. -/
theorem blanks_append_inj {other : List Char} (hb : AllBlank blanks) (ho : AllBlank other)
    (hs : ∀ c ∈ s.head?, isBlank c = false) (ht : ∀ c ∈ t.head?, isBlank c = false)
    (h : blanks ++ s = other ++ t) : blanks = other ∧ s = t := by
  have hskip := congrArg skipBlanks h
  rw [skipBlanks_append hb, skipBlanks_append ho, skipBlanks_of_head? hs,
    skipBlanks_of_head? ht] at hskip
  subst hskip
  exact ⟨List.append_cancel_right h, rfl⟩

theorem after?_eq_some_iff {word : String} :
    after? word s = some rest ↔ s = word.toList ++ rest := by
  rw [after?, List.isPrefixOf?_eq_some_iff_append_eq]
  exact eq_comm

/-- What is read after blanks is a word and the text after it. -/
theorem after?_skipBlanks_eq_some_iff {word : String} (hw : IsWord word.toList) :
    after? word (skipBlanks s) = some rest ↔
      ∃ blanks, AllBlank blanks ∧ s = blanks ++ (word.toList ++ rest) := by
  constructor
  · intro h
    obtain ⟨blanks, hb, hs, -⟩ := exists_blanks_append s
    exact ⟨blanks, hb, (append_of_after? h).symm ▸ hs⟩
  · rintro ⟨blanks, hb, rfl⟩
    rw [skipBlanks_append hb, skipBlanks_of_head? (isBlank_head?_of_isWord hw rest)]
    exact after?_eq_some_iff.mpr rfl

theorem someBlanks_after?_eq_some_iff {word : String} (hw : IsWord word.toList) :
    (skipSomeBlanks? s).bind (after? word) = some rest ↔
      ∃ gap, gap ≠ [] ∧ AllBlank gap ∧ s = gap ++ (word.toList ++ rest) := by
  constructor
  · intro h
    obtain ⟨t, ht, h⟩ := Option.bind_eq_some_iff.mp h
    obtain ⟨c, r, hc, rfl, rfl⟩ := exists_of_skipSomeBlanks? ht
    obtain ⟨blanks, hb, rfl⟩ := (after?_skipBlanks_eq_some_iff hw).mp h
    exact ⟨c :: blanks, by simp, by simpa [AllBlank, hc] using hb, rfl⟩
  · rintro ⟨gap, hne, hgap, rfl⟩
    obtain ⟨c, blanks, rfl⟩ := List.exists_cons_of_ne_nil hne
    obtain ⟨hc, hb⟩ := Bool.and_eq_true_iff.mp hgap
    rw [List.cons_append, skipSomeBlanks?, if_pos hc]
    exact (after?_skipBlanks_eq_some_iff hw).mpr ⟨blanks, hb, rfl⟩

/-- Blanks at the end are told apart from what stands before them. -/
theorem trimEnd_append (hc : isBlank c = false) (h : AllBlank blanks) (s : List Char) :
    trimEnd (s ++ c :: blanks) = s ++ [c] := by
  have hb : ∀ d ∈ blanks.reverse, isBlank d := by simpa using h
  simp [trimEnd, List.dropWhile_append_of_pos hb, hc]

theorem IsName.exists_cons (h : IsName name) :
    ∃ c rest, name = c :: rest ∧ isBlank c = false ∧ isLineTerminator c = false ∧ IsLine rest := by
  obtain ⟨c, rest, rfl⟩ := List.exists_cons_of_ne_nil h.ne_nil
  have hhead := h.isTrimmed.1
  have hline := h.isLine
  simp only [IsLine, List.all_cons, Bool.and_eq_true, Bool.not_eq_true'] at hline
  exact ⟨c, rest, rfl, by simpa using hhead, hline.1, hline.2⟩

/-- No end of a trimmed text is blank. -/
theorem IsTrimmed.not_allBlank (h : IsTrimmed s) (hs : t <:+ s) (ht : t ≠ []) : ¬ AllBlank t := by
  intro hblank
  have hlast : s.getLast? = some (t.getLast ht) := by
    obtain ⟨front, rfl⟩ := hs
    rw [List.getLast?_append_of_ne_nil _ ht, List.getLast?_eq_some_getLast ht]
  have hclear := h.2
  rw [hlast] at hclear
  have := List.all_eq_true.mp hblank _ (List.getLast_mem ht)
  simp [this] at hclear

/-- Where an end of a trimmed text starts with blanks, something of it follows them. -/
theorem IsTrimmed.exists_cons (h : IsTrimmed s) (hs : t <:+ s) (ht : t ≠ []) (hb : AllBlank blanks)
    {more : List Char} (heq : t ++ rest = blanks ++ c :: more) :
    ∃ back, t = blanks ++ c :: back ∧ back ++ rest = more := by
  obtain ⟨a, rfl, hrest⟩ | ⟨a, rfl, hrest⟩ := List.append_eq_append_iff.mp heq
  · have hblank : AllBlank t := by
      simp only [AllBlank, List.all_append, Bool.and_eq_true] at hb
      exact hb.1
    exact absurd hblank (h.not_allBlank hs ht)
  · cases a with
    | nil => exact absurd (by simpa using hb) (h.not_allBlank hs ht)
    | cons d back =>
      obtain ⟨rfl, rfl⟩ := List.cons.inj hrest
      exact ⟨back, rfl, rfl⟩

end Blanks

section Searches
variable {stop : List Char → Bool} {c : Char} {s t blanks name rest : List Char}

/-- Whether a search ends at the end of `s`: it stays on one line, and `stop` holds of what follows,
but nowhere before. -/
structure StopsAfter (stop : List Char → Bool) (s rest : List Char) : Prop where
  isLine : IsLine s
  stops : stop rest = true
  not_before : ∀ {back}, back <:+ s → back ≠ [] → stop (back ++ rest) = false

theorem StopsAfter.tail (h : StopsAfter stop (c :: s) rest) : StopsAfter stop s rest := by
  refine ⟨?_, h.stops, fun hback => h.not_before (hback.trans (List.suffix_cons c s))⟩
  exact (Bool.and_eq_true_iff.mp h.isLine).2

theorem stopsAfter_of_upTo (h : upTo stop t = some s) :
    ∃ rest, t = s ++ rest ∧ StopsAfter stop s rest := by
  induction t generalizing s with
  | nil =>
    simp only [upTo, Option.ite_none_right_eq_some, Option.some.injEq] at h
    obtain ⟨hstop, rfl⟩ := h
    exact ⟨[], rfl, by simp, hstop, by simp⟩
  | cons c t ih =>
    rw [upTo] at h
    split at h
    · next hstop =>
      obtain rfl := Option.some.inj h
      exact ⟨c :: t, rfl, by simp, hstop, by simp⟩
    · next hstop =>
      split at h
      · cases h
      · next hc =>
        obtain ⟨n, hn, rfl⟩ := Option.map_eq_some_iff.mp h
        obtain ⟨rest, rfl, hrest⟩ := ih hn
        refine ⟨rest, rfl, by simpa [IsLine, hc] using hrest.isLine, hrest.stops, ?_⟩
        intro back hback hne
        rcases List.suffix_cons_iff.mp hback with rfl | hback
        · simpa using hstop
        · exact hrest.not_before hback hne

theorem StopsAfter.upTo_eq (h : StopsAfter stop s rest) : upTo stop (s ++ rest) = some s := by
  induction s with
  | nil => cases rest <;> simp [upTo, h.stops]
  | cons c s ih =>
    have hnot : stop (c :: (s ++ rest)) = false := h.not_before (List.suffix_refl _) (by simp)
    have hc : isLineTerminator c = false := by
      simpa using (Bool.and_eq_true_iff.mp h.isLine).1
    rw [List.cons_append, upTo, hnot, hc, ih h.tail]
    rfl

theorem upTo_eq_some_iff : upTo stop t = some s ↔ ∃ rest, t = s ++ rest ∧ StopsAfter stop s rest := by
  constructor
  · exact stopsAfter_of_upTo
  · rintro ⟨rest, rfl, h⟩
    exact h.upTo_eq

theorem upTo_append_eq_some_iff : upTo stop (s ++ rest) = some s ↔ StopsAfter stop s rest := by
  rw [upTo_eq_some_iff]
  constructor
  · rintro ⟨other, he, h⟩
    rwa [List.append_cancel_left he]
  · exact fun h => ⟨rest, rfl, h⟩

/-- A stop is found after characters of one line. -/
theorem isSome_upTo_append (hs : IsLine s) (ht : stop t = true) : (upTo stop (s ++ t)).isSome := by
  induction s with
  | nil => cases t <;> simp [upTo, ht]
  | cons c s ih =>
    obtain ⟨hc, hs⟩ := Bool.and_eq_true_iff.mp hs
    have hc : isLineTerminator c = false := by simpa using hc
    have ih := ih hs
    rw [List.cons_append, upTo]
    split
    · rfl
    · simpa [hc] using ih

theorem upTo_eq_none_iff :
    upTo stop t = none ↔ ∀ front back, t = front ++ back → IsLine front → stop back = false := by
  constructor
  · rintro h front back rfl hline
    rw [Bool.eq_false_iff]
    intro hstop
    have hsome := isSome_upTo_append hline hstop
    simp [h] at hsome
  · intro h
    rw [Option.eq_none_iff_forall_ne_some]
    intro s hs
    obtain ⟨rest, ht, hrest⟩ := stopsAfter_of_upTo hs
    have hstop := h s rest ht hrest.isLine
    simp [hrest.stops] at hstop

theorem someUpTo_eq_some_iff :
    someUpTo stop t = some name ↔ ∃ c s rest, name = c :: s ∧ t = c :: (s ++ rest) ∧
      isLineTerminator c = false ∧ StopsAfter stop s rest := by
  cases t with
  | nil => simp [someUpTo]
  | cons d t =>
    simp only [someUpTo, Option.ite_none_left_eq_some, Option.map_eq_some_iff, upTo_eq_some_iff,
      Bool.not_eq_true]
    constructor
    · rintro ⟨hd, s, ⟨rest, rfl, h⟩, rfl⟩
      exact ⟨d, s, rest, rfl, rfl, hd, h⟩
    · rintro ⟨c, s, rest, rfl, he, hc, h⟩
      obtain ⟨rfl, rfl⟩ := List.cons.inj he
      exact ⟨hc, s, ⟨rest, rfl, h⟩, rfl⟩

theorem someUpTo_eq_none_iff :
    someUpTo stop t = none ↔
      ∀ front back, t = front ++ back → front ≠ [] → IsLine front → stop back = false := by
  cases t with
  | nil => simp [someUpTo]
  | cons c t =>
    simp only [someUpTo, ite_eq_left_iff, Option.map_eq_none_iff, upTo_eq_none_iff,
      Bool.not_eq_true]
    constructor
    · rintro h (_ | ⟨d, front⟩) back he hne hline
      · exact absurd rfl hne
      · obtain ⟨rfl, rfl⟩ := List.cons.inj he
        obtain ⟨hc, hline⟩ := Bool.and_eq_true_iff.mp hline
        exact h (by simpa using hc) front back rfl hline
    · rintro h hc front back rfl hline
      exact h (c :: front) back rfl (by simp) (by simpa [IsLine, hc] using hline)

theorem nameUpTo_eq_someUpTo (h : ∀ c ∈ t.head?, isBlank c = false) :
    nameUpTo stop t = someUpTo stop t := by
  cases t with
  | nil => rfl
  | cons c t => simp [nameUpTo, h c rfl]

theorem nameUpTo_cons (hc : isBlank c) (t : List Char) :
    nameUpTo stop (c :: t) = (nameUpTo stop t).or (someUpTo stop (c :: t)) := by
  rw [nameUpTo, if_pos hc]

theorem nameUpTo_blanks_append (hb : AllBlank blanks) (h : nameUpTo stop t = some name) :
    nameUpTo stop (blanks ++ t) = some name := by
  induction blanks with
  | nil => exact h
  | cons c blanks ih =>
    obtain ⟨hc, hb⟩ := Bool.and_eq_true_iff.mp hb
    rw [List.cons_append, nameUpTo_cons hc, ih hb, Option.some_or]

theorem nameUpTo_eq_none_iff :
    nameUpTo stop t = none ↔ ∀ blanks front back, t = blanks ++ (front ++ back) → AllBlank blanks →
      front ≠ [] → IsLine front → stop back = false := by
  induction t with
  | nil =>
    simp only [nameUpTo, true_iff]
    rintro blanks front back he - hne -
    simp_all
  | cons c t ih =>
    have hsome : someUpTo stop (c :: t) = none ↔ _ := someUpTo_eq_none_iff
    by_cases hc : isBlank c
    · rw [nameUpTo_cons hc, Option.or_eq_none_iff, ih, hsome]
      constructor
      · rintro ⟨hlater, hhere⟩ (_ | ⟨d, blanks⟩) front back he hb hne hline
        · exact hhere front back he hne hline
        · obtain ⟨rfl, rfl⟩ := List.cons.inj he
          exact hlater blanks front back rfl (Bool.and_eq_true_iff.mp hb).2 hne hline
      · intro h
        refine ⟨?_, fun front back he => h [] front back he (by simp)⟩
        rintro blanks front back rfl hb
        exact h (c :: blanks) front back rfl (by simpa [AllBlank, hc] using hb)
    · have hhead : ∀ d ∈ (c :: t).head?, isBlank d = false := by simpa using hc
      rw [nameUpTo_eq_someUpTo hhead, hsome]
      constructor
      · rintro h (_ | ⟨d, blanks⟩) front back he hb
        · exact h front back he
        · obtain ⟨rfl, -⟩ := List.cons.inj he
          exact absurd (Bool.and_eq_true_iff.mp hb).1 hc
      · intro h front back he
        exact h [] front back he (by simp)

theorem nameUpTo_getD_eq_nil_iff : (nameUpTo stop t).getD [] = [] ↔ nameUpTo stop t = none := by
  have hname : ∀ u, someUpTo stop u ≠ some [] := by
    intro u h
    obtain ⟨c, s, rest, he, -⟩ := someUpTo_eq_some_iff.mp h
    cases he
  have hnil : nameUpTo stop t ≠ some [] := by
    induction t with
    | nil => simp [nameUpTo]
    | cons c t ih =>
      by_cases hc : isBlank c
      · rw [nameUpTo_cons hc, ne_eq, Option.or_eq_some_iff]
        rintro (h | ⟨-, h⟩)
        · exact ih h
        · exact hname _ h
      · rw [nameUpTo, if_neg hc]
        exact hname _
  cases h : nameUpTo stop t with
  | none => simp
  | some name => simpa [h] using hnil

theorem upTo_eq_none_iff_of_nameUpTo (h : nameUpTo stop t = none) :
    upTo stop t = none ↔ stop t = false := by
  rw [nameUpTo_eq_none_iff] at h
  rw [upTo_eq_none_iff]
  constructor
  · exact fun hall => hall [] t rfl (by simp)
  · rintro ht (_ | ⟨c, front⟩) back he hline
    · rwa [he] at ht
    · exact h [] (c :: front) back he (by simp) (by simp) hline

/-- A name is given up for good only if none of the blanks before it can stand in for it. -/
theorem nameUpTo_blanks_eq_none_iff (hb : AllBlank blanks) (ht : ∀ c ∈ t.head?, isBlank c = false) :
    nameUpTo stop (blanks ++ t) = none ↔ someUpTo stop t = none ∧
      ∀ front c back, blanks = front ++ c :: back → isLineTerminator c = false →
        stop (back ++ t) = false := by
  induction blanks with
  | nil => simp [nameUpTo_eq_someUpTo ht]
  | cons b blanks ih =>
    obtain ⟨hblank, hb⟩ := Bool.and_eq_true_iff.mp hb
    have hhere : nameUpTo stop (blanks ++ t) = none →
        (someUpTo stop (b :: (blanks ++ t)) = none ↔
          (isLineTerminator b = false → stop (blanks ++ t) = false)) := by
      intro h
      rw [← upTo_eq_none_iff_of_nameUpTo h]
      simp [someUpTo]
    rw [List.cons_append, nameUpTo_cons hblank, Option.or_eq_none_iff, and_congr_right hhere, ih hb,
      and_assoc]
    refine and_congr_right fun _ => ?_
    constructor
    · rintro ⟨hlater, hfirst⟩ (_ | ⟨d, front⟩) c back he hc
      · obtain ⟨rfl, rfl⟩ := List.cons.inj he
        exact hfirst hc
      · obtain ⟨rfl, rfl⟩ := List.cons.inj he
        exact hlater front c back rfl hc
    · intro h
      refine ⟨?_, h [] b blanks rfl⟩
      rintro front c back rfl
      exact h (b :: front) c back rfl

/-- What is found where no name follows the blanks is one of these. -/
theorem exists_blank_of_nameUpTo (hb : AllBlank blanks) (ht : ∀ c ∈ t.head?, isBlank c = false)
    (hnone : someUpTo stop t = none) (h : nameUpTo stop (blanks ++ t) = some name) :
    ∃ c, isBlank c = true ∧ name = [c] := by
  induction blanks with
  | nil =>
    rw [List.nil_append, nameUpTo_eq_someUpTo ht, hnone] at h
    cases h
  | cons b blanks ih =>
    obtain ⟨hblank, hb⟩ := Bool.and_eq_true_iff.mp hb
    rw [List.cons_append, nameUpTo_cons hblank, Option.or_eq_some_iff] at h
    rcases h with h | ⟨hlater, h⟩
    · exact ih hb h
    · obtain ⟨c, s, rest, rfl, he, -, hs⟩ := someUpTo_eq_some_iff.mp h
      obtain ⟨rfl, htail⟩ := List.cons.inj he
      refine ⟨b, hblank, ?_⟩
      by_contra hne
      have hnonempty : s ≠ [] := fun hs => hne (congrArg (b :: ·) hs)
      have hnot : stop (s ++ rest) = false := hs.not_before (List.suffix_refl _) hnonempty
      rw [← htail, ← upTo_eq_none_iff_of_nameUpTo hlater, htail, hs.upTo_eq] at hnot
      cases hnot

/-- Whether `stop` may hold with more blanks before it. -/
def AllowsBlanks (stop : List Char → Bool) : Prop :=
  ∀ ⦃c : Char⦄ ⦃s : List Char⦄, isBlank c → stop s = true → stop (c :: s) = true

theorem isTrimmed_of_someUpTo (hstop : AllowsBlanks stop) (ht : ∀ c ∈ t.head?, isBlank c = false)
    (h : someUpTo stop t = some name) : IsTrimmed name := by
  obtain ⟨c, s, rest, rfl, rfl, -, hs⟩ := someUpTo_eq_some_iff.mp h
  have hc : isBlank c = false := ht c rfl
  refine ⟨by simp [hc], ?_⟩
  rcases List.eq_nil_or_concat' s with rfl | ⟨front, d, rfl⟩
  · simp [hc]
  · have hnot : stop ([d] ++ rest) = false := hs.not_before (by simp) (by simp)
    have hd : isBlank d = false := by
      rw [Bool.eq_false_iff]
      intro hd
      rw [List.singleton_append, hstop hd hs.stops] at hnot
      cases hnot
    rw [← List.cons_append, List.getLast?_concat]
    simp [hd]

/-- A search finds a blank if no name follows the blanks at the start, but an end of one follows some
of them. -/
theorem isTrimmed_nameUpTo_iff (hstop : AllowsBlanks stop) (hb : AllBlank blanks)
    (ht : ∀ c ∈ t.head?, isBlank c = false) :
    IsTrimmed ((nameUpTo stop (blanks ++ t)).getD []) ↔ (someUpTo stop t = none →
      ∀ front c back, blanks = front ++ c :: back → isLineTerminator c = false →
        stop (back ++ t) = false) := by
  have hiff : nameUpTo stop (blanks ++ t) = none ↔ _ := nameUpTo_blanks_eq_none_iff hb ht
  cases hsome : someUpTo stop t with
  | some name =>
    have hname := nameUpTo_eq_someUpTo ht ▸ hsome
    rw [nameUpTo_blanks_append hb hname]
    simpa using isTrimmed_of_someUpTo hstop ht hsome
  | none =>
    simp only [hsome, true_and] at hiff
    rw [← hiff, eq_self, true_imp_iff]
    constructor
    · intro htrim
      rw [Option.eq_none_iff_forall_ne_some]
      intro name hname
      obtain ⟨c, hc, rfl⟩ := exists_blank_of_nameUpTo hb ht hsome hname
      rw [hname] at htrim
      simp [IsTrimmed, hc] at htrim
    · intro hnone
      rw [hnone]
      exact ⟨rfl, rfl⟩

/-- A name between blanks is found whole if it holds no earlier end of a name. -/
theorem IsName.nameUpTo_eq_some_iff (hname : IsName name) (hb : AllBlank blanks)
    (hstop : stop rest = true) :
    nameUpTo stop (blanks ++ (name ++ rest)) = some name ↔
      ∀ back, back <:+ name.tail → back ≠ [] → stop (back ++ rest) = false := by
  obtain ⟨c, s, rfl, hc, hterm, hline⟩ := hname.exists_cons
  obtain ⟨found, hfound⟩ := Option.isSome_iff_exists.mp (isSome_upTo_append hline hstop)
  have hhead : ∀ d ∈ (c :: (s ++ rest)).head?, isBlank d = false := by simpa using hc
  have hsome : nameUpTo stop (c :: (s ++ rest)) = some (c :: found) := by
    rw [nameUpTo_eq_someUpTo hhead, someUpTo, hterm, hfound]
    rfl
  have hiff : found = s ↔ StopsAfter stop s rest := by
    rw [← upTo_append_eq_some_iff, hfound, Option.some.injEq]
  rw [List.cons_append, nameUpTo_blanks_append hb hsome, Option.some.injEq, List.cons.injEq,
    eq_self, true_and, hiff, List.tail_cons]
  exact ⟨fun h back => h.not_before, fun h => ⟨hline, hstop, h _⟩⟩

end Searches

end ProjectOrder.Text
