import ProjectOrder.Document.Record
import ProjectOrder.Proofs.Segmentation

/-! Where records start and end: at their heads, and where their braces close. -/
namespace ProjectOrder.Document

theorem braceBalance_append (a b : Line) :
    braceBalance (a ++ b) = braceBalance a + braceBalance b := by
  simp only [braceBalance, List.count_append]
  omega

theorem braceBalance_eq_zero {line : Line} (h : '\x7b' ∉ line) (h' : '\x7d' ∉ line) :
    braceBalance line = 0 := by
  simp [braceBalance, List.count_eq_zero.mpr h, List.count_eq_zero.mpr h']

/-- Opening braces less closing ones, in all of the lines. -/
def braces : List Line → Int
  | [] => 0
  | line :: rest => braceBalance line + braces rest

@[simp] theorem braces_nil : braces [] = 0 := rfl

@[simp] theorem braces_cons (line : Line) (rest : List Line) :
    braces (line :: rest) = braceBalance line + braces rest := rfl

@[simp] theorem braces_append (a b : List Line) : braces (a ++ b) = braces a + braces b := by
  induction a with
  | nil => simp
  | cons line a ih =>
    simp only [List.cons_append, braces_cons, ih]
    omega

theorem braces_perm {a b : List Line} (h : a.Perm b) : braces a = braces b := by
  induction h with
  | nil => rfl
  | cons line _ ih => simp [ih]
  | swap line other rest =>
    simp only [braces_cons]
    omega
  | trans _ _ ih ih' => exact ih.trans ih'

theorem braces_eq_zero {lines : List Line} (h : ∀ line ∈ lines, braceBalance line = 0) :
    braces lines = 0 := by
  induction lines with
  | nil => rfl
  | cons line rest ih =>
    have hline := h line (by simp)
    have hrest := ih fun l hl => h l (by simp [hl])
    simp [hline, hrest]

/-- The braces of the lines close at the last of them and no earlier. -/
structure Balanced (lines : List Line) : Prop where
  nonpos : braces lines ≤ 0
  pos : ∀ start rest, start ++ rest = lines → start ≠ [] → rest ≠ [] → 0 < braces start

/-- The braces of which `balance` are open close at the last of the lines and no earlier. -/
def ClosesFrom : (balance : Int) → List Line → Prop
  | balance, [] => balance ≤ 0
  | balance, line :: rest => 0 < balance ∧ ClosesFrom (balance + braceBalance line) rest

theorem closesFrom_iff {balance : Int} {lines : List Line} :
    ClosesFrom balance lines ↔ balance + braces lines ≤ 0 ∧
      ∀ start rest, start ++ rest = lines → rest ≠ [] → 0 < balance + braces start := by
  induction lines generalizing balance with
  | nil => simp [ClosesFrom]
  | cons line lines ih =>
    simp only [ClosesFrom, ih, braces_cons]
    constructor
    · intro h
      obtain ⟨hb, hn, hp⟩ := h
      refine ⟨by omega, fun start rest he hr => ?_⟩
      cases start with
      | nil => simpa using hb
      | cons first start =>
        obtain ⟨rfl, hs⟩ := List.cons.inj he
        have := hp start rest hs hr
        simp only [braces_cons]
        omega
    · intro h
      obtain ⟨hn, hp⟩ := h
      have hb : 0 < balance := by simpa using hp [] (line :: lines) rfl (by simp)
      refine ⟨hb, by omega, fun start rest he hr => ?_⟩
      have := hp (line :: start) rest (by simp [he]) hr
      simp only [braces_cons] at this
      omega

/-- Lines without braces do not matter, as long as a brace is open. -/
theorem closesFrom_append_iff {balance : Int} {inner : List Line} {last : Line}
    (h : ∀ line ∈ inner, braceBalance line = 0) :
    ClosesFrom balance (inner ++ [last]) ↔ 0 < balance ∧ balance + braceBalance last ≤ 0 := by
  induction inner with
  | nil => rfl
  | cons line inner ih =>
    have hline := h line (by simp)
    have ih := ih fun l hl => h l (by simp [hl])
    rw [List.cons_append, ClosesFrom, hline, Int.add_zero, ih]
    exact and_iff_right_of_imp And.left

theorem balanced_cons_iff {head : Line} {inner : List Line} :
    Balanced (head :: inner) ↔ ClosesFrom (braceBalance head) inner := by
  rw [closesFrom_iff]
  constructor
  · intro h
    refine ⟨by simpa using h.nonpos, fun start rest he hr => ?_⟩
    simpa using h.pos (head :: start) rest (by simp [he]) (by simp) hr
  · intro h
    obtain ⟨hn, hp⟩ := h
    refine ⟨by simpa using hn, fun start rest he hs hr => ?_⟩
    obtain ⟨first, start, rfl⟩ := List.exists_cons_of_ne_nil hs
    obtain ⟨rfl, rfl⟩ := List.cons.inj he
    simpa using hp start rest rfl hr

theorem takeUntilBalanced_eq_some_iff {balance : Int} {limit : Nat}
    {rest taken after : List Line} :
    takeUntilBalanced balance limit rest = some (taken, after) ↔
      taken ++ after = rest ∧ taken.length ≤ limit ∧ ClosesFrom balance taken := by
  fun_induction takeUntilBalanced balance limit rest generalizing taken with
  | case1 balance limit rest hb =>
    have hopen : ¬ 0 < balance := by omega
    cases taken with
    | nil => simp [ClosesFrom, hb, eq_comm]
    | cons line taken => simp [ClosesFrom, hopen]
  | case2 balance hb limit line rest ih =>
    have hopen : 0 < balance := by omega
    cases taken with
    | nil => simp [ClosesFrom, hb]
    | cons first taken =>
      simp only [Option.map_eq_some_iff, Prod.exists, Prod.mk.injEq, List.cons.injEq]
      constructor
      · intro h
        obtain ⟨t, a, ht, ⟨rfl, rfl⟩, rfl⟩ := h
        obtain ⟨he, hl, hc⟩ := ih.mp ht
        exact ⟨by simp [he], by simpa using hl, hopen, hc⟩
      · intro h
        obtain ⟨he, hl, -, hc⟩ := h
        obtain ⟨rfl, ht⟩ := List.cons.inj he
        have ht := ih.mpr ⟨ht, by simpa using hl, hc⟩
        exact ⟨taken, after, ht, ⟨rfl, rfl⟩, rfl⟩
  | case3 balance limit rest hb hnone =>
    simp only [reduceCtorEq, false_iff]
    intro h
    obtain ⟨he, hl, hc⟩ := h
    cases taken with
    | nil => exact hb hc
    | cons first taken =>
      cases limit with
      | zero => simp at hl
      | succ limit => exact hnone limit first (taken ++ after) rfl he.symm

theorem takeUntilBalanced_eq_none_iff {balance : Int} {limit : Nat} {rest : List Line} :
    takeUntilBalanced balance limit rest = none ↔
      ∀ taken after, taken ++ after = rest → taken.length ≤ limit → 0 < balance + braces taken := by
  fun_induction takeUntilBalanced balance limit rest with
  | case1 balance limit rest hb =>
    have hopen : ¬ 0 < balance := by omega
    simpa using ⟨[], by simp, by simpa using hopen⟩
  | case2 balance hb limit line rest ih =>
    rw [Option.map_eq_none_iff, ih]
    constructor
    · intro h taken after he hl
      cases taken with
      | nil => simp; omega
      | cons first taken =>
        obtain ⟨rfl, ht⟩ := List.cons.inj he
        have := h taken after ht (by simpa using hl)
        simp only [braces_cons]
        omega
    · intro h taken after he hl
      have := h (line :: taken) after (by simp [he]) (by simpa using hl)
      simp only [braces_cons] at this
      omega
  | case3 balance limit rest hb hnone =>
    simp only [true_iff]
    intro taken after he hl
    cases taken with
    | nil => simp; omega
    | cons first taken =>
      cases limit with
      | zero => simp at hl
      | succ limit => exact (hnone limit first (taken ++ after) rfl he.symm).elim

/-- What precedes a record is no head, and the record itself starts with one. -/
structure Record.Starts (r : Record) : Prop where
  leading : ∀ line ∈ r.leading, isRecordHead line = false
  head : ∃ head inner, r.body = head :: inner ∧ isRecordHead head = true

/-- The record is one that can be told apart among others. -/
structure Record.IsWhole (maxLines : Int) (r : Record) : Prop extends r.Starts where
  balanced : Balanced r.body
  length_le : r.body.length ≤ (maxLines - 1).toNat + 1

/-- A section taken apart into records and lines after them, none of which is a head. -/
structure IsRecordSplit (maxLines : Int) (lines : List Line) (split : RecordSplit) : Prop where
  lines_eq : split.records.flatMap Record.lines ++ split.trailing = lines
  isWhole : ∀ r ∈ split.records, r.IsWhole maxLines
  trailing : ∀ line ∈ split.trailing, isRecordHead line = false

theorem IsRecordSplit.cons {maxLines : Int} {r : Record} {after : List Line} {split : RecordSplit}
    (hr : r.IsWhole maxLines) (h : IsRecordSplit maxLines after split) :
    IsRecordSplit maxLines (r.lines ++ after) { split with records := r :: split.records } := by
  refine ⟨by simp [← h.lines_eq], ?_, h.trailing⟩
  simpa using ⟨hr, h.isWhole⟩

theorem splitRecords_trailing (maxLines first : Int) {lines : List Line}
    (h : ∀ line ∈ lines, isRecordHead line = false) :
    splitRecords maxLines first lines = .ok { records := [], trailing := lines } := by
  have hd : lines.dropWhile (!isRecordHead ·) = [] := by
    simpa [List.dropWhile_eq_nil_iff] using h
  rw [splitRecords]
  split
  · rfl
  · next hd' => simp [hd] at hd'

/-- A whole record in front of other lines is split off, whatever they are. -/
theorem splitRecords_record {maxLines : Int} {r : Record} (h : r.IsWhole maxLines) (first : Int)
    (after : List Line) :
    splitRecords maxLines first (r.lines ++ after) =
      (splitRecords maxLines (first + r.lines.length) after).map fun split =>
        { split with records := r :: split.records } := by
  obtain ⟨⟨hl, head, inner, hb, hh⟩, hbal, hlen⟩ := h
  obtain ⟨leading, body⟩ := r
  simp only at hb
  subst hb
  obtain ⟨ht, hd⟩ := cut_before_first hl hh (inner ++ after)
  have htake : takeUntilBalanced (braceBalance head) (maxLines - 1).toNat (inner ++ after) =
      some (inner, after) := by
    have hinner : inner.length ≤ (maxLines - 1).toNat := by simpa using hlen
    exact takeUntilBalanced_eq_some_iff.mpr ⟨rfl, hinner, balanced_cons_iff.mp hbal⟩
  simp only [Record.lines, List.append_assoc, List.cons_append]
  rw [splitRecords]
  simp only [ht]
  split
  · next hd' => simp [hd] at hd'
  · next hd' =>
    rw [hd, List.cons.injEq] at hd'
    obtain ⟨rfl, rfl⟩ := hd'
    split
    · next ht' => exact absurd (htake.symm.trans ht') (by simp)
    · next ht' =>
      rw [htake, Option.some.injEq, Prod.mk.injEq] at ht'
      obtain ⟨rfl, rfl⟩ := ht'
      have he : first + (leading.length : Int) + 1 + inner.length =
          first + ((leading ++ head :: inner).length : Nat) := by
        simp only [List.length_append, List.length_cons]
        omega
      rw [he]
      rfl

theorem splitRecords_records {maxLines : Int} {records : List Record}
    (h : ∀ r ∈ records, r.IsWhole maxLines) (first : Int) (after : List Line) :
    splitRecords maxLines first (records.flatMap Record.lines ++ after) =
      (splitRecords maxLines (first + (records.flatMap Record.lines).length) after).map fun split =>
        { split with records := records ++ split.records } := by
  induction records generalizing first with
  | nil =>
    simp only [List.flatMap_nil, List.nil_append, List.length_nil, Int.natCast_zero, Int.add_zero]
    cases splitRecords maxLines first after <;> rfl
  | cons r records ih =>
    rw [List.flatMap_cons, List.append_assoc, splitRecords_record (h r (by simp)),
      ih (fun s hs => h s (by simp [hs])), List.length_append, Int.natCast_add, Int.add_assoc]
    cases splitRecords maxLines _ after <;> rfl

/-- The first head among the lines opens braces that stay open for as many lines as a record may
have. -/
structure StaysOpen (maxLines : Int) (leading : List Line) (head : Line) (rest : List Line) :
    Prop where
  isLeading : ∀ line ∈ leading, isRecordHead line = false
  isHead : isRecordHead head = true
  stays : takeUntilBalanced (braceBalance head) (maxLines - 1).toNat rest = none

/-- Such a head is at fault, whatever follows it. -/
theorem splitRecords_staysOpen {maxLines : Int} {leading : List Line} {head : Line}
    {rest : List Line} (h : StaysOpen maxLines leading head rest) (first : Int) :
    splitRecords maxLines first (leading ++ head :: rest) = .error (first + leading.length) := by
  obtain ⟨ht, hd⟩ := cut_before_first h.isLeading h.isHead rest
  rw [splitRecords]
  simp only [ht]
  split
  · next hd' => simp [hd] at hd'
  · next hd' =>
    rw [hd, List.cons.injEq] at hd'
    obtain ⟨rfl, rfl⟩ := hd'
    split
    · rfl
    · next ht' =>
      rw [h.stays] at ht'
      cases ht'

/-- Lines have no head, or they start with one that stays open, or with a whole record. -/
theorem records_induction (maxLines : Int) {motive : List Line → Prop}
    (trailing : ∀ lines, (∀ line ∈ lines, isRecordHead line = false) → motive lines)
    (staysOpen : ∀ leading head rest, StaysOpen maxLines leading head rest →
      motive (leading ++ head :: rest))
    (record : ∀ (r : Record) after, r.IsWhole maxLines → motive after → motive (r.lines ++ after))
    (lines : List Line) : motive lines := by
  have cut : ∀ {lines head rest}, lines.dropWhile (!isRecordHead ·) = head :: rest →
      lines.takeWhile (!isRecordHead ·) ++ head :: rest = lines :=
    fun hd => hd ▸ List.takeWhile_append_dropWhile
  fun_induction splitRecords maxLines 0 lines with
  | case1 first lines hd => exact trailing lines (by simpa using List.dropWhile_eq_nil_iff.mp hd)
  | case2 first lines leading head rest hd line ht =>
    obtain ⟨hleading, hhead⟩ := first_of_dropWhile (p := isRecordHead) hd
    exact cut hd ▸ staysOpen leading head rest ⟨hleading, hhead, ht⟩
  | case3 first lines leading head rest hd line inner after ht ih =>
    obtain ⟨hleading, hhead⟩ := first_of_dropWhile (p := isRecordHead) hd
    obtain ⟨htaken, hlength, hcloses⟩ := takeUntilBalanced_eq_some_iff.mp ht
    have hstarts : Record.Starts ⟨leading, head :: inner⟩ := ⟨hleading, head, inner, rfl, hhead⟩
    have he : Record.lines ⟨leading, head :: inner⟩ ++ after = lines := by
      simpa [Record.lines, htaken] using cut hd
    exact he ▸ record _ _ ⟨hstarts, balanced_cons_iff.mpr hcloses, by simpa using hlength⟩ ih

theorem isRecordSplit_of_splitRecords {maxLines first : Int} {lines : List Line}
    {split : RecordSplit} (h : splitRecords maxLines first lines = .ok split) :
    IsRecordSplit maxLines lines split := by
  induction lines using records_induction maxLines generalizing first split with
  | trailing lines ht =>
    rw [splitRecords_trailing _ _ ht] at h
    cases h
    exact ⟨rfl, by simp, ht⟩
  | staysOpen leading head rest hopen =>
    rw [splitRecords_staysOpen hopen] at h
    cases h
  | record r after hr ih =>
    rw [splitRecords_record hr] at h
    rcases hs : splitRecords maxLines (first + r.lines.length) after with n | more
    · rw [hs] at h
      cases h
    · rw [hs] at h
      cases h
      exact (ih hs).cons hr

theorem splitRecords_of_isRecordSplit {maxLines : Int} {lines : List Line} {split : RecordSplit}
    (h : IsRecordSplit maxLines lines split) (first : Int) :
    splitRecords maxLines first lines = .ok split := by
  obtain ⟨records, trailing⟩ := split
  obtain ⟨rfl, hw, ht⟩ := h
  rw [splitRecords_records hw, splitRecords_trailing _ _ ht]
  simp [Except.map]

/-- A section is taken apart in the only way there is, wherever its lines are counted from. -/
theorem splitRecords_eq_ok_iff {maxLines first : Int} {lines : List Line} {split : RecordSplit} :
    splitRecords maxLines first lines = .ok split ↔ IsRecordSplit maxLines lines split :=
  ⟨isRecordSplit_of_splitRecords, fun h => splitRecords_of_isRecordSplit h first⟩

theorem IsRecordSplit.unique {maxLines : Int} {lines : List Line} {split other : RecordSplit}
    (h : IsRecordSplit maxLines lines split) (ho : IsRecordSplit maxLines lines other) :
    split = other := by
  have := (splitRecords_of_isRecordSplit h 0).symm.trans (splitRecords_of_isRecordSplit ho 0)
  exact Except.ok.inj this

theorem IsRecordSplit.of_perm {maxLines : Int} {body : List Line} {split : RecordSplit}
    {records : List Record} (h : IsRecordSplit maxLines body split)
    (hp : records.Perm split.records) :
    IsRecordSplit maxLines (records.flatMap Record.lines ++ split.trailing)
      ⟨records, split.trailing⟩ :=
  ⟨rfl, fun r hr => h.isWhole r (hp.subset hr), h.trailing⟩

theorem Record.Starts.leading_eq {r : Record} (h : r.Starts) (rest : List Line) :
    (r.lines ++ rest).takeWhile (!isRecordHead ·) = r.leading ∧
      (r.lines ++ rest).dropWhile (!isRecordHead ·) = r.body ++ rest := by
  obtain ⟨hl, head, inner, hb, hh⟩ := h
  simpa [Record.lines, hb] using cut_before_first hl hh (inner ++ rest)

theorem Record.Starts.body_ne_nil {r : Record} (h : r.Starts) : r.body ≠ [] := by
  obtain ⟨-, head, inner, hb, -⟩ := h
  simp [hb]

theorem Record.Starts.lines_append_ne {r : Record} (h : r.Starts) {lines : List Line}
    (hl : ∀ line ∈ lines, isRecordHead line = false) (rest : List Line) :
    r.lines ++ rest ≠ lines := by
  intro he
  obtain ⟨-, head, inner, hb, hh⟩ := h
  have hm : head ∈ lines := by simp [← he, Record.lines, hb]
  have hn := hl head hm
  rw [hh] at hn
  cases hn

/-- The braces close at the last of the lines. They may close earlier, but only where the lines up to
there are not `whole`. -/
structure BalancedWhere (whole : List Line → Prop) (lines : List Line) : Prop where
  nonpos : braces lines ≤ 0
  pos : ∀ start rest, start ++ rest = lines → start ≠ [] → rest ≠ [] → whole start →
    0 < braces start

section Uniqueness
variable {whole : List Line → Prop}

/-- Neither of two bodies in front of the same lines goes on where the other one ends. -/
theorem BalancedWhere.eq_of_append_eq {a b x y : List Line} (ha : BalancedWhere whole a)
    (hb : Balanced b) (hw : whole b) (hna : a ≠ []) (hnb : b ≠ []) (h : a ++ x = b ++ y) :
    a = b := by
  rcases List.append_eq_append_iff.mp h with ⟨more, rfl, -⟩ | ⟨more, rfl, -⟩
  · have hmore : more = [] := by
      by_contra hne
      have hopen := hb.pos a more rfl hna hne
      have hclosed := ha.nonpos
      omega
    simp [hmore]
  · have hmore : more = [] := by
      by_contra hne
      have hopen := ha.pos b more rfl hnb hne hw
      have hclosed := hb.nonpos
      omega
    simp [hmore]

theorem Record.eq_of_append_eq {a b : Record} {x y : List Line} (hsa : a.Starts) (hsb : b.Starts)
    (ha : BalancedWhere whole a.body) (hb : Balanced b.body) (hw : whole b.body)
    (h : a.lines ++ x = b.lines ++ y) : a = b ∧ x = y := by
  obtain ⟨hla, hra⟩ := hsa.leading_eq x
  obtain ⟨hlb, hrb⟩ := hsb.leading_eq y
  rw [h] at hla hra
  have hleading : a.leading = b.leading := hla.symm.trans hlb
  have hrest : a.body ++ x = b.body ++ y := hra.symm.trans hrb
  have hbody := ha.eq_of_append_eq hb hw hsa.body_ne_nil hsb.body_ne_nil hrest
  rw [hbody] at hrest
  constructor
  · cases a
    cases b
    exact congrArg₂ Record.mk hleading hbody
  · exact List.append_cancel_left hrest

/-- Two ways to write the same lines as records are the same, if the records of the one way are
`whole`, and those of the other way close their braces earlier only where they are not. -/
theorem eq_of_flatMap_lines_eq {as bs : List Record} {t u : List Line}
    (h : as.flatMap Record.lines ++ t = bs.flatMap Record.lines ++ u)
    (ht : ∀ line ∈ t, isRecordHead line = false) (hu : ∀ line ∈ u, isRecordHead line = false)
    (has : ∀ a ∈ as, a.Starts ∧ BalancedWhere whole a.body)
    (hbs : ∀ b ∈ bs, b.Starts ∧ Balanced b.body ∧ whole b.body) : as = bs ∧ t = u := by
  induction as generalizing bs with
  | nil =>
    cases bs with
    | nil => exact ⟨rfl, h⟩
    | cons b bs =>
      obtain ⟨hsb, -⟩ := hbs b (by simp)
      rw [List.flatMap_cons, List.append_assoc] at h
      exact absurd h.symm (hsb.lines_append_ne ht _)
  | cons a as ih =>
    obtain ⟨hsa, ha⟩ := has a (by simp)
    cases bs with
    | nil =>
      rw [List.flatMap_cons, List.append_assoc] at h
      exact absurd h (hsa.lines_append_ne hu _)
    | cons b bs =>
      obtain ⟨hsb, hb, hw⟩ := hbs b (by simp)
      simp only [List.flatMap_cons, List.append_assoc] at h
      obtain ⟨rfl, hrest⟩ := Record.eq_of_append_eq hsa hsb ha hb hw h
      obtain ⟨rfl, rfl⟩ := ih hrest (fun r hr => has r (by simp [hr]))
        (fun r hr => hbs r (by simp [hr]))
      exact ⟨rfl, rfl⟩

end Uniqueness

end ProjectOrder.Document
