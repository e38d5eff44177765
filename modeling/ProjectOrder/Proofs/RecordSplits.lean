import ProjectOrder.Proofs.RegionSpans

/-! What is found when a section is taken apart, in whatever order its records come, and the heads at
which it fails. -/
namespace ProjectOrder.Document

section Numbers
variable {maxLines first number : Int} {records : List Record} {r : Record}

@[simp] theorem map_snd_numberRecords (first : Int) (records : List Record) :
    (numberRecords first records).map (·.2) = records := by
  induction records generalizing first with
  | nil => rfl
  | cons r records ih => rw [numberRecords, List.map_cons, ih]

theorem mem_numberRecords : (number, r) ∈ numberRecords first records ↔
    ∃ above, StartsAt Record.lines first records r above ∧ number = above + r.leading.length := by
  induction records generalizing first with
  | nil => simp [numberRecords, startsAt_nil]
  | cons s records ih =>
    rw [numberRecords, List.mem_cons, ih, Prod.mk.injEq]
    simp only [startsAt_cons, or_and_right, exists_or]
    refine or_congr ⟨?_, ?_⟩ .rfl
    · rintro ⟨rfl, rfl⟩
      exact ⟨first, ⟨rfl, rfl⟩, rfl⟩
    · rintro ⟨above, ⟨rfl, rfl⟩, rfl⟩
      exact ⟨rfl, rfl⟩

end Numbers

section Found
variable {maxLines first : Int} {lines : List Line} {split : RecordSplit}

/-- A section taken apart. Its lines are all there, a record is numbered by its head, and it goes on
for as long as the braces of the head are open. No line outside the records is a head. -/
structure TakesApart (first : Int) (lines : List Line) (split : RecordSplit) : Prop where
  lines_eq : split.records.flatMap Record.lines ++ split.trailing = lines
  leading : ∀ r ∈ split.records, ∀ line ∈ r.leading, isRecordHead line = false
  trailing : ∀ line ∈ split.trailing, isRecordHead line = false
  head : ∀ r ∈ split.records, ∃ head inner, r.body = head :: inner ∧ isRecordHead head = true ∧
    if '\x7b' ∈ head then Balanced r.body else inner = []
  numbered : ∀ number r, (number, r) ∈ numberRecords first split.records →
    LiesAt first lines number r.body
  numbers : (numberRecords first split.records).map (·.2) = split.records

theorem braceBalance_nonpos {line : Line} (h : '\x7b' ∉ line) : braceBalance line ≤ 0 := by
  have hcount : line.count '\x7b' = 0 := List.count_eq_zero.mpr h
  unfold braceBalance
  omega

theorem mem_of_braceBalance_pos {line : Line} (h : 0 < braceBalance line) : '\x7b' ∈ line := by
  by_contra hn
  have := braceBalance_nonpos hn
  omega

/-- A head that opens no brace is a record of its own. -/
theorem Balanced.inner_eq_nil {head : Line} {inner : List Line} (h : Balanced (head :: inner))
    (hh : '\x7b' ∉ head) : inner = [] := by
  by_contra hne
  have hopen := h.pos [head] inner rfl (by simp) hne
  have hclosed := braceBalance_nonpos hh
  simp only [braces_cons, braces_nil] at hopen
  omega

theorem IsRecordSplit.takesApart (h : IsRecordSplit maxLines lines split) (first : Int) :
    TakesApart first lines split where
  lines_eq := h.lines_eq
  leading r hr := (h.isWhole r hr).leading
  trailing := h.trailing
  head r hr := by
    obtain ⟨⟨-, head, inner, hb, hh⟩, hbal, -⟩ := h.isWhole r hr
    refine ⟨head, inner, hb, hh, ?_⟩
    split
    · exact hbal
    · next hbrace => exact (hb ▸ hbal).inner_eq_nil hbrace
  numbered number r hr := by
    obtain ⟨above, hs, rfl⟩ := mem_numberRecords.mp hr
    exact h.liesAt hs
  numbers := map_snd_numberRecords first split.records

theorem IsRecordSplit.mono (h : IsRecordSplit maxLines lines split) {larger : Int}
    (hle : maxLines ≤ larger) : IsRecordSplit larger lines split := by
  refine { h with isWhole := fun r hr => ?_ }
  have hlength := (h.isWhole r hr).length_le
  exact { h.isWhole r hr with length_le := by omega }

end Found

section Failures
variable {maxLines first : Int} {lines : List Line}

/-- The head stands where a record is looked for: the lines before it are whole records and lines
that start none. -/
structure MeetsHead (maxLines : Int) (lines before : List Line) (head : Line) (rest : List Line) :
    Prop where
  lines_eq : lines = before ++ head :: rest
  isHead : isRecordHead head = true
  before_split : ∃ split, IsRecordSplit maxLines before split

/-- However many of the lines make up a record, braces are left open: no more than `maxLines` of them
may, though one always may. -/
def NeverCloses (maxLines : Int) (lines : List Line) : Prop :=
  ∀ n : Nat, 1 ≤ n → (n : Int) ≤ max maxLines 1 → n ≤ lines.length → 0 < braces (lines.take n)

theorem neverCloses_cons_iff {head : Line} {rest : List Line} :
    NeverCloses maxLines (head :: rest) ↔
      takeUntilBalanced (braceBalance head) (maxLines - 1).toNat rest = none := by
  rw [takeUntilBalanced_eq_none_iff]
  constructor
  · intro h taken after he hl
    have hopen := h (taken.length + 1) (by omega) (by omega) (by simp [← he])
    simpa [← he] using hopen
  · intro h n hn hle hlength
    obtain ⟨k, rfl⟩ : ∃ k, n = k + 1 := ⟨n - 1, by omega⟩
    have hopen := h (rest.take k) (rest.drop k) (List.take_append_drop k rest) (by simp; omega)
    simpa using hopen

theorem splitRecords_eq_error_iff {number : Int} :
    splitRecords maxLines first lines = .error number ↔
      ∃ before head rest, MeetsHead maxLines lines before head rest ∧
        NeverCloses maxLines (head :: rest) ∧ number = first + before.length := by
  constructor
  · intro h
    induction lines using records_induction maxLines generalizing first with
    | trailing lines ht =>
      rw [splitRecords_trailing _ _ ht] at h
      cases h
    | staysOpen leading head rest hopen =>
      rw [splitRecords_staysOpen hopen] at h
      cases h
      have hsplit : IsRecordSplit maxLines leading ⟨[], leading⟩ :=
        ⟨rfl, by simp, hopen.isLeading⟩
      exact ⟨leading, head, rest, ⟨rfl, hopen.isHead, _, hsplit⟩,
        neverCloses_cons_iff.mpr hopen.stays, rfl⟩
    | record r after hr ih =>
      rw [splitRecords_record hr] at h
      rcases hs : splitRecords maxLines (first + r.lines.length) after with n | more
      · rw [hs] at h
        cases h
        obtain ⟨before, head, rest, ⟨rfl, hh, split, hsplit⟩, hopen, hn⟩ := ih hs
        refine ⟨r.lines ++ before, head, rest, ⟨by simp, hh, _, hsplit.cons hr⟩, hopen, ?_⟩
        simp only [List.length_append]
        omega
      · rw [hs] at h
        cases h
  · rintro ⟨before, head, rest, ⟨rfl, hh, ⟨records, leading⟩, hsplit⟩, hopen, rfl⟩
    obtain ⟨rfl, hw, hl⟩ := hsplit
    have hstays : StaysOpen maxLines leading head rest := ⟨hl, hh, neverCloses_cons_iff.mp hopen⟩
    rw [List.append_assoc, splitRecords_records hw, splitRecords_staysOpen hstays,
      List.length_append, Int.natCast_add, ← Int.add_assoc]
    rfl

end Failures

/-- Taking a section apart loses nothing and does not depend on the order of the records. It fails if
and only if it meets a head whose braces do not close in time, and tells the line of that head; so a
larger limit changes nothing once it has succeeded. -/
theorem splitRecords_takes_apart (maxLines first : Int) (lines : List Line) :
    (∀ split, splitRecords maxLines first lines = .ok split →
      TakesApart first lines split ∧
      (∀ records, records.Perm split.records → ∀ start,
        splitRecords maxLines start (records.flatMap Record.lines ++ split.trailing) =
          .ok { split with records }) ∧
      ∀ larger, maxLines ≤ larger → splitRecords larger first lines = .ok split) ∧
    ∀ kind fault, (splitRecords maxLines first lines).mapError (Fault.unbalanced kind) = .error fault ↔
      ∃ before head rest, MeetsHead maxLines lines before head rest ∧ '\x7b' ∈ head ∧
        NeverCloses maxLines (head :: rest) ∧ fault = .unbalanced kind (first + before.length) := by
  refine ⟨fun split h => ?_, fun kind fault => ⟨fun h => ?_, ?_⟩⟩
  · have hsplit := isRecordSplit_of_splitRecords h
    refine ⟨hsplit.takesApart first, fun records hp start => ?_, fun larger hle => ?_⟩
    · exact splitRecords_of_isRecordSplit (hsplit.of_perm hp) start
    · exact splitRecords_of_isRecordSplit (hsplit.mono hle) first
  · obtain ⟨number, hnumber, rfl⟩ := mapError_eq_error h
    obtain ⟨before, head, rest, hmeets, hopen, rfl⟩ := splitRecords_eq_error_iff.mp hnumber
    have hfirst := hopen 1 (by omega) (by omega) (by simp)
    exact ⟨before, head, rest, hmeets, mem_of_braceBalance_pos (by simpa using hfirst), hopen, rfl⟩
  · rintro ⟨before, head, rest, hmeets, -, hopen, rfl⟩
    rw [splitRecords_eq_error_iff.mpr ⟨before, head, rest, hmeets, hopen, rfl⟩]
    rfl

/-- A record with another head inside it, and one of a single line. -/
def nestedHeads : List Line :=
  ["// first".toList, "000000000000000000000000 /* b */ = \x7b".toList,
    "000000000000000000000001 = 1;".toList, "\x7d;".toList,
    "000000000000000000000002 /* a */ = 1;".toList, "// last".toList]

theorem splitRecords_takes_apart_nested_heads :
    ∃ split, splitRecords 3 10 nestedHeads = .ok split ∧ split.records.length = 2 ∧
      splitRecords 3 10 (split.records.reverse.flatMap Record.lines ++ split.trailing) =
        .ok { split with records := split.records.reverse } ∧
      splitRecords 4 10 nestedHeads = .ok split ∧
      (splitRecords 2 10 nestedHeads).mapError (Fault.unbalanced "K") =
        .error (.unbalanced "K" 11) := by
  obtain ⟨hok, -⟩ := splitRecords_takes_apart 3 10 nestedHeads
  obtain ⟨-, herror⟩ := splitRecords_takes_apart 2 10 nestedHeads
  have hs : splitRecords 3 10 nestedHeads = .ok
      { records := [⟨nestedHeads.take 1, (nestedHeads.drop 1).take 3⟩, ⟨[], (nestedHeads.drop 4).take 1⟩]
        trailing := nestedHeads.drop 5 } := by decide +kernel
  obtain ⟨-, hperm, hlarger⟩ := hok _ hs
  refine ⟨_, hs, rfl, hperm _ (List.reverse_perm _) 10, hlarger 4 (by decide), ?_⟩
  have hsplit : IsRecordSplit 2 (nestedHeads.take 1) ⟨[], nestedHeads.take 1⟩ :=
    ⟨rfl, by simp, by decide +kernel⟩
  have hmeets : MeetsHead 2 nestedHeads (nestedHeads.take 1)
      "000000000000000000000000 /* b */ = \x7b".toList (nestedHeads.drop 2) :=
    ⟨rfl, by decide +kernel, _, hsplit⟩
  refine (herror "K" _).mpr ⟨_, _, _, hmeets, by decide +kernel, fun n hn hle _ => ?_, rfl⟩
  obtain rfl | rfl : n = 1 ∨ n = 2 := by omega
  · decide +kernel
  · decide +kernel

end ProjectOrder.Document
