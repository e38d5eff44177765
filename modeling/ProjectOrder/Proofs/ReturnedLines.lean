import Mathlib.Data.List.Basic
import Mathlib.Data.List.TakeDrop
import ProjectOrder.Document.Opening
import ProjectOrder.Document.RecordName
import ProjectOrder.Proofs.CarriageReturns
import ProjectOrder.Proofs.Segmentation

/-! What is read of a line or a record, apart from carriage returns before its line feeds. -/
namespace ProjectOrder.Document
open ProjectOrder.Text

/-- Whether hexadecimal digits make up the start of this length, and what follows them. -/
theorem take_drop_of_returns {s t : List Char} (h : Returns s t) (n : Nat) :
    ((s.take n).length = n ∧ (s.take n).all isHexDigit ↔
      (t.take n).length = n ∧ (t.take n).all isHexDigit) ∧
    ((s.take n).length = n ∧ (s.take n).all isHexDigit → Returns (s.drop n) (t.drop n)) := by
  have hreturn : isHexDigit '\r' = false := by decide
  have hfeed : isHexDigit '\n' = false := by decide
  induction n generalizing s t with
  | zero => simpa using h
  | succ n ih =>
    cases h with
    | nil => simp
    | last => simp [hreturn]
    | feed h => simp [hreturn, hfeed]
    | char c h =>
      by_cases hc : isHexDigit c
      · simpa [hc] using ih h
      · simp [hc]

/-- The characters of an identifier are the same, and so is what follows them. -/
theorem passes_afterIdentifier? : Passes afterIdentifier? := by
  intro s t h
  obtain ⟨hiff, hdrop⟩ := take_drop_of_returns h.skipBlanks 24
  simp only [afterIdentifier?, isIdentifier, Bool.and_eq_true, beq_iff_eq, hiff]
  split
  · next hs => exact .some (hdrop (hiff.mpr hs))
  · exact .none

theorem passes_afterCommentStart? : Passes afterCommentStart? := by
  intro s t h
  exact rel_bind (passes_afterIdentifier? h) fun a b hab =>
    passes_someBlanks_after? "/*" (by decide) hab

theorem passes_afterCommentEnd? : Passes afterCommentEnd? :=
  fun _ _ h => passes_after? "*/" (by decide) h.skipBlanks

theorem blind_endsEntry : Blind endsEntry := by
  intro s t h
  have hr := rel_bind (passes_afterCommentEnd? h) fun a b hab => passes_after? "," (by decide) hab
  unfold endsEntry
  revert hr
  cases (afterCommentEnd? s).bind (after? ",") <;> cases (afterCommentEnd? t).bind (after? ",") <;>
    intro hr <;> cases hr
  · rfl
  · next h => exact h.all_eq

/-- The line does not end in a blank and the word `in`. -/
def LacksPhase (line : List Char) : Prop :=
  ∀ c, isBlank c = true → ¬ [c, 'i', 'n'] <:+ line

instance (line : Line) : Decidable (LacksPhase line) :=
  -- of the characters only those of the line are looked at
  @decidable_of_iff _ (∀ c ∈ line, isBlank c = true → ¬ [c, 'i', 'n'] <:+ line)
    ⟨fun h c hc hs => h c (hs.subset (by simp)) hc hs, fun h c _ => h c⟩ (List.decidableBAll _ line)

theorem LacksPhase.of_isSuffix {s t : List Char} (h : LacksPhase t) (hs : s <:+ t) : LacksPhase s :=
  fun c hc hin => h c hc (hin.trans hs)

theorem isSuffix_of_afterIdentifier? {s r : List Char} (h : afterIdentifier? s = some r) :
    r <:+ s := by
  unfold afterIdentifier? at h
  simp only [Option.ite_none_right_eq_some, Option.some.injEq] at h
  exact h.2 ▸ (List.drop_suffix 24 _).trans (isSuffix_skipBlanks s)

theorem isSuffix_of_afterCommentStart? {s r : List Char} (h : afterCommentStart? s = some r) :
    r <:+ s := by
  obtain ⟨a, ha, hr⟩ := Option.bind_eq_some_iff.mp h
  obtain ⟨b, hb, hr⟩ := Option.bind_eq_some_iff.mp hr
  obtain ⟨c, -, hs⟩ := exists_isSuffix_of_skipSomeBlanks? hb
  exact (isSuffix_of_after? hr).trans
    (((List.suffix_cons c b).trans hs).trans (isSuffix_of_afterIdentifier? ha))

theorem isSuffix_of_afterCommentEnd? {s r : List Char} (h : afterCommentEnd? s = some r) : r <:+ s :=
  (isSuffix_of_after? h).trans (isSuffix_skipBlanks s)

theorem startsPhase_eq {s t : List Char} (h : Returns s t) (hs : LacksPhase s) :
    startsPhase s = startsPhase t := by
  have hr : Option.Rel Returns ((skipSomeBlanks? s).bind (after? "in"))
      ((skipSomeBlanks? t).bind (after? "in")) := passes_someBlanks_after? "in" (by decide) h
  unfold startsPhase
  generalize hi : (skipSomeBlanks? s).bind (after? "in") = x at hr ⊢
  generalize (skipSomeBlanks? t).bind (after? "in") = y at hr ⊢
  cases hr with
  | none => rfl
  | some hab =>
    cases hab with
    | nil => rfl
    | last =>
      -- the word ends the text, after a blank
      obtain ⟨r, hsome, hafter⟩ := Option.bind_eq_some_iff.mp hi
      obtain ⟨c, hc, hsuffix⟩ := exists_isSuffix_of_skipSomeBlanks? hsome
      rw [← append_of_after? hafter] at hsuffix
      exact absurd hsuffix (hs c hc)
    | feed hab => simp [isBlank_return, isBlank_feed]
    | char c hab => rfl

theorem blindIn_endsFileName {s : List Char} (hs : LacksPhase s) : BlindIn endsFileName s := by
  intro a b ha h
  have hlacks : LacksPhase a := hs.of_isSuffix ha
  have hr := passes_afterCommentEnd? h
  unfold endsFileName
  rw [startsPhase_eq h hlacks]
  generalize hi : afterCommentEnd? a = x at hr ⊢
  generalize afterCommentEnd? b = y at hr ⊢
  cases hr with
  | none => rfl
  | some hcd =>
    have := startsPhase_eq hcd (hlacks.of_isSuffix (isSuffix_of_afterCommentEnd? hi))
    simp [this]

/-- The name of an entry is the same with a carriage return after it, as long as the line does not
end where the word `in` leads to a build phase. -/
theorem entryName_return (key : ArrayKey) {line : Line} (h : LacksPhase line) :
    key.entryName (line ++ ['\r']) = key.entryName line := by
  have hr := passes_afterCommentStart? (returns_append line)
  unfold ArrayKey.entryName
  generalize hi : afterCommentStart? line = x at hr ⊢
  generalize afterCommentStart? (line ++ ['\r']) = y at hr ⊢
  cases hr with
  | none => rfl
  | @some a b hab =>
    have hstop : BlindIn (if key.holdsFiles then endsFileName else endsEntry) a := by
      split
      · exact blindIn_endsFileName (h.of_isSuffix (isSuffix_of_afterCommentStart? hi))
      · exact blind_endsEntry.blindIn a
    simp only [Option.bind_some, nameUpTo_eq hab hstop]

theorem entryRank_return (key : ArrayKey) (rules : Name.Rules) {line : Line} (h : LacksPhase line) :
    key.entryRank rules (line ++ ['\r']) = key.entryRank rules line := by
  simp only [ArrayKey.entryRank, entryName_return key h]

theorem blind_endsHeadComment : Blind endsHeadComment := by
  intro s t h
  have hr := passes_after? "*/" (by decide) h
  unfold endsHeadComment
  generalize after? "*/" s = x at hr ⊢
  generalize after? "*/" t = y at hr ⊢
  cases hr with
  | none => rfl
  | some h => exact h.leadsTo_eq (by decide)

theorem isRecordHead_return (line : Line) :
    isRecordHead (line ++ ['\r']) = isRecordHead line := by
  have hr := passes_afterIdentifier? (returns_append line)
  have hc := passes_afterCommentStart? (returns_append line)
  have hcomment : (afterCommentStart? (line ++ ['\r'])).bind (upTo endsHeadComment) =
      (afterCommentStart? line).bind (upTo endsHeadComment) := by
    refine (eq_of_rel_eq (rel_bind hc fun a b hab => ?_)).symm
    exact rel_eq_of_eq (upTo_eq hab (blind_endsHeadComment.blindIn a))
  unfold isRecordHead
  rw [hcomment]
  generalize afterIdentifier? line = x at hr ⊢
  generalize afterIdentifier? (line ++ ['\r']) = y at hr ⊢
  cases hr with
  | none => rfl
  | some hab => simp only [hab.leadsTo_eq (c := '=') (by decide)]

theorem braceBalance_return (line : Line) : braceBalance (line ++ ['\r']) = braceBalance line := by
  simp [braceBalance]

theorem isWord_text (key : ArrayKey) : IsWord key.text.toList := by
  cases key <;> decide

theorem rel_keyAtStart? {s t : List Char} (h : Returns s t) :
    Option.Rel (fun a b => a.1 = b.1 ∧ Returns a.2 b.2) (keyAtStart? s) (keyAtStart? t) := by
  refine rel_findSome? fun key _ => ?_
  have hr := passes_after? key.text (isWord_text key).2 h
  generalize after? key.text s = x at hr ⊢
  generalize after? key.text t = y at hr ⊢
  cases hr with
  | none => exact .none
  | some hab => exact .some ⟨rfl, hab⟩

theorem keyAtStart?_nil : keyAtStart? [] = none := by
  decide

theorem takeWhile_isBlank_return {line : Line} (h : skipBlanks line ≠ []) :
    (line ++ ['\r']).takeWhile isBlank = line.takeWhile isBlank := by
  rw [List.takeWhile_append, if_neg]
  intro hlength
  have hall : line.takeWhile isBlank = line :=
    (List.takeWhile_prefix isBlank).eq_of_length hlength
  exact h (List.dropWhile_eq_nil_iff.mpr fun c hc => List.mem_takeWhile_imp (hall ▸ hc))

theorem arrayOpening?_return (line : Line) :
    arrayOpening? (line ++ ['\r']) = arrayOpening? line := by
  by_cases hblank : skipBlanks line = []
  · have hreturn : skipBlanks (line ++ ['\r']) = [] :=
      (returns_append line).skipBlanks_eq_nil_iff.mp hblank
    simp only [arrayOpening?, hblank, hreturn, keyAtStart?_nil, Option.bind_eq_bind,
      Option.bind_none]
  · unfold arrayOpening?
    rw [takeWhile_isBlank_return hblank]
    refine (eq_of_rel_eq (rel_bind (rel_keyAtStart? (returns_append line).skipBlanks) ?_)).symm
    rintro ⟨key, a⟩ ⟨_, b⟩ ⟨rfl, hab⟩
    refine rel_bind (passes_after? "=" (by decide) hab.skipBlanks) fun c d hcd => ?_
    refine rel_bind (passes_after? "(" (by decide) hcd.skipBlanks) fun c d hcd => ?_
    rw [hcd.all_eq]
    exact rel_eq_of_eq rfl

theorem blind_sectionKind? : Blind sectionKind? := by
  intro s t h
  refine eq_of_rel_eq (rel_bind (passes_after? "Begin" (by decide) h) fun a b hab => ?_)
  refine rel_skipSomeBlanks? (fun c d hcd => ?_) rfl hab
  obtain ⟨hword, hrest⟩ := hcd.span (p := (!isBlank ·)) rfl rfl
  rw [List.span_eq_takeWhile_dropWhile, List.span_eq_takeWhile_dropWhile]
  rw [hword]
  refine rel_skipSomeBlanks? (fun e f hef => ?_) rfl hrest
  refine rel_bind (passes_after? "section" (by decide) hef) fun _ _ _ => ?_
  exact .some rfl

theorem opening?_return (line : Line) : opening? (line ++ ['\r']) = opening? line := by
  simp only [opening?, sectionOpening?, arrayOpening?_return,
    firstMatch_eq (returns_append line) blind_sectionKind?]

/-- The kind of a section is a word. -/
theorem isWord_of_sectionKind? {s : List Char} {kind : String} (h : sectionKind? s = some kind) :
    IsWord kind.toList := by
  obtain ⟨a, -, h⟩ := Option.bind_eq_some_iff.mp h
  obtain ⟨b, hb, h⟩ := Option.bind_eq_some_iff.mp h
  rw [List.span_eq_takeWhile_dropWhile] at h
  obtain ⟨c, hc, h⟩ := Option.bind_eq_some_iff.mp h
  obtain ⟨d, -, h⟩ := Option.bind_eq_some_iff.mp h
  obtain rfl := Option.some.inj h
  rw [String.toList_ofList]
  refine ⟨fun hempty => ?_, List.all_takeWhile⟩
  obtain ⟨-, r, -, -, rfl⟩ := exists_of_skipSomeBlanks? hb
  have hhead := List.head?_dropWhile_not isBlank r
  rw [← skipBlanks] at hhead
  cases hr : skipBlanks r with
  | nil => simp [hr, skipSomeBlanks?] at hc
  | cons e rest =>
    have he : isBlank e = false := by simpa [hr] using hhead
    simp [hr, he] at hempty

/-- What is looked for after blanks must not start with one, so that nothing new is found between a
carriage return and its line feed. -/
theorem afterBlanks_eq {test : List Char → Bool} {s t : List Char} (h : Returns s t)
    (ht : Blind test) (hnil : test [] = false) (hfeed : ∀ u, test ('\n' :: u) = false) :
    afterBlanks test s = afterBlanks test t := by
  induction h with
  | nil => rfl
  | last => simp [afterBlanks, hnil]
  | feed h ih => simp [afterBlanks, isBlank_return, isBlank_feed, hfeed, ih, ht h]
  | char c h ih => simp only [afterBlanks, ih, ht h]

theorem blind_endsSectionHere {kind : String} (hkind : IsWord kind.toList) :
    Blind (endsSectionHere kind) := by
  intro s t h
  have hr := passes_after? "End" (by decide) h
  unfold endsSectionHere
  generalize after? "End" s = x at hr ⊢
  generalize after? "End" t = y at hr ⊢
  cases hr with
  | none => rfl
  | some hab =>
    obtain ⟨c, cs, hcs⟩ := List.exists_cons_of_ne_nil hkind.1
    refine afterBlanks_eq hab (fun a b hab => ?_) ?_ fun u => ?_
    · have hr := passes_after? kind hkind.2 hab
      generalize after? kind a = x at hr ⊢
      generalize after? kind b = y at hr ⊢
      cases hr with
      | none => rfl
      | some hab =>
        exact isSome_eq_of_rel (passes_someBlanks_after? "section" (by decide) hab)
    · simp [after?, hcs, List.isPrefixOf?]
    · have hc : (c == '\n') = false := by
        rw [beq_eq_false_iff_ne]
        rintro rfl
        exact absurd (List.all_eq_true.mp hkind.2 '\n' (by simp [hcs])) (by decide)
      simp [after?, hcs, List.isPrefixOf?, hc]

/-- The end of an array starts with its indentation, whatever blanks these are. -/
theorem closesArray_return (indent line : List Char) :
    ((indent ++ [')', ';']).isPrefixOf? (line ++ ['\r'])).any (·.all isBlank) =
      ((indent ++ [')', ';']).isPrefixOf? line).any (·.all isBlank) := by
  induction indent generalizing line with
  | nil =>
    have hr := passes_isPrefixOf? [')', ';'] (by decide) (returns_append line)
    rw [List.nil_append]
    generalize [')', ';'].isPrefixOf? line = x at hr ⊢
    generalize [')', ';'].isPrefixOf? (line ++ ['\r']) = y at hr ⊢
    cases hr with
    | none => rfl
    | some hab => exact hab.all_eq.symm
  | cons c indent ih =>
    cases line with
    | nil =>
      cases hc : c == '\r' <;> cases indent <;> simp [List.isPrefixOf?, hc]
    | cons d line =>
      cases hc : c == d
      · simp [List.isPrefixOf?, hc]
      · simpa [List.isPrefixOf?, hc] using ih line

theorem closedBy_return {line head : Line} {opening : Opening} (h : opening? head = some opening) :
    opening.closedBy (line ++ ['\r']) = opening.closedBy line := by
  cases opening with
  | array key indent => exact closesArray_return indent line
  | «section» kind =>
    have hkind : ∃ s, sectionKind? s = some kind := by
      rcases Option.or_eq_some_iff.mp h with h | ⟨-, h⟩
      · obtain ⟨_, _, h⟩ := exists_array_of_arrayOpening? h
        cases h
      · obtain ⟨k, hk, he⟩ := Option.map_eq_some_iff.mp h
        obtain rfl := Opening.section.inj he
        exact exists_of_firstMatch hk
    obtain ⟨s, hs⟩ := hkind
    have hblind := blind_endsSectionHere (isWord_of_sectionKind? hs)
    exact (anywhere_eq (returns_append line) hblind).symm

theorem blind_endsRecordName : Blind endsRecordName := by
  intro s t h
  have hr := passes_afterCommentEnd? h
  unfold endsRecordName
  generalize afterCommentEnd? s = x at hr ⊢
  generalize afterCommentEnd? t = y at hr ⊢
  cases hr with
  | none => rfl
  | some hab => exact hab.leadsTo_eq (by decide)

theorem blind_headComment? : Blind headComment? := by
  intro s t h
  refine eq_of_rel_eq (rel_bind (passes_afterCommentStart? h) fun a b hab => ?_)
  exact rel_eq_of_eq (nameUpTo_eq hab (blind_endsRecordName.blindIn a))

theorem blind_quotedValue? : Blind quotedValue? := by
  intro s t h
  have hstop : Blind fun u : List Char => u.head? == some '"' := fun _ _ h => h.head?_eq (by decide)
  cases h with
  | nil => rfl
  | last => rfl
  | feed h => rfl
  | char c h =>
    unfold quotedValue?
    split
    · next he =>
      obtain ⟨rfl, rfl⟩ := List.cons.inj he
      exact upTo_eq h (hstop.blindIn _)
    · next hne =>
      split
      · next he =>
        obtain ⟨rfl, rfl⟩ := List.cons.inj he
        exact absurd rfl (hne _)
      · rfl

theorem blind_plainValue? : Blind plainValue? := by
  intro s t h
  obtain ⟨hvalue, hrest⟩ := h.span (p := fun c => c != '"' && c != ';' && !isBlank c) rfl rfl
  simp only [plainValue?, List.span_eq_takeWhile_dropWhile, hvalue,
    hrest.leadsTo_eq (c := ';') (by decide)]

theorem blind_fieldValue? {field : String} (hf : IsWord field.toList) :
    Blind (fieldValue? field) := by
  intro s t h
  refine eq_of_rel_eq (rel_bind (passes_after? field hf.2 h) fun a b hab => ?_)
  have hr := passes_after? "=" (by decide) hab.skipBlanks
  generalize after? "=" (skipBlanks a) = x at hr ⊢
  generalize after? "=" (skipBlanks b) = y at hr ⊢
  cases hr with
  | none => exact .none
  | some hcd =>
    refine rel_eq_of_eq (?_ : (quotedValue? _).or (plainValue? _) =
      (quotedValue? _).or (plainValue? _))
    rw [blind_quotedValue? hcd.skipBlanks, blind_plainValue? hcd.skipBlanks]

theorem findSome?_lineStarts_eq {s t : List Char} (h : Returns s t) :
    (lineStarts s).findSome? headComment? = (lineStarts t).findSome? headComment? := by
  simp only [lineStarts, List.findSome?_cons, blind_headComment? h]
  rw [findSome?_restsAfter_eq h rfl rfl blind_headComment? rfl fun u => .inr rfl]

theorem findSome?_wordStarts_eq (field : String) (hf : IsWord field.toList) {s t : List Char}
    (h : Returns s t) :
    (wordStarts s).findSome? (fieldValue? field) = (wordStarts t).findSome? (fieldValue? field) := by
  obtain ⟨c, cs, hcs⟩ := List.exists_cons_of_ne_nil hf.1
  have hnil : fieldValue? field [] = none := by
    simp [fieldValue?, after?, hcs, List.isPrefixOf?]
  have hfeed : ∀ u, fieldValue? field ('\n' :: u) = none := by
    intro u
    have hc : (c == '\n') = false := by
      rw [beq_eq_false_iff_ne]
      rintro rfl
      exact absurd (List.all_eq_true.mp hf.2 '\n' (by simp [hcs])) (by decide)
    simp [fieldValue?, after?, hcs, List.isPrefixOf?, hc]
  simp only [wordStarts, List.findSome?_cons, blind_fieldValue? hf h]
  rw [findSome?_restsAfter_eq h (by decide) (by decide) (blind_fieldValue? hf) hnil
    fun u => .inl (hfeed u)]

theorem firstContent?_of_ne_nil {s : List Char} (h : skipBlanks s ≠ []) :
    firstContent? s = some (trimEnd ((skipBlanks s).takeWhile (!isLineTerminator ·))) := by
  unfold firstContent?
  split
  · next he => exact absurd he h
  · rfl

/-- The name of a record is the same with carriage returns before its line feeds and at its end, unless
it is blank, which no record is. -/
theorem recordName_eq {s t : List Char} (h : Returns s t) (hs : skipBlanks s ≠ []) :
    recordName s = recordName t := by
  have ht : skipBlanks t ≠ [] := fun ht => hs (h.skipBlanks_eq_nil_iff.mpr ht)
  have hfirst := (h.skipBlanks.span (p := (!isLineTerminator ·)) rfl rfl).1
  simp only [recordName, findSome?_lineStarts_eq h, findSome?_wordStarts_eq "name" (by decide) h,
    findSome?_wordStarts_eq "path" (by decide) h, firstContent?_of_ne_nil hs,
    firstContent?_of_ne_nil ht, hfirst, Option.or_some, Option.getD_some]

end ProjectOrder.Document
