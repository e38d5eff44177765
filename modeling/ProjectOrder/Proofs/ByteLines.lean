import ProjectOrder.Proofs.ProjectSorts

/-! The lines of a text in bytes, which a file keeps when it is rewritten. -/
namespace ProjectOrder.Text.Utf8

theorem lineFeed_mem_encodeChar_iff {c : Char} : 0x0A ∈ encodeChar c ↔ c = '\n' := by
  have hbounds := toNat_bounds c
  have hbyte : ∀ n : Nat, n < 0x100 → ((0x0A : UInt8) = UInt8.ofNat n ↔ n = 0x0A) := by
    intro n hn
    rw [← UInt8.toNat_inj, UInt8.toNat_ofNat', Nat.mod_eq_of_lt hn]
    exact eq_comm
  rw [← Char.toNat_inj, show '\n'.toNat = 0x0A from rfl, encodeChar]
  split_ifs with h1 h2 h3
  · rw [List.mem_singleton, hbyte _ (by omega)]
  all_goals
    simp only [List.mem_cons, List.not_mem_nil, or_false]
    repeat rw [hbyte _ (by omega)]
    omega

theorem encode_injective : Function.Injective encode := by
  intro s t h
  have hs := decode?_encode s
  rw [h, decode?_encode, Option.some.injEq] at hs
  exact hs.symm

theorem lineFeed_not_mem_encode {line : List Char} (h : '\n' ∉ line) : 0x0A ∉ encode line := by
  rw [encode, List.mem_flatMap]
  rintro ⟨c, hc, hfeed⟩
  exact h (lineFeed_mem_encodeChar_iff.mp hfeed ▸ hc)

theorem encode_append (s t : List Char) : encode (s ++ t) = encode s ++ encode t :=
  List.flatMap_append

theorem encode_unlines (pieces : List (List Char)) :
    encode (unlines pieces) = [0x0A].intercalate (pieces.map encode) := by
  induction pieces with
  | nil => rfl
  | cons p ps ih =>
    cases ps with
    | nil => simp [joinWith, List.intercalate]
    | cons q ps =>
      have hfeed : encode ('\n' :: unlines (q :: ps)) = 0x0A :: encode (unlines (q :: ps)) := rfl
      have hjoin : unlines (p :: q :: ps) = p ++ '\n' :: unlines (q :: ps) := rfl
      rw [hjoin, encode_append, hfeed, ih]
      simp [List.intercalate]

/-- The bytes of a text, parted at the line feeds, are those of its lines. -/
theorem splitOn_encode (text : List Char) :
    (encode text).splitOn 0x0A = (lines text).map encode := by
  have htext : text = unlines (lines text) := (joinWith_splitAt '\n' text).symm
  conv_lhs => rw [htext, encode_unlines]
  refine List.splitOn_intercalate 0x0A ?_ (by simpa using splitAt_ne_nil '\n' text)
  rw [List.forall_mem_map]
  intro line hline
  exact lineFeed_not_mem_encode (not_mem_of_mem_splitAt line hline)

end ProjectOrder.Text.Utf8

namespace ProjectOrder.Bundle
open ProjectOrder.Disk ProjectOrder.Disk.Snapshot ProjectOrder.Document ProjectOrder.Text

theorem decode_cases (bytes : List UInt8) :
    (∃ text, decode bytes = .ok text) ∨ decode bytes = .error .notText := by
  unfold decode
  cases Utf8.decode? bytes <;> simp

section Writing
variable {disk after : Snapshot} {path : String} {target : Location} {old : List UInt8} {mode : Nat}
  {content : List Char}

/-- What replaces a file is put where the path itself leads. -/
theorem exists_put_of_replace (hget : disk.get path = .ok (target, .file old mode))
    (h : outcome (replace path content) disk = (.ok (), after)) :
    ∃ goal replaced, goal ≠ [] ∧ disk.find false path = .ok (goal, some replaced) ∧
      after = disk.put goal (replacement disk mode content) := by
  obtain ⟨value, middle, hrun, hattempt⟩ :=
    @exists_attempt disk (temporaryPath disk.temporaryTag path) _ _ content (outcome_modeFor hget)
  rw [outcome_replace, hrun] at h
  cases value with
  | error failure =>
    simp only at h
    split at h <;> cases h
  | ok value =>
    cases h
    exact hattempt.exists_put hget

/-- A file that is written is read as text, sorted, and put where the path itself leads. -/
theorem exists_put_of_sort {preferences : Preferences} {checkOnly : Bool} {result : FileOutcome}
    (h : outcome (sort path preferences checkOnly) disk = (.ok result, after))
    (hw : result.written = true) :
    ∃ target content mode sorted goal replaced,
      CanSort disk path preferences target content mode sorted ∧ goal ≠ [] ∧
        disk.find false path = .ok (goal, some replaced) ∧
          after = disk.put goal (replacement disk mode sorted.text) := by
  rw [outcome_sort] at h
  cases hs : sortedAt disk path preferences with
  | error fault =>
    rw [hs] at h
    cases h
  | ok sorted =>
    obtain ⟨target, content, mode, hcan⟩ := sortedAt_eq_ok_iff.mp hs
    rw [hs] at h
    simp only at h
    split_ifs at h with hchanged
    · split at h
      · cases h
      · next hreplace =>
        cases h
        obtain ⟨goal, replaced, hgoal, hfind, rfl⟩ := exists_put_of_replace hcan.get_eq hreplace
        exact ⟨target, content, mode, sorted, goal, replaced, hcan, hgoal, hfind, rfl⟩
    · cases h
      exact absurd hw hchanged

end Writing

/-- The new bytes have the lines of the old ones and no others, none of them more often. -/
structure KeepsLines (old new : List UInt8) : Prop where
  mem_iff : ∀ line, line ∈ new.splitOn 0x0A ↔ line ∈ old.splitOn 0x0A
  count_le : ∀ line, (new.splitOn 0x0A).count line ≤ (old.splitOn 0x0A).count line

theorem conserves_of_sortText {options : Options} {text : List Char} {sorted : Outcome}
    (h : sortText options text = .ok sorted) : Conserves (lines text) (lines sorted.text) := by
  rw [lines_of_sortText h]
  exact conserves_rebuild (conserves_sortedInside options) _

theorem keepsLines_encode {text sorted : List Char} (h : Conserves (lines text) (lines sorted)) :
    KeepsLines (Utf8.encode text) (Utf8.encode sorted) := by
  have hperm := h.subperm
  constructor
  · intro line
    rw [Utf8.splitOn_encode, Utf8.splitOn_encode, List.mem_map, List.mem_map]
    simp only [h.mem_iff]
  · intro line
    rw [Utf8.splitOn_encode, Utf8.splitOn_encode]
    exact (h.subperm.map Utf8.encode_injective).count_le line

/-- A sort of a file that wrote it, with the bytes that were there and those that are there now. -/
structure Rewrites (disk after : Snapshot) (path : String) (old new : List UInt8) : Prop where
  read_eq : disk.read path = .ok old
  /-- The new bytes stand where the path itself leads, be it to the file or to a link. -/
  written : ∃ goal replaced mode, disk.find false path = .ok (goal, some replaced) ∧
    after.item? goal = some (.file new mode)

/-- Bytes are read as text exactly if they are the standard UTF-8 of it, so that what is read is
written as it was, and a file that is sorted keeps the bytes of its lines. -/
theorem reading_inverts_writing :
    (∀ bytes text, decode bytes = .ok text ↔ bytes = text.flatMap String.utf8EncodeChar) ∧
      (∀ bytes, decode bytes = .error .notText ↔
        ∀ text : List Char, bytes ≠ text.flatMap String.utf8EncodeChar) ∧
      (∀ bytes text, decode bytes = .ok text → Utf8.encode text = bytes) ∧
      ∀ path preferences checkOnly disk after result,
        outcome (sort path preferences checkOnly) disk = (.ok result, after) →
          result.written = true →
            ∃ old new, Rewrites disk after path old new ∧ KeepsLines old new := by
  have hdecode : ∀ bytes text, decode bytes = .ok text ↔ bytes = Utf8.encode text :=
    fun bytes text => decode_eq_ok_iff.trans Utf8.decode?_eq_some_iff
  have hencode : ∀ text : List Char, text.flatMap String.utf8EncodeChar = Utf8.encode text :=
    fun text => List.flatMap_congr fun c _ => (Utf8.encodeChar_eq c).symm
  simp only [hencode]
  refine ⟨hdecode, fun bytes => ?_, fun bytes text h => ((hdecode bytes text).mp h).symm, ?_⟩
  · simp only [ne_eq, ← hdecode]
    rcases decode_cases bytes with ⟨text, h⟩ | h <;> simp [h]
  · intro path preferences checkOnly disk after result h hw
    obtain ⟨target, old, mode, sorted, goal, replaced, hcan, hgoal, hfind, rfl⟩ :=
      exists_put_of_sort h hw
    obtain ⟨text, options, htext, -, hsort⟩ := hcan.sorted_eq
    obtain rfl := Utf8.decode?_eq_some_iff.mp htext
    refine ⟨_, Utf8.encode sorted.text, ⟨?_, goal, replaced, _, hfind, item?_put_self hgoal⟩,
      keepsLines_encode (conserves_of_sortText hsort)⟩
    exact read_eq_ok_iff.mpr ⟨target, mode, hcan.get_eq, hcan.readable⟩

/-- A surrogate, a character in more bytes than it takes, one past the last, one that is cut off and a
byte that goes on with nothing are no text. -/
example : [[0xED, 0xA0, 0x80], [0xC0, 0xAF], [0xF4, 0x90, 0x80, 0x80], [0xE2, 0x82], [0x80]].map decode =
    List.replicate 5 (.error .notText) := by
  cbv

/-- A byte order mark is read as a character, and the file of the sample disk keeps its lines. -/
theorem reading_inverts_writing_of_swapped_records :
    decode [0xEF, 0xBB, 0xBF, 0x0A] = .ok ['\uFEFF', '\n'] ∧ ∃ result after,
      outcome (sort projectFile sampleOptions.preferences false) sampleDisk = (.ok result, after) ∧
      result.written = true ∧ ∃ old new, Rewrites sampleDisk after projectFile old new ∧
        KeepsLines old new := by
  obtain ⟨hdecode, -, -, hsort⟩ := reading_inverts_writing
  obtain ⟨content, result, -, hwritten, hrun⟩ := @outcome_sort_swappedProject 0o755 (by decide) []
  have hreplace := @outcome_replace_ok sampleDisk _ _ _ _ noLinks_onlyProject
    hasFreshTag_onlyProject get_onlyProject (by decide) replaceable_onlyProject content
  rw [← sampleDisk, hreplace] at hrun
  exact ⟨(hdecode _ _).mpr (by decide), result, _, hrun, hwritten, hsort _ _ _ _ _ _ hrun hwritten⟩

end ProjectOrder.Bundle
