import Mathlib.Data.List.Basic
import ProjectOrder.Text.Units

/-! Texts in the order of their 16-bit units. -/
namespace ProjectOrder.Text.Utf16

theorem toNat_ofNat_of_lt {n : Nat} (h : n < 0x10000) : (UInt16.ofNat n).toNat = n := by
  rw [UInt16.toNat_ofNat']
  exact Nat.mod_eq_of_lt h

/-- No character is read as part of the next one. -/
theorem next?_encodeChar_append (c : Char) (units : List UInt16) :
    next? (encodeChar c ++ units) = some (c.toNat, units) := by
  have hvalid : c.toNat < 0xD800 ∨ 0xDFFF < c.toNat ∧ c.toNat < 0x110000 := c.valid
  unfold encodeChar
  generalize c.toNat = n at hvalid
  by_cases hn : n < 0x10000
  · have hunit := toNat_ofNat_of_lt hn
    rw [if_pos hn]
    cases units with
    | nil => simp [next?, hunit]
    | cons unit units =>
      have halone : ¬ (0xD800 ≤ UInt16.ofNat n ∧ UInt16.ofNat n ≤ 0xDBFF) := by
        rw [UInt16.le_iff_toNat_le, UInt16.le_iff_toNat_le, hunit]
        simp only [UInt16.reduceToNat]
        omega
      simp only [next?, List.singleton_append]
      rw [if_neg (by simp only [Bool.and_eq_true, decide_eq_true_eq]; tauto), hunit]
  · have hfirst := toNat_ofNat_of_lt (n := 0xD800 + (n - 0x10000) / 0x400) (by omega)
    have hsecond := toNat_ofNat_of_lt (n := 0xDC00 + (n - 0x10000) % 0x400) (by omega)
    rw [if_neg hn]
    simp only [next?, List.cons_append, List.nil_append]
    rw [if_pos, hfirst, hsecond]
    · have hn : 0x10000 + (0xD800 + (n - 0x10000) / 0x400 - 0xD800) * 0x400 +
          (0xDC00 + (n - 0x10000) % 0x400 - 0xDC00) = n := by omega
      rw [hn]
    · simp only [Bool.and_eq_true, decide_eq_true_eq, UInt16.le_iff_toNat_le, hfirst, hsecond,
        UInt16.reduceToNat]
      omega

theorem codePoints_nil : codePoints [] = [] := by
  rw [codePoints.eq_def]
  rfl

theorem codePoints_of_next? {n : Nat} {units rest : List UInt16}
    (h : next? units = some (n, rest)) : codePoints units = n :: codePoints rest := by
  rw [codePoints.eq_def]
  split
  · next hnone => rw [h] at hnone; cases hnone
  · next hsome =>
    rw [h] at hsome
    cases hsome
    rfl

theorem codePoints_encode (s : List Char) : codePoints (encode s) = s.map Char.toNat := by
  induction s with
  | nil => exact codePoints_nil
  | cons c s ih =>
    have hnext := next?_encodeChar_append c (encode s)
    rw [encode, List.flatMap_cons, ← encode, codePoints_of_next? hnext, ih, List.map_cons]

theorem encode_injective : Function.Injective encode := by
  intro s t h
  have hpoints := congrArg codePoints h
  rw [codePoints_encode, codePoints_encode] at hpoints
  exact List.map_injective_iff.mpr (fun _ _ => Char.toNat_inj.mp) hpoints

theorem decode_encode (s : List Char) : decode (encode s) = s := by
  have hchar : ∀ c : Char,
      (if isSurrogate c.toNat then '\uFFFD' else Char.ofNat c.toNat) = c := by
    intro c
    have hvalid : c.toNat < 0xD800 ∨ 0xDFFF < c.toNat ∧ c.toNat < 0x110000 := c.valid
    rw [if_neg, Char.ofNat_toNat]
    rw [isSurrogate, Bool.and_eq_true, decide_eq_true_eq, decide_eq_true_eq]
    omega
  rw [decode, codePoints_encode, List.map_map]
  exact (List.map_congr_left fun c _ => hchar c).trans (List.map_id s)

instance : Std.TransCmp compareUnits :=
  inferInstanceAs (Std.TransOrd (List UInt16))

instance : Std.LawfulEqCmp compareUnits :=
  inferInstanceAs (Std.LawfulEqOrd (List UInt16))

/-- The text `s` comes before the text `t`. -/
def Precedes (s t : String) : Prop :=
  compareUnits (encode s.toList) (encode t.toList) = .lt

instance : Std.Irrefl Precedes where
  irrefl _ h := Std.OrientedCmp.not_lt_of_lt h h

instance : Std.Antisymm Precedes where
  antisymm _ _ hst hts := absurd hts (Std.OrientedCmp.not_lt_of_lt hst)

/-- Texts come in strict order once each of them is there once. -/
theorem pairwise_mergeSort_precedes {texts : List String} (h : texts.Nodup) :
    (texts.mergeSort fun a b =>
      (compareUnits (encode a.toList) (encode b.toList)).isLE).Pairwise Precedes := by
  have htotal : ∀ a b : String, ((compareUnits (encode a.toList) (encode b.toList)).isLE ||
      (compareUnits (encode b.toList) (encode a.toList)).isLE) = true := by
    intro a b
    rw [Bool.or_eq_true, or_iff_not_imp_left]
    exact fun hab => Ordering.isLE_of_eq_lt (Std.OrientedCmp.lt_of_not_isLE hab)
  have hsorted := List.pairwise_mergeSort (fun _ _ _ => Std.TransCmp.isLE_trans) htotal texts
  have hnodup := (List.mergeSort_perm texts fun a b =>
    (compareUnits (encode a.toList) (encode b.toList)).isLE).nodup_iff.mpr h
  refine (hsorted.and hnodup).imp fun {a b} hab => ?_
  obtain ⟨hle, hne⟩ := hab
  rcases Ordering.isLE_iff_eq_lt_or_eq_eq.mp hle with hlt | heq
  · exact hlt
  · have hunits := Std.LawfulEqCmp.eq_of_compare heq
    exact absurd (String.toList_inj.mp (encode_injective hunits)) hne

end ProjectOrder.Text.Utf16

namespace ProjectOrder.Text.Units

theorem shown_ofString (s : String) : (ofString s).shown = s := by
  rw [shown, ofString, Utf16.decode_encode, String.ofList_toList]

theorem text?_ofString (s : String) : (ofString s).text? = some s := by
  rw [text?, shown_ofString, if_pos rfl]

end ProjectOrder.Text.Units
