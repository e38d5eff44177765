import ProjectOrder.Proofs.NameRuns
import ProjectOrder.Proofs.RankOrder

/-! Names are in one order by their tokens, and by their ranks once folders come first. -/
namespace ProjectOrder.Name
open Std

instance : LawfulEqCmp Token.compare where
  eq_of_compare {a b} h := by
    cases a with
    | number v m =>
      cases b with
      | number w n =>
        obtain ⟨hvalue, hdigits⟩ := Ordering.then_eq_eq.mp h
        rw [LawfulEqOrd.eq_of_compare hvalue, LawfulEqOrd.eq_of_compare hdigits]
      | text t => cases h
    | text s =>
      cases b with
      | number w n => cases h
      | text t => exact congrArg Token.text (LawfulEqOrd.eq_of_compare h)

instance : LawfulEqCmp compareTokens :=
  inferInstanceAs (LawfulEqCmp (List.compareLex Token.compare))

/-- The natural order of names. -/
def compareNames (ignoreCase : Bool) (a b : List Char) : Ordering :=
  compareTokens (tokens ignoreCase a) (tokens ignoreCase b)

instance (ignoreCase : Bool) : TransCmp (compareNames ignoreCase) where
  eq_swap := (inferInstance : OrientedCmp compareTokens).eq_swap
  isLE_trans := (inferInstance : TransCmp compareTokens).isLE_trans

/-- Only a name itself stands at its place, where case counts. -/
instance : LawfulEqCmp (compareNames false) where
  eq_of_compare h := tokens_injective ((inferInstance : LawfulEqCmp compareTokens).eq_of_compare h)

theorem Rank.compare_folder_file {r s : Rank} (hr : r.folder = true) (hs : s.folder = false) :
    r.compare s = .lt := by
  simp [Rank.compare, hr, hs]

/-- The natural order is total, in both ways to read case: two names compare in opposite ways from
their two sides, and it is transitive. Where case counts, names that compare equal are the same. The
order by rank is total, too, and has every folder in front of every file. -/
theorem natural_order_is_total :
    (∀ ignoreCase a b, compareNames ignoreCase b a = (compareNames ignoreCase a b).swap) ∧
    (∀ ignoreCase a b c, (compareNames ignoreCase a b).isLE → (compareNames ignoreCase b c).isLE →
      (compareNames ignoreCase a c).isLE) ∧
    (∀ a b, compareNames false a b = .eq ↔ a = b) ∧
    (∀ r s : Rank, s.compare r = (r.compare s).swap) ∧
    (∀ r s : Rank, (r.compare s).isLE ∨ (s.compare r).isLE) ∧
    (∀ r s t : Rank, (r.compare s).isLE → (s.compare t).isLE → (r.compare t).isLE) ∧
    ∀ r s : Rank, r.folder = true → s.folder = false → r.compare s = .lt := by
  refine ⟨?_, ?_, ?_, ?_, Rank.le_total, ?_, ?_⟩
  · intro ignoreCase a b
    exact OrientedCmp.eq_swap
  · intro ignoreCase a b c hab hbc
    exact TransCmp.isLE_trans hab hbc
  · intro a b
    exact LawfulEqCmp.compare_eq_iff_eq
  · intro r s
    exact OrientedCmp.eq_swap
  · intro r s t hrs hst
    exact TransCmp.isLE_trans hrs hst
  · intro r s hr hs
    exact Rank.compare_folder_file hr hs

/-- Numbers in names count by their value, and a folder stands in front of both files. -/
theorem natural_order_is_total_of_numbered_names :
    (compareNames true "File2".toList "file10".toList).isLE ∧
      (compareNames true "file10".toList "FILE10a".toList).isLE ∧
      (compareNames true "File2".toList "FILE10a".toList).isLE ∧
      (Rank.compare ⟨false, tokens true "File2".toList⟩ ⟨false, tokens true "FILE10a".toList⟩).isLE ∧
      Rank.compare ⟨true, tokens true "Zeta".toList⟩ ⟨false, tokens true "File2".toList⟩ = .lt := by
  obtain ⟨-, htrans, -, -, -, hranks, hfolder⟩ := natural_order_is_total
  have hab : (compareNames true "File2".toList "file10".toList).isLE := by decide +kernel
  have hbc : (compareNames true "file10".toList "FILE10a".toList).isLE := by decide +kernel
  refine ⟨hab, hbc, htrans true _ _ _ hab hbc, ?_, hfolder _ _ rfl rfl⟩
  exact hranks _ ⟨false, tokens true "file10".toList⟩ _ hab hbc

end ProjectOrder.Name
