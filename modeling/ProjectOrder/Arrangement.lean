import ProjectOrder.Distinct
import ProjectOrder.Name.Rank

/-! Items brought into the order of their ranks, each of them once. -/
namespace ProjectOrder
open ProjectOrder.Name

/-- The items by rising rank. Items of one rank keep their order. -/
def sortByRank (rank : α → Rank) (items : List α) : List α :=
  let ranked := items.map fun a => (rank a, a)
  (ranked.mergeSort fun x y => (x.1.compare y.1).isLE).map (·.2)

structure Arrangement (α : Type) where
  entries : List α
  /-- How many items repeated an earlier one. -/
  duplicates : Nat
  /-- Whether the items that are left have changed places. -/
  reordered : Bool
  deriving DecidableEq, Repr

/-- Arranges items that are the same exactly when `content` is, by rising rank. -/
def arrangeBy [DecidableEq β] [Hashable β] (content : α → β) (rank : α → Rank) (items : List α) :
    Arrangement β :=
  let kept := distinctBy (·.1) (items.map fun a => (content a, a))
  let entries := (sortByRank (fun item => rank item.2) kept).map (·.1)
  { entries
    duplicates := items.length - kept.length
    reordered := entries ≠ kept.map (·.1) }

end ProjectOrder
