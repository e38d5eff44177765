import ProjectOrder.Text.Utf16

/-! Texts in units of 16 bits, which can hold one half of a surrogate pair without the other. -/
namespace ProjectOrder.Text

structure Units where
  list : List UInt16
  deriving DecidableEq, Hashable, Repr, Inhabited

namespace Units

def ofString (s : String) : Units :=
  ⟨Utf16.encode s.toList⟩

instance : Coe String Units :=
  ⟨ofString⟩

instance : Append Units :=
  ⟨fun a b => ⟨a.list ++ b.list⟩⟩

/-- The text as it can be shown, with U+FFFD for a half that stands alone. -/
def shown (units : Units) : String :=
  String.ofList (Utf16.decode units.list)

def text? (units : Units) : Option String :=
  if ofString units.shown = units then some units.shown else none

theorem ofString_eq_of_text?_eq_some {units : Units} {s : String} (h : units.text? = some s) :
    ofString s = units := by
  unfold text? at h
  grind

def join (separator : Units) : List Units → Units
  | [] => ""
  | [item] => item
  | item :: next :: rest => item ++ separator ++ join separator (next :: rest)

end Units
end ProjectOrder.Text
