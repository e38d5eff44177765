/-! Text as units of 16 bits, and the two orders of such text: by unit and by character. -/
namespace ProjectOrder.Text.Utf16

/-- Characters past U+FFFF take two units, a leading and a trailing surrogate. -/
def encodeChar (c : Char) : List UInt16 :=
  let n := c.toNat
  if n < 0x10000 then [UInt16.ofNat n]
  else [UInt16.ofNat (0xD800 + (n - 0x10000) / 0x400), UInt16.ofNat (0xDC00 + (n - 0x10000) % 0x400)]

def encode (s : List Char) : List UInt16 :=
  s.flatMap encodeChar

/-- The first code point, two units wide where a surrogate pair stands, and the units after it. -/
def next? : List UInt16 → Option (Nat × List UInt16)
  | [] => none
  | u :: r =>
    match r with
    | [] => some (u.toNat, [])
    | v :: s =>
      if 0xD800 ≤ u && u ≤ 0xDBFF && 0xDC00 ≤ v && v ≤ 0xDFFF then
        some (0x10000 + (u.toNat - 0xD800) * 0x400 + (v.toNat - 0xDC00), s)
      else some (u.toNat, r)

theorem length_lt_of_next?_eq_some {s r : List UInt16} {n : Nat} (h : next? s = some (n, r)) :
    r.length < s.length := by
  unfold next? at h
  grind

/-- The code points that the units write. A surrogate that has no partner is one of its own. -/
def codePoints (units : List UInt16) : List Nat :=
  match _ : next? units with
  | none => []
  | some (n, r) => n :: codePoints r
termination_by units.length
decreasing_by exact length_lt_of_next?_eq_some (by assumption)

def isSurrogate (n : Nat) : Bool :=
  0xD800 ≤ n && n ≤ 0xDFFF

/-- The text that the units write, with U+FFFD for a surrogate that has no partner. -/
def decode (units : List UInt16) : List Char :=
  (codePoints units).map fun n => if isSurrogate n then '\uFFFD' else Char.ofNat n

def codePointAt? (units : List UInt16) (i : Nat) : Option Nat :=
  (next? (units.drop i)).map (·.1)

theorem lt_length_of_codePointAt? {units : List UInt16} {i n : Nat}
    (h : codePointAt? units i = some n) : i < units.length := by
  obtain ⟨⟨m, r⟩, hnext, rfl⟩ := Option.map_eq_some_iff.mp h
  have := length_lt_of_next?_eq_some hnext
  grind

def width (n : Nat) : Nat :=
  if 0xFFFF < n then 2 else 1

/-- Order by the first code point that differs from place `i` on. Where a text ends before that, the
one with fewer units comes first. -/
def compareScalarsFrom (i : Nat) (s t : List UInt16) : Ordering :=
  match _ : codePointAt? s i, codePointAt? t i with
  | some m, some n => if m = n then compareScalarsFrom (i + width m) s t else compare m n
  | _, _ => compare s.length t.length
termination_by s.length - i
decreasing_by
  have := lt_length_of_codePointAt? (by assumption)
  unfold width
  grind

/-- Order by the first code point that differs; a text comes before what extends it. -/
def compareScalars (s t : List UInt16) : Ordering :=
  compareScalarsFrom 0 s t

def compareUnits (s t : List UInt16) : Ordering :=
  compare s t

end ProjectOrder.Text.Utf16
