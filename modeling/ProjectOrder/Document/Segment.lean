import ProjectOrder.Document.Opening

/-! A document cut into lines outside every region and whole regions. -/
namespace ProjectOrder.Document

inductive Segment where
  | plain (line : Line)
  | region (opening : Opening) (head : Line) (body : List Line) (closing : Line)
  /-- A region that nothing closes before the document ends. -/
  | unclosed (opening : Opening) (head : Line) (body : List Line)
  deriving DecidableEq, Repr

def Segment.lines : Segment → List Line
  | .plain line => [line]
  | .region _ head body closing => head :: (body ++ [closing])
  | .unclosed _ head body => head :: body

/-- Cuts lines at the regions that `opening?` recognizes. Inside a region only its end counts. -/
def segments (opening? : Line → Option Opening) (lines : List Line) : List Segment :=
  match lines with
  | [] => []
  | line :: rest =>
    match opening? line with
    | none => .plain line :: segments opening? rest
    | some opening =>
      let body := rest.takeWhile (!opening.closedBy ·)
      match _ : rest.dropWhile (!opening.closedBy ·) with
      | [] => [.unclosed opening line rest]
      | closing :: after => .region opening line body closing :: segments opening? after
termination_by lines.length
decreasing_by
  · simp
  · have := (List.dropWhile_sublist (!opening.closedBy ·) (l := rest)).length_le
    simp_all
    omega

theorem flatMap_lines_segments (opening? : Line → Option Opening) (lines : List Line) :
    (segments opening? lines).flatMap Segment.lines = lines := by
  fun_induction segments opening? lines with
  | case1 => rfl
  | case2 _ _ _ ih => simp [Segment.lines, ih]
  | case3 => simp [Segment.lines]
  | case4 line rest opening _ body closing after h ih =>
    have := List.takeWhile_append_dropWhile (p := (!opening.closedBy ·)) (l := rest)
    simp_all [Segment.lines, body]

end ProjectOrder.Document
