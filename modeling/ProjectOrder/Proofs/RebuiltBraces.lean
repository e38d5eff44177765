import ProjectOrder.Proofs.SortedLines

/-! Where braces close once the regions among their lines have another inside. -/
namespace ProjectOrder.Document
open ProjectOrder.Name

/-- The arrays of the record have the braces that they had, once they are sorted. -/
def Record.KeepsBraces (rules : Rules) (r : Record) : Prop :=
  ∀ s ∈ segments arrayOpening? r.body,
    braces (s.mapBody (sortedEntries rules)).lines = braces s.lines

section Braces
variable {rules : Rules}

theorem braces_rebuild {f : Opening → List Line → List Line} {opening? : Line → Option Opening}
    {lines : List Line}
    (h : ∀ s ∈ segments opening? lines, braces (s.mapBody f).lines = braces s.lines) :
    braces (rebuild opening? f lines) = braces lines := by
  have flat : ∀ segs : List Segment, (∀ s ∈ segs, braces (s.mapBody f).lines = braces s.lines) →
      braces ((segs.map (Segment.mapBody f)).flatMap Segment.lines) =
        braces (segs.flatMap Segment.lines) := by
    intro segs h
    induction segs with
    | nil => rfl
    | cons s segs ih =>
      have hs := h s (by simp)
      have ih := ih fun t ht => h t (by simp [ht])
      simp [hs, ih]
  rw [rebuild, flat _ h, flatMap_lines_segments]

/-- A record that keeps its braces may close them earlier once its arrays are sorted, but only in
the middle of an array. -/
theorem Record.KeepsBraces.balancedWhere {r : Record} (h : r.KeepsBraces rules)
    (hc : Closes arrayOpening? r.body) (hb : Balanced r.body) :
    BalancedWhere (Closes arrayOpening?) (r.sorted rules).body := by
  refine ⟨(braces_rebuild h).trans_le hb.nonpos, fun start rest he hs hr hcs => ?_⟩
  obtain ⟨a, b, hab, hsub, rfl, rfl⟩ := rebuild_eq_append (sortedEntries_subset rules) hc hcs he
  have ha : a ≠ [] := by
    intro hnil
    exact hs (by simp [hnil, rebuild])
  have hb' : b ≠ [] := by
    intro hnil
    exact hr (by simp [hnil, rebuild])
  rw [braces_rebuild fun s hs => h s (hsub hs)]
  exact hb.pos a b hab ha hb'

theorem Record.Starts.sorted {r : Record} (h : r.Starts) : (r.sorted rules).Starts := by
  obtain ⟨hl, head, inner, hb, hh⟩ := h
  have hhead : (r.sorted rules).body.head? = some head := by
    rw [Record.sorted, head?_rebuild, hb]
    rfl
  obtain ⟨inner', hb'⟩ := List.head?_eq_some_iff.mp hhead
  exact ⟨hl, head, inner', hb', hh⟩

end Braces

/-- The braces that are open after some of the lines are open after some of the other lines, too. -/
structure Follows (before after : List Line) : Prop where
  braces_eq : braces after = braces before
  cut : ∀ start rest, start ++ rest = after → ∃ a b, a ++ b = before ∧ braces a = braces start ∧
    (start ≠ [] → a ≠ []) ∧ (rest ≠ [] → b ≠ [])

namespace Follows
variable {a b c d : List Line}

theorem refl (a : List Line) : Follows a a :=
  ⟨rfl, fun start rest h => ⟨start, rest, h, rfl, id, id⟩⟩

theorem append (hab : Follows a b) (hcd : Follows c d) : Follows (a ++ c) (b ++ d) := by
  have hne : b ≠ [] → a ≠ [] := by
    obtain ⟨x, y, rfl, -, hx, -⟩ := hab.cut b [] (by simp)
    exact fun hb => List.append_ne_nil_of_left_ne_nil (hx hb) y
  have hne' : d ≠ [] → c ≠ [] := by
    obtain ⟨x, y, rfl, -, -, hy⟩ := hcd.cut [] d rfl
    exact fun hd => List.append_ne_nil_of_right_ne_nil x (hy hd)
  refine ⟨by simp [hab.braces_eq, hcd.braces_eq], fun start rest h => ?_⟩
  rcases List.append_eq_append_iff.mp h with ⟨more, rfl, rfl⟩ | ⟨more, rfl, rfl⟩
  · obtain ⟨x, y, rfl, hbr, hx, hy⟩ := hab.cut start more rfl
    refine ⟨x, y ++ c, by simp, hbr, hx, fun hr => ?_⟩
    rcases not_and_or.mp (mt List.append_eq_nil_iff.mpr hr) with hm | hd
    · exact List.append_ne_nil_of_left_ne_nil (hy hm) c
    · exact List.append_ne_nil_of_right_ne_nil y (hne' hd)
  · obtain ⟨x, y, rfl, hbr, hx, hy⟩ := hcd.cut more rest rfl
    refine ⟨a ++ x, y, by simp, by simp [hab.braces_eq, hbr], fun hs => ?_, hy⟩
    rcases not_and_or.mp (mt List.append_eq_nil_iff.mpr hs) with hb | hm
    · exact List.append_ne_nil_of_left_ne_nil (hne hb) x
    · exact List.append_ne_nil_of_right_ne_nil a (hx hm)

/-- Lines without braces between two others can be left out and change places. -/
theorem between (head closing : Line) {body inside : List Line}
    (hb : ∀ line ∈ body, braceBalance line = 0) (hi : ∀ line ∈ inside, braceBalance line = 0) :
    Follows (head :: (body ++ [closing])) (head :: (inside ++ [closing])) := by
  have htotal : braces (head :: (inside ++ [closing])) = braces (head :: (body ++ [closing])) := by
    simp [braces_eq_zero hb, braces_eq_zero hi]
  refine ⟨htotal, fun start rest h => ?_⟩
  cases start with
  | nil => exact ⟨[], _, rfl, rfl, id, fun _ => by simp⟩
  | cons first start =>
    rw [List.cons_append] at h
    obtain ⟨rfl, hrest⟩ := List.cons.inj h
    rcases List.eq_nil_or_concat rest with rfl | ⟨init, last, rfl⟩
    · refine ⟨_, [], List.append_nil _, ?_, by simp, id⟩
      rw [← htotal, ← h, List.append_nil]
    · rw [List.concat_eq_append, ← List.append_assoc] at hrest
      obtain ⟨rfl, -⟩ := List.append_inj' hrest rfl
      have hs := braces_eq_zero fun line hl => hi line (List.mem_append_left init hl)
      exact ⟨[first], body ++ [closing], rfl, by simp [hs], by simp, by simp⟩

theorem balanced (h : Follows a b) (ha : Balanced a) : Balanced b := by
  refine ⟨h.braces_eq.trans_le ha.nonpos, fun start rest he hs hr => ?_⟩
  obtain ⟨x, y, hxy, hbr, hx, hy⟩ := h.cut start rest he
  rw [← hbr]
  exact ha.pos x y hxy (hx hs) (hy hr)

end Follows

/-- No line inside the segment opens more braces than it closes, or closes more. -/
def Segment.IsEven : Segment → Prop
  | .region _ _ body _ => ∀ line ∈ body, braceBalance line = 0
  | _ => True

theorem follows_rebuild {opening? : Line → Option Opening} {f : Opening → List Line → List Line}
    (hf : ∀ opening body, f opening body ⊆ body) {lines : List Line}
    (he : ∀ s ∈ segments opening? lines, s.IsEven) : Follows lines (rebuild opening? f lines) := by
  have follows : ∀ segs : List Segment, (∀ s ∈ segs, s.IsEven) →
      Follows (segs.flatMap Segment.lines)
        ((segs.map (Segment.mapBody f)).flatMap Segment.lines) := by
    intro segs he
    induction segs with
    | nil => exact .refl []
    | cons s segs ih =>
      have hs := he s (by simp)
      refine Follows.append ?_ (ih fun t ht => he t (by simp [ht]))
      cases s with
      | region opening head body closing =>
        exact .between head closing hs fun line hl => hs line (hf opening body hl)
      | _ => exact .refl _
  have := follows _ he
  rwa [flatMap_lines_segments] at this

end ProjectOrder.Document
