import ProjectOrder.Proofs.NormalPaths

/-! Paths that names are joined onto, and where they lead. -/
namespace ProjectOrder.Disk.Path
open ProjectOrder.Disk.Snapshot

/-- The path of what is down a way from a directory, as one name after the other is joined onto it. -/
def below (directory : String) (way : List String) : String :=
  way.foldl child directory

section Resolved
variable {absolute : Bool} {comps names : List String}

theorem resolved_append_names (absolute : Bool) (comps : List String)
    (h : ∀ name ∈ names, name ≠ "." ∧ name ≠ "..") :
    resolved absolute (comps ++ names) = resolved absolute comps ++ names := by
  induction names using List.reverseRecOn with
  | nil => simp
  | append_singleton names last ih =>
    obtain ⟨hdot, hup⟩ := h last (by simp)
    rw [← List.append_assoc, resolved_append_name hdot hup,
      ih fun name hm => h name (List.mem_append_left _ hm), List.append_assoc]

theorem resolved_append_congr {other : List String}
    (h : resolved absolute other = resolved absolute comps) (rest : List String) :
    resolved absolute (other ++ rest) = resolved absolute (comps ++ rest) := by
  have htaken := List.reverse_injective h
  rw [resolved, resolved, List.foldl_append, List.foldl_append, htaken]

theorem resolved_resolved (absolute : Bool) (comps : List String) :
    resolved absolute (resolved absolute comps) = resolved absolute comps := by
  induction comps using List.reverseRecOn with
  | nil => rfl
  | append_singleton comps last ih =>
    by_cases hdot : last = "."
    · subst hdot
      rw [resolved_append_stay, ih]
    by_cases hup : last = ".."
    · subst hup
      rcases @resolved_append_up absolute comps with
        ⟨init, name, he, hname, hr⟩ | ⟨-, -, hr⟩ | hr
      · have hdot : name ≠ "." := by
          have hm : name ∈ resolved absolute comps := by simp [he]
          exact (mem_resolved hm).1
        rw [he, resolved_append_name hdot hname] at ih
        rw [hr, List.append_cancel_right ih]
      · rw [hr]
        rfl
      · rw [hr, resolved_append_congr ih, hr]
    · rw [resolved_append_name hdot hup, resolved_append_name hdot hup, ih]

/-- Whether a step leads on, and does not stay in place. -/
def isMove (component : String) : Bool :=
  component != "" && component != "."

theorem resolved_eq_filter (hup : ".." ∉ comps) (hempty : "" ∉ comps) :
    resolved absolute comps = comps.filter isMove := by
  induction comps using List.reverseRecOn with
  | nil => rfl
  | append_singleton comps last ih =>
    rw [List.mem_append, List.mem_singleton, not_or] at hup hempty
    rw [List.filter_append, ← ih hup.1 hempty.1]
    by_cases hdot : last = "."
    · simp [hdot, resolved_append_stay, isMove]
    · have hmove : isMove last = true := by simp [isMove, hdot, Ne.symm hempty.2]
      rw [resolved_append_name hdot (Ne.symm hup.2), List.filter_cons_of_pos hmove, List.filter_nil]

theorem normal_congr {other : List String}
    (h : resolved absolute other = resolved absolute comps) :
    normal absolute other = normal absolute comps := by
  rw [resolved, resolved] at h
  rw [normal, normal, h]

end Resolved

section Joined
variable {directory : String} {way other : List String}

theorem below_concat (directory : String) (way : List String) (last : String) :
    below directory (way ++ [last]) = child (below directory way) last := by
  simp [below]

theorem isNormal_append (directory : String) (hne : way ≠ []) (hn : ∀ name ∈ way, IsFileName name) :
    IsNormal (normal (isAbsolute directory) (components directory ++ way)) (isAbsolute directory)
      (resolved (isAbsolute directory) (components directory) ++ way) := by
  have hcomps : ∀ c ∈ components directory ++ way, IsComponent c := by
    rw [List.forall_mem_append]
    exact ⟨fun c hc => isComponent_of_mem_components hc, fun c hc => (hn c hc).toIsComponent⟩
  have hresolved := resolved_append_names (isAbsolute directory) (components directory)
    fun name hm => ⟨(hn name hm).ne_dot, (hn name hm).ne_up⟩
  have hnormal := isNormal_normal hcomps (by rw [hresolved]; simp [hne])
  rwa [hresolved] at hnormal

/-- Joining names one after the other is joining them all at once. -/
theorem below_eq_normal (hne : way ≠ []) (hn : ∀ name ∈ way, IsFileName name) :
    below directory way = normal (isAbsolute directory) (components directory ++ way) := by
  induction way using List.reverseRecOn with
  | nil => exact absurd rfl hne
  | append_singleton way last ih =>
    by_cases hway : way = []
    · rw [hway]
      rfl
    · have hinit : ∀ name ∈ way, IsFileName name := fun name hm => hn name (List.mem_append_left _ hm)
      obtain ⟨hcomps, habs, -, -⟩ := isNormal_append directory hway hinit
      rw [below_concat, ih hway hinit, child, hcomps, habs, List.append_assoc]
      exact normal_congr (resolved_append_congr (resolved_resolved _ _) _)

theorem isNormal_below (directory : String) (hne : way ≠ []) (hn : ∀ name ∈ way, IsFileName name) :
    IsNormal (below directory way) (isAbsolute directory)
      (resolved (isAbsolute directory) (components directory) ++ way) := by
  rw [below_eq_normal hne hn]
  exact isNormal_append directory hne hn

theorem below_inj (hne : way ≠ []) (hn : ∀ name ∈ way, IsFileName name) (hne' : other ≠ [])
    (hn' : ∀ name ∈ other, IsFileName name) (h : below directory way = below directory other) :
    way = other := by
  have hcomps := (isNormal_below directory hne hn).components_eq
  rw [h, (isNormal_below directory hne' hn').components_eq] at hcomps
  exact (List.append_cancel_left hcomps).symm

theorem isPath_below (hd : isPath directory = true) (hne : way ≠ [])
    (hn : ∀ name ∈ way, IsFileName name) : isPath (below directory way) = true := by
  rw [below_eq_normal hne hn]
  apply isPath_normal
  rw [List.forall_mem_append]
  exact ⟨fun c hc => no_nul_of_mem_components hd hc, fun c hc => (hn c hc).no_nul⟩

end Joined
end ProjectOrder.Disk.Path

namespace ProjectOrder.Disk.Snapshot
open ProjectOrder.Disk.Path

variable {disk : Snapshot} {follow : Bool} {links : Nat} {base place goal : Location}
  {path : String}

theorem IsName.isMove_eq {name : String} (h : IsName name) : isMove name = true := by
  simp [isMove, h.ne_empty, h.ne_dot]

/-- Where a link at the end is followed, too, steps that stay in place can be left out. -/
theorem Leads.filter_moves {front back : List String}
    (h : Leads disk true links base (front ++ back) place) :
    Leads disk true links base (front ++ back.filter isMove) place := by
  generalize hp : front ++ back = steps at h
  -- The target of a link goes in front, where all of its steps stay.
  induction h generalizing front back with
  | here =>
    obtain ⟨rfl, rfl⟩ := List.append_eq_nil_iff.mp hp
    exact .here
  | slash hb hl ih =>
    rcases List.append_eq_cons_iff.mp hp with ⟨rfl, rfl⟩ | ⟨init, rfl, rfl⟩
    · rw [List.filter_cons_of_neg (by simp [isMove])]
      exact ih (List.nil_append _)
    · exact .slash hb (ih rfl)
  | stay hb hl ih =>
    rcases List.append_eq_cons_iff.mp hp with ⟨rfl, rfl⟩ | ⟨init, rfl, rfl⟩
    · rw [List.filter_cons_of_neg (by simp [isMove])]
      exact ih (List.nil_append _)
    · exact .stay hb (ih rfl)
  | up hb hl ih =>
    rcases List.append_eq_cons_iff.mp hp with ⟨rfl, rfl⟩ | ⟨init, rfl, rfl⟩
    · rw [List.filter_cons_of_pos (by simp [isMove])]
      exact .up hb (ih (List.nil_append _))
    · exact .up hb (ih rfl)
  | absent hb hn hplace =>
    rcases List.append_eq_cons_iff.mp hp with ⟨rfl, rfl⟩ | ⟨init, rfl, hinit⟩
    · rw [List.filter_cons_of_pos hn.isMove_eq]
      exact .absent hb hn hplace
    · obtain ⟨rfl, rfl⟩ := List.append_eq_nil_iff.mp hinit.symm
      exact .absent hb hn hplace
  | down hb hn hplace hlink hl ih =>
    rcases List.append_eq_cons_iff.mp hp with ⟨rfl, rfl⟩ | ⟨init, rfl, rfl⟩
    · rw [List.filter_cons_of_pos hn.isMove_eq]
      exact .down hb hn hplace hlink (ih (List.nil_append _))
    · exact .down hb hn hplace hlink (ih rfl)
  | link hb hn hplace hfollow => cases hfollow
  | @through links base place name target rest hb hn hplace hon hl ih =>
    rcases List.append_eq_cons_iff.mp hp with ⟨rfl, rfl⟩ | ⟨init, rfl, rfl⟩
    · rw [List.filter_cons_of_pos hn.isMove_eq]
      exact .through hb hn hplace (.inr rfl) (ih rfl)
    · have hrest := ih (List.append_assoc _ init back)
      rw [List.append_assoc] at hrest
      exact .through hb hn hplace (.inr rfl) hrest

/-- Whatever leads on from a directory leads on from where the steps start. -/
theorem Leads.exists_onward {steps : List String} (h : Leads disk true links base steps place)
    (hplace : disk.isDirectory place = true) :
    ∃ left, ∀ follow rest goal, rest ≠ [] → Leads disk follow left place rest goal →
      Leads disk follow links base (steps ++ rest) goal := by
  induction h with
  | @here links base => exact ⟨links, fun _ _ _ _ h => h⟩
  | slash hb hl ih =>
    obtain ⟨left, honward⟩ := ih hplace
    exact ⟨left, fun _ _ _ hne h => .slash hb (honward _ _ _ hne h)⟩
  | stay hb hl ih =>
    obtain ⟨left, honward⟩ := ih hplace
    exact ⟨left, fun _ _ _ hne h => .stay hb (honward _ _ _ hne h)⟩
  | up hb hl ih =>
    obtain ⟨left, honward⟩ := ih hplace
    exact ⟨left, fun _ _ _ hne h => .up hb (honward _ _ _ hne h)⟩
  | absent hb hn hnone =>
    obtain ⟨mode, hitem⟩ := isDirectory_iff.mp hplace
    rw [hitem] at hnone
    cases hnone
  | down hb hn hitem hlink hl ih =>
    obtain ⟨left, honward⟩ := ih hplace
    exact ⟨left, fun _ _ _ hne h => .down hb hn hitem hlink (honward _ _ _ hne h)⟩
  | link hb hn hitem hfollow => cases hfollow
  | @through links base place name target steps hb hn hitem hon hl ih =>
    obtain ⟨left, honward⟩ := ih hplace
    refine ⟨left, fun follow rest goal hne h => ?_⟩
    have hrest := honward follow rest goal hne h
    rw [List.append_assoc] at hrest
    -- As more steps come after it, the link is followed whatever `follow` says.
    exact .through hb hn hitem (.inl (by simp [hne])) hrest

/-- The directories on a way down from a place, that at its end included. Names can be looked up in
all of them. -/
def AreDirectories (disk : Snapshot) (place : Location) (way : List String) : Prop :=
  ∀ init, init <+: way → disk.grants isSearchable (place ++ init) = true

theorem leads_down {way : List String} {last : String} (hd : disk.AreDirectories place way)
    (hn : ∀ name ∈ way ++ [last], IsName name)
    (hlast : follow = false ∨ ∀ target, disk.item? (place ++ (way ++ [last])) ≠ some (.link target)) :
    Leads disk follow links place (way ++ [last]) (place ++ (way ++ [last])) := by
  induction way generalizing place with
  | nil =>
    have hb := hd [] List.nil_prefix
    have hname := hn last (by simp)
    rw [List.append_nil] at hb
    rw [List.nil_append] at hlast ⊢
    cases hitem : disk.item? (place ++ [last]) with
    | none => exact .absent hb hname hitem
    | some item =>
      by_cases hlink : ∃ target, item = .link target
      · obtain ⟨target, rfl⟩ := hlink
        exact .link hb hname hitem (hlast.resolve_right fun h => h target hitem)
      · exact .down hb hname hitem (fun target he => hlink ⟨target, he⟩) .here
  | cons name way ih =>
    have hb := hd [] List.nil_prefix
    obtain ⟨mode, hitem, -⟩ := grants_eq_true_iff.mp (hd [name] (by simp))
    rw [List.append_nil] at hb
    have hway : disk.AreDirectories (place ++ [name]) way := by
      intro init hinit
      rw [List.append_assoc]
      exact hd (name :: init) (List.cons_prefix_cons.mpr ⟨rfl, hinit⟩)
    have hrest := ih hway (fun other ho => hn other (List.mem_cons_of_mem _ ho)) (by simpa using hlast)
    rw [List.append_assoc] at hrest
    exact .down hb (hn name List.mem_cons_self) hitem (by simp) hrest

/-- The path leads to the place without its detours, too. -/
theorem leads_resolved {item : Item} (hget : disk.get path = .ok (place, item))
    (h : ".." ∉ components path ∨ disk.NoLinks) :
    Leads disk true maxLinks (disk.start path) (resolved (isAbsolute path) (components path))
      place := by
  have hfind := get_eq_ok_iff.mp hget
  rcases h with hup | hno
  · obtain ⟨-, -, hw⟩ := find_eq_ok_iff.mp hfind
    have hl : Leads disk true maxLinks (disk.start path) ([] ++ (steps path).filter isMove) place :=
      Leads.filter_moves (walk_eq_ok_iff.mp hw).1
    have hslash : (if endsInSlash path then [""] else []).filter isMove = [] := by
      split <;> rfl
    have hempty : "" ∉ components path := fun hm => (isComponent_of_mem_components hm).ne_empty rfl
    rw [List.nil_append, steps, List.filter_append, hslash, List.append_nil] at hl
    rwa [resolved_eq_filter hup hempty]
  · obtain ⟨-, hv, hf, -⟩ := visits_of_find hno hfind
    have habsolute : isAbsolute path = true → disk.start path = [] := fun ha => by
      rw [start, if_pos ha]
    obtain ⟨hvisits, hfold⟩ := visits_resolved habsolute
      (fun c hc => (isComponent_of_mem_components hc).ne_empty) hv
    rw [hf] at hfold
    have hl : Leads disk true maxLinks (disk.start path)
        (resolved (isAbsolute path) (components path))
        ((resolved (isAbsolute path) (components path)).foldl move (disk.start path)) :=
      hvisits.leads hno
    rwa [hfold] at hl

/-- Names joined onto the path of a directory lead down from that directory, unless steps up in the
path undo steps through links. -/
theorem find_below {mode : Nat} (follow : Bool) (last : String)
    (hget : disk.get path = .ok (place, .directory mode))
    (h : ".." ∉ components path ∨ disk.NoLinks) {way : List String}
    (hd : disk.AreDirectories place way) (hn : ∀ name ∈ way ++ [last], IsFileName name)
    (hlast : follow = false ∨ ∀ target, disk.item? (place ++ (way ++ [last])) ≠ some (.link target)) :
    disk.find follow (below path (way ++ [last])) =
      .ok (place ++ (way ++ [last]), disk.item? (place ++ (way ++ [last]))) := by
  obtain ⟨hp, -, -⟩ := find_eq_ok_iff.mp (get_eq_ok_iff.mp hget)
  have hne : way ++ [last] ≠ [] := by simp
  obtain ⟨hcomps, habs, hslash, hempty⟩ := isNormal_below path hne hn
  have hitem : disk.item? place = some (.directory mode) := item?_of_find (get_eq_ok_iff.mp hget)
  obtain ⟨left, honward⟩ := (leads_resolved hget h).exists_onward (isDirectory_iff.mpr ⟨mode, hitem⟩)
  have hlead := honward follow _ _ hne (leads_down hd (fun name hm => (hn name hm).toIsName) hlast)
  have hsteps : steps (below path (way ++ [last])) =
      resolved (isAbsolute path) (components path) ++ (way ++ [last]) := by
    simp [steps, hslash, hcomps]
  have hstart : disk.start (below path (way ++ [last])) = disk.start path := by
    rw [start, habs, start]
  rw [← hsteps, ← hstart] at hlead
  exact hlead.find (isPath_below hp hne hn) hempty

theorem find_child {mode : Nat} {name : String} (hno : disk.NoLinks)
    (hget : disk.get path = .ok (place, .directory mode)) (hmode : isSearchable mode = true)
    (hn : IsFileName name) :
    disk.find follow (child path name) = .ok (place ++ [name], disk.item? (place ++ [name])) := by
  have hitem : disk.item? place = some (.directory mode) := item?_of_find (get_eq_ok_iff.mp hget)
  have hplace : disk.AreDirectories place [] := by
    intro init hinit
    rw [List.prefix_nil.mp hinit, List.append_nil, grants_eq_true_iff]
    exact ⟨mode, hitem, hmode⟩
  have hfind := find_below follow name hget (.inr hno) hplace
    (by simpa using hn) (.inr fun target => hno _ target)
  rwa [List.nil_append] at hfind

end ProjectOrder.Disk.Snapshot
