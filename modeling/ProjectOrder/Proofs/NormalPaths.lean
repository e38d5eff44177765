import Mathlib.Data.List.Induction
import ProjectOrder.Proofs.Walk

/-! Paths without detours, which lead where the paths with the detours lead if there are no links. -/
namespace ProjectOrder.Disk.Path
open ProjectOrder.Text

/-- A text that can stand between the slashes of a path. -/
structure IsComponent (text : String) : Prop where
  ne_empty : text ≠ ""
  no_slash : '/' ∉ text.toList

/-- The components that are left without the steps that stay in place or undo one another. -/
def resolved (absolute : Bool) (components : List String) : List String :=
  (components.foldl (step absolute) []).reverse

theorem intercalate_eq_joinWith (sep : Char) (pieces : List (List Char)) :
    List.intercalate [sep] pieces = joinWith sep pieces := by
  induction pieces with
  | nil => rfl
  | cons p ps ih =>
    cases ps with
    | nil => simp [joinWith, List.intercalate]
    | cons q ps =>
      rw [joinWith, ← ih]
      simp [List.intercalate]

theorem toList_normal (absolute : Bool) (components : List String) :
    (normal absolute components).toList = (if absolute then ['/'] else []) ++
      joinWith '/' ((resolved absolute components).map String.toList) := by
  rw [normal, String.toList_append, String.toList_intercalate, resolved]
  rw [show "/".toList = ['/'] from rfl, intercalate_eq_joinWith]
  cases absolute <;> rfl

section Resolved
variable {absolute : Bool} {components : List String} {component : String}

theorem resolved_append (absolute : Bool) (components : List String) (component : String) :
    resolved absolute (components ++ [component]) =
      (step absolute (resolved absolute components).reverse component).reverse := by
  simp [resolved]

theorem resolved_append_name (hdot : component ≠ ".") (hup : component ≠ "..") :
    resolved absolute (components ++ [component]) = resolved absolute components ++ [component] := by
  simp [resolved_append, step, hdot, hup]

theorem resolved_append_stay :
    resolved absolute (components ++ ["."]) = resolved absolute components := by
  simp [resolved_append, step]

/-- A step up undoes the step before it, if there is one to undo. -/
theorem resolved_append_up :
    (∃ init last, resolved absolute components = init ++ [last] ∧ last ≠ ".." ∧
      resolved absolute (components ++ [".."]) = init) ∨
    (absolute = true ∧ resolved absolute components = [] ∧
      resolved absolute (components ++ [".."]) = []) ∨
    resolved absolute (components ++ [".."]) = resolved absolute components ++ [".."] := by
  rw [resolved_append]
  cases hr : (resolved absolute components).reverse with
  | nil =>
    have he : resolved absolute components = [] := by simpa using hr
    cases absolute with
    | false => exact .inr (.inr (by simp [step, he]))
    | true => exact .inr (.inl ⟨rfl, he, by simp [step]⟩)
  | cons last before =>
    have he : resolved absolute components = before.reverse ++ [last] := by
      simpa using congrArg List.reverse hr
    by_cases hup : last = ".."
    · exact .inr (.inr (by simp [step, he, hup]))
    · exact .inl ⟨before.reverse, last, he, hup, by simp [step, hup]⟩

theorem mem_resolved (h : component ∈ resolved absolute components) :
    component ≠ "." ∧ (component = ".." ∨ component ∈ components) := by
  induction components using List.reverseRecOn with
  | nil => simp [resolved] at h
  | append_singleton components last ih =>
    have kept : component ∈ resolved absolute components →
        component ≠ "." ∧ (component = ".." ∨ component ∈ components ++ [last]) := by
      intro hm
      obtain ⟨hdot, hup | hc⟩ := ih hm
      · exact ⟨hdot, .inl hup⟩
      · exact ⟨hdot, .inr (List.mem_append_left _ hc)⟩
    by_cases hdot : last = "."
    · rw [hdot, resolved_append_stay] at h
      exact kept h
    by_cases hup : last = ".."
    · subst hup
      rcases @resolved_append_up absolute components with
        ⟨init, name, he, -, hr⟩ | ⟨-, -, hr⟩ | hr
      · rw [hr] at h
        exact kept (he ▸ List.mem_append_left _ h)
      · simp [hr] at h
      · rw [hr, List.mem_append, List.mem_singleton] at h
        rcases h with h | rfl
        · exact kept h
        · exact ⟨by decide, .inl rfl⟩
    · rw [resolved_append_name hdot hup, List.mem_append, List.mem_singleton] at h
      rcases h with h | rfl
      · exact kept h
      · exact ⟨hdot, .inr (by simp)⟩

end Resolved

section Strings
variable {path : String} {absolute : Bool} {comps : List String}

theorem isComponent_up : IsComponent ".." :=
  ⟨by decide, by decide⟩

theorem isComponent_of_mem_resolved (h : ∀ c ∈ comps, IsComponent c) :
    ∀ c ∈ resolved absolute comps, IsComponent c := by
  intro c hc
  obtain ⟨-, rfl | hm⟩ := mem_resolved hc
  · exact isComponent_up
  · exact h c hm

theorem mem_joinWith {sep c : Char} {pieces : List (List Char)} {piece : List Char}
    (hp : piece ∈ pieces) (hc : c ∈ piece) : c ∈ joinWith sep pieces := by
  induction pieces with
  | nil => cases hp
  | cons p ps ih =>
    cases ps with
    | nil =>
      rw [List.mem_singleton] at hp
      exact hp ▸ hc
    | cons q ps =>
      rw [joinWith, List.mem_append]
      rcases List.mem_cons.mp hp with rfl | hp
      · exact .inl hc
      · exact .inr (List.mem_cons_of_mem _ (ih hp))

theorem not_mem_joinWith {sep c : Char} (hsep : c ≠ sep) {pieces : List (List Char)}
    (h : ∀ piece ∈ pieces, c ∉ piece) : c ∉ joinWith sep pieces := by
  induction pieces with
  | nil => simp [joinWith]
  | cons p ps ih =>
    have hp := h p List.mem_cons_self
    have hps := ih fun piece hm => h piece (List.mem_cons_of_mem _ hm)
    cases ps with
    | nil => exact hp
    | cons q ps =>
      rw [joinWith, List.mem_append, List.mem_cons]
      simp only [hp, hsep, hps, or_self, not_false_eq_true]

theorem head?_joinWith {sep : Char} {piece : List Char} (hp : piece ≠ [])
    (pieces : List (List Char)) : (joinWith sep (piece :: pieces)).head? = piece.head? := by
  cases pieces with
  | nil => rfl
  | cons q ps => rw [joinWith, List.head?_append_of_ne_nil _ hp]

theorem getLast?_joinWith {sep : Char} {piece : List Char} (hp : piece ≠ [])
    (pieces : List (List Char)) :
    (joinWith sep (pieces ++ [piece])).getLast? = piece.getLast? := by
  induction pieces with
  | nil => rfl
  | cons p ps ih =>
    obtain ⟨q, qs, hq⟩ := List.exists_cons_of_ne_nil (show ps ++ [piece] ≠ [] by simp)
    rw [hq] at ih
    obtain ⟨c, hc⟩ : ∃ c, piece.getLast? = some c := by
      rw [← Option.isSome_iff_exists]
      simpa using hp
    rw [List.cons_append, hq, joinWith, List.getLast?_append, List.getLast?_cons, ih, hc]
    rfl

theorem isComponent_of_mem_components {component : String} (h : component ∈ components path) :
    IsComponent component := by
  simp only [components, List.mem_map, List.mem_filter, decide_eq_true_eq] at h
  obtain ⟨piece, ⟨hm, hne⟩, rfl⟩ := h
  constructor
  · intro he
    have htext := congrArg String.toList he
    rw [String.toList_ofList] at htext
    exact hne htext
  · rw [String.toList_ofList]
    exact not_mem_of_mem_splitAt piece hm

theorem no_nul_of_mem_components (hp : isPath path = true) {component : String}
    (h : component ∈ components path) : '\x00' ∉ component.toList := by
  simp only [components, List.mem_map, List.mem_filter, decide_eq_true_eq] at h
  obtain ⟨piece, ⟨hm, -⟩, rfl⟩ := h
  rw [String.toList_ofList]
  intro hnul
  have hmem : '\x00' ∈ joinWith '/' (splitAt '/' path.toList) := mem_joinWith hm hnul
  rw [joinWith_splitAt] at hmem
  simp [isPath, hmem] at hp

theorem pieces_joinWith (h : ∀ c ∈ comps, IsComponent c) :
    ((splitAt '/' (joinWith '/' (comps.map String.toList))).filter (· ≠ [])).map String.ofList =
      comps := by
  have hnonempty : ∀ piece ∈ comps.map String.toList, piece ≠ [] := by
    simp only [List.mem_map, forall_exists_index, and_imp, forall_apply_eq_imp_iff₂]
    intro c hc he
    exact (h c hc).ne_empty (by simpa using he)
  have hback : (comps.map String.toList).map String.ofList = comps := by
    simp [List.map_map, Function.comp_def]
  cases comps with
  | nil => rfl
  | cons c comps =>
    rw [splitAt_joinWith (by simp) (by simpa using fun c hc => (h c hc).no_slash)]
    rw [List.filter_eq_self.mpr (by simpa using hnonempty), hback]

theorem components_normal (h : ∀ c ∈ comps, IsComponent c) :
    components (normal absolute comps) = resolved absolute comps := by
  have hr : ∀ c ∈ resolved absolute comps, IsComponent c := isComponent_of_mem_resolved h
  have hpieces := pieces_joinWith hr
  rw [components, toList_normal]
  cases absolute with
  | false => exact hpieces
  | true =>
    rw [if_pos rfl, List.singleton_append, splitAt, if_pos rfl, List.filter_cons_of_neg (by simp)]
    exact hpieces

/-- What the text of such a path tells of it. -/
structure IsNormal (path : String) (absolute : Bool) (comps : List String) : Prop where
  components_eq : components path = comps
  isAbsolute_eq : isAbsolute path = absolute
  endsInSlash_eq : endsInSlash path = false
  ne_empty : path ≠ ""

theorem isNormal_normal (h : ∀ c ∈ comps, IsComponent c) (hne : resolved absolute comps ≠ []) :
    IsNormal (normal absolute comps) absolute (resolved absolute comps) := by
  have hr : ∀ c ∈ resolved absolute comps, IsComponent c := isComponent_of_mem_resolved h
  have hpieces : ∀ c ∈ resolved absolute comps, c.toList ≠ [] :=
    fun c hc he => (hr c hc).ne_empty (by simpa using he)
  refine ⟨components_normal h, ?_, ?_, ?_⟩
  · rw [isAbsolute, toList_normal]
    obtain ⟨first, more, hfirst⟩ := List.exists_cons_of_ne_nil hne
    have hm : first ∈ resolved absolute comps := hfirst ▸ List.mem_cons_self
    cases absolute with
    | true => rfl
    | false =>
      have hslash : ¬ first.toList.head? = some '/' :=
        fun he => (hr first hm).no_slash (List.mem_of_head? he)
      simp only [Bool.false_eq_true, if_false, List.nil_append]
      rw [hfirst, List.map_cons, head?_joinWith (hpieces first hm)]
      simpa using hslash
  · rw [endsInSlash, toList_normal]
    obtain ⟨init, last, hlast⟩ := List.eq_nil_or_concat _ |>.resolve_left hne
    rw [List.concat_eq_append] at hlast
    have hm : last ∈ resolved absolute comps := by simp [hlast]
    have hslash : ¬ last.toList.getLast? = some '/' :=
      fun he => (hr last hm).no_slash (List.mem_of_getLast? he)
    obtain ⟨c, hc⟩ : ∃ c, last.toList.getLast? = some c := by
      rw [← Option.isSome_iff_exists]
      simpa using (hr last hm).ne_empty
    rw [hlast, List.map_append, List.map_singleton, List.getLast?_append,
      getLast?_joinWith (hpieces last hm), hc]
    rw [hc] at hslash
    simpa using hslash
  · intro he
    have hcomps : components (normal absolute comps) = resolved absolute comps :=
      components_normal h
    rw [he] at hcomps
    exact hne hcomps.symm

theorem isPath_normal (h : ∀ c ∈ comps, '\x00' ∉ c.toList) :
    isPath (normal absolute comps) = true := by
  have hnul : '\x00' ∉ joinWith '/' ((resolved absolute comps).map String.toList) := by
    apply not_mem_joinWith (by decide)
    simp only [List.mem_map, forall_exists_index, and_imp, forall_apply_eq_imp_iff₂]
    intro c hc
    obtain ⟨-, rfl | hm⟩ := mem_resolved hc
    · decide
    · exact h c hm
  rw [isPath, toList_normal]
  cases absolute <;> simp [hnul]

/-- A name is that of its path inside a directory. -/
theorem name_child {component : String} (directory : String) (h : IsComponent component)
    (hdot : component ≠ ".") (hup : component ≠ "..") :
    name (child directory component) = component := by
  have hcomps : ∀ c ∈ components directory ++ [component], IsComponent c := by
    simp only [List.forall_mem_append, List.forall_mem_singleton]
    exact ⟨fun c hc => isComponent_of_mem_components hc, h⟩
  rw [name, child, components_normal hcomps, resolved_append_name hdot hup, List.getLast?_concat]
  rfl

end Strings

end ProjectOrder.Disk.Path

namespace ProjectOrder.Disk.Snapshot
open ProjectOrder.Disk.Path

/-- There is no link on the disk. -/
def NoLinks (disk : Snapshot) : Prop :=
  ∀ place target, disk.item? place ≠ some (.link target)

theorem FilesDiffer.noLinks {disk after : Snapshot} (hd : FilesDiffer disk after)
    (hno : disk.NoLinks) : after.NoLinks := by
  intro place target ha
  cases hi : disk.item? place with
  | none => exact absurd (hd.added place _ hi ha) (by simp [Item.isFile])
  | some item =>
    obtain ⟨other, ho, hlink⟩ := hd.item?_of_ne_link hi fun target he => hno place target (he ▸ hi)
    rw [ha, Option.some.injEq] at ho
    exact hlink target ho.symm

/-- Where one step leads if there are no links. -/
def move (base : Location) (component : String) : Location :=
  if component = "" ∨ component = "." then base
  else if component = ".." then base.dropLast
  else base ++ [component]

@[simp] theorem move_slash (base : Location) : move base "" = base := by
  simp [move]

@[simp] theorem move_stay (base : Location) : move base "." = base := by
  simp [move]

@[simp] theorem move_up (base : Location) : move base ".." = base.dropLast := by
  simp [move]

theorem move_name {name : String} (hempty : name ≠ "") (hdot : name ≠ ".") (hup : name ≠ "..")
    (base : Location) : move base name = base ++ [name] := by
  simp [move, hempty, hdot, hup]

/-- A step may be taken from a place. -/
def Admits (disk : Snapshot) (base : Location) (component : String) : Prop :=
  if component = "" then disk.isDirectory base = true
  else disk.grants isSearchable base = true ∧ component.utf8ByteSize ≤ maxNameBytes

/-- Each of the steps is taken in a directory that admits it. -/
def Visits (disk : Snapshot) : (base : Location) → (path : List String) → Prop
  | _, [] => True
  | base, component :: path =>
    disk.Admits base component ∧ disk.Visits (move base component) path

section Visits
variable {disk : Snapshot} {follow : Bool} {links : Nat} {base place : Location}
  {path : List String}

theorem admits_slash_iff : disk.Admits base "" ↔ disk.isDirectory base = true := by
  simp [Admits]

theorem admits_iff {component : String} (h : component ≠ "") : disk.Admits base component ↔
    disk.grants isSearchable base = true ∧ component.utf8ByteSize ≤ maxNameBytes := by
  simp [Admits, h]

theorem Admits.isDirectory {component : String} (h : disk.Admits base component) :
    disk.isDirectory base = true := by
  by_cases hempty : component = ""
  · exact admits_slash_iff.mp (hempty ▸ h)
  · exact isDirectory_of_grants ((admits_iff hempty).mp h).1

theorem visits_append {front back : List String} :
    disk.Visits base (front ++ back) ↔
      disk.Visits base front ∧ disk.Visits (front.foldl move base) back := by
  induction front generalizing base with
  | nil => simp [Visits]
  | cons c front ih => simp [Visits, ih, and_assoc]

theorem visits_singleton {component : String} :
    disk.Visits base [component] ↔ disk.Admits base component := by
  simp [Visits]

theorem Leads.visits (hno : disk.NoLinks) (h : Leads disk follow links base path place) :
    disk.Visits base path ∧ path.foldl move base = place := by
  induction h with
  | here => exact ⟨trivial, rfl⟩
  | slash hb _ ih =>
    exact ⟨⟨admits_slash_iff.mpr hb, by simpa using ih.1⟩, by simpa using ih.2⟩
  | stay hb _ ih =>
    exact ⟨⟨(admits_iff (by decide)).mpr ⟨hb, by decide⟩, by simpa using ih.1⟩, by simpa using ih.2⟩
  | up hb _ ih =>
    exact ⟨⟨(admits_iff (by decide)).mpr ⟨hb, by decide⟩, by simpa using ih.1⟩, by simpa using ih.2⟩
  | absent hb hn _ =>
    exact ⟨⟨(admits_iff hn.ne_empty).mpr ⟨hb, hn.size_le⟩, trivial⟩,
      move_name hn.ne_empty hn.ne_dot hn.ne_up _⟩
  | down hb hn _ _ _ ih =>
    have hmove := move_name hn.ne_empty hn.ne_dot hn.ne_up
    exact ⟨⟨(admits_iff hn.ne_empty).mpr ⟨hb, hn.size_le⟩, by simpa [hmove] using ih.1⟩,
      by simpa [hmove] using ih.2⟩
  | link _ _ hlink _ => exact absurd hlink (hno _ _)
  | through _ _ hlink _ _ _ => exact absurd hlink (hno _ _)

theorem Visits.leads (hno : disk.NoLinks) (h : disk.Visits base path) :
    Leads disk follow links base path (path.foldl move base) := by
  induction path generalizing base with
  | nil => exact .here
  | cons c path ih =>
    obtain ⟨hadmits, hv⟩ := h
    have hl := ih hv
    by_cases hempty : c = ""
    · subst hempty
      exact .slash (admits_slash_iff.mp hadmits) (by simpa using hl)
    obtain ⟨hb, hsize⟩ := (admits_iff hempty).mp hadmits
    by_cases hdot : c = "."
    · subst hdot
      exact .stay hb (by simpa using hl)
    by_cases hup : c = ".."
    · subst hup
      exact .up hb (by simpa using hl)
    have hn : IsName c := ⟨hempty, hdot, hup, hsize⟩
    rw [List.foldl_cons, move_name hempty hdot hup] at *
    cases hi : disk.item? (base ++ [c]) with
    | none =>
      cases path with
      | nil => exact .absent hb hn hi
      | cons next path =>
        obtain ⟨mode, hd⟩ := isDirectory_iff.mp hv.1.isDirectory
        rw [hi] at hd
        cases hd
    | some item => exact .down hb hn hi (fun target he => hno _ target (he ▸ hi)) hl

/-- The steps that are left without the detours are taken in directories, too, and lead to the same
place. -/
theorem visits_resolved {absolute : Bool} (habs : absolute = true → base = [])
    (hcomps : ∀ c ∈ path, c ≠ "") (h : disk.Visits base path) :
    disk.Visits base (resolved absolute path) ∧
      (resolved absolute path).foldl move base = path.foldl move base := by
  induction path using List.reverseRecOn with
  | nil => exact ⟨trivial, rfl⟩
  | append_singleton path last ih =>
    obtain ⟨hpath, hlast⟩ := visits_append.mp h
    rw [List.forall_mem_append, List.forall_mem_singleton] at hcomps
    obtain ⟨hv, hf⟩ := ih hcomps.1 hpath
    rw [List.foldl_append, List.foldl_cons, List.foldl_nil]
    by_cases hdot : last = "."
    · subst hdot
      rw [resolved_append_stay, move_stay]
      exact ⟨hv, hf⟩
    by_cases hup : last = ".."
    · subst hup
      rw [move_up]
      rcases @resolved_append_up absolute path with
        ⟨init, name, he, hname, hr⟩ | ⟨ha, he, hr⟩ | hr
      · rw [he] at hv hf
        have hm : name ∈ resolved absolute path := by simp [he]
        obtain ⟨hdot, hpart⟩ := mem_resolved hm
        have hempty : name ≠ "" := hcomps.1 name (hpart.resolve_left hname)
        rw [List.foldl_append, List.foldl_cons, List.foldl_nil, move_name hempty hdot hname] at hf
        rw [hr, ← hf]
        exact ⟨(visits_append.mp hv).1, by simp⟩
      · rw [he, List.foldl_nil] at hf
        rw [hr, ← hf, habs ha]
        exact ⟨trivial, rfl⟩
      · rw [hr, List.foldl_append, hf]
        refine ⟨visits_append.mpr ⟨hv, ?_⟩, by simp⟩
        rw [hf]
        exact hlast
    · rw [resolved_append_name hdot hup, List.foldl_append, hf]
      refine ⟨visits_append.mpr ⟨hv, ?_⟩, by simp⟩
      rw [hf]
      exact hlast

end Visits

section Finding
variable {disk : Snapshot} {follow : Bool} {place : Location} {item : Item} {path name : String}

/-- A path is found where its steps lead, and its directories are there. -/
theorem visits_of_find (hno : disk.NoLinks) {found : Location × Option Item}
    (h : disk.find follow path = .ok found) :
    isPath path = true ∧ disk.Visits (disk.start path) (components path) ∧
      (components path).foldl move (disk.start path) = found.1 ∧
        (endsInSlash path = true → disk.isDirectory found.1 = true) := by
  obtain ⟨hp, -, hw⟩ := find_eq_ok_iff.mp h
  obtain ⟨hv, hf⟩ := (walk_eq_ok_iff.mp hw).1.visits hno
  rw [steps] at hv hf
  obtain ⟨hcomps, hslash⟩ := visits_append.mp hv
  refine ⟨hp, hcomps, ?_, ?_⟩
  · rw [← hf]
    split <;> simp
  · intro hs
    rw [if_pos hs] at hslash hf
    have hb := admits_slash_iff.mp (visits_singleton.mp hslash)
    rw [← hf]
    simpa using hb

/-- A path without detours leads where its components lead with the detours. -/
theorem find_normal (hno : disk.NoLinks) {comps : List String}
    (hc : ∀ c ∈ comps, IsComponent c ∧ '\x00' ∉ c.toList)
    (hne : resolved (isAbsolute path) comps ≠ []) (hv : disk.Visits (disk.start path) comps) :
    disk.find follow (normal (isAbsolute path) comps) =
      .ok (comps.foldl move (disk.start path),
        disk.item? (comps.foldl move (disk.start path))) := by
  obtain ⟨hcomps, habs, hslash, hempty⟩ := isNormal_normal (fun c hm => (hc c hm).1) hne
  have hpath : isPath (normal (isAbsolute path) comps) = true :=
    isPath_normal fun c hm => (hc c hm).2
  have habsolute : isAbsolute path = true → disk.start path = [] := by
    intro ha
    rw [start, if_pos ha]
  obtain ⟨hvisits, hfold⟩ := visits_resolved habsolute (fun c hm => (hc c hm).1.ne_empty) hv
  have hsteps : steps (normal (isAbsolute path) comps) = resolved (isAbsolute path) comps := by
    simp [steps, hslash, hcomps]
  have hstart : disk.start (normal (isAbsolute path) comps) = disk.start path := by
    rw [start, habs, start]
  have hlead : Leads disk follow maxLinks (disk.start path) (resolved (isAbsolute path) comps)
      ((resolved (isAbsolute path) comps).foldl move (disk.start path)) := hvisits.leads hno
  rw [← hsteps, ← hstart] at hlead
  rw [hlead.find hpath hempty, hsteps, hstart, hfold]

/-- A text that can be the name of a file. -/
structure IsFileName (name : String) : Prop extends IsName name where
  no_slash : '/' ∉ name.toList
  no_nul : '\x00' ∉ name.toList

theorem IsFileName.toIsComponent (h : IsFileName name) : IsComponent name :=
  ⟨h.ne_empty, h.no_slash⟩

/-- The directory that a file is in is where the steps before the last one lead. -/
theorem exists_parent (hno : disk.NoLinks) (hget : disk.get path = .ok (place, item))
    (hname : IsFileName (Path.name path)) :
    ∃ parent, place = parent ++ [Path.name path] ∧ disk.grants isSearchable parent = true ∧
      disk.Visits (disk.start path) (components path).dropLast ∧
      (components path).dropLast.foldl move (disk.start path) = parent := by
  obtain ⟨-, hv, hf, -⟩ := visits_of_find hno (get_eq_ok_iff.mp hget)
  rw [components_eq_append hname.ne_empty] at hv hf
  obtain ⟨hinit, hlast⟩ := visits_append.mp hv
  obtain ⟨hparent, -⟩ := (admits_iff hname.ne_empty).mp (visits_singleton.mp hlast)
  rw [List.foldl_append, List.foldl_cons, List.foldl_nil,
    move_name hname.ne_empty hname.ne_dot hname.ne_up] at hf
  exact ⟨_, hf.symm, hparent, hinit, rfl⟩

/-- A file is found in a directory, and so is what stands beside it. -/
theorem find_sibling (hno : disk.NoLinks) (hget : disk.get path = .ok (place, item))
    (hname : IsFileName (Path.name path)) (hn : IsFileName name) :
    ∃ parent, place = parent ++ [Path.name path] ∧ disk.grants isSearchable parent = true ∧
      disk.find follow (sibling path name) = .ok (parent ++ [name], disk.item? (parent ++ [name])) := by
  obtain ⟨hp, -⟩ := find_eq_ok_iff.mp (get_eq_ok_iff.mp hget)
  obtain ⟨parent, hplace, hparent, hinit, hf⟩ := exists_parent hno hget hname
  refine ⟨parent, hplace, hparent, ?_⟩
  have hcomps : ∀ c ∈ (components path).dropLast ++ [name],
      IsComponent c ∧ '\x00' ∉ c.toList := by
    simp only [List.forall_mem_append, List.forall_mem_singleton]
    refine ⟨fun c hc => ?_, hn.toIsComponent, hn.no_nul⟩
    have hm := List.dropLast_subset _ hc
    exact ⟨isComponent_of_mem_components hm, no_nul_of_mem_components hp hm⟩
  have hne : resolved (isAbsolute path) ((components path).dropLast ++ [name]) ≠ [] := by
    simp [resolved_append_name hn.ne_dot hn.ne_up]
  have hvisits : disk.Visits (disk.start path) ((components path).dropLast ++ [name]) := by
    rw [visits_append, visits_singleton, admits_iff hn.ne_empty, hf]
    exact ⟨hinit, hparent, hn.size_le⟩
  rw [sibling, find_normal hno hcomps hne hvisits, List.foldl_append, List.foldl_cons,
    List.foldl_nil, hf, move_name hn.ne_empty hn.ne_dot hn.ne_up]

theorem isDirectory_eq_false (hitem : disk.item? place = some item) (hfile : item.isFile = true) :
    disk.isDirectory place = false := by
  rw [← Bool.not_eq_true, isDirectory_iff]
  intro h
  obtain ⟨mode, hdirectory⟩ := h
  rw [hitem, Option.some.injEq] at hdirectory
  simp [hdirectory, Item.isFile] at hfile

/-- A file can get the name of another one beside it if the directory of both may be written to, also
once there are other files. -/
theorem renameTarget_eq_of_get {after : Snapshot} {source : Location} (hno : disk.NoLinks)
    (hget : disk.get path = .ok (place, item)) (hfile : item.isFile = true)
    (hname : IsFileName (Path.name path)) (hd : FilesDiffer disk after) (hne : place ≠ source)
    (hbeside : source.dropLast = place.dropLast) :
    after.renameTarget source path =
      if disk.grants isWritable place.dropLast then .ok place else .error .accessDenied := by
  have hfind := get_eq_ok_iff.mp hget
  have hitem : disk.item? place = some item := item?_of_find hfind
  obtain ⟨-, -, -, hslash⟩ := visits_of_find hno hfind
  obtain ⟨-, hempty, -⟩ := find_eq_ok_iff.mp hfind
  obtain ⟨parent, rfl, hparent, hinit, hf⟩ := exists_parent hno hget hname
  have hlead : Leads after true maxLinks (after.start path) ((components path).dropLast ++ ["."])
      parent := by
    have hvisits : disk.Visits (disk.start path) ((components path).dropLast ++ ["."]) := by
      rw [visits_append, visits_singleton, admits_iff (by decide), hf]
      exact ⟨hinit, hparent, by decide⟩
    rw [hd.start_eq]
    apply hd.leads
    simpa [hf] using hvisits.leads hno
  have hends : endsInSlash path = false := by
    rw [← Bool.not_eq_true]
    intro hs
    have hdirectory := hslash hs
    rw [isDirectory_eq_false hitem hfile] at hdirectory
    cases hdirectory
  have hgoal : after.isDirectory (parent ++ [Path.name path]) = false := by
    obtain ⟨other, hother, hfile'⟩ := hd.files _ item hitem hfile
    exact isDirectory_eq_false hother hfile'
  have hwritable : after.grants isWritable parent = disk.grants isWritable parent := by
    obtain ⟨mode, hdirectory⟩ := isDirectory_iff.mp (isDirectory_of_grants hparent)
    apply grants_congr
    rw [hdirectory, hd.others _ _ hdirectory rfl]
  rw [List.dropLast_concat] at hbeside ⊢
  rw [renameTarget_eq, if_neg hempty, hlead.walk]
  simp only [hname.ne_empty, hname.ne_dot, hname.ne_up, hends, or_self, Bool.false_eq_true,
    if_false]
  rw [if_neg hne, hbeside, hwritable, hgoal]
  cases disk.grants isWritable parent <;> rfl

end Finding

end ProjectOrder.Disk.Snapshot
