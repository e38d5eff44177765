import ProjectOrder.Proofs.Members
import ProjectOrder.Proofs.Passage
import ProjectOrder.Proofs.RegionEdits
import ProjectOrder.Settings.Basic

/-! Which texts write settings, and what the settings are that they write. -/
namespace ProjectOrder.Settings
open ProjectOrder.Document ProjectOrder.Json ProjectOrder.Text

/-- What an object says about settings. Each of its members may be missing. -/
structure Content where
  ignoreCase : Option Bool
  knownFiles : Option (List Units)
  sortableSections : Option (List Units)

namespace Content

def value? (content : Content) : Key → Option Value
  | .caseInsensitive => content.ignoreCase.map .bool
  | .knownFiles => content.knownFiles.map fun names => .array (names.map .string)
  | .sortableSections => content.sortableSections.map fun names => .array (names.map .string)

/-- The object says this and nothing else, and no name in it is empty. -/
structure IsOf (content : Content) (members : List (Units × Value)) : Prop where
  key_known : ∀ member ∈ members, ∃ key : Key, member.1 = Units.ofString key.text
  lastValue?_eq : ∀ key : Key, lastValue? (Units.ofString key.text) members = content.value? key
  file_ne_nil : ∀ name ∈ content.knownFiles.getD [], name.list ≠ []
  section_ne_nil : ∀ name ∈ content.sortableSections.getD [], name.list ≠ []

end Content

/-- Known names, followed by each given name that is new, where it is given first. -/
def merged (known given : List Units) : List Units :=
  known ++ (given.filter (· ∉ known)).eraseDups

/-- The settings that add what is said to the built-in ones. -/
def Content.settings (content : Content) (source : String) : Settings :=
  { ignoreCase := content.ignoreCase.getD false
    knownFiles := merged builtIn.knownFiles (content.knownFiles.getD [])
    sortableSections := merged builtIn.sortableSections (content.sortableSections.getD [])
    source }

section Merging
variable {known given : List Units}

theorem distinctBy_id_filter (name : Units) (names : List Units) :
    distinctBy id (names.filter (!· == name)) = (distinctBy id names).filter (id · ≠ name) := by
  rw [← Function.comp_id (!· == name), distinctBy_filter]
  congr 1
  funext other
  simp [Bool.beq_eq_decide_eq]

theorem distinct_eq_eraseDups (names : List Units) : distinctBy id names = names.eraseDups := by
  cases names with
  | nil => rfl
  | cons name rest =>
    rw [List.eraseDups_cons, distinctBy_cons, ← distinct_eq_eraseDups, distinctBy_id_filter]
    rfl
termination_by names.length
decreasing_by
  have hlen := List.length_filter_le (!· == name) rest
  rw [List.length_cons]
  omega

theorem distinct_append (h : known.Nodup) :
    distinctBy id (known ++ given) = merged known given := by
  induction known with
  | nil => simpa [merged] using distinct_eq_eraseDups given
  | cons name rest ih =>
    obtain ⟨hname, hrest⟩ := List.nodup_cons.mp h
    have hnew : (given.filter (· ∉ rest)).filter (!· == name) =
        given.filter (· ∉ name :: rest) := by
      rw [List.filter_filter]
      congr 1
      funext other
      simp [Bool.beq_eq_decide_eq]
    have hold : rest.filter (id · ≠ id name) = rest :=
      List.filter_eq_self.mpr fun other ho => by simpa using ne_of_mem_of_not_mem ho hname
    rw [List.cons_append, distinctBy_cons, ih hrest, merged, List.filter_append, hold, merged,
      ← distinct_eq_eraseDups, id_eq, ← distinctBy_id_filter, hnew, distinct_eq_eraseDups]
    rfl

@[simp] theorem merged_nil (known : List Units) : merged known [] = known := by
  simp [merged]

theorem nodup_merged (h : known.Nodup) : (merged known given).Nodup := by
  rw [← distinct_append h]
  simpa using nodup_map_distinctBy id (known ++ given)

theorem nodup_knownFiles : builtIn.knownFiles.Nodup := by decide

theorem nodup_sortableSections : builtIn.sortableSections.Nodup := by decide

end Merging

theorem names?_cons (text : Units) (rest : List Value) :
    names? (.array (.string text :: rest)) =
      if text.list = [] then none else (names? (.array rest)).map (text :: ·) := by
  by_cases h : text.list = [] <;> simp [names?, h, Option.map_eq_bind]

theorem names?_eq_some_iff {value : Value} {names : List Units} :
    names? value = some names ↔
      value = .array (names.map .string) ∧ ∀ name ∈ names, name.list ≠ [] := by
  cases value with
  | array items =>
    rw [Value.array.injEq]
    induction items generalizing names with
    | nil => cases names <;> simp [names?]
    | cons item rest ih =>
      cases item with
      | string text =>
        rw [names?_cons]
        cases names with
        | nil => split <;> simp
        | cons name names =>
          split_ifs with h
          · simp only [false_iff, List.map_cons]
            grind
          · simp only [Option.map_eq_some_iff, ih]
            grind
      | _ => cases names <;> simp [names?]
  | _ => simp [names?]

theorem ofText?_eq_some_iff {text : Units} {key : Key} :
    Key.ofText? text = some key ↔ text = Units.ofString key.text := by
  constructor
  · intro h
    have hfound := List.find?_some h
    exact (beq_iff_eq.mp hfound).symm
  · intro h
    subst h
    cases key <;> rfl

theorem text_injective : Function.Injective fun key : Key => Units.ofString key.text := by
  intro key other h
  have hkey := ofText?_eq_some_iff.mpr (rfl : Units.ofString key.text = _)
  have hother := ofText?_eq_some_iff.mpr h
  exact Option.some.inj (hkey.symm.trans hother)

section Reading
variable {content more : Content} {settings next : Settings} {source : String}
  {front members others : List (Units × Value)}

/-- An object says one thing only. -/
theorem Content.eq_of_value? (h : ∀ key, content.value? key = more.value? key) : content = more := by
  have hbool : Function.Injective Value.bool := fun _ _ hb => Value.bool.inj hb
  have hnames : Function.Injective fun names : List Units => Value.array (names.map .string) :=
    fun _ _ hn => List.map_injective_iff.mpr (fun _ _ ht => Value.string.inj ht)
      (Value.array.inj hn)
  rw [Content.mk.injEq]
  exact ⟨Option.map_injective hbool (h .caseInsensitive),
    Option.map_injective hnames (h .knownFiles), Option.map_injective hnames (h .sortableSections)⟩

/-- One more member under a key that was missing. -/
theorem Content.IsOf.concat (h : content.IsOf front) {key : Key} {value : Value}
    (hvalue : ∀ other, more.value? other = if key = other then some value else content.value? other)
    (hfile : ∀ name ∈ more.knownFiles.getD [], name.list ≠ [])
    (hsection : ∀ name ∈ more.sortableSections.getD [], name.list ≠ []) :
    more.IsOf (front ++ [(Units.ofString key.text, value)]) where
  key_known := by
    intro member hm
    rcases List.mem_append.mp hm with hm | hm
    · exact h.key_known member hm
    · exact ⟨key, by rw [List.mem_singleton.mp hm]⟩
  lastValue?_eq := by
    intro other
    rw [lastValue?_concat, hvalue, h.lastValue?_eq]
    simp only [text_injective.eq_iff]
  file_ne_nil := hfile
  section_ne_nil := hsection

theorem Content.IsOf.value?_eq_none (h : content.IsOf front) {key : Key}
    (hk : Units.ofString key.text ∉ front.map (·.1)) : content.value? key = none := by
  rw [← h.lastValue?_eq, lastValue?_eq_none_iff]
  exact hk

/-- Taking over a member under a new key adds what it says to what was said before. -/
theorem exists_of_set (h : content.IsOf front) {field : Units × Value}
    (hf : field.1 ∉ front.map (·.1)) (hs : set (content.settings source) source field = .ok next) :
    ∃ more : Content, more.IsOf (front ++ [field]) ∧ next = more.settings source := by
  obtain ⟨text, value⟩ := field
  cases hkey : Key.ofText? text with
  | none => simp [set, hkey] at hs
  | some key =>
    obtain rfl := ofText?_eq_some_iff.mp hkey
    have hnone := h.value?_eq_none hf
    simp only [set, hkey] at hs
    cases key with
    | caseInsensitive =>
      cases value with
      | bool value =>
        cases hs
        refine ⟨{ content with ignoreCase := some value }, h.concat ?_ h.file_ne_nil
          h.section_ne_nil, rfl⟩
        intro other
        cases other <;> rfl
      | _ => cases hs
    | knownFiles =>
      have hempty : content.knownFiles = none := Option.map_eq_none_iff.mp hnone
      cases hnames : names? value with
      | none => simp [hnames] at hs
      | some names =>
        obtain ⟨rfl, hne⟩ := names?_eq_some_iff.mp hnames
        simp only [hnames, Except.ok.injEq, Content.settings, hempty, Option.getD_none, merged_nil,
          distinct, distinct_append nodup_knownFiles] at hs
        refine ⟨{ content with knownFiles := some names }, h.concat ?_ hne h.section_ne_nil, hs.symm⟩
        intro other
        cases other <;> rfl
    | sortableSections =>
      have hempty : content.sortableSections = none := Option.map_eq_none_iff.mp hnone
      cases hnames : names? value with
      | none => simp [hnames] at hs
      | some names =>
        obtain ⟨rfl, hne⟩ := names?_eq_some_iff.mp hnames
        simp only [hnames, Except.ok.injEq, Content.settings, hempty, Option.getD_none, merged_nil,
          distinct, distinct_append nodup_sortableSections] at hs
        refine ⟨{ content with sortableSections := some names }, h.concat ?_ h.file_ne_nil hne,
          hs.symm⟩
        intro other
        cases other <;> rfl

theorem exists_of_foldlM (hn : (members.map (·.1)).Nodup)
    (h : members.foldlM (set · source) { builtIn with source } = .ok settings) :
    ∃ content : Content, content.IsOf members ∧ settings = content.settings source := by
  induction members using List.reverseRecOn generalizing settings with
  | nil =>
    cases h
    exact ⟨⟨none, none, none⟩, ⟨by simp, by rintro ⟨⟩ <;> rfl, by simp, by simp⟩, by
      simp [Content.settings, builtIn]⟩
  | append_singleton front field ih =>
    rw [List.map_append, List.nodup_append] at hn
    obtain ⟨hfront, -, hfield⟩ := hn
    rw [List.foldlM_append] at h
    obtain ⟨middle, hmiddle, h⟩ := bind_eq_ok h
    obtain ⟨content, hcontent, rfl⟩ := ih hfront hmiddle
    -- No member before the last one has its key, so that the names that it lists meet the built-in ones.
    rw [List.foldlM_cons] at h
    obtain ⟨last, hlast, h⟩ := bind_eq_ok h
    cases h
    exact exists_of_set hcontent (fun hm => hfield _ hm _ (by simp) rfl) hlast

/-- Whatever was taken over before, a member that says something is taken over. -/
theorem exists_set (h : content.IsOf members) {field : Units × Value}
    (hf : lastValue? field.1 members = some field.2) (settings : Settings) :
    ∃ next, set settings source field = .ok next := by
  obtain ⟨text, value⟩ := field
  obtain ⟨key, rfl⟩ := h.key_known _ (mem_of_lastValue?_eq_some hf)
  have hkey := ofText?_eq_some_iff.mpr (rfl : Units.ofString key.text = _)
  rw [h.lastValue?_eq] at hf
  cases key with
  | caseInsensitive =>
    obtain ⟨asked, -, rfl⟩ := Option.map_eq_some_iff.mp hf
    exact ⟨_, rfl⟩
  | knownFiles =>
    obtain ⟨names, heq, rfl⟩ := Option.map_eq_some_iff.mp hf
    have hnames := names?_eq_some_iff.mpr ⟨rfl, by simpa [heq] using h.file_ne_nil⟩
    exact ⟨{ settings with knownFiles := distinct (settings.knownFiles ++ names) },
      by simp only [set, hkey, hnames]⟩
  | sortableSections =>
    obtain ⟨names, heq, rfl⟩ := Option.map_eq_some_iff.mp hf
    have hnames := names?_eq_some_iff.mpr ⟨rfl, by simpa [heq] using h.section_ne_nil⟩
    exact ⟨{ settings with sortableSections := distinct (settings.sortableSections ++ names) },
      by simp only [set, hkey, hnames]⟩

theorem exists_foldlM {fields : List (Units × Value)}
    (h : ∀ field ∈ fields, ∀ settings, ∃ next, set settings source field = .ok next)
    (settings : Settings) : ∃ last, fields.foldlM (set · source) settings = .ok last := by
  induction fields generalizing settings with
  | nil => exact ⟨settings, rfl⟩
  | cons field rest ih =>
    obtain ⟨next, hnext⟩ := h field List.mem_cons_self settings
    obtain ⟨last, hlast⟩ := ih (fun other ho => h other (List.mem_cons_of_mem _ ho)) next
    refine ⟨last, ?_⟩
    rw [List.foldlM_cons, hnext]
    exact hlast

/-- What an object says hangs on the values that hold in it. -/
theorem Content.IsOf.congr (h : content.IsOf members)
    (hl : ∀ text, lastValue? text others = lastValue? text members) : content.IsOf others where
  key_known := by
    intro member hm
    have hother : lastValue? member.1 others ≠ none := by
      rw [ne_eq, lastValue?_eq_none_iff, not_not]
      exact List.mem_map_of_mem hm
    rw [hl] at hother
    obtain ⟨value, hvalue⟩ := Option.ne_none_iff_exists'.mp hother
    exact h.key_known (member.1, value) (mem_of_lastValue?_eq_some hvalue)
  lastValue?_eq := fun key => (hl _).trans (h.lastValue?_eq key)
  file_ne_nil := h.file_ne_nil
  section_ne_nil := h.section_ne_nil

theorem foldlM_fields_eq_ok_iff :
    (fields members).foldlM (set · source) { builtIn with source } = .ok settings ↔
      ∃ content : Content, content.IsOf members ∧ settings = content.settings source := by
  have hn := nodup_fields members
  constructor
  · intro h
    obtain ⟨content, hcontent, heq⟩ := exists_of_foldlM hn h
    exact ⟨content, hcontent.congr fun text => (lastValue?_fields text members).symm, heq⟩
  · intro h
    obtain ⟨content, hcontent, rfl⟩ := h
    have hfields : content.IsOf (fields members) := hcontent.congr (lastValue?_fields · members)
    have hset : ∀ field ∈ fields members, ∀ settings, ∃ next, set settings source field = .ok next :=
      fun field hf => exists_set hfields ((lastValue?_eq_some_iff hn).mpr hf)
    obtain ⟨last, hlast⟩ := exists_foldlM hset { builtIn with source }
    obtain ⟨other, hother, rfl⟩ := exists_of_foldlM hn hlast
    have heq : other = content := Content.eq_of_value? fun key => by
      rw [← hother.lastValue?_eq, hfields.lastValue?_eq]
    rw [hlast, heq]

theorem linkOrdered_mem_settings_iff :
    Units.ofString linkOrderedSection ∈ (content.settings source).sortableSections ↔
      Units.ofString linkOrderedSection ∈ content.sortableSections.getD [] := by
  have hbuiltIn : Units.ofString linkOrderedSection ∉ builtIn.sortableSections := by decide
  simp [Content.settings, merged, hbuiltIn]

theorem ofValue_eq_ok_iff :
    ofValue (.object members) source = .ok settings ↔
      ∃ content : Content, content.IsOf members ∧
        Units.ofString linkOrderedSection ∉ content.sortableSections.getD [] ∧
          settings = content.settings source := by
  constructor
  · intro h
    obtain ⟨last, hlast, h⟩ := bind_eq_ok h
    obtain ⟨content, hcontent, rfl⟩ := foldlM_fields_eq_ok_iff.mp hlast
    split_ifs at h with hlink
    · cases h
    · cases h
      exact ⟨content, hcontent, linkOrdered_mem_settings_iff.not.mp hlink, rfl⟩
  · intro h
    obtain ⟨content, hcontent, hlink, rfl⟩ := h
    rw [ofValue, foldlM_fields_eq_ok_iff.mpr ⟨content, hcontent, rfl⟩]
    exact if_neg (linkOrdered_mem_settings_iff.not.mpr hlink)

/-- The order of members does not matter, as long as none of them hides another. -/
theorem ofValue_perm (hn : (members.map (·.1)).Nodup) (hp : others.Perm members) :
    ofValue (.object others) source = .ok settings ↔
      ofValue (.object members) source = .ok settings := by
  have hlast := lastValue?_perm hn hp
  rw [ofValue_eq_ok_iff, ofValue_eq_ok_iff]
  constructor
  · intro h
    obtain ⟨content, hcontent, h⟩ := h
    exact ⟨content, hcontent.congr fun text => (hlast text).symm, h⟩
  · intro h
    obtain ⟨content, hcontent, h⟩ := h
    exact ⟨content, hcontent.congr hlast, h⟩

end Reading

/-- The text writes an object that says this, and does not ask for sorting what decides linking. -/
structure Writes (text : List Char) (content : Content) : Prop where
  exists_object : ∃ members, parse? text = some (.object members) ∧ content.IsOf members
  link_order_kept : Units.ofString linkOrderedSection ∉ content.sortableSections.getD []

section Reading
variable {text other : List Char} {source : String} {settings : Settings}
  {members others : List (Units × Value)}

theorem read_of_parse? (h : parse? text = some (.object members)) :
    read text source = ofValue (.object members) source := by
  rw [read, h]

theorem read_eq_ok_iff :
    read text source = .ok settings ↔
      ∃ content, Writes text content ∧ settings = content.settings source := by
  constructor
  · intro h
    cases hparse : parse? text with
    | none => simp [read, hparse] at h
    | some value =>
      cases value with
      | object members =>
        rw [read_of_parse? hparse] at h
        obtain ⟨content, hcontent, hlink, heq⟩ := ofValue_eq_ok_iff.mp h
        exact ⟨content, ⟨⟨members, hparse, hcontent⟩, hlink⟩, heq⟩
      | _ => simp [read, hparse, ofValue] at h
  · intro h
    obtain ⟨content, ⟨⟨members, hparse, hcontent⟩, hlink⟩, heq⟩ := h
    rw [read_of_parse? hparse, ofValue_eq_ok_iff]
    exact ⟨content, hcontent, hlink, heq⟩

/-- Settings that were read never fail to be options. -/
theorem exists_options (h : Units.ofString linkOrderedSection ∉ settings.sortableSections)
    (ignoreCase : Option Bool) :
    ∃ options, settings.options ignoreCase = .ok options ∧
      options.ignoreCase = ignoreCase.getD settings.ignoreCase ∧
        linkOrderedSection ∉ options.sortableSections := by
  have hlink : linkOrderedSection ∉ settings.sortableSections.filterMap Units.text? := by
    intro hm
    obtain ⟨name, hname, htext⟩ := List.mem_filterMap.mp hm
    rw [Units.ofString_eq_of_text?_eq_some htext] at h
    exact h hname
  exact ⟨_, dif_neg hlink, rfl, hlink⟩

end Reading

/-- A text is read as settings exactly if it writes an object that says nothing but what settings may
say. What it says is added to what is built in, and always makes options. -/
theorem settings_are_merged (text : List Char) (source : String) :
    (∀ settings, read text source = .ok settings ↔
        ∃ content, Writes text content ∧ settings = content.settings source) ∧
      ((∃ fault, read text source = .error fault) ↔ ¬ ∃ content, Writes text content) ∧
      (∀ settings, read text source = .ok settings →
        settings.knownFiles.Nodup ∧ settings.sortableSections.Nodup ∧
          ∀ ignoreCase, ∃ options, settings.options ignoreCase = .ok options ∧
            options.ignoreCase = ignoreCase.getD settings.ignoreCase ∧
              linkOrderedSection ∉ options.sortableSections) ∧
      ∀ other members others, parse? text = some (.object members) →
        (members.map (·.1)).Nodup → parse? other = some (.object others) → others.Perm members →
          ∀ settings, read other source = .ok settings ↔ read text source = .ok settings := by
  refine ⟨fun settings => read_eq_ok_iff, ?_, ?_, ?_⟩
  · cases hread : read text source with
    | error fault =>
      refine iff_of_true ⟨fault, rfl⟩ fun h => ?_
      obtain ⟨content, hcontent⟩ := h
      rw [read_eq_ok_iff.mpr ⟨content, hcontent, rfl⟩] at hread
      cases hread
    | ok settings =>
      obtain ⟨content, hcontent, -⟩ := read_eq_ok_iff.mp hread
      exact iff_of_false (by simp) fun h => h ⟨content, hcontent⟩
  · intro settings h
    obtain ⟨content, hcontent, rfl⟩ := read_eq_ok_iff.mp h
    exact ⟨nodup_merged nodup_knownFiles, nodup_merged nodup_sortableSections,
      exists_options (linkOrdered_mem_settings_iff.not.mpr hcontent.link_order_kept)⟩
  · intro other members others hparse hn hother hp settings
    rw [read_of_parse? hother, read_of_parse? hparse]
    exact ofValue_perm hn hp

/-- Of two members under one key the later one holds, and known names are given in vain. -/
example :
    let text := "\x7b\"knownFiles\": 1, \"knownFiles\": [\"b\", \"create_hash_table\", \"a\", \"b\"]\x7d"
    (read text.toList "pbxsort.json").map (·.knownFiles) =
      .ok (["create_hash_table", "b", "a"].map Units.ofString) := by
  cbv

end ProjectOrder.Settings
