import Mathlib.Data.List.Basic
import Mathlib.Data.List.Induction
import Mathlib.Data.List.TakeWhile
import ProjectOrder.Name.Token

/-! The runs of a name, one after the other, and how its tokens spell the name again. -/
namespace ProjectOrder.Name

/-- Characters in a row that are all digits, or of which none is. -/
structure IsRun (digits : Bool) (run : List Char) : Prop where
  ne_nil : run ≠ []
  isDigit_eq : ∀ c ∈ run, c.isDigit = digits

/-- Nothing follows, or something that does not belong to a run before it. -/
def EndsRun (digits : Bool) (rest : List Char) : Prop :=
  ∀ c ∈ rest.head?, c.isDigit = !digits

theorem exists_runs_cons (c : Char) (r : List Char) :
    ∃ run rest, runs (c :: r) = (c :: run) :: rest := by
  unfold runs
  split
  · exact ⟨_, _, rfl⟩
  · split <;> exact ⟨_, _, rfl⟩

theorem runs_cons_of_endsRun {c : Char} {rest : List Char} (h : EndsRun c.isDigit rest) :
    runs (c :: rest) = [c] :: runs rest := by
  cases rest with
  | nil => rfl
  | cons d rest =>
    obtain ⟨run, more, hr⟩ := exists_runs_cons d rest
    have hd : d.isDigit = !c.isDigit := h d rfl
    rw [runs, hr]
    simp [hd]

/-- A run in front of what ends it is the first run of the whole. -/
theorem runs_append {digits : Bool} {run rest : List Char} (h : IsRun digits run)
    (hr : EndsRun digits rest) : runs (run ++ rest) = run :: runs rest := by
  obtain ⟨hne, hdigit⟩ := h
  induction run with
  | nil => exact absurd rfl hne
  | cons c run ih =>
    have hc : c.isDigit = digits := hdigit c (by simp)
    cases run with
    | nil => exact runs_cons_of_endsRun (hc ▸ hr)
    | cons d run =>
      have hd : d.isDigit = digits := hdigit d (by simp)
      have hrun : runs (d :: run ++ rest) = (d :: run) :: runs rest :=
        ih (by simp) fun x hx => hdigit x (by simp [hx])
      rw [List.cons_append, runs, hrun]
      simp [hc, hd]

/-- A name is empty, or a run and then a name that ends the run. -/
theorem runs_induction {motive : List Char → Prop} (nil : motive [])
    (run : ∀ digits run rest, IsRun digits run → EndsRun digits rest → motive rest →
      motive (run ++ rest))
    (name : List Char) : motive name := by
  induction hn : name.length using Nat.strong_induction_on generalizing name with
  | _ n ih =>
    cases name with
    | nil => exact nil
    | cons c r =>
      let same : Char → Bool := fun d => d.isDigit == c.isDigit
      have hsame : same c = true := beq_self_eq_true _
      have hrun : IsRun c.isDigit ((c :: r).takeWhile same) := by
        constructor
        · simp [hsame]
        · intro d hd
          simpa [same] using List.mem_takeWhile_imp hd
      have hends : EndsRun c.isDigit ((c :: r).dropWhile same) := by
        intro d hd
        have hfirst := List.head?_dropWhile_not same (c :: r)
        rw [Option.mem_def.mp hd] at hfirst
        simpa [same, Bool.eq_not] using hfirst
      have hshort : ((c :: r).dropWhile same).length < n := by
        have hle := (List.dropWhile_sublist same (l := r)).length_le
        rw [List.dropWhile_cons_of_pos hsame]
        simp only [List.length_cons] at hn
        omega
      have hrest := ih _ hshort _ rfl
      have happend := run _ _ _ hrun hends hrest
      rwa [List.takeWhile_append_dropWhile] at happend

theorem IsRun.any_head? {digits : Bool} {run : List Char} (h : IsRun digits run) :
    run.head?.any Char.isDigit = digits := by
  obtain ⟨c, r, rfl⟩ := List.exists_cons_of_ne_nil h.ne_nil
  simpa using h.isDigit_eq c (by simp)

theorem ofRun_digits (ignoreCase : Bool) {run : List Char} (h : IsRun true run) :
    Token.ofRun ignoreCase run = .number (valueOfDigits run) run.length := by
  simp [Token.ofRun, h.any_head?]

theorem ofRun_text (ignoreCase : Bool) {run : List Char} (h : IsRun false run) :
    Token.ofRun ignoreCase run = .text (foldCase ignoreCase run) := by
  simp [Token.ofRun, h.any_head?]

theorem tokens_append (ignoreCase : Bool) {digits : Bool} {run rest : List Char}
    (h : IsRun digits run) (hr : EndsRun digits rest) :
    tokens ignoreCase (run ++ rest) = Token.ofRun ignoreCase run :: tokens ignoreCase rest := by
  rw [tokens, runs_append h hr]
  rfl

section Boundaries
variable {digits : Bool} {run rest more start : List Char}

theorem IsRun.append (h : IsRun digits run) (hm : IsRun digits more) : IsRun digits (run ++ more) := by
  refine ⟨List.append_ne_nil_of_left_ne_nil h.ne_nil _, ?_⟩
  intro c hc
  rcases List.mem_append.mp hc with hc | hc
  · exact h.isDigit_eq c hc
  · exact hm.isDigit_eq c hc

theorem EndsRun.append (h : EndsRun digits rest) (hne : rest ≠ []) (more : List Char) :
    EndsRun digits (rest ++ more) := by
  obtain ⟨c, r, rfl⟩ := List.exists_cons_of_ne_nil hne
  exact h

theorem IsRun.endsRun (h : IsRun digits run) (rest : List Char) : EndsRun (!digits) (run ++ rest) := by
  obtain ⟨c, r, rfl⟩ := List.exists_cons_of_ne_nil h.ne_nil
  intro d hd
  obtain rfl : c = d := by simpa using hd
  rw [Bool.not_not]
  exact h.isDigit_eq c (by simp)

theorem tokens_run (ignoreCase : Bool) (h : IsRun digits run) :
    tokens ignoreCase run = [Token.ofRun ignoreCase run] := by
  have hends : EndsRun digits [] := by simp [EndsRun]
  have happend := tokens_append ignoreCase h hends
  rwa [List.append_nil] at happend

theorem tokens_ne_nil (ignoreCase : Bool) {name : List Char} (h : name ≠ []) :
    tokens ignoreCase name ≠ [] := by
  induction name using runs_induction with
  | nil => exact absurd rfl h
  | run digits run rest hrun hends _ =>
    rw [tokens_append ignoreCase hrun hends]
    exact List.cons_ne_nil _ _

/-- A name may be taken apart between two characters that no run has in common. -/
theorem tokens_append_of_endsRun (ignoreCase : Bool)
    (hstart : ∀ c ∈ start.getLast?, c.isDigit = digits) (hrest : EndsRun digits rest) :
    tokens ignoreCase (start ++ rest) = tokens ignoreCase start ++ tokens ignoreCase rest := by
  induction start using runs_induction with
  | nil => rfl
  | run digits' run next hrun hends ih =>
    rcases eq_or_ne next [] with rfl | hne
    · have hlast := List.getLast?_eq_some_getLast hrun.ne_nil
      have hsame : digits' = digits := by
        rw [List.append_nil] at hstart
        rw [← hrun.isDigit_eq _ (List.getLast_mem hrun.ne_nil), hstart _ hlast]
      rw [List.append_nil, tokens_run ignoreCase hrun, tokens_append ignoreCase hrun (hsame ▸ hrest)]
      rfl
    · have hnext : ∀ c ∈ next.getLast?, c.isDigit = digits := by
        intro c hc
        exact hstart c (List.mem_getLast?_append_of_mem_getLast? hc)
      rw [List.append_assoc, tokens_append ignoreCase hrun (hends.append hne rest), ih hnext,
        tokens_append ignoreCase hrun hends, List.cons_append]

end Boundaries

section Spelling

/-- The last digits of a number, with zeros in front if it has fewer. -/
def lastDigits (value : Nat) : (count : Nat) → List Char
  | 0 => []
  | count + 1 => lastDigits (value / 10) count ++ [Nat.digitChar (value % 10)]

/-- The characters that a token stands for. -/
def Token.spelling : Token → List Char
  | .number value digits => lastDigits value digits
  | .text value => value

theorem valueOfDigits_append_singleton (digits : List Char) (d : Char) :
    valueOfDigits (digits ++ [d]) = valueOfDigits digits * 10 + (d.toNat - '0'.toNat) := by
  simp [valueOfDigits]

theorem valueOfDigits_le_append (digits more : List Char) :
    valueOfDigits digits ≤ valueOfDigits (digits ++ more) := by
  induction more using List.reverseRecOn with
  | nil => simp
  | append_singleton more d ih =>
    rw [← List.append_assoc, valueOfDigits_append_singleton]
    omega

theorem sub_zero_lt_ten {d : Char} (h : d.isDigit) : d.toNat - '0'.toNat < 10 := by
  obtain ⟨-, hhigh⟩ := Char.isDigit_iff_toNat.mp h
  have hzero : '0'.toNat = 48 := rfl
  have hnine : '9'.toNat = 57 := rfl
  omega

theorem digitChar_sub_zero {d : Char} (h : d.isDigit) :
    Nat.digitChar (d.toNat - '0'.toNat) = d := by
  obtain ⟨hlow, -⟩ := Char.isDigit_iff_toNat.mp h
  have hzero : '0'.toNat = 48 := rfl
  apply Char.toNat_inj.mp
  rw [Nat.toNat_digitChar_of_lt_ten (sub_zero_lt_ten h)]
  omega

/-- A run of digits can be told from its value and its length. -/
theorem lastDigits_valueOfDigits {digits : List Char} (h : ∀ d ∈ digits, d.isDigit) :
    lastDigits (valueOfDigits digits) digits.length = digits := by
  induction digits using List.reverseRecOn with
  | nil => rfl
  | append_singleton digits d ih =>
    have hd : d.isDigit := h d (by simp)
    have hlt := sub_zero_lt_ten hd
    have hmod : (valueOfDigits digits * 10 + (d.toNat - '0'.toNat)) % 10 = d.toNat - '0'.toNat := by
      omega
    have hdiv : (valueOfDigits digits * 10 + (d.toNat - '0'.toNat)) / 10 = valueOfDigits digits := by
      omega
    rw [List.length_append, List.length_singleton, lastDigits, valueOfDigits_append_singleton, hmod,
      hdiv, digitChar_sub_zero hd, ih fun x hx => h x (by simp [hx])]

theorem spelling_ofRun {digits : Bool} {run : List Char} (h : IsRun digits run) :
    (Token.ofRun false run).spelling = run := by
  cases digits with
  | true =>
    rw [ofRun_digits false h]
    exact lastDigits_valueOfDigits h.isDigit_eq
  | false =>
    rw [ofRun_text false h]
    rfl

/-- The tokens of a name whose case counts spell it again. -/
theorem flatMap_spelling_tokens (name : List Char) :
    (tokens false name).flatMap Token.spelling = name := by
  induction name using runs_induction with
  | nil => rfl
  | run digits run rest h hr ih =>
    rw [tokens_append false h hr, List.flatMap_cons, spelling_ofRun h, ih]

theorem tokens_injective : Function.Injective (tokens false) :=
  Function.LeftInverse.injective flatMap_spelling_tokens

end Spelling

end ProjectOrder.Name
