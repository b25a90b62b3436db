import HouseStyle.Config.Parse
import HouseStyle.Proofs.Rounding

/-!
# What reading a configuration table comes to

A table may hold anything under any key. Reading it should give a configuration that a run can work with
(`Config.IsValid`), or refuse the table and say which field is wrong; nothing else may become of it
(`Config.IsValidated`). Each field is read by a function of its own, and what becomes of the table is put
together from what becomes of its fields (`Config.Ends`).

It is so but for the time limit. The limit is refused if it is zero or less, which what is not a number never
is, and a large integer is not checked for a place in the binary format (`Config.LimitFits`).

- `ends_ofTable`: what becomes of a table, given what becomes of its time limit and of its rules.
- `validated_iff`: the tables that are validated.
- `not_isValidated_limits`: two limits with which a table is not.
-/

namespace HouseStyle

namespace Config

/-! ## Names of rules -/

/-- Words of small letters and digits, joined by single hyphens, with a letter in front. -/
def IsKebabCase (s : String) : Prop :=
  ∃ (letter : Char) (first : List Char) (words : List (List Char)),
    s.toList = letter :: (first ++ words.flatMap ('-' :: ·)) ∧ letter.isLower = true ∧
      (∀ c ∈ first, isKebabChar c = true) ∧ ∀ w ∈ words, w ≠ [] ∧ ∀ c ∈ w, isKebabChar c = true

/-- The rest of a name goes on with its first word, and the other words follow. -/
theorem exists_words_of_kebabRest {cs : List Char} (h : kebabRest cs = true) :
    ∃ (first : List Char) (words : List (List Char)), cs = first ++ words.flatMap ('-' :: ·) ∧
      (∀ c ∈ first, isKebabChar c = true) ∧ ∀ w ∈ words, w ≠ [] ∧ ∀ c ∈ w, isKebabChar c = true := by
  fun_induction kebabRest cs with
  | case1 => exact ⟨[], [], rfl, by simp, by simp⟩
  | case2 c => exact ⟨[c], [], rfl, by simpa using h, by simp⟩
  | case3 d rest ih =>
    -- a hyphen ends the first word, and the next one starts behind it
    obtain ⟨hd, hrest⟩ := Bool.and_eq_true_iff.mp h
    obtain ⟨first, words, rfl, hfirst, hwords⟩ := ih hrest
    refine ⟨[], (d :: first) :: words, by simp, by simp, ?_⟩
    intro w hw
    rcases List.mem_cons.mp hw with rfl | hw
    · exact ⟨List.cons_ne_nil d first, List.forall_mem_cons.mpr ⟨hd, hfirst⟩⟩
    · exact hwords w hw
  | case4 c d rest _ ih =>
    obtain ⟨hc, hrest⟩ := Bool.and_eq_true_iff.mp h
    obtain ⟨first, words, hcut, hfirst, hwords⟩ := ih hrest
    exact ⟨c :: first, words, by rw [hcut, List.cons_append], List.forall_mem_cons.mpr ⟨hc, hfirst⟩, hwords⟩

theorem isKebabCase_of_isRuleId {s : String} (h : isRuleId s = true) : IsKebabCase s := by
  unfold isRuleId at h
  split at h
  next => exact absurd h (by simp)
  next letter rest hs =>
    obtain ⟨hletter, hrest⟩ := Bool.and_eq_true_iff.mp h
    obtain ⟨first, words, rfl, hfirst, hwords⟩ := exists_words_of_kebabRest hrest
    exact ⟨letter, first, words, hs, hletter, hfirst, hwords⟩

/-- Replacing the settings of a rule adds its name at most. -/
theorem forall_mem_setRule {p : String → Prop} {ruleId : String} {settings : RuleSettings}
    {rs : List (String × RuleSettings)} (hnew : p ruleId) (hold : ∀ r ∈ rs, p r.1) :
    ∀ r ∈ setRule ruleId settings rs, p r.1 := by
  induction rs with
  | nil => simpa [setRule] using hnew
  | cons r rs ih =>
    obtain ⟨hfirst, hrest⟩ := List.forall_mem_cons.mp hold
    rw [setRule]
    split
    · exact List.forall_mem_cons.mpr ⟨hfirst, hrest⟩
    · exact List.forall_mem_cons.mpr ⟨hfirst, ih hrest⟩

/-! ## How readings end -/

/-- A reading ends with something that `P` holds of, or for a reason that `E` holds of. -/
def Ends {α : Type} (E : RunFault → Prop) (P : α → Prop) : Except RunFault α → Prop
  | .ok a => P a
  | .error e => E e

section

variable {α β : Type} {E : RunFault → Prop} {P : α → Prop} {Q : β → Prop}

theorem Ends.bind {x : Except RunFault α} {f : α → Except RunFault β} (hx : Ends E P x)
    (hf : ∀ a, P a → Ends E Q (f a)) : Ends E Q (x >>= f) := by
  cases x with
  | ok a => exact hf a hx
  | error e => exact hx

/-- What is read is what has been read. -/
theorem ends_self (x : Except RunFault α) : Ends (fun _ => True) (fun a => x = .ok a) x := by
  cases x with
  | ok a => rfl
  | error e => trivial

end

variable {t : ConfigTable} {E : RunFault → Prop} (hE : ∀ e, E (.invalid e))

include hE

theorem ends_checkKeys (name : String) (allowed : List String) (t : ConfigTable) :
    Ends E (fun _ => True) (checkKeys name allowed t) := by
  unfold checkKeys
  dsimp only
  split
  · trivial
  · exact hE _

theorem ends_boolean (t : ConfigTable) (key : String) (default : Bool) (field : String) :
    Ends E (fun _ => True) (boolean t key default field) := by
  unfold boolean
  split
  · trivial
  · trivial
  · exact hE _

theorem ends_stringList (field : String) (v : ConfigValue) : Ends E (fun _ => True) (stringList field v) := by
  unfold stringList
  split
  · trivial
  · split
    · trivial
    · exact hE _
  · exact hE _

theorem ends_stringsOf (t : ConfigTable) (key : String) (default : List String) (field : String) :
    Ends E (fun _ => True) (stringsOf t key default field) := by
  unfold stringsOf
  split
  · trivial
  · exact ends_stringList hE field _

theorem ends_parameterLimit (t : ConfigTable) (field : String) :
    Ends E (fun _ => True) (parameterLimit? t field) := by
  unfold parameterLimit?
  split
  · trivial
  · split
    · exact hE _
    · trivial
  · exact hE _

theorem ends_format (t : ConfigTable) (field : String) : Ends E (fun _ => True) (format? t field) := by
  unfold format?
  split
  · trivial
  · split
    · trivial
    · exact hE _
  · exact hE _

theorem ends_tableOf (t : ConfigTable) (key field : String) : Ends E (fun _ => True) (tableOf t key field) := by
  unfold tableOf
  split
  · trivial
  · trivial
  · exact hE _

theorem ends_naming (t : ConfigTable) (name : String) : Ends E (fun _ => True) (naming? t name) :=
  (ends_tableOf hE t "naming" name).bind fun entries _ =>
    (ends_checkKeys hE name _ entries).bind fun _ _ =>
      (ends_stringsOf hE entries "allow" [] _).bind fun _ _ =>
        (ends_boolean hE entries "check_low_confidence" false _).bind fun _ _ => trivial

/-- A command is never empty. -/
theorem ends_command (t : ConfigTable) (name : String) : Ends E (· ≠ []) (command? t name) := by
  have hlast : ∀ command : List String,
      Ends E (· ≠ []) (if command.isEmpty then refuse (.emptyCommand (name ++ ".command")) else return command) := by
    intro command
    split
    next => exact hE _
    next hne => exact fun hnil => hne (List.isEmpty_iff.mpr hnil)
  unfold command?
  dsimp only
  split
  · rw [pure_bind]
    exact hlast _
  · rw [pure_bind]
    exact hlast _
  · exact (ends_stringList hE _ _).bind fun command _ => hlast command

theorem ends_formatter (t : ConfigTable) (name : String) :
    Ends E (fun f => f.command ≠ []) (formatter? t name) :=
  (ends_tableOf hE t "formatter" name).bind fun entries _ =>
    (ends_checkKeys hE name _ entries).bind fun _ _ =>
      (ends_boolean hE entries "enabled" false _).bind fun _ _ =>
        (ends_boolean hE entries "required" false _).bind fun _ _ =>
          (ends_command hE entries name).bind fun _ hcommand => hcommand

theorem ends_enabled (t : ConfigTable) (field : String) : Ends E (fun _ => True) (enabled? t field) := by
  unfold enabled?
  split
  · trivial
  · trivial
  · trivial
  · exact hE _

theorem ends_severity (t : ConfigTable) (field : String) : Ends E (fun _ => True) (severity? t field) := by
  unfold severity?
  split
  · trivial
  · trivial
  · dsimp only
    split
    · trivial
    · exact hE _
  · exact hE _

theorem ends_ruleSettings (field : String) (v : ConfigValue) : Ends E (fun _ => True) (ruleSettings? field v) := by
  unfold ruleSettings?
  split
  · exact (ends_checkKeys hE field _ _).bind fun _ _ =>
      (ends_enabled hE _ _).bind fun _ _ => (ends_severity hE _ _).bind fun _ _ => trivial
  · exact hE _

/-- The rules that have settings are named as rules are. -/
theorem ends_rulesFrom (name : String) {done : RuleTable} (entries : ConfigTable)
    (hdone : ∀ r ∈ done.1, IsKebabCase r.1) :
    Ends E (fun rs => ∀ r ∈ rs.1, IsKebabCase r.1) (rulesFrom name done entries) := by
  fun_induction rulesFrom name done entries with
  | case1 done => exact hdone
  | case2 done key value rest => exact hE _
  | case3 done key value rest ruleId field _ e he =>
    have hsettings := ends_ruleSettings hE field value
    rw [he] at hsettings
    exact hsettings
  | case4 done key value rest ruleId field hid settings _ ih =>
    exact ih (forall_mem_setRule (isKebabCase_of_isRuleId (by simpa using hid)) hdone)

theorem ends_rules (t : ConfigTable) (name : String) :
    Ends E (fun rs => ∀ r ∈ rs.1, IsKebabCase r.1) (rules? t name) :=
  (ends_tableOf hE t "rules" name).bind fun entries _ => ends_rulesFrom hE name entries (by simp)

/-- What becomes of a table, given what becomes of its time limit and of its rules. -/
theorem ends_ofTable {P : Option Quantity → Prop} {R : RuleTable → Prop} (name : String)
    (source : Option SourcePath) (t : ConfigTable) (htimeout : Ends E P (timeout? t (fieldName name "timeout")))
    (hrules : Ends E R (rules? t (fieldName name "rules"))) :
    Ends E (fun c => P c.timeout ∧ c.formatter.command ≠ [] ∧ R ⟨c.rules, c.rulesOnce⟩)
      (ofTable? name source t) := by
  unfold ofTable?
  dsimp only
  refine (ends_checkKeys hE name _ t).bind fun _ _ => ?_
  refine (ends_boolean hE t "fail_on_error" true _).bind fun _ _ => ?_
  refine (ends_parameterLimit hE t _).bind fun _ _ => ?_
  refine (ends_boolean hE t "fix" false _).bind fun _ _ => ?_
  refine (ends_format hE t _).bind fun _ _ => ?_
  refine (ends_stringsOf hE t "include" _ _).bind fun _ _ => ?_
  refine (ends_stringsOf hE t "exclude" _ _).bind fun _ _ => ?_
  refine htimeout.bind fun _ hlimit => ?_
  refine (ends_naming hE t _).bind fun _ _ => ?_
  refine (ends_formatter hE t _).bind fun _ hcommand => ?_
  refine hrules.bind fun _ hrules => ?_
  exact ⟨hlimit, hcommand, hrules⟩

omit hE

/-! ## The time limit -/

/-- The time limit of a table, if there is one, is not the number that is none, and it is no integer too large for
the binary format. -/
def LimitFits (t : ConfigTable) : Prop :=
  t.lookup "timeout" ≠ some (.float .nan) ∧
    ∀ n : Int, t.lookup "timeout" = some (.integer n) → n < Binary64.firstTooLarge

theorem ends_timeout {E : RunFault → Prop} (hE : ∀ e, E (.invalid e)) {t : ConfigTable} (h : LimitFits t)
    (field : String) :
    Ends E (fun limit => ∀ q ∈ limit, (Quantity.whole 0).Below q) (timeout? t field) := by
  obtain ⟨hnan, hlarge⟩ := h
  unfold timeout?
  split
  next => exact fun _ hq => absurd hq (by simp)
  next => exact fun _ hq => absurd hq (by simp)
  next n hn =>
    have hfits := hlarge n hn
    split
    next => exact hE _
    next hpos =>
      split
      next x hx =>
        intro q hq
        rw [← Option.some.inj hq]
        exact Quantity.below_of_ofInt? (by omega) hx
      next hnone =>
        rw [Binary64.ofInt?_eq_none_iff] at hnone
        omega
  next x hx =>
    split
    next => exact hE _
    next hle =>
      intro q hq
      rw [← Option.some.inj hq]
      refine Quantity.below_of_le_zero ?_ (by simpa using hle)
      rintro rfl
      exact hnan hx
  next => exact hE _

/-- A limit that does not fit is taken as it is, or stops the reading. -/
theorem timeout_of_not_limitFits {t : ConfigTable} (h : ¬ LimitFits t) (field : String) :
    timeout? t field = .ok (some (.real .nan)) ∨ timeout? t field = .error .tooLarge := by
  by_cases hnan : t.lookup "timeout" = some (.float .nan)
  · left
    rw [timeout?, hnan]
    rfl
  · right
    obtain ⟨n, hn, hle⟩ : ∃ n : Int, t.lookup "timeout" = some (.integer n) ∧
        (Binary64.firstTooLarge : Int) ≤ n := by
      by_contra hnone
      exact h ⟨hnan, fun n hn => Int.not_le.mp fun hle => hnone ⟨n, hn, hle⟩⟩
    have hpos : 0 < Binary64.firstTooLarge := by decide +kernel
    have hlarge : Binary64.ofInt? n = none := (Binary64.ofInt?_eq_none_iff n).mpr (by omega)
    rw [timeout?, hn]
    dsimp only
    rw [if_neg (by omega), hlarge]

/-! ## Validation -/

/-- A configuration that a run can work with. -/
structure IsValid (c : Config) : Prop where
  parameterLimit : (0 : Int) ≤ c.parameterLimit
  /-- The time limit is positive, and so it is a number. -/
  timeout : ∀ limit ∈ c.timeout, (Quantity.whole 0).Below limit
  format : c.format.label ∈ ["text", "json"]
  command : c.formatter.command ≠ []
  severities : ∀ r ∈ c.rules, ∀ severity ∈ r.2.severity, severity.label ∈ ["info", "warning", "error"]
  ruleIds : ∀ r ∈ c.rules, IsKebabCase r.1

/-- A table is refused, or it gives a valid configuration. -/
def IsValidated (name : String) (source : Option SourcePath) (t : ConfigTable) : Prop :=
  (∃ e, ofTable? name source t = .error (.invalid e)) ∨ ∃ c, ofTable? name source t = .ok c ∧ c.IsValid

/-- Of a configuration that has been read only three things are not told by its type. -/
theorem isValid_iff {c : Config} :
    c.IsValid ↔ (∀ limit ∈ c.timeout, (Quantity.whole 0).Below limit) ∧ c.formatter.command ≠ [] ∧
      ∀ r ∈ c.rules, IsKebabCase r.1 := by
  refine ⟨fun h => ⟨h.timeout, h.command, h.ruleIds⟩, fun ⟨htimeout, hcommand, hrules⟩ => ?_⟩
  refine ⟨Int.natCast_nonneg _, htimeout, ?_, hcommand, fun _ _ severity _ => ?_, hrules⟩
  · cases c.format <;> decide
  · cases severity <;> decide

/-- The number that is none is not positive. -/
theorem not_isValid_of_nan {c : Config} (h : c.timeout = some (.real .nan)) : ¬ c.IsValid := by
  intro hvalid
  have hnan : ¬ (Quantity.real .nan).IsNumber := Bool.false_ne_true
  exact Quantity.not_below_of_not_isNumber hnan (hvalid.timeout _ h)

theorem isValidated_of_limitFits {t : ConfigTable} (h : LimitFits t) (name : String) (source : Option SourcePath) :
    IsValidated name source t := by
  have hrefused : ∀ e, ∃ e', RunFault.invalid e = .invalid e' := fun e => ⟨e, rfl⟩
  have hends := ends_ofTable (E := fun fault => ∃ e, fault = .invalid e) hrefused name source t
    (ends_timeout hrefused h _) (ends_rules hrefused t _)
  unfold IsValidated
  cases hread : ofTable? name source t with
  | ok c =>
    rw [hread] at hends
    exact .inr ⟨c, rfl, isValid_iff.mpr hends⟩
  | error fault =>
    rw [hread] at hends
    obtain ⟨e, rfl⟩ := hends
    exact .inl ⟨e, rfl⟩

/-- What becomes of a table with a limit that does not fit. -/
theorem cases_of_not_limitFits {t : ConfigTable} (h : ¬ LimitFits t) (name : String) (source : Option SourcePath) :
    (∃ e, ofTable? name source t = .error (.invalid e)) ∨
      (∃ c, ofTable? name source t = .ok c ∧ c.timeout = some (.real .nan)) ∨
      ofTable? name source t = .error .tooLarge := by
  have hlimit : Ends (fun fault => (∃ e, fault = .invalid e) ∨ fault = .tooLarge) (· = some (.real .nan))
      (timeout? t (fieldName name "timeout")) := by
    rcases timeout_of_not_limitFits h (fieldName name "timeout") with h | h
    · rw [h]
      rfl
    · rw [h]
      exact .inr rfl
  have hends := ends_ofTable (fun e => .inl ⟨e, rfl⟩) name source t hlimit
    (ends_rules (fun e => .inl ⟨e, rfl⟩) t _)
  cases hread : ofTable? name source t with
  | ok c =>
    rw [hread] at hends
    exact .inr (.inl ⟨c, rfl, hends.1⟩)
  | error fault =>
    rw [hread] at hends
    rcases hends with ⟨e, rfl⟩ | rfl
    · exact .inl ⟨e, rfl⟩
    · exact .inr (.inr rfl)

/-- A table is validated exactly if its time limit fits or something else is noticed that is wrong with it. Any other
table is accepted with a limit that is no number, or its limit is too large to be read. -/
theorem validated_iff (name : String) (source : Option SourcePath) (t : ConfigTable) :
    (IsValidated name source t ↔ LimitFits t ∨ ∃ e, ofTable? name source t = .error (.invalid e)) ∧
      (¬ IsValidated name source t →
        (∃ c, ofTable? name source t = .ok c ∧ c.timeout = some (.real .nan)) ∨
          ofTable? name source t = .error .tooLarge) := by
  refine ⟨⟨fun h => ?_, ?_⟩, fun hnot => ?_⟩
  · by_cases hfits : LimitFits t
    · exact .inl hfits
    refine .inr (h.resolve_right ?_)
    rintro ⟨c, hc, hvalid⟩
    rcases cases_of_not_limitFits hfits name source with ⟨e, he⟩ | ⟨d, hd, hnan⟩ | hlarge
    · exact absurd (hc.symm.trans he) (by simp)
    · obtain rfl : c = d := Except.ok.inj (hc.symm.trans hd)
      exact not_isValid_of_nan hnan hvalid
    · exact absurd (hc.symm.trans hlarge) (by simp)
  · rintro (hfits | hrefused)
    · exact isValidated_of_limitFits hfits name source
    · exact .inl hrefused
  · have hfits : ¬ LimitFits t := fun hfits => hnot (isValidated_of_limitFits hfits name source)
    exact (cases_of_not_limitFits hfits name source).resolve_left fun hrefused => hnot (.inl hrefused)

/-- A limit that is no number is accepted, and a large one stops the reading without a word on what is wrong. -/
theorem not_isValidated_limits :
    ¬ IsValidated "" none [("timeout", .float .nan)] ∧
      ¬ IsValidated "" none [("timeout", .integer (2 ^ 1024))] := by
  have hnan : ofTable? "" none [("timeout", .float .nan)] = .ok { timeout := some (.real .nan) } := rfl
  have hlarge : ofTable? "" none [("timeout", .integer (2 ^ 1024))] = .error .tooLarge := by decide +kernel
  constructor
  · rintro (⟨e, he⟩ | ⟨c, hc, hvalid⟩)
    · exact absurd (hnan.symm.trans he) (by simp)
    · obtain rfl := Except.ok.inj (hnan.symm.trans hc)
      exact not_isValid_of_nan rfl hvalid
  · rintro (⟨e, he⟩ | ⟨c, hc, -⟩)
    · exact absurd (hlarge.symm.trans he) (by simp)
    · exact absurd (hlarge.symm.trans hc) (by simp)

end Config

end HouseStyle
