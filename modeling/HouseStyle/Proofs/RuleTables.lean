import HouseStyle.Proofs.Reporting
import HouseStyle.Proofs.ValidTables

/-!
# What becomes of the settings of rules

A configuration can hold a table for each rule, under the name of the rule in any case and with white space
around it. So two keys may stand for one rule. What is said of a rule should then be kept whichever key it stands
under (`Config.Reflects`), but each table replaces what was read before of its rule (`lookup_rulesFrom`), and with
it settings that it does not repeat.

- `reflects_iff`: a table is reflected just if the last one for its rule repeats what it says.
- `exists_dropped_setting`: a rule that is turned off under one key and runs, since another key gives it a
  severity.
-/

namespace HouseStyle

namespace Config

/-! ## What a table says of a rule -/

/-- The name of the rule that a key stands for. -/
def ruleName (key : String) : String := Case.lower (Blank.trim key)

/-- A table turns its rule on or off. -/
def SaysEnabled (entries : ConfigTable) (b : Bool) : Prop := entries.lookup "enabled" = some (.boolean b)

/-- A table gives its rule a severity, for which `warn` is another word for `warning`. -/
def SaysSeverity (entries : ConfigTable) (severity : Severity) : Prop :=
  ∃ word, entries.lookup "severity" = some (.string word) ∧
    (Case.lower (Blank.trim word) = severity.label ∨
      severity = .warning ∧ Case.lower (Blank.trim word) = "warn")

/-- What one table says of a rule another one says, too. -/
structure Repeats (first last : ConfigTable) : Prop where
  enabled : ∀ b, SaysEnabled first b → SaysEnabled last b
  severity : ∀ severity, SaysSeverity first severity → SaysSeverity last severity

/-- What a table says of a rule is in the settings of the rule, in whether the rule runs and in what it reports. -/
structure Reflects (c : Config) (key : String) (entries : ConfigTable) : Prop where
  enabled : ∀ b, SaysEnabled entries b → (c.ruleSettings (ruleName key)).enabled = some b
  severity : ∀ severity, SaysSeverity entries severity → (c.ruleSettings (ruleName key)).severity = some severity
  runs : ∀ b, SaysEnabled entries b → ∀ r ∈ Rule.builtin, r.info.id = ruleName key →
    (r ∈ Rule.enabled c ↔ b = true)
  reports : ∀ severity, SaysSeverity entries severity → ∀ r ∈ Rule.builtin, r.info.id = ruleName key →
    ∀ f : SourceFile, f.config = c → ∀ v ∈ detectRule f r, v.severity = severity

/-- The settings of a rule decide whether it runs and how its violations are reported. -/
theorem Reflects.of_settings {c : Config} {key : String} {entries : ConfigTable}
    (henabled : ∀ b, SaysEnabled entries b → (c.ruleSettings (ruleName key)).enabled = some b)
    (hseverity : ∀ severity, SaysSeverity entries severity →
      (c.ruleSettings (ruleName key)).severity = some severity) : c.Reflects key entries where
  enabled := henabled
  severity := hseverity
  runs b hb r hr hid := by
    have hsetting := henabled b hb
    rw [← hid] at hsetting
    have hmem : r.info.id ∈ c.enabledRuleIds Rule.defaultEnablement ↔ b = true := by
      simp only [enabledRuleIds, Rule.defaultEnablement, List.mem_map, List.mem_filter]
      constructor
      · rintro ⟨⟨id, byDefault⟩, ⟨-, hon⟩, rfl⟩
        simpa [hsetting] using hon
      · rintro rfl
        exact ⟨(r.info.id, r.info.enabledByDefault), ⟨⟨r, hr, rfl⟩, by simp [hsetting]⟩, rfl⟩
    rw [Rule.enabled, List.mem_filter, List.contains_iff_mem, hmem]
    exact and_iff_right hr
  reports severity hs r hr hid f hf v hv := by
    obtain ⟨w, -, rfl, -⟩ := (mem_detectRule_iff hr).mp hv
    rw [hf, hid, hseverity severity hs]
    rfl

/-! ## Reading the tables of rules -/

theorem ofLabel_eq_some_iff {word : String} {severity : Severity} :
    Severity.ofLabel? word = some severity ↔ word = severity.label := by
  constructor
  · intro h
    unfold Severity.ofLabel? at h
    have hlabel := List.find?_some h
    exact (beq_iff_eq.mp hlabel).symm
  · rintro rfl
    cases severity <;> decide

theorem label_injective : Function.Injective Severity.label := by
  intro a b h
  exact Option.some.inj ((ofLabel_eq_some_iff.mpr rfl).symm.trans (ofLabel_eq_some_iff.mpr h))

theorem enabled_eq_some_iff {t : ConfigTable} {field : String} {enabled : Option Bool}
    (h : enabled? t field = .ok enabled) (b : Bool) : enabled = some b ↔ SaysEnabled t b := by
  unfold SaysEnabled
  unfold enabled? at h
  split at h
  next hlookup =>
    obtain rfl := Except.ok.inj h
    simp [hlookup]
  next hlookup =>
    obtain rfl := Except.ok.inj h
    simp [hlookup]
  next hlookup =>
    obtain rfl := Except.ok.inj h
    simp [hlookup]
  next => exact absurd h (by simp [refuse])

theorem severity_eq_some_iff {t : ConfigTable} {field : String} {severity : Option Severity}
    (h : severity? t field = .ok severity) (s : Severity) : severity = some s ↔ SaysSeverity t s := by
  unfold SaysSeverity
  unfold severity? at h
  split at h
  next hlookup =>
    obtain rfl := Except.ok.inj h
    simp [hlookup]
  next hlookup =>
    obtain rfl := Except.ok.inj h
    simp [hlookup]
  next word hlookup =>
    simp only [hlookup, Option.some.injEq, ConfigValue.string.injEq, exists_eq_left']
    dsimp only at h
    split at h
    next s' hlabel =>
      obtain rfl := Except.ok.inj h
      rw [ofLabel_eq_some_iff] at hlabel
      by_cases hwarn : Case.lower (Blank.trim word) = "warn"
      · -- another word for `warning`, and the label of no severity
        rw [if_pos (beq_iff_eq.mpr hwarn)] at hlabel
        obtain rfl : s' = .warning := label_injective hlabel.symm
        have hother : "warn" ≠ s.label := by cases s <;> decide
        simp [hwarn, hother, eq_comm]
      · rw [if_neg (by simpa using hwarn)] at hlabel
        rw [hlabel, label_injective.eq_iff]
        simp [← hlabel, hwarn]
    next => exact absurd h (by simp [refuse])
  next => exact absurd h (by simp [refuse])

/-- The settings that are read from a table are what the table says. -/
theorem ruleSettings_eq_ok {field : String} {v : ConfigValue} {settings : RuleSettings}
    (h : ruleSettings? field v = .ok settings) :
    ∃ entries, v = .table entries ∧ (∀ b, settings.enabled = some b ↔ SaysEnabled entries b) ∧
      ∀ severity, settings.severity = some severity ↔ SaysSeverity entries severity := by
  unfold ruleSettings? at h
  split at h
  next entries =>
    have hends : Ends (fun _ => True) (fun settings =>
        (∀ b, settings.enabled = some b ↔ SaysEnabled entries b) ∧
          ∀ severity, settings.severity = some severity ↔ SaysSeverity entries severity)
        (ruleSettings? field (.table entries)) :=
      (ends_checkKeys (fun _ => trivial) field _ entries).bind fun _ _ =>
        (ends_self (enabled? entries _)).bind fun _ henabled =>
          (ends_self (severity? entries _)).bind fun _ hseverity =>
            ⟨enabled_eq_some_iff henabled, severity_eq_some_iff hseverity⟩
    rw [ruleSettings?, h] at hends
    exact ⟨entries, rfl, hends⟩
  next => exact absurd h (by simp [refuse])

/-- The last value under a key for a rule. -/
def lastFor (ruleId : String) (entries : ConfigTable) : Option ConfigValue :=
  (entries.reverse.find? fun e => ruleName e.1 == ruleId).map (·.2)

theorem lastFor_cons (ruleId key : String) (v : ConfigValue) (entries : ConfigTable) :
    lastFor ruleId ((key, v) :: entries) =
      (lastFor ruleId entries).or (if ruleName key = ruleId then some v else none) := by
  unfold lastFor
  rw [List.reverse_cons, List.find?_append]
  cases entries.reverse.find? fun e => ruleName e.1 == ruleId with
  | some e => rfl
  | none =>
    by_cases h : ruleName key = ruleId <;> simp [h]

theorem lookup_setRule (ruleId id : String) (settings : RuleSettings) (rs : List (String × RuleSettings)) :
    (setRule ruleId settings rs).lookup id = if id = ruleId then some settings else rs.lookup id := by
  induction rs with
  | nil =>
    rw [setRule, List.lookup_cons]
    by_cases h : id = ruleId
    · simp [h]
    · simp [beq_eq_false_iff_ne.mpr h, h]
  | cons r rs ih =>
    obtain ⟨name, old⟩ := r
    rw [setRule]
    by_cases hname : name = ruleId
    · subst hname
      by_cases h : id = name
      · simp [h]
      · simp [List.lookup_cons, beq_eq_false_iff_ne.mpr h, h]
    · rw [if_neg hname, List.lookup_cons, List.lookup_cons, ih]
      by_cases h : id = name
      · simp [h, hname]
      · simp [beq_eq_false_iff_ne.mpr h]

/-- A rule has the settings of the last table for it, or those that it had if there is none. -/
theorem lookup_rulesFrom {name : String} {done rs : RuleTable} {entries : ConfigTable}
    (h : rulesFrom name done entries = .ok rs) (id : String) :
    (∀ v, lastFor id entries = some v →
      ∃ field settings, ruleSettings? field v = .ok settings ∧ rs.1.lookup id = some settings) ∧
      (lastFor id entries = none → rs.1.lookup id = done.1.lookup id) := by
  fun_induction rulesFrom name done entries with
  | case1 done =>
    cases h
    exact ⟨fun v hv => absurd hv (by simp [lastFor]), fun _ => rfl⟩
  | case2 done key value rest => exact absurd h (by simp [refuse])
  | case3 done key value rest ruleId field _ e he => exact absurd h (by simp)
  | case4 done key value rest ruleId field hid settings hsettings ih =>
    obtain ⟨hlast, hnone⟩ := ih h
    rw [lastFor_cons]
    cases hrest : lastFor id rest with
    | some w => exact ⟨fun v hv => hlast v (hrest.trans hv), fun hn => absurd hn (by simp)⟩
    | none =>
      rw [Option.none_or, hnone hrest, RuleTable.set, lookup_setRule, show ruleId = ruleName key from rfl]
      -- no later key is for the rule, so this one decides if it is
      by_cases hkey : ruleName key = id
      · rw [if_pos hkey, if_pos hkey.symm]
        refine ⟨fun v hv => ?_, fun hn => absurd hn (by simp)⟩
        obtain rfl := Option.some.inj hv
        exact ⟨field, settings, hsettings, rfl⟩
      · rw [if_neg hkey, if_neg fun h => hkey h.symm]
        exact ⟨fun v hv => absurd hv (by simp), fun _ => rfl⟩

/-- The settings of a rule are those of the last table for it. -/
theorem exists_last {name : String} {source : Option SourcePath} {t : ConfigTable} {c : Config}
    (h : ofTable? name source t = .ok c) {entries : ConfigTable} (hrules : t.lookup "rules" = some (.table entries))
    {key : String} {v : ConfigValue} (hmem : (key, v) ∈ entries) :
    ∃ last, lastFor (ruleName key) entries = some (.table last) ∧
      (∀ b, (c.ruleSettings (ruleName key)).enabled = some b ↔ SaysEnabled last b) ∧
        ∀ severity, (c.ruleSettings (ruleName key)).severity = some severity ↔ SaysSeverity last severity := by
  have hread : rulesFrom (fieldName name "rules") ⟨[], List.nodup_nil⟩ entries = .ok ⟨c.rules, c.rulesOnce⟩ := by
    have hends := ends_ofTable (fun _ => trivial) name source t (ends_self (timeout? t _)) (ends_self (rules? t _))
    rw [h] at hends
    have hread := hends.2.2
    rwa [rules?, tableOf, hrules] at hread
  cases hlast : lastFor (ruleName key) entries with
  | none =>
    -- there is a table for the rule, the one that is given
    refine absurd hlast ?_
    simp only [lastFor, Option.map_eq_none_iff, List.find?_eq_none, List.mem_reverse, not_forall]
    exact ⟨(key, v), hmem, by simp⟩
  | some w =>
    obtain ⟨field, settings, hsettings, hlookup⟩ := (lookup_rulesFrom hread (ruleName key)).1 w hlast
    obtain ⟨last, rfl, hmeans⟩ := ruleSettings_eq_ok hsettings
    rw [ruleSettings, show c.rules.lookup (ruleName key) = some settings from hlookup]
    exact ⟨last, rfl, hmeans⟩

/-! ## Tables that are reflected -/

/-- A table of an accepted configuration is reflected exactly if the last table for its rule, under whichever key,
repeats what it says. -/
theorem reflects_iff {name : String} {source : Option SourcePath} {t : ConfigTable} {c : Config}
    (h : ofTable? name source t = .ok c) {entries : ConfigTable} (hrules : t.lookup "rules" = some (.table entries))
    {key : String} {sub : ConfigTable} (hmem : (key, .table sub) ∈ entries) :
    c.Reflects key sub ↔ ∀ last, lastFor (ruleName key) entries = some (.table last) → Repeats sub last := by
  obtain ⟨last, hlast, henabled, hseverity⟩ := exists_last h hrules hmem
  rw [hlast]
  constructor
  · intro hreflects w hw
    obtain rfl : last = w := by simpa using hw
    exact ⟨fun b hb => (henabled b).mp (hreflects.enabled b hb),
      fun severity hs => (hseverity severity).mp (hreflects.severity severity hs)⟩
  · intro hrepeats
    have hlater := hrepeats last rfl
    exact .of_settings (fun b hb => (henabled b).mpr (hlater.enabled b hb))
      fun severity hs => (hseverity severity).mpr (hlater.severity severity hs)

/-- A rule with one table, under a name in capitals. -/
theorem reflects_single :
    ofTable? "" none [("rules", .table [(" Naming-Casing", .table [("enabled", .boolean false)])])] =
        .ok { rules := [("naming-casing", { enabled := some false })] } ∧
      Reflects { rules := [("naming-casing", { enabled := some false })] } " Naming-Casing"
        [("enabled", .boolean false)] := by
  have hread : ofTable? "" none [("rules", .table [(" Naming-Casing", .table [("enabled", .boolean false)])])] =
      .ok { rules := [("naming-casing", { enabled := some false })] } := by decide +kernel
  refine ⟨hread, (reflects_iff hread rfl (List.mem_singleton_self _)).mpr fun last hlast => ?_⟩
  obtain rfl : [("enabled", .boolean false)] = last := by simpa [lastFor] using hlast
  exact ⟨fun _ h => h, fun _ h => h⟩

/-- The two keys stand for one rule, which the first of them turns off. The rule runs. -/
theorem exists_dropped_setting :
    ∃ c, ofTable? "" none [("rules", .table [("Naming-Casing", .table [("enabled", .boolean false)]),
          ("naming-casing", .table [("severity", .string "error")])])] = .ok c ∧
      ¬ c.Reflects "Naming-Casing" [("enabled", .boolean false)] ∧
      (c.ruleSettings "naming-casing").enabled = none ∧
      ∃ r ∈ Rule.enabled c, r.info.id = ruleName "Naming-Casing" := by
  refine ⟨{ rules := [("naming-casing", { severity := some .error })] }, by decide +kernel, fun h => ?_, by decide,
    Rule.total NamingRule.info NamingRule.check, ?_, by decide +kernel⟩
  · exact absurd (h.enabled false rfl) (by decide +kernel)
  · simp only [Rule.enabled, List.mem_filter]
    exact ⟨by simp [Rule.builtin], by decide +kernel⟩

end Config

end HouseStyle
