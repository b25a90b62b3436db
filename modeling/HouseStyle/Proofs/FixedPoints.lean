import HouseStyle.Proofs.Inserted
import HouseStyle.Proofs.Suppressed

/-!
# Texts that fixing leaves as they are

A run of the fixer applies the fixes that are open: those of enabled rules that need no asking and are
not turned off where they are reported (`OpenFix`). A text in which none is open is settled, and these are
the texts that a run gives back as they are (`applyFixes_eq_self_iff`): any fix that is applied changes the
text, since what it puts in does not stand there yet.

The result of a run need not be settled: what a first run leaves to a second one is told in
`HouseStyle.Proofs.SecondRun`.
-/

namespace HouseStyle

/-! ## Open fixes -/

/-- A fix of a rule that needs no asking, with the line on which it is reported and its edits. -/
inductive OpenFix (f : SourceFile) : RuleInfo → Option Int → List Edit → Prop where
  /-- The name of an entity is not in its style, and the rename to the proposed one is safe. -/
  | rename {e : Entity} {new : Text} (he : e ∈ f.model.entities)
    (hexempt : NamingRule.isExempt f.config.naming e = false)
    (hcased : NamingRule.isCased f.model e = false)
    (hnew : NamingRule.suggestion? f.model e = some new)
    (hsafe : NamingRule.isSafe f (NamingRule.Uses.ofFile f) e new = true) :
    OpenFix f NamingRule.info (some e.token.line) (NamingRule.rename f.code e.name new)
  /-- An enumeration with braces is unscoped, and no enumerator is known to be used bare. -/
  | scopeEnum {e : Entity} {body : Nat} {keyword : Token} (he : e ∈ f.model.entities)
    (hkind : e.kind = .enum) (hunscoped : e.isScopedEnum = false) (hbody : e.bodyScope = some body)
    (hkeyword : e.keyword = some keyword) (hclear : UnscopedEnumRule.obstacle? f body = none) :
    OpenFix f UnscopedEnumRule.info (some e.token.line)
      [⟨keyword.stop, keyword.stop, Text.ofString " class"⟩]
  /-- A header has no guard, and there is a place for one. -/
  | guard {edit : Edit} (hheader : f.path.isHeader = true)
    (hbare : IncludeGuardRule.hasGuard f = false) (hplace : IncludeGuardRule.guardEdit? f = some edit) :
    OpenFix f IncludeGuardRule.info (f.lineLocation 1).startLine [edit]

/-- All open fixes of enabled rules are turned off where they are reported. -/
def Settled (f : SourceFile) : Prop :=
  ∀ r line edits, OpenFix f r line edits → r.id ∈ f.config.enabledRuleIds Rule.defaultEnablement →
    f.suppressions.isSuppressed r.id line = true

/-- The names of the rules are not those of notes. -/
theorem isEngineNote_of_ruleId {r : Rule} (hr : r ∈ Rule.builtin) {v : Violation} (h : v.ruleId = r.info.id) :
    v.isEngineNote = false := by
  have hnames : ∀ r ∈ Rule.builtin, "engine/".isPrefixOf r.info.id = false := by decide +kernel
  unfold Violation.isEngineNote
  rw [h]
  exact hnames r hr

theorem isEngineNote_of_isOf {r : Rule} (hr : r ∈ Rule.builtin) {f : SourceFile} {v : Violation}
    (h : r.info.IsOf f v) : v.isEngineNote = false := isEngineNote_of_ruleId hr h.ruleId_eq

section

variable {config : Config} {isOneOfMany : Bool} {path : SourcePath} {text : Text}

/-- A report that may be mended without asking is an open fix. -/
theorem openFix_of_mem_reports {r : Rule} (hr : r ∈ Rule.builtin) {f : SourceFile} {w : Violation}
    (hw : w ∈ r.reports f) (hfix : w.autofix = true) : OpenFix f r.info w.line w.edits := by
  rcases Rule.eq_of_autofix hr hw hfix with rfl | rfl | rfl <;> rw [reports_total] at hw
  · obtain ⟨hheader, hbare, rfl⟩ := IncludeGuardRule.mem_check_iff.mp hw
    cases hplace : IncludeGuardRule.guardEdit? f with
    | none =>
      rw [hplace] at hfix
      exact absurd hfix (by simp [RuleInfo.violation])
    | some edit => exact .guard hheader hbare hplace
  · obtain ⟨e, he, hw⟩ := List.mem_filterMap.mp hw
    obtain ⟨hexempt, hcased, _, _, hreport⟩ := NamingRule.checkEntity_eq_some hw
    obtain ⟨new, hnew, hsafe, hedits, -⟩ := NamingRule.exists_safe_of_autofix hw hfix
    rw [hedits, hreport]
    exact .rename he hexempt hcased hnew hsafe
  · obtain ⟨e, he, hw⟩ := List.mem_filterMap.mp hw
    obtain ⟨hkind, hunscoped, body, keyword, hbody, hkeyword, _, _, rfl⟩ :=
      UnscopedEnumRule.checkEntity_eq_some hw
    have hclear : UnscopedEnumRule.obstacle? f body = none := by
      simpa [RuleInfo.violation] using hfix
    exact .scopeEnum he hkind hunscoped hbody hkeyword hclear

/-- A rename that is open replaces at least the name of its entity. -/
theorem rename_ne_nil {e : Entity} {new : Text} (he : e ∈ (extract (tokens text)).entities)
    (hexempt : NamingRule.isExempt config.naming e = false)
    (hsafe : NamingRule.isSafe (.ofText config isOneOfMany path text)
      (NamingRule.Uses.ofFile (.ofText config isOneOfMany path text)) e new = true) :
    NamingRule.rename (Token.code (tokens text)) e.name new ≠ [] := by
  rcases entity_cases he with ⟨hcode, hnamed, -⟩ | ⟨directive, hmem, hdirective, hdefines⟩
  · obtain ⟨hid, hname⟩ := hnamed.eq_text (NamingRule.isSpecial_of_not_exempt hexempt)
    exact List.ne_nil_of_mem (NamingRule.mem_rename_iff.mpr ⟨e.token, hcode, hid, hname.symm, rfl⟩)
  · have := NamingRule.name_ne_of_isSafe (List.mem_filter.mpr ⟨hmem, hdirective⟩) hdefines hsafe
    exact absurd rfl this

/-- An open fix is reported by its rule. -/
theorem exists_report_of_openFix {info : RuleInfo} {line : Option Int} {edits : List Edit}
    (h : OpenFix (.ofText config isOneOfMany path text) info line edits) :
    ∃ r ∈ Rule.builtin, r.info = info ∧
      ∃ w ∈ r.reports (.ofText config isOneOfMany path text),
        w.isFixable = true ∧ w.edits = edits ∧ w.line = line := by
  -- what a rule reports with edits, in a file with a path, can be fixed
  have fixable : ∀ {r : RuleInfo} {message location suggestion edits related},
      "engine/".isPrefixOf r.id = false → location.path.isSome = true → edits ≠ [] →
        (r.violation message location suggestion edits true related).isFixable = true := by
    intro r message location suggestion edits related hid hpath hedits
    cases edits with
    | nil => exact absurd rfl hedits
    | cons e es => simp [Violation.isFixable, Violation.isEngineNote, RuleInfo.violation, hid, hpath]
  cases h with
  | @rename e new he hexempt hcased hnew hsafe =>
    refine ⟨.total NamingRule.info NamingRule.check, by simp [Rule.builtin], rfl, ?_⟩
    obtain ⟨message, suggestion, heq⟩ := NamingRule.checkEntity_eq (.ofText config isOneOfMany path text)
      (NamingRule.Uses.ofFile (.ofText config isOneOfMany path text)) e
    rw [hexempt, hcased, if_neg (by decide)] at heq
    refine ⟨_, List.mem_filterMap.mpr ⟨e, he, heq⟩, ?_⟩
    unfold NamingRule.fix
    rw [hnew]
    dsimp only
    rw [hsafe]
    exact ⟨fixable (by decide +kernel) rfl (rename_ne_nil he hexempt hsafe), rfl, rfl⟩
  | @scopeEnum e body keyword he hkind hunscoped hbody hkeyword hclear =>
    refine ⟨.total UnscopedEnumRule.info UnscopedEnumRule.check, by simp [Rule.builtin], rfl, ?_⟩
    have heq : ∃ w, UnscopedEnumRule.checkEntity (.ofText config isOneOfMany path text) e = some w ∧
        w.isFixable = true ∧ w.edits = [⟨keyword.stop, keyword.stop, Text.ofString " class"⟩] ∧
          w.line = some e.token.line := by
      unfold UnscopedEnumRule.checkEntity
      rw [hkind, hunscoped, if_neg (by decide), hbody, hkeyword]
      dsimp only
      rw [hclear]
      exact ⟨_, rfl, fixable (by decide +kernel) rfl (by simp), rfl, rfl⟩
    obtain ⟨w, hw, hrest⟩ := heq
    exact ⟨w, List.mem_filterMap.mpr ⟨e, he, hw⟩, hrest⟩
  | @guard edit hheader hbare hplace =>
    refine ⟨.total IncludeGuardRule.info IncludeGuardRule.check, by simp [Rule.builtin], rfl, ?_⟩
    rw [reports_total]
    refine ⟨_, IncludeGuardRule.mem_check_iff.mpr ⟨hheader, hbare, rfl⟩, ?_⟩
    rw [hplace]
    exact ⟨fixable (by decide +kernel) rfl (by simp), rfl, rfl⟩

/-- The fixes of a run are the open ones of enabled rules that are not turned off. -/
theorem exists_fixable_iff {edits : List Edit} :
    (∃ v ∈ fixableViolations (detectEnabled (.ofText config isOneOfMany path text)), v.edits = edits) ↔
      ∃ info line, OpenFix (.ofText config isOneOfMany path text) info line edits ∧
        info.id ∈ config.enabledRuleIds Rule.defaultEnablement ∧
        (Suppressions.ofTokens (tokens text)).isSuppressed info.id line = false := by
  have off : ∀ {r : Rule} {w : Violation}, r ∈ Rule.builtin →
      r.info.IsOf (.ofText config isOneOfMany path text) w →
      isTurnedOff (Suppressions.ofTokens (tokens text)) w =
        (Suppressions.ofTokens (tokens text)).isSuppressed r.info.id w.line := by
    intro r w hr hof
    unfold isTurnedOff
    rw [isEngineNote_of_isOf hr hof, hof.ruleId_eq]
    rfl
  constructor
  · rintro ⟨v, hv, rfl⟩
    obtain ⟨r, hr, henabled, w, hw, hfixable, hon, rfl⟩ := mem_fixableViolations_iff.mp hv
    rw [off hr (isOf_of_mem_reports hr hw)] at hon
    rw [edits_withSeverity]
    exact ⟨r.info, w.line, openFix_of_mem_reports hr hw (Violation.facts_of_isFixable hfixable).1,
      henabled, hon⟩
  · rintro ⟨_, _, hopen, henabled, hon⟩
    obtain ⟨r, hr, rfl, w, hw, hfixable, rfl, rfl⟩ := exists_report_of_openFix hopen
    rw [← off hr (isOf_of_mem_reports hr hw)] at hon
    exact ⟨_, mem_fixableViolations_iff.mpr ⟨r, hr, henabled, w, hw, hfixable, hon, rfl⟩,
      edits_withSeverity _ w⟩

/-- Nothing is fixed in a settled text, and in no other one. -/
theorem fixableViolations_eq_nil_iff :
    fixableViolations (detectEnabled (.ofText config isOneOfMany path text)) = [] ↔
      Settled (.ofText config isOneOfMany path text) := by
  constructor
  · intro h info line edits hopen henabled
    refine Bool.not_eq_false _ |>.mp fun hon => ?_
    obtain ⟨v, hv, -⟩ := exists_fixable_iff.mpr ⟨info, line, hopen, henabled, hon⟩
    rw [h] at hv
    exact absurd hv (by simp)
  · intro h
    refine List.eq_nil_iff_forall_not_mem.mpr fun v hv => ?_
    obtain ⟨info, line, hopen, henabled, hon⟩ := exists_fixable_iff.mp ⟨v, hv, rfl⟩
    rw [show (Suppressions.ofTokens (tokens text)).isSuppressed info.id line = true from
      h info line v.edits hopen henabled] at hon
    exact absurd hon (by decide)

/-! ## Every open fix shows -/

/-- Every edit of an open fix puts something in, in the place of a name or where no word goes on. -/
theorem OpenFix.edit_cases {info : RuleInfo} {line : Option Int} {edits : List Edit}
    (h : OpenFix (.ofText config isOneOfMany path text) info line edits) {edit : Edit}
    (hmem : edit ∈ edits) :
    edit.replacement ≠ [] ∧
      ((∃ t ∈ tokens text, t.kind = .identifier ∧ edit.start = t.start) ∨
        Lexeme.EndsWord edit.replacement) := by
  cases h with
  | rename he hexempt hcased hnew hsafe =>
    obtain ⟨t, ht, hkind, hname, rfl⟩ := NamingRule.mem_rename_iff.mp hmem
    have htokens := (List.mem_filter.mp ht).1
    obtain ⟨-, ⟨g, more, hstart, -⟩, -⟩ :=
      NamingRule.suggestion_facts hnew (hname ▸ isName_text htokens hkind)
    refine ⟨?_, Or.inl ⟨t, htokens, hkind, rfl⟩⟩
    show _ ≠ []
    rw [Token.renameTo, hstart]
    simp
  | scopeEnum he hkind hunscoped hbody hkeyword hclear =>
    obtain rfl := List.mem_singleton.mp hmem
    exact ⟨List.cons_ne_nil _ _, Or.inr (Lexeme.endsWord_cons.mpr (by decide))⟩
  | guard hheader hbare hplace =>
    obtain rfl := List.mem_singleton.mp hmem
    rcases IncludeGuardRule.guardEdit_eq_some hplace with rfl | rfl |
      ⟨_, -, _, _, -, -, ⟨-, rfl⟩ | ⟨-, rfl⟩⟩
    all_goals exact ⟨List.cons_ne_nil _ _, Or.inr (Lexeme.endsWord_cons.mpr (by decide))⟩

/-- Edits that all belong to open fixes. -/
def FromOpenFixes (f : SourceFile) (edits : List Edit) : Prop :=
  ∀ e ∈ edits, ∃ info line es, OpenFix f info line es ∧ e ∈ es

theorem FromOpenFixes.replacement_ne_nil {edits : List Edit}
    (h : FromOpenFixes (.ofText config isOneOfMany path text) edits) : ∀ e ∈ edits, e.replacement ≠ [] := by
  intro e he
  obtain ⟨_, _, _, hfix, hmem⟩ := h e he
  exact (hfix.edit_cases hmem).1

/-- No word goes on behind a name, whatever is put in behind it. -/
theorem endsWord_splice {t : Token} (ht : t ∈ tokens text) (hkind : t.kind = .identifier)
    {edits : List Edit} (hwithin : ∀ e ∈ edits, e.Within text.length)
    (hstart : ∀ e ∈ edits, (t.stop : Int) ≤ e.start)
    (hopen : FromOpenFixes (.ofText config isOneOfMany path text) edits) :
    Lexeme.EndsWord (splice t.stop (text.drop t.stop) edits) := by
  rcases head_splice (stop_le_length ht) hwithin hopen.replacement_ne_nil with
    hhead | ⟨e, he, hplace, hhead⟩
  · rw [Lexeme.endsWord_congr hhead]
    exact (word_of_mem_tokens ht (Or.inl hkind)).2.2.2
  · rw [Lexeme.endsWord_congr hhead]
    obtain ⟨_, _, _, hfix, hmem⟩ := hopen e he
    rcases (hfix.edit_cases hmem).2 with ⟨u, hu, hukind, hustart⟩ | hend
    · -- two words do not touch
      have := hstart e he
      exact absurd (by omega) (stop_ne_start_of_words ht hu (Or.inl hkind) (Or.inl hukind))
    · exact hend

/-- A batch of open fixes changes the text. -/
theorem splice_ne_self {edits : List Edit} (hne : edits ≠ [])
    (hwithin : ∀ e ∈ edits, e.Within text.length) (hbefore : edits.Pairwise Edit.Before)
    (hopen : FromOpenFixes (.ofText config isOneOfMany path text) edits) :
    splice 0 text edits ≠ text := by
  intro hsame
  obtain ⟨e, later, rfl⟩ := List.exists_cons_of_ne_nil hne
  obtain ⟨hfirst, -⟩ := List.pairwise_cons.mp hbefore
  -- what the first edit puts in would stand there already
  have hthere := drop_start_of_splice_eq hsame
  obtain ⟨info, line, es, hfix, hmem⟩ := hopen e List.mem_cons_self
  have hlater : FromOpenFixes (.ofText config isOneOfMany path text) later :=
    fun a ha => hopen a (List.mem_cons_of_mem e ha)
  rw [List.forall_mem_cons] at hwithin
  cases hfix with
  | @rename a new he hexempt hcased hnew hsafe =>
    obtain ⟨t, ht, hkind, hname, rfl⟩ := NamingRule.mem_rename_iff.mp hmem
    have htokens := (List.mem_filter.mp ht).1
    have hisName := (NamingRule.suggestion_facts hnew (hname ▸ isName_text htokens hkind)).2.2
    have hend := endsWord_splice htokens hkind hwithin.2 (fun a ha => (hfirst a ha).1) hlater
    exact NamingRule.isSafe_fresh hsafe ht hkind
      (eq_text_of_name_at htokens hkind hisName.2.1 hend hthere).symm
  | @scopeEnum a body keyword he hkind hunscoped hbody hkeyword hclear =>
    obtain rfl := List.mem_singleton.mp hmem
    change text.drop keyword.stop = Text.ofString " class" ++ splice keyword.stop (text.drop keyword.stop) later
      at hthere
    have hstop : keyword.stop ≤ text.length := Int.ofNat_le.mp hwithin.1.2.2
    rcases head_splice hstop hwithin.2 hlater.replacement_ne_nil with hhead | ⟨b, hb, hplace, -⟩
    · have hspace : (text.drop keyword.stop).head? = some (.scalar ' ') := by
        rw [hthere]
        rfl
      obtain ⟨rest, hrest⟩ := List.head?_eq_some_iff.mp (hhead.trans hspace)
      rw [hrest] at hthere
      rw [isScopedEnum_of_class_behind he hkeyword hkind hthere] at hunscoped
      exact absurd hunscoped (by decide)
    · have : (keyword.stop : Int) < b.start := (hfirst b hb).2
      omega
  | @guard _ hheader hbare hplace =>
    obtain rfl := List.mem_singleton.mp hmem
    rw [IncludeGuardRule.hasGuard_of_inserted hplace hthere] at hbare
    exact absurd hbare (by decide)

/-- Fixes that are applied change the text, even if they are not all that could be. -/
theorem applyFixes_ne_self {vs : List Violation} {v : Violation}
    (hsub : ∀ w ∈ vs, w ∈ detectEnabled (.ofText config isOneOfMany path text)) (hv : v ∈ vs)
    (hfix : v.isFixable = true) : applyFixes text vs ≠ .ok text := by
  intro h
  obtain ⟨edits, hmem, hwithin, hbefore, hsame, -⟩ := applyFixes_ok h
  obtain ⟨e, more, hcons⟩ := List.exists_cons_of_ne_nil (Violation.facts_of_isFixable hfix).2
  have he : e ∈ edits :=
    (hmem e).mpr ⟨v, List.mem_filter.mpr ⟨hv, hfix⟩, by rw [hcons]; exact List.mem_cons_self⟩
  have hopen : FromOpenFixes (.ofText config isOneOfMany path text) edits := by
    intro a ha
    obtain ⟨w, hw, haw⟩ := (hmem a).mp ha
    obtain ⟨hw, hwfix⟩ := List.mem_filter.mp hw
    obtain ⟨info, line, hopen, -⟩ :=
      exists_fixable_iff.mp ⟨w, List.mem_filter.mpr ⟨hsub w hw, hwfix⟩, rfl⟩
    exact ⟨info, line, w.edits, hopen, haw⟩
  exact splice_ne_self (List.ne_nil_of_mem he) hwithin hbefore hopen hsame.symm

/-- A run gives a text back as it is exactly when that is settled. -/
theorem applyFixes_eq_self_iff :
    applyFixes text (detectEnabled (.ofText config isOneOfMany path text)) = .ok text ↔
      Settled (.ofText config isOneOfMany path text) := by
  rw [← fixableViolations_eq_nil_iff]
  constructor
  · intro h
    refine List.eq_nil_iff_forall_not_mem.mpr fun v hv => ?_
    obtain ⟨hv, hfix⟩ := List.mem_filter.mp hv
    exact applyFixes_ne_self (fun _ => id) hv hfix h
  · intro h
    unfold applyFixes planEdits
    rw [h]
    simp [distinctEdits, checkBatch, Except.map]

end

end HouseStyle
