import HouseStyle.Proofs.Provenance
import HouseStyle.Proofs.RenameMerging

/-!
# Whether fixing respects suppressions

A violation that is turned off where it stands is left out, and so its edits are not applied. But a
rename is a rename in the whole file: another violation of the same name, which is not turned off,
brings the same edits along. That is the only way in which an edit comes to the place of a violation
that has been turned off (`touches_suppressed_iff`): no other rule has edits that reach the place of
another violation of it.
-/

namespace HouseStyle

/-- Whether an edit gets in the way of the stretch that a violation points at. -/
def Edit.touches (e : Edit) (v : Violation) : Bool :=
  match v.location.bind (·.startOffset), v.location.bind (·.endOffset) with
  | some start, some stop => e.overlaps ⟨start, stop, []⟩
  | _, _ => false

/-! ## Macros -/

namespace NamingRule

/-- Behind a glyph that ends a word the words of a text are those of the rest. -/
theorem mem_wordsFrom_of_mem {g : Glyph} (hg : continuesWord g = false) {name rest : Text}
    (h : name ∈ wordsFrom [] rest) (word front : Text) : name ∈ wordsFrom word (front ++ g :: rest) := by
  have hstart : startsWord g = false := by
    cases g with
    | raw b => rfl
    | scalar c =>
      simp only [startsWord, continuesWord, Glyph.satisfies, Bool.or_eq_false_iff, Char.isAlphanum] at *
      exact ⟨hg.1.1, hg.2⟩
  induction front generalizing word with
  | nil =>
    rw [List.nil_append, wordsFrom]
    split
    · rw [hstart]
      exact h
    · rw [hg]
      exact List.mem_cons_of_mem _ h
  | cons a front ih =>
    rw [List.cons_append, wordsFrom]
    split
    · split <;> exact ih _
    · split
      · exact ih _
      · exact List.mem_cons_of_mem _ (ih _)

/-- A word at the front of a text is one of its words. -/
theorem mem_wordsFrom_takeWhile {t : Text} (word : Text) (hword : word ≠ []) :
    word.reverse ++ t.takeWhile continuesWord ∈ wordsFrom word t := by
  induction t generalizing word with
  | nil =>
    rw [wordsFrom, if_neg (by simpa using hword)]
    simp
  | cons g t ih =>
    rw [wordsFrom, if_neg (by simpa using hword), List.takeWhile_cons]
    split
    · have := ih (g :: word) (by simp)
      simpa using this
    · simp

theorem continuesWord_of_isBlank {g : Glyph} (h : g.satisfies Blank.isBlank = true) :
    continuesWord g = false := by
  cases g with
  | raw b => rfl
  | scalar c =>
    simp only [Glyph.satisfies, Blank.isBlank, Bool.or_eq_true, Bool.and_eq_true, decide_eq_true_eq,
      beq_iff_eq] at h
    simp only [continuesWord, Glyph.satisfies, Bool.or_eq_false_iff, beq_eq_false_iff_ne]
    refine ⟨Bool.eq_false_iff.mpr fun hc => ?_, ?_⟩
    · rw [Letter.isAlphanum_iff] at hc
      omega
    · rintro rfl
      exact absurd h (by decide)

/-- Behind white space, the last glyph of it stands in front. -/
theorem exists_blank_before {t : Text} (h : t.head?.any (Glyph.satisfies Blank.isBlank) = true) :
    ∃ front g, g.satisfies Blank.isBlank = true ∧
      t = front ++ g :: t.dropWhile (Glyph.satisfies Blank.isBlank) := by
  have hne : t.takeWhile (Glyph.satisfies Blank.isBlank) ≠ [] := by
    cases t with
    | nil => exact absurd h (by simp)
    | cons b more =>
      rw [List.takeWhile_cons, if_pos (by simpa using h)]
      simp
  obtain ⟨init, g, hinit⟩ := List.eq_nil_or_concat _ |>.resolve_left hne
  refine ⟨init, g, List.all_eq_true.mp List.all_takeWhile g (by rw [hinit]; simp), ?_⟩
  have hcut := List.takeWhile_append_dropWhile (p := Glyph.satisfies Blank.isBlank) (l := t)
  rw [hinit, List.concat_eq_append, List.append_assoc] at hcut
  exact hcut.symm

/-- The name of a macro is a word of its directive. -/
theorem mem_wordsFrom_of_definedName {directive lead name : Text}
    (h : Extraction.definedName? directive = some (lead, name)) :
    name ∈ wordsFrom [] directive ∧ lead.length + name.length ≤ directive.length ∧ name ≠ [] := by
  unfold Extraction.definedName? at h
  dsimp only at h
  split at h
  next rest =>
    split at h
    next => exact absurd h (by simp)
    next after hafter =>
      split at h
      next hcond =>
        obtain ⟨rfl, rfl⟩ := Prod.mk.inj (Option.some.inj h)
        rw [Bool.and_eq_true] at hcond
        obtain ⟨hblank, hstart⟩ := hcond
        obtain ⟨blanks, hblanks⟩ := List.dropWhile_suffix (l := rest) (Glyph.satisfies Blank.isBlank)
        -- a blank stands in front of the name, and so the name starts a word
        obtain ⟨front, g, hg, hbehind⟩ := exists_blank_before hblank
        generalize after.dropWhile (Glyph.satisfies Blank.isBlank) = named at *
        have hdirective : Glyph.scalar '#' :: rest =
            (.scalar '#' :: (blanks ++ (Text.ofString "define" ++ front))) ++ g :: named := by
          rw [← hblanks, Text.eq_append_of_dropLead hafter, hbehind]
          simp
        have hlen : named.length ≤ (Glyph.scalar '#' :: rest).length := by
          rw [hdirective, List.length_append]
          show named.length ≤ _ + (named.length + 1)
          omega
        cases named with
        | nil => exact absurd hstart (by simp)
        | cons a more =>
          obtain ⟨hstarts, hcontinues⟩ : startsWord a = true ∧ continuesWord a = true := by
            rw [List.takeWhile_cons] at hstart
            split at hstart
            · next hcontinues =>
              rw [List.head?_cons, Option.any_some] at hstart
              exact ⟨hstart, hcontinues⟩
            · exact absurd hstart (by simp)
          have hname : (a :: more).takeWhile continuesWord ∈ wordsFrom [] (a :: more) := by
            rw [List.takeWhile_cons, if_pos hcontinues, wordsFrom, if_pos (by rfl), if_pos hstarts]
            exact mem_wordsFrom_takeWhile [a] (by simp)
          refine ⟨?_, ?_, ?_⟩
          · rw [hdirective]
            exact mem_wordsFrom_of_mem (continuesWord_of_isBlank hg) hname [] _
          · have := (List.takeWhile_sublist continuesWord (l := a :: more)).length_le
            rw [List.length_take]
            show min _ _ + ((a :: more).takeWhile continuesWord).length ≤ _
            omega
          · show (a :: more).takeWhile continuesWord ≠ []
            rw [List.takeWhile_cons, if_pos hcontinues]
            simp
      next => exact absurd h (by simp)
  next => exact absurd h (by simp)

/-- Nothing that has the name of a macro is renamed without asking. -/
theorem name_ne_of_isSafe {f : SourceFile} {e b : Entity} {directive : Token} {new : Text}
    (hdirective : directive ∈ f.directives) (he : Extraction.IsMacroOf e directive)
    (hsafe : isSafe f (Uses.ofFile f) b new = true) : e.name ≠ b.name := by
  intro hsame
  obtain ⟨lead, hdefined, -⟩ := he.defined
  obtain ⟨-, -, -, hwords, -⟩ := isSafe_iff.mp hsafe
  rw [← hsame] at hwords
  exact hwords (List.mem_flatMap.mpr ⟨directive, hdirective, (mem_wordsFrom_of_definedName hdefined).1⟩)

end NamingRule

/-! ## Places -/

theorem Edit.touches_eq {e : Edit} {v : Violation} {f : SourceFile} {t : Token}
    (h : v.location = some (f.tokenLocation t)) : e.touches v = e.overlaps ⟨t.start, t.stop, []⟩ := by
  unfold touches
  rw [h]
  rfl

/-- An edit of one token reaches another one only if they share a glyph. -/
theorem Token.overlaps_renameTo_iff {t : Token} {new : Text} {start stop : Nat} (ht : t.start < t.stop)
    (h : start < stop) :
    (t.renameTo new).overlaps ⟨start, stop, []⟩ = true ↔ t.start < stop ∧ start < t.stop := by
  unfold Edit.overlaps Edit.isInsertion Token.renameTo
  dsimp only
  rw [if_neg (by simp only [beq_iff_eq]; omega), if_neg (by simp only [beq_iff_eq]; omega),
    Bool.and_eq_true, decide_eq_true_eq, decide_eq_true_eq]
  omega

/-- An insertion reaches a token only if it stands inside it or at its start. -/
theorem Token.overlaps_insertion_iff {place start stop : Nat} {new : Text} (h : start < stop) :
    (Edit.mk place place new).overlaps ⟨start, stop, []⟩ = true ↔ start ≤ place ∧ place < stop := by
  unfold Edit.overlaps Edit.isInsertion
  dsimp only
  rw [if_pos (by simp), if_neg (by simp only [beq_iff_eq]; omega), Bool.and_eq_true, decide_eq_true_eq,
    decide_eq_true_eq]
  omega

/-! ## The rules that fix -/

section

variable {config : Config} {isOneOfMany : Bool} {path : SourcePath} {text : Text}

/-- The edits of a rename reach the place of another report of the naming rule just if that one is
about the same name. -/
theorem NamingRule.touches_iff {a b : Entity} {v w : Violation}
    (ha : a ∈ (extract (tokens text)).entities)
    (hv : checkEntity (.ofText config isOneOfMany path text)
      (Uses.ofFile (.ofText config isOneOfMany path text)) a = some v)
    (hw : checkEntity (.ofText config isOneOfMany path text)
      (Uses.ofFile (.ofText config isOneOfMany path text)) b = some w) (hfix : w.autofix = true) :
    (∃ e ∈ w.edits, e.touches v = true) ↔ a.name = b.name := by
  obtain ⟨new, -, hsafe, hedits, -⟩ := exists_safe_of_autofix hw hfix
  obtain ⟨hexempt, -, message, suggestion, hreport⟩ := checkEntity_eq_some hv
  have hlocation : v.location = some ((SourceFile.ofText config isOneOfMany path text).tokenLocation a.token) := by
    rw [hreport]
    rfl
  have hspecial := isSpecial_of_not_exempt hexempt
  rw [hedits]
  rcases entity_cases ha with ⟨hcode, hnamed, -⟩ | ⟨directive, hmem, hdirective, hdefines⟩
  · -- the place is an identifier of that name
    have htokens := (List.mem_filter.mp hcode).1
    obtain ⟨hid, hname⟩ := hnamed.eq_text hspecial
    constructor
    · rintro ⟨e, he, htouches⟩
      obtain ⟨t, ht, -, htext, rfl⟩ := mem_rename_iff.mp he
      have ht' := (List.mem_filter.mp ht).1
      rw [Edit.touches_eq hlocation, Token.overlaps_renameTo_iff (start_lt_stop ht')
        (start_lt_stop htokens)] at htouches
      rcases tokens_apart ht' htokens with rfl | h | h
      · rw [hname, htext]
      all_goals omega
    · intro hsame
      refine ⟨_, mem_rename_iff.mpr ⟨a.token, hcode, hid, hname.symm.trans hsame, rfl⟩, ?_⟩
      rw [Edit.touches_eq hlocation, Token.overlaps_renameTo_iff (start_lt_stop htokens)
        (start_lt_stop htokens)]
      exact ⟨start_lt_stop htokens, start_lt_stop htokens⟩
  · obtain ⟨lead, hdefined, hstart, hstop⟩ := hdefines.defined
    obtain ⟨-, hlen, hne⟩ := mem_wordsFrom_of_definedName hdefined
    have hpos := List.length_pos_iff.mpr hne
    constructor
    · rintro ⟨e, he, htouches⟩
      obtain ⟨t, ht, -, -, rfl⟩ := mem_rename_iff.mp he
      obtain ⟨ht', hcode⟩ := List.mem_filter.mp ht
      obtain ⟨_, _, _, -, -, hextent, -⟩ := exists_leads_of_mem_tokens hmem
      rw [Edit.touches_eq hlocation, Token.overlaps_renameTo_iff (start_lt_stop ht') (by omega)]
        at htouches
      rcases tokens_apart ht' hmem with rfl | h | h
      · rw [Token.isCode, hdirective] at hcode
        exact absurd hcode (by simp)
      all_goals omega
    · intro hsame
      exact absurd hsame (name_ne_of_isSafe (List.mem_filter.mpr ⟨hmem, hdirective⟩) hdefines hsafe)

/-- The word `class` is put in front of the name of an enumeration, behind its keyword, and so at no
other name. -/
theorem UnscopedEnumRule.touches_eq_false {a b : Entity} {v w : Violation}
    (ha : a ∈ (extract (tokens text)).entities) (hb : b ∈ (extract (tokens text)).entities)
    (hv : checkEntity (.ofText config isOneOfMany path text) a = some v)
    (hw : checkEntity (.ofText config isOneOfMany path text) b = some w) {e : Edit}
    (he : e ∈ w.edits) : e.touches v = false := by
  obtain ⟨hkind, -, _, _, -, -, _, _, hreport⟩ := checkEntity_eq_some hv
  have hlocation : v.location = some ((SourceFile.ofText config isOneOfMany path text).tokenLocation a.token) := by
    rw [hreport]
    rfl
  obtain ⟨-, -, _, keyword, -, hkeyword, _, _, rfl⟩ := checkEntity_eq_some hw
  obtain rfl := List.mem_singleton.mp he
  -- both are words of the code
  rcases entity_cases ha with ⟨hacode, hnamed, -⟩ | ⟨_, -, -, hdefines⟩
  · have haword : a.token.kind = .identifier ∨ ∃ k, a.token.kind = .keyword k := by
      rcases hnamed with ⟨hid, -⟩ | ⟨hword, -⟩
      · exact Or.inl (by simpa [Token.isIdentifier] using hid)
      · exact Or.inr ⟨.operatorKw, by simpa [Token.isKeyword] using hword⟩
    rcases entity_cases hb with ⟨-, -, hkeywords⟩ | ⟨_, -, -, hdefines⟩
    · obtain ⟨hkcode, hkword⟩ := (hkeywords keyword hkeyword).mem
      have hatoken := (List.mem_filter.mp hacode).1
      have hktoken := (List.mem_filter.mp hkcode).1
      have hapart := stop_ne_start_of_words hktoken hatoken (Or.inr hkword) haword
      have hapos := start_lt_stop hatoken
      have hkpos := start_lt_stop hktoken
      refine Bool.eq_false_iff.mpr fun htouches => ?_
      rw [Edit.touches_eq hlocation, Token.overlaps_insertion_iff hapos] at htouches
      rcases tokens_apart hktoken hatoken with rfl | h | h <;> omega
    · rw [hdefines.keyword] at hkeyword
      exact absurd hkeyword (by simp)
  · rw [hdefines.kind] at hkind
    exact absurd hkind (by decide)

/-- A header is reported once. -/
theorem IncludeGuardRule.eq_of_mem_check {f : SourceFile} {v w : Violation} (hv : v ∈ check f)
    (hw : w ∈ check f) : v = w := by
  rw [(mem_check_iff.mp hv).2.2, (mem_check_iff.mp hw).2.2]

end

/-! ## What is left out -/

/-- Two violations are about declarations of one name: the first is a report of the naming rule, and
the second is what a run makes of another one. -/
def NamingRule.SameName (f : SourceFile) (v w : Violation) : Prop :=
  ∃ a ∈ f.model.entities, ∃ b ∈ f.model.entities, a.name = b.name ∧
    checkEntity f (Uses.ofFile f) a = some v ∧
    (checkEntity f (Uses.ofFile f) b).map (withSeverity (f.config.ruleSettings info.id).severity) = some w

/-- The edits of any other rule do not come to the place of another violation of it. -/
theorem touches_eq_false_of_ne {config : Config} {isOneOfMany : Bool} {path : SourcePath} {text : Text}
    {r : Rule} (hr : r ∈ Rule.builtin) (hrule : r.info.id ≠ NamingRule.info.id) {v w : Violation}
    (hv : v ∈ r.reports (.ofText config isOneOfMany path text))
    (hw : w ∈ r.reports (.ofText config isOneOfMany path text)) (hfix : w.autofix = true) (hne : v ≠ w)
    {e : Edit} (he : e ∈ w.edits) : e.touches v = false := by
  rcases Rule.eq_of_autofix hr hw hfix with rfl | rfl | rfl <;> rw [reports_total] at hv hw
  · exact absurd (IncludeGuardRule.eq_of_mem_check hv hw) hne
  · exact absurd rfl hrule
  · obtain ⟨a, ha, hva⟩ := List.mem_filterMap.mp hv
    obtain ⟨b, hb, hwb⟩ := List.mem_filterMap.mp hw
    exact UnscopedEnumRule.touches_eq_false ha hb hva hwb he

instance (f : SourceFile) (v w : Violation) : Decidable (NamingRule.SameName f v w) :=
  inferInstanceAs (Decidable (∃ a ∈ f.model.entities, ∃ b ∈ f.model.entities, _))

/-- The edits of a run come to the place of a violation that is turned off, from a violation of the
same rule, just if the two are about declarations of one name; then the rename brings them along. -/
theorem touches_suppressed_iff {config : Config} {isOneOfMany : Bool} {path : SourcePath} {text : Text}
    {r : Rule} (hr : r ∈ Rule.builtin) {v w : Violation}
    (hv : v ∈ r.reports (.ofText config isOneOfMany path text))
    (hoff : isTurnedOff (Suppressions.ofTokens (tokens text)) v = true)
    (hw : w ∈ fixableViolations (detectEnabled (.ofText config isOneOfMany path text)))
    (hrule : w.ruleId = v.ruleId) :
    (∃ e ∈ w.edits, e.touches v = true) ↔
      NamingRule.SameName (.ofText config isOneOfMany path text) v w := by
  obtain ⟨r', hbuiltin, -, w', hw', hfixable, hon, rfl⟩ := mem_fixableViolations_iff.mp hw
  obtain rfl : r' = r := by
    refine Rule.eq_of_id hbuiltin hr ?_
    rw [← (isOf_of_mem_reports hbuiltin hw').ruleId_eq, ← (isOf_of_mem_reports hr hv).ruleId_eq,
      ← hrule, ruleId_withSeverity]
  have hfix := (Violation.facts_of_isFixable hfixable).1
  rw [edits_withSeverity]
  -- only a rename comes to the place of another report of its rule
  by_cases hnaming : r'.info.id = NamingRule.info.id
  · obtain rfl := Rule.eq_of_id (s := .total NamingRule.info NamingRule.check) hr (by simp [Rule.builtin])
      hnaming
    rw [reports_total] at hv hw'
    obtain ⟨a, ha, hva⟩ := List.mem_filterMap.mp hv
    obtain ⟨b, hb, hwb⟩ := List.mem_filterMap.mp hw'
    constructor
    · intro h
      refine ⟨a, ha, b, hb, (NamingRule.touches_iff ha hva hwb hfix).mp h, hva, ?_⟩
      rw [hwb]
      rfl
    · rintro ⟨a', ha', b', hb', hsame, hva', hwb'⟩
      obtain ⟨w'', hw'', heq⟩ := Option.map_eq_some_iff.mp hwb'
      have hedits := congrArg Violation.edits heq
      have hauto := congrArg Violation.autofix heq
      rw [edits_withSeverity, edits_withSeverity] at hedits
      rw [autofix_withSeverity, autofix_withSeverity, hfix] at hauto
      rw [← hedits]
      exact (NamingRule.touches_iff ha' hva' hw'' hauto).mpr hsame
  · have hnot : ¬NamingRule.SameName (.ofText config isOneOfMany path text) v
        (withSeverity (config.ruleSettings r'.info.id).severity w') := by
      rintro ⟨a, ha, -, -, -, hva, -⟩
      refine hnaming ?_
      rw [← (isOf_of_mem_reports hr hv).ruleId_eq]
      exact (NamingRule.isOf_of_mem_check (List.mem_filterMap.mpr ⟨a, ha, hva⟩)).ruleId_eq
    refine iff_of_false ?_ hnot
    -- the edits of the other rules stay at the places of their own violations
    rintro ⟨e, he, htouches⟩
    have hne : v ≠ w' := by
      rintro rfl
      rw [hoff] at hon
      exact absurd hon (by decide)
    rw [touches_eq_false_of_ne hr hnaming hv hw' hfix hne he] at htouches
    exact absurd htouches (by decide)

/-- A name that is declared twice, the first time on a line where nothing is to be reported. -/
def declaredTwice : Text :=
  Text.ofString "int fooBar; // cppconform: disable-line\nvoid f() \x7b int fooBar; \x7d\n"

set_option maxRecDepth 10000 in
/-- The rename of the second declaration is a rename of the first one too. -/
theorem touches_suppressed_twice :
    ∃ v ∈ (Rule.total NamingRule.info NamingRule.check).reports
        (.ofText {} false (.ofString "a.cpp") declaredTwice),
      isTurnedOff (Suppressions.ofTokens (tokens declaredTwice)) v = true ∧
      ∃ w ∈ fixableViolations (detectEnabled (.ofText {} false (.ofString "a.cpp") declaredTwice)),
        w.ruleId = v.ruleId ∧ ∃ e ∈ w.edits, e.touches v = true := by
  obtain ⟨v, hv, hoff, w, hw, hrule, hsame⟩ :=
    SourceFile.of_asRead {} false (.ofString "a.cpp") declaredTwice
      (P := fun f => ∃ v ∈ (Rule.total NamingRule.info NamingRule.check).reports f,
        isTurnedOff f.suppressions v = true ∧
        ∃ w ∈ fixableViolations (detectEnabled f), w.ruleId = v.ruleId ∧ NamingRule.SameName f v w)
      (by
        rw [declaredTwice, Text.ofString_ofList]
        decide +kernel)
  exact ⟨v, hv, hoff, w, hw, hrule,
    (touches_suppressed_iff (by simp [Rule.builtin]) hv hoff hw hrule).mpr hsame⟩

set_option maxRecDepth 10000 in
/-- An edit that is applied at the place of a violation that is turned off. -/
theorem exists_fix_touching_suppressed :
    ∃ text updated : Text,
      applyFixes text (detectEnabled (.ofText {} false (.ofString "a.cpp") text)) = .ok updated ∧
      ∃ v ∈ NamingRule.check (.ofText {} false (.ofString "a.cpp") text),
        isTurnedOff (Suppressions.ofTokens (tokens text)) v = true ∧
        ∃ w ∈ fixableViolations (detectEnabled (.ofText {} false (.ofString "a.cpp") text)),
          w.ruleId = v.ruleId ∧ ∃ e ∈ w.edits, e.touches v = true := by
  refine ⟨declaredTwice,
    Text.ofString "int foo_bar; // cppconform: disable-line\nvoid f() \x7b int foo_bar; \x7d\n", ?_⟩
  refine SourceFile.applyFixes_of_asRead detectEnabled {} false (.ofString "a.cpp") _ _
    (P := fun f => ∃ v ∈ NamingRule.check f, isTurnedOff f.suppressions v = true ∧
      ∃ w ∈ fixableViolations (detectEnabled f), w.ruleId = v.ruleId ∧ ∃ e ∈ w.edits, e.touches v = true) ?_
  rw [declaredTwice, Text.ofString_ofList, Text.ofString_ofList]
  decide +kernel

end HouseStyle
