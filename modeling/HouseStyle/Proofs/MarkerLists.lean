import HouseStyle.Proofs.InOrder
import HouseStyle.Proofs.MarkerSites
import HouseStyle.Proofs.MarkerSteps

/-!
# Lists of rules in markers

A marker can list the rules that it is about: behind its keyword, a sign and names with commas between them. What
is listed is written there (`isWritten_of_mem_rules`), and a marker with a list leaves every other rule alone
(`isNarrow_of_rules`).

But there is a list only if a name stands right behind the sign and its blanks. If anything else stands there, the
sign is passed over together with all that follows, and the marker is one without a list, which is about all rules.

- `narrow_iff_named`: a marker with a sign keeps to what is written behind it just if a name stands there first.
- `exists_widened_marker`: a marker with one quoted name turns off every rule.
-/

namespace HouseStyle

namespace Marker

/-! ## Names -/

theorem isRuleGlyph_of_isBlank {g : Glyph} (h : isBlank g = true) : isRuleGlyph g = false := by
  cases g with
  | raw b => rfl
  | scalar c =>
    have hword : ∀ d : Char, isBlank (.scalar d) = false → c ≠ d := by
      rintro d hd rfl
      exact absurd (h.symm.trans hd) (by decide)
    have halphanum : c.isAlphanum = false := by
      refine Bool.eq_false_iff.mpr fun hc => ?_
      rw [Letter.isAlphanum_iff] at hc
      simp only [isBlank, Glyph.satisfies, Blank.isBlank, Bool.or_eq_true, Bool.and_eq_true, decide_eq_true_eq,
        beq_iff_eq] at h
      omega
    simp [isRuleGlyph, Glyph.satisfies, halphanum, hword '_' (by decide), hword '/' (by decide),
      hword '-' (by decide), hword 'İ' (by decide), hword 'ı' (by decide), hword 'ſ' (by decide),
      hword '\u212A' (by decide)]

/-- A stretch of a text that is a whole name: no name goes on before it or behind it. -/
structure IsName (name t : Text) : Prop where
  ne_nil : name ≠ []
  isRuleGlyph : ∀ g ∈ name, isRuleGlyph g = true
  whole : ∃ front rest, t = front ++ (name ++ rest) ∧
    front.getLast?.any Marker.isRuleGlyph = false ∧ rest.head?.any Marker.isRuleGlyph = false

/-- A rule is written in a text: its name, in any case, is a whole name there. -/
def IsWritten (rule : String) (t : Text) : Prop :=
  ∃ name, IsName name t ∧ (Case.lowerText name).toString? = some rule

/-- Nothing of a text goes on into the names behind a separator. -/
theorem any_getLast_separator (front : Text) {blanks : Text} (hblanks : ∀ g ∈ blanks, isBlank g = true) :
    (front ++ .scalar ',' :: blanks).getLast?.any isRuleGlyph = false := by
  rcases List.eq_nil_or_concat blanks with rfl | ⟨init, g, rfl⟩
  · rw [List.getLast?_concat]
    decide
  · have hg := hblanks g (by simp)
    rw [List.concat_eq_append, ← List.cons_append, ← List.append_assoc, List.getLast?_concat, Option.any_some]
    exact isRuleGlyph_of_isBlank hg

theorem forall_mem_takeWhile {p : Glyph → Bool} {t : Text} : ∀ g ∈ t.takeWhile p, p g = true :=
  fun _ hg => List.all_eq_true.mp List.all_takeWhile _ hg

/-- What is read as a name is a whole name of the text. -/
theorem isName_of_mem_namesFrom {word t name front : Text} (hname : name ∈ (namesFrom word t).1)
    (hne : word ≠ []) (hword : ∀ g ∈ word, isRuleGlyph g = true)
    (hfront : front.getLast?.any isRuleGlyph = false) : IsName name (front ++ (word.reverse ++ t)) := by
  have hwhole : ∀ {word rest : Text}, word ≠ [] → (∀ g ∈ word, isRuleGlyph g = true) →
      rest.head?.any isRuleGlyph = false → ∀ {front : Text}, front.getLast?.any isRuleGlyph = false →
        IsName word.reverse (front ++ (word.reverse ++ rest)) := by
    intro word rest hne hword hrest front hfront
    exact ⟨by simpa using hne, by simpa using hword, front, rest, rfl, hfront, hrest⟩
  fun_induction namesFrom word t generalizing front with
  | case1 word =>
    rw [List.mem_singleton.mp hname]
    exact hwhole hne hword rfl hfront
  | case2 word g rest hg ih =>
    have := ih hname (by simp) (List.forall_mem_cons.mpr ⟨hg, hword⟩) hfront
    rwa [List.reverse_cons, List.append_assoc, List.singleton_append] at this
  | case3 word g rest hg after hcomma next more hnext hglyph names last hnames ih =>
    rcases List.mem_cons.mp hname with rfl | hlater
    · exact hwhole hne hword (by simpa using hg) hfront
    · -- the name stands behind the comma
      rw [hnames] at ih
      have hblanks : ∀ g ∈ after.takeWhile isBlank, isBlank g = true := forall_mem_takeWhile
      have hrest := List.takeWhile_append_dropWhile (p := isBlank) (l := g :: rest)
      have hafter := List.takeWhile_append_dropWhile (p := isBlank) (l := after)
      rw [hcomma] at hrest
      rw [hnext] at hafter
      have := ih hlater (by simp) (by simpa using hglyph)
        (any_getLast_separator (front ++ (word.reverse ++ (g :: rest).takeWhile isBlank)) hblanks)
      rw [← hrest, ← hafter]
      simpa using this
  | case4 word g rest hg after hcomma next more hnext hglyph =>
    rw [List.mem_singleton.mp hname]
    exact hwhole hne hword (by simpa using hg) hfront
  | case5 word g rest hg after hcomma hnext =>
    rw [List.mem_singleton.mp hname]
    exact hwhole hne hword (by simpa using hg) hfront
  | case6 word g rest hg hcomma =>
    rw [List.mem_singleton.mp hname]
    exact hwhole hne hword (by simpa using hg) hfront

theorem namesFrom_ne_nil (word t : Text) : (namesFrom word t).1 ≠ [] := by
  fun_induction namesFrom word t with
  | case1 => simp
  | case2 word g rest hg ih => exact ih
  | case3 => simp
  | case4 => simp
  | case5 => simp
  | case6 => simp

theorem mem_normalised {names : List Text} {rule : String} :
    rule ∈ normalised names ↔ ∃ name ∈ names, (Case.lowerText name).toString? = some rule := by
  show rule ∈ (names.filterMap _).foldl (fun done name => insertSorted (id name) done) [] ↔ _
  rw [mem_foldl_insertSorted]
  simp

/-- The small form of a name is a string: no stray byte is part of it. -/
theorem exists_toString_lowerText {name : Text} (h : ∀ g ∈ name, isRuleGlyph g = true) :
    ∃ rule, (Case.lowerText name).toString? = some rule := by
  have hchars : ∃ cs : List Char, Case.lowerText name = cs.map Glyph.scalar := by
    induction name with
    | nil => exact ⟨[], rfl⟩
    | cons g name ih =>
      rw [List.forall_mem_cons] at h
      obtain ⟨cs, hcs⟩ := ih h.2
      cases g with
      | raw b => exact absurd h.1 (by simp [isRuleGlyph, Glyph.satisfies])
      | scalar c =>
        refine ⟨Case.lowerChar c ++ cs, ?_⟩
        rw [List.map_append, ← hcs]
        rfl
  obtain ⟨cs, hcs⟩ := hchars
  refine ⟨String.ofList cs, Text.toString_eq_some_iff.mpr ?_⟩
  rw [hcs, Text.ofString, String.toList_ofList]

/-! ## Lists -/

theorem listAt_eq {t after : Text} (h : t.dropWhile isBlank = .scalar '=' :: after) :
    (listAt t).1 =
      match after.dropWhile isBlank with
      | g :: rest => if isRuleGlyph g then (namesFrom [g] rest).1 else []
      | [] => [] := by
  unfold listAt
  split
  next after' hsign =>
    obtain rfl := (List.cons.inj (h.symm.trans hsign)).2
    cases after.dropWhile isBlank with
    | nil => rfl
    | cons g rest =>
      show (if isRuleGlyph g = true then namesFrom [g] rest else ([], t)).1 =
        if isRuleGlyph g = true then (namesFrom [g] rest).1 else []
      rw [apply_ite Prod.fst]
  next hno => exact absurd h (hno after)

/-- A marker with a sign has a list just if a name stands first behind it. -/
theorem rules_ne_nil_iff {s : Site} {after : Text} (h : s.behind.dropWhile isBlank = .scalar '=' :: after) :
    s.marker.rules ≠ [] ↔ (after.dropWhile isBlank).head?.any isRuleGlyph = true := by
  show normalised (listAt s.behind).1 ≠ [] ↔ _
  rw [listAt_eq h]
  cases hlead : after.dropWhile isBlank with
  | nil => simp [normalised]
  | cons g rest =>
    by_cases hg : isRuleGlyph g = true
    · refine iff_of_true ?_ (by simpa using hg)
      dsimp only
      rw [if_pos hg]
      obtain ⟨name, names, hnames⟩ := List.exists_cons_of_ne_nil (namesFrom_ne_nil [g] rest)
      have hname : name ∈ (namesFrom [g] rest).1 := by
        rw [hnames]
        exact List.mem_cons_self
      have hwhole : IsName name ([] ++ ([g] ++ rest)) :=
        isName_of_mem_namesFrom hname (by simp) (by simpa using hg) rfl
      obtain ⟨rule, hrule⟩ := exists_toString_lowerText hwhole.isRuleGlyph
      exact List.ne_nil_of_mem (mem_normalised.mpr ⟨name, hname, hrule⟩)
    · refine iff_of_false ?_ (by simpa using hg)
      dsimp only
      rw [if_neg hg]
      exact not_not_intro rfl

/-- The rules of a list are written behind its sign. -/
theorem isWritten_of_mem_rules {s : Site} {after : Text}
    (h : s.behind.dropWhile isBlank = .scalar '=' :: after) {rule : String} (hrule : rule ∈ s.marker.rules) :
    IsWritten rule after := by
  obtain ⟨name, hname, hlower⟩ := mem_normalised.mp hrule
  rw [listAt_eq h] at hname
  refine ⟨name, ?_, hlower⟩
  have hcut := List.takeWhile_append_dropWhile (p := isBlank) (l := after)
  split at hname
  next g rest hlead =>
    split at hname
    next hg =>
      rw [hlead] at hcut
      rw [← hcut]
      -- in front of the first name there are blanks only
      have hfront : (after.takeWhile isBlank).getLast?.any isRuleGlyph = false := by
        cases hlast : (after.takeWhile isBlank).getLast? with
        | none => rfl
        | some b => exact isRuleGlyph_of_isBlank (forall_mem_takeWhile b (List.mem_of_getLast? hlast))
      exact isName_of_mem_namesFrom hname (by simp) (by simpa using hg) hfront
    next => exact absurd hname (by simp)
  next => exact absurd hname (by simp)

end Marker

namespace Suppressions.Reading

open Marker

/-- Reading a marker keeps to some rules: each stretch that it turns off is about some of them alone, and so is
each region that it opens or closes. -/
structure IsNarrow (r : Reading) (comment : Token) (m : Marker) (listed : String → Prop) : Prop where
  entries : ∀ e ∈ (r.step comment m).entries.toList,
    e ∈ r.entries.toList ∨ e.rules ≠ [] ∧ ∀ rule ∈ e.rules, listed rule
  regions : ∀ key, (r.step comment m).opener? key ≠ r.opener? key → filter [key] ≠ [] ∧ listed key

/-- A marker with a list that does not name all rules keeps to the list. -/
theorem isNarrow_of_rules {m : Marker} (hlist : m.rules ≠ []) (hall : allRules ∉ m.rules) (r : Reading)
    (comment : Token) : r.IsNarrow comment m (· ∈ m.rules) := by
  have hempty : m.rules.isEmpty = false := by simpa using hlist
  have hrules : filter m.rules = m.rules := by simp [filter, hall]
  have hsingle : ∀ key ∈ m.rules, filter [key] = [key] := by
    intro key hkey
    have hne : key ≠ allRules := by
      rintro rfl
      exact hall hkey
    simp [filter, hne.symm]
  -- only keys of the list are opened and closed
  have hcloses : ∀ key, m.closes key = true → key ∈ m.rules := by
    intro key h
    rw [closes, hempty, Bool.and_eq_true, Bool.false_or, List.contains_iff_mem] at h
    exact h.2
  have hopens : ∀ key, m.opens key = true → key ∈ m.rules := by
    intro key h
    rw [opens, regionKeys, hempty, Bool.and_eq_true, List.contains_iff_mem] at h
    exact h.2
  constructor
  · -- an entry of the marker itself, or of a region that it closes
    intro e he
    rcases mem_entries_step.mp he with he | hentry | ⟨key, hkey, opener, -, rfl⟩
    · exact Or.inl he
    · have heq : e.rules = m.rules := by
        rw [← hrules]
        unfold entry? at hentry
        split at hentry <;> cases hentry <;> rfl
      rw [heq]
      exact Or.inr ⟨hlist, fun rule hrule => hrule⟩
    · show _ ∨ filter [key] ≠ [] ∧ ∀ rule ∈ filter [key], rule ∈ m.rules
      rw [hsingle key (hcloses key hkey)]
      exact Or.inr ⟨by simp, by simpa using hcloses key hkey⟩
  · intro key hchanged
    have hkey : key ∈ m.rules := by
      rw [opener_step] at hchanged
      split at hchanged
      next h => exact hopens key h
      next =>
        split at hchanged
        next h => exact hcloses key h
        next => exact absurd rfl hchanged
    rw [hsingle key hkey]
    exact ⟨by simp, hkey⟩

/-- A marker without a list is about more than any list could name. -/
theorem not_isNarrow_of_rules_eq_nil {m : Marker} (hlist : m.rules = []) (listed : String → Prop)
    {other : String} (hother : ¬listed other) (comment : Token) :
    ∃ r : Reading, ¬r.IsNarrow comment m listed := by
  have hfilter : filter m.rules = [] := by rw [hlist]; rfl
  cases hm : m.kind with
  | regionStart =>
    -- it opens the region of all rules
    refine ⟨{}, fun h => ?_⟩
    have hopens : m.opens allRules = true := by simp [opens, regionKeys, hm, hlist]
    have hchanged : (step {} comment m).opener? allRules ≠ opener? {} allRules := by
      rw [opener_step, if_pos hopens]
      simp [opener?]
    exact (h.regions allRules hchanged).1 (by decide)
  | regionEnd =>
    -- it closes a region that no list mentions
    refine ⟨{ opened := [(other, comment)] }, fun h => ?_⟩
    have hcloses : m.closes other = true := by simp [closes, hm, hlist]
    have hopens : m.opens other = false := opens_eq_false_of_closes hcloses
    have hchanged : (step { opened := [(other, comment)] } comment m).opener? other ≠
        opener? { opened := [(other, comment)] } other := by
      rw [opener_step, hopens, if_neg (by decide), if_pos hcloses]
      simp [opener?]
    exact hother (h.regions other hchanged).2
  | file | line | nextLine =>
    -- it turns off a stretch for all rules
    refine ⟨{}, fun h => ?_⟩
    obtain ⟨e, hentry, hrules⟩ : ∃ e, m.entry? comment = some e ∧ e.rules = [] := by
      unfold entry?
      rw [hm]
      exact ⟨_, rfl, hfilter⟩
    rcases h.entries e (mem_entries_step.mpr (Or.inr (Or.inl hentry))) with hnone | ⟨hne, -⟩
    · exact absurd hnone (by simp)
    · exact hne hrules

end Suppressions.Reading

namespace Marker

open Suppressions

theorem lowerGlyph_ne_nil (g : Glyph) : Case.lowerGlyph g ≠ [] := by
  cases g with
  | raw b => exact List.cons_ne_nil _ _
  | scalar c =>
    show (Case.lowerChar c).map Glyph.scalar ≠ []
    unfold Case.lowerChar
    split_ifs <;> simp

/-- A written rule is not empty. -/
theorem not_isWritten_empty (t : Text) : ¬IsWritten "" t := by
  rintro ⟨name, hname, hlower⟩
  obtain ⟨g, rest, rfl⟩ := List.exists_cons_of_ne_nil hname.ne_nil
  have hempty : Case.lowerGlyph g ++ Case.lowerText rest = [] := Text.toString_eq_some_iff.mp hlower
  exact lowerGlyph_ne_nil g (List.append_eq_nil_iff.mp hempty).1

/-- **A marker with a list does not widen to all rules, but a sign is not enough.** Of every marker in a text
that has a sign behind its keyword: it lists all rules itself, or it keeps to rules that are written behind the
sign, whatever has been read before and wherever it stands, just if a name stands first behind the sign. If none
does, the marker is about every rule. -/
theorem narrow_iff_named (t : Text) :
    inText t = (sites t).map Site.marker ∧
      ∀ s ∈ sites t, ∀ after, s.behind.dropWhile isBlank = .scalar '=' :: after →
        ((allRules ∈ s.marker.rules ∨
            ∀ (r : Suppressions.Reading) (comment : Token), r.IsNarrow comment s.marker (IsWritten · after)) ↔
          (after.dropWhile isBlank).head?.any isRuleGlyph = true) := by
  refine ⟨inText_eq t, ?_⟩
  intro s _ after hsign
  rw [← rules_ne_nil_iff hsign]
  constructor
  · intro h hlist
    rcases h with hall | hnarrow
    · rw [hlist] at hall
      exact absurd hall (by simp)
    · obtain ⟨r, hr⟩ := Suppressions.Reading.not_isNarrow_of_rules_eq_nil hlist (IsWritten · after)
        (not_isWritten_empty after) ⟨.comment, t, 0, t.length, 1, 1, 1, 1⟩
      exact hr (hnarrow r _)
  · intro hlist
    by_cases hall : allRules ∈ s.marker.rules
    · exact Or.inl hall
    · refine Or.inr fun r comment => ?_
      have hnarrow := Suppressions.Reading.isNarrow_of_rules hlist hall r comment
      refine ⟨fun e he => (hnarrow.entries e he).imp_right fun h => ?_, fun key hkey => ?_⟩
      · exact ⟨h.1, fun rule hrule => isWritten_of_mem_rules hsign (h.2 rule hrule)⟩
      · exact ⟨(hnarrow.regions key hkey).1, isWritten_of_mem_rules hsign (hnarrow.regions key hkey).2⟩

/-- A comment with a list of two rules, and words behind it. -/
def listedComment : Text :=
  Text.ofString "// CPPCONFORM: disable-begin = Naming-Casing , unscoped-enum for now"

/-- The start of the regions of two rules opens no other one. -/
theorem narrow_two_rules :
    ∃ s ∈ sites listedComment,
      s.behind.dropWhile isBlank =
          .scalar '=' :: Text.ofString " Naming-Casing , unscoped-enum for now" ∧
        s.marker = ⟨.regionStart, ["naming-casing", "unscoped-enum"]⟩ ∧
        ∀ (r : Suppressions.Reading) (comment : Token),
          r.IsNarrow comment s.marker (IsWritten · (Text.ofString " Naming-Casing , unscoped-enum for now")) := by
  obtain ⟨hnamed, s, hs, hsign, hmarker⟩ :
      ((Text.ofString " Naming-Casing , unscoped-enum for now").dropWhile isBlank).head?.any
          isRuleGlyph = true ∧
        ∃ s ∈ sites listedComment,
          s.behind.dropWhile isBlank = .scalar '=' :: Text.ofString " Naming-Casing , unscoped-enum for now" ∧
            s.marker = ⟨.regionStart, ["naming-casing", "unscoped-enum"]⟩ := by
    rw [listedComment, Text.ofString_ofList, Text.ofString_ofList]
    decide +kernel
  have hnarrow := ((narrow_iff_named listedComment).2 s hs _ hsign).mpr hnamed
  refine ⟨s, hs, hsign, hmarker, hnarrow.resolve_left ?_⟩
  rw [hmarker]
  decide

/-- A file with a comment that lists one rule, in quotes. -/
def quotedRule : Text := Text.ofString "int a; // cppconform: disable-line=\"naming-casing\"\n"

/-- A list whose first name is in quotes is none, and the marker turns off every rule. -/
theorem exists_widened_marker :
    (∃ comment ∈ tokens quotedRule, comment.isComment = true ∧ ∃ s ∈ sites comment.text,
      s.behind.dropWhile isBlank = .scalar '=' :: Text.ofString "\"naming-casing\"" ∧
        allRules ∉ s.marker.rules ∧ ∃ r : Suppressions.Reading,
          ¬r.IsNarrow comment s.marker (IsWritten · (Text.ofString "\"naming-casing\""))) ∧
      ∀ rule, (Suppressions.ofTokens (tokens quotedRule)).isSuppressed rule (some 1) = true := by
  obtain ⟨⟨comment, hcomment, hkind, s, hs, hsign, hlist⟩, hclosed, hentry⟩ :
      (∃ comment ∈ tokens quotedRule, comment.isComment = true ∧ ∃ s ∈ sites comment.text,
        s.behind.dropWhile isBlank = .scalar '=' :: Text.ofString "\"naming-casing\"" ∧
          s.marker.rules = []) ∧
        (Suppressions.Reading.ofTokens (tokens quotedRule)).opened = [] ∧
        ⟨1, some 1, []⟩ ∈ (Suppressions.Reading.ofTokens (tokens quotedRule)).entries.toList := by
    rw [quotedRule, Text.ofString_ofList, Text.ofString_ofList]
    decide +kernel
  constructor
  · obtain ⟨r, hr⟩ := Suppressions.Reading.not_isNarrow_of_rules_eq_nil hlist
      (IsWritten · (Text.ofString "\"naming-casing\"")) (not_isWritten_empty _) comment
    refine ⟨comment, hcomment, hkind, s, hs, hsign, ?_, r, hr⟩
    rw [hlist]
    simp
  · intro rule
    rw [Suppressions.ofTokens_eq_asRead hclosed]
    exact List.any_eq_true.mpr ⟨_, hentry, rfl⟩

end Marker

end HouseStyle
