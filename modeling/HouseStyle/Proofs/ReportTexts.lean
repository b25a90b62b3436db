import HouseStyle.Proofs.CastEdits
import HouseStyle.Proofs.WrittenBytes
import HouseStyle.Report.Json

/-!
# Stray bytes in a report

A report is sent on as UTF-8, which has no form for a stray byte of a source text. Messages and suggestions are
made fit to be shown before they are written into a report, and its other texts are character strings from the
start, but for one: what an edit puts in is written as it is.

- `JsonValue.texts`: the texts that a reader of a report finds in it.
- `Violation.allTexts_record_iff`: what holds of all character strings holds of all texts in the record of a
  violation, if it holds of what the edits put in.
- `report_isUnicode_iff`: of all the rules only the one on casts can put in a stray byte, and it does so just if
  the cast that it writes anew holds one (`exists_stray_byte_in_report`).
-/

namespace HouseStyle

/-! ## Texts that are characters throughout -/

/-- Every glyph of the text is a character, so that it can be written as UTF-8. -/
def Text.IsUnicode (t : Text) : Prop := ∀ g ∈ t, g.code.isValidChar

theorem Glyph.isValidChar_code_iff {g : Glyph} : g.code.isValidChar ↔ ∃ c, g = .scalar c := by
  cases g with
  | scalar c => exact iff_of_true c.valid ⟨c, rfl⟩
  | raw b =>
    have hb := b.toNat_lt
    refine iff_of_false ?_ (by simp)
    show ¬Nat.isValidChar (0xDC00 + b.toNat)
    unfold Nat.isValidChar
    omega

namespace Text

/-- The texts that are characters throughout are the character strings. -/
theorem isUnicode_iff_exists {t : Text} : t.IsUnicode ↔ ∃ s : String, t = ofString s := by
  constructor
  · intro h
    induction t with
    | nil => exact ⟨"", rfl⟩
    | cons g t ih =>
      obtain ⟨hg, ht⟩ := List.forall_mem_cons.mp h
      obtain ⟨c, rfl⟩ := Glyph.isValidChar_code_iff.mp hg
      obtain ⟨s, rfl⟩ := ih ht
      exact ⟨String.ofList (c :: s.toList), by simp [ofString]⟩
  · rintro ⟨s, rfl⟩ g hg
    obtain ⟨c, -, rfl⟩ := List.mem_map.mp hg
    exact Glyph.isValidChar_code_iff.mpr ⟨c, rfl⟩

theorem isUnicode_ofString (s : String) : (ofString s).IsUnicode := isUnicode_iff_exists.mpr ⟨s, rfl⟩

theorem isUnicode_append {t u : Text} : IsUnicode (t ++ u) ↔ t.IsUnicode ∧ u.IsUnicode :=
  List.forall_mem_append

theorem isUnicode_of_isAscii {t : Text} (h : ∀ g ∈ t, g.IsAscii) : t.IsUnicode := by
  intro g hg
  cases g with
  | scalar c => exact c.valid
  | raw b => exact absurd (h _ hg) id

end Text

/-! ## Values and records -/

namespace JsonValue

mutual

/-- The texts in a value, with the names of members. -/
def texts : JsonValue → List Text
  | .null | .bool _ | .number _ => []
  | .text t => [t]
  | .array items => textsOfItems items
  | .object members => textsOfMembers members

/-- The texts in the items of an array. -/
def textsOfItems : List JsonValue → List Text
  | [] => []
  | v :: vs => texts v ++ textsOfItems vs

/-- The texts in the members of an object. -/
def textsOfMembers : List (String × JsonValue) → List Text
  | [] => []
  | (key, v) :: rest => Text.ofString key :: (texts v ++ textsOfMembers rest)

end

/-- Something holds of all texts in a value. -/
def AllTexts (P : Text → Prop) (v : JsonValue) : Prop := ∀ t ∈ v.texts, P t

variable {P : Text → Prop}

@[simp] theorem allTexts_null : AllTexts P .null := by simp [AllTexts, texts]

@[simp] theorem allTexts_bool (b : Bool) : AllTexts P (.bool b) := by simp [AllTexts, texts]

@[simp] theorem allTexts_number (n : Int) : AllTexts P (.number n) := by simp [AllTexts, texts]

@[simp] theorem allTexts_text {t : Text} : AllTexts P (.text t) ↔ P t := by simp [AllTexts, texts]

@[simp] theorem allTexts_ofString {s : String} : AllTexts P (ofString s) ↔ P (Text.ofString s) := allTexts_text

theorem allTexts_ofOption {α : Type} {f : α → JsonValue} (hf : ∀ a, AllTexts P (f a)) (a : Option α) :
    AllTexts P (ofOption f a) := by
  cases a with
  | none => exact allTexts_null
  | some a => exact hf a

@[simp] theorem allTexts_array {items : List JsonValue} : AllTexts P (.array items) ↔ ∀ v ∈ items, AllTexts P v := by
  have hitems : (∀ t ∈ textsOfItems items, P t) ↔ ∀ v ∈ items, AllTexts P v := by
    induction items with
    | nil => simp [textsOfItems]
    | cons v vs ih => rw [textsOfItems, List.forall_mem_append, ih, List.forall_mem_cons, AllTexts]
  rw [← hitems, AllTexts, texts]

@[simp] theorem allTexts_object {members : List (String × JsonValue)} :
    AllTexts P (.object members) ↔ ∀ m ∈ members, P (Text.ofString m.1) ∧ AllTexts P m.2 := by
  have hmembers : (∀ t ∈ textsOfMembers members, P t) ↔
      ∀ m ∈ members, P (Text.ofString m.1) ∧ AllTexts P m.2 := by
    induction members with
    | nil => simp [textsOfMembers]
    | cons m members ih =>
      rw [textsOfMembers, List.forall_mem_cons, List.forall_mem_append, ih, List.forall_mem_cons, AllTexts,
        and_assoc]
  rw [← hmembers, AllTexts, texts]

end JsonValue

section

variable {P : Text → Prop} (hP : ∀ s, P (Text.ofString s)) (base root : SourcePath)

include hP

/-- What is shown of a location is character strings and numbers. -/
theorem Location.allTexts_members (l : Location) :
    ∀ m ∈ l.members base root, P (Text.ofString m.1) ∧ m.2.AllTexts P := by
  have hpath := JsonValue.allTexts_ofOption
    (fun p => JsonValue.allTexts_ofString.mpr (hP (SourcePath.shown base root p))) l.path
  have hnumber := JsonValue.allTexts_ofOption (JsonValue.allTexts_number (P := P))
  simp [members, hP, hpath, hnumber]

/-- The record of a violation has nothing but character strings, numbers and truth values in it, but for what the
edits of the violation put in. -/
theorem Violation.allTexts_record_iff (v : Violation) :
    (v.record base root).AllTexts P ↔ ∀ e ∈ v.edits, P e.replacement := by
  have hlocation := (v.location.getD {}).allTexts_members hP base root
  have hrelated : ∀ l : Location, (JsonValue.object (l.members base root)).AllTexts P := fun l =>
    JsonValue.allTexts_object.mpr (l.allTexts_members hP base root)
  have hsuggestion := JsonValue.allTexts_ofOption (fun s => JsonValue.allTexts_ofString.mpr (hP s)) v.suggestion
  rw [record, JsonValue.allTexts_object, List.forall_mem_append, and_iff_right hlocation]
  simp [hP, hrelated, hsuggestion]

/-- The same of a report. -/
theorem allTexts_report_iff (vs : List Violation) :
    (JsonValue.array (vs.map (Violation.record base root))).AllTexts P ↔
      ∀ v ∈ vs, ∀ e ∈ v.edits, P e.replacement := by
  rw [JsonValue.allTexts_array, List.forall_mem_map]
  exact forall₂_congr fun v _ => v.allTexts_record_iff hP base root

end

/-! ## Edits of casts -/

section

variable {config : Config} {isOneOfMany : Bool} {path : SourcePath} {text : Text} {v : Violation} {e : Edit}

/-- The normalised text of tokens has the stray bytes of the tokens. -/
theorem isUnicode_joinedText_iff {ts : List Token} :
    (joinedText ts).IsUnicode ↔ ∀ t ∈ ts, t.text.IsUnicode := by
  induction ts with
  | nil => simp [joinedText, Text.IsUnicode]
  | cons t ts ih =>
    cases ts with
    | nil => simp [joinedText]
    | cons u ts =>
      have hblank : Text.IsUnicode (.scalar ' ' :: joinedText (u :: ts)) ↔ (joinedText (u :: ts)).IsUnicode := by
        rw [Text.IsUnicode, List.forall_mem_cons]
        exact and_iff_right (by decide)
      rw [joinedText, Text.isUnicode_append, List.forall_mem_cons, ← ih]
      split
      · rw [hblank]
      · rfl

/-- A punctuator is written in characters. -/
theorem Punct.isUnicode_text (p : Punct) : p.text.IsUnicode := Text.isUnicode_ofString p.spelling

theorem Keyword.isUnicode_text (k : Keyword) : k.text.IsUnicode := Text.isUnicode_ofString k.spelling

/-- A written cast has the stray bytes of the type and of the operand. -/
theorem CastSite.isUnicode_written_iff (c : CastSite text) :
    c.written.IsUnicode ↔ (∀ t ∈ c.inside, t.text.IsUnicode) ∧ c.operand.text.IsUnicode := by
  simp only [written, Text.isUnicode_append, isUnicode_joinedText_iff, Keyword.isUnicode_text,
    Punct.isUnicode_text, true_and, and_true]

/-- The code from the bracket to the end of the operand. -/
theorem CastSite.mem_replaced_iff (c : CastSite text) {t : Token} :
    (t ∈ Token.code (tokens text) ∧ c.edit.start ≤ t.start ∧ t.stop ≤ c.edit.stop) ↔
      t = c.opener ∨ t ∈ c.inside ∨ t = c.closer ∨ t = c.operand := by
  have hordered : (Token.code (tokens text)).Pairwise fun a b => a.stop ≤ b.start :=
    (tokens_ordered text).sublist List.filter_sublist
  have hlt : ∀ t ∈ Token.code (tokens text), t.start < t.stop := fun t ht =>
    start_lt_stop (List.mem_filter.mp ht).1
  have hstart : c.edit.start = c.opener.start := rfl
  have hstop : c.edit.stop = c.operand.stop := rfl
  rw [c.code_eq] at hordered hlt ⊢
  simp only [List.pairwise_append, List.pairwise_cons, List.mem_append, List.mem_cons] at hordered hlt ⊢
  obtain ⟨-, ⟨hopener, -, ⟨hcloser, hoperand, -⟩, hinside⟩, hfront⟩ := hordered
  have hopener_lt := hlt c.opener (by simp)
  have hoperand_lt := hlt c.operand (by simp)
  have hoperand_start := hopener c.operand (by simp)
  constructor
  · rintro ⟨hmem, hfrom, hto⟩
    have htoken := hlt t hmem
    rcases hmem with hmem | hmem | hmem | hmem | hmem | hmem
    · have := hfront t hmem c.opener (Or.inl rfl)
      omega
    · exact Or.inl hmem
    · exact Or.inr (Or.inl hmem)
    · exact Or.inr (Or.inr (Or.inl hmem))
    · exact Or.inr (Or.inr (Or.inr hmem))
    · have := hoperand t hmem
      omega
  · rintro (rfl | hmem | rfl | rfl)
    · exact ⟨by simp, by omega, by omega⟩
    · have hbehind := hopener t (Or.inl hmem)
      have hbefore := hinside t hmem c.operand (by simp)
      exact ⟨by simp [hmem], by omega, by omega⟩
    · have hbehind := hopener c.closer (by simp)
      have hbefore := hcloser c.operand (by simp)
      exact ⟨by simp, by omega, by omega⟩
    · exact ⟨by simp, by omega, by omega⟩

/-- An edit of the rule on casts has a stray byte just if the code that it replaces has one. -/
theorem CastRule.isUnicode_edit_iff (hv : v ∈ check (.ofText config isOneOfMany path text)) (he : e ∈ v.edits) :
    e.replacement.IsUnicode ↔
      ∀ t ∈ Token.code (tokens text), e.start ≤ t.start → t.stop ≤ e.stop → t.text.IsUnicode := by
  obtain ⟨c, hedits⟩ := exists_castSite hv he
  rw [hedits] at he
  obtain rfl := List.mem_singleton.mp he
  have hbracket : ∀ {t : Token} {p : Punct}, t ∈ tokens text → t.kind = .punct p → t.text.IsUnicode := by
    intro t p ht hkind
    rw [text_eq_of_punct ht hkind]
    exact p.isUnicode_text
  have hmem : ∀ {t : Token}, t = c.opener ∨ t ∈ c.inside ∨ t = c.closer ∨ t = c.operand → t ∈ tokens text :=
    fun h => (List.mem_filter.mp (c.mem_replaced_iff.mpr h).1).1
  rw [show c.edit.replacement = c.written from rfl, c.isUnicode_written_iff]
  constructor
  · rintro ⟨hinside, hoperand⟩ t ht hfrom hto
    rcases c.mem_replaced_iff.mp ⟨ht, hfrom, hto⟩ with rfl | hin | rfl | rfl
    · exact hbracket (hmem (Or.inl rfl)) c.opener_kind
    · exact hinside t hin
    · exact hbracket (hmem (Or.inr (Or.inr (Or.inl rfl)))) c.closer_kind
    · exact hoperand
  · intro h
    have hreplaced : ∀ t, t = c.opener ∨ t ∈ c.inside ∨ t = c.closer ∨ t = c.operand → t.text.IsUnicode := by
      intro t ht
      obtain ⟨hcode, hfrom, hto⟩ := c.mem_replaced_iff.mpr ht
      exact h t hcode hfrom hto
    exact ⟨fun t ht => hreplaced t (Or.inr (Or.inl ht)), hreplaced _ (Or.inr (Or.inr (Or.inr rfl)))⟩

/-! ## Edits of the other rules -/

theorem NamingRule.isUnicode_of_mem_check (hv : v ∈ check (.ofText config isOneOfMany path text))
    (he : e ∈ v.edits) : e.replacement.IsUnicode := by
  obtain ⟨entity, -, hv⟩ := List.mem_filterMap.mp hv
  obtain ⟨-, -, _, _, rfl⟩ := checkEntity_eq_some hv
  change e ∈ (fix _ _ entity).1 at he
  unfold fix at he
  split at he
  · exact absurd he (by simp)
  · next hnew => exact Text.isUnicode_of_isAscii (isAscii_of_mem_rename hnew he)

theorem UnscopedEnumRule.isUnicode_of_mem_check (hv : v ∈ check (.ofText config isOneOfMany path text))
    (he : e ∈ v.edits) : e.replacement.IsUnicode := by
  obtain ⟨entity, -, hv⟩ := List.mem_filterMap.mp hv
  obtain ⟨-, -, _, _, -, -, _, _, rfl⟩ := checkEntity_eq_some hv
  obtain rfl := List.mem_singleton.mp he
  exact Text.isUnicode_ofString " class"

theorem IncludeGuardRule.isUnicode_of_mem_check (hv : v ∈ check (.ofText config isOneOfMany path text))
    (he : e ∈ v.edits) : e.replacement.IsUnicode := by
  obtain ⟨-, -, rfl⟩ := mem_check_iff.mp hv
  exact Text.isUnicode_of_isAscii (isAscii_of_guardEdit (Option.mem_toList.mp he))

/-- Only the rule on casts may put in a stray byte. -/
theorem isUnicode_edit_of_mem_reports {r : Rule} (hr : r ∈ Rule.builtin) (hcast : r.info.id ≠ CastRule.info.id)
    (hv : v ∈ r.reports (.ofText config isOneOfMany path text)) (he : e ∈ v.edits) :
    e.replacement.IsUnicode := by
  simp only [Rule.builtin, List.mem_cons, List.not_mem_nil, or_false] at hr
  rcases hr with rfl | rfl | rfl | rfl | rfl | rfl | rfl | rfl <;> rw [reports_total] at hv
  · unfold AdjacentTypesRule.check at hv
    obtain ⟨entity, -, hv⟩ := List.mem_flatMap.mp hv
    obtain ⟨run, -, rfl⟩ := List.mem_map.mp hv
    exact absurd he List.not_mem_nil
  · unfold LongParameterListRule.check at hv
    obtain ⟨entity, -, rfl⟩ := List.mem_map.mp hv
    exact absurd he List.not_mem_nil
  · exact IncludeGuardRule.isUnicode_of_mem_check hv he
  · exact NamingRule.isUnicode_of_mem_check hv he
  · exact absurd rfl hcast
  · obtain ⟨entity, -, hv⟩ := List.mem_filterMap.mp hv
    obtain ⟨_, _, _, -, rfl⟩ := OwnershipRule.checkEntity_eq_some hv
    exact absurd he List.not_mem_nil
  · obtain ⟨anomaly, -, rfl⟩ := List.mem_map.mp hv
    exact absurd he List.not_mem_nil
  · exact UnscopedEnumRule.isUnicode_of_mem_check hv he

/-! ## Reports -/

/-- Of all that is reported on a file, only an edit of a cast may put in a stray byte. -/
theorem isUnicode_edit_iff (hv : v ∈ detectEnabled (.ofText config isOneOfMany path text)) (he : e ∈ v.edits) :
    e.replacement.IsUnicode ↔ (v.ruleId = CastRule.info.id →
      ∀ t ∈ Token.code (tokens text), e.start ≤ t.start → t.stop ≤ e.stop → t.text.IsUnicode) := by
  rcases List.mem_append.mp hv with hv | hv
  · obtain ⟨r, hr, hv⟩ := List.mem_flatMap.mp hv
    have hbuiltin := (List.mem_filter.mp hr).1
    obtain ⟨w, hw, rfl, -⟩ := (mem_detectRule_iff hbuiltin).mp hv
    rw [edits_withSeverity] at he
    rw [ruleId_withSeverity, (isOf_of_mem_reports hbuiltin hw).ruleId_eq]
    by_cases hcast : r.info.id = CastRule.info.id
    · obtain rfl := Rule.eq_of_id (s := .total CastRule.info CastRule.check) hbuiltin (by simp [Rule.builtin]) hcast
      rw [reports_total] at hw
      rw [CastRule.isUnicode_edit_iff hw he]
      exact ⟨fun h _ => h, fun h => h hcast⟩
    · exact iff_of_true (isUnicode_edit_of_mem_reports hbuiltin hcast hw he) fun h => absurd h hcast
  · -- a note has no edits
    obtain ⟨n, hn, rfl⟩ := List.mem_map.mp hv
    have hnone : n.edits = [] := Suppressions.edits_of_mem_notes hn
    change e ∈ n.edits at he
    rw [hnone] at he
    exact absurd he List.not_mem_nil

end

/-- No text in the report of a file has a stray byte, but for what is put in by the edits of casts, and that has one
just if a cast that is written anew has one in the code that it replaces. -/
theorem report_isUnicode_iff (config : Config) (isOneOfMany : Bool) (path : SourcePath) (bytes : List UInt8)
    (base root : SourcePath) :
    let f := SourceFile.ofText config isOneOfMany path (Utf8.decode bytes)
    let report := JsonValue.array ((detectEnabled f).map (Violation.record base root))
    jsonReport base root (detectEnabled f) = report.render 0 ∧
      (∀ t ∈ report.texts, t.IsUnicode ∨
        ∃ v ∈ detectEnabled f, v.ruleId = CastRule.info.id ∧ ∃ e ∈ v.edits, t = e.replacement) ∧
      ((∀ t ∈ report.texts, t.IsUnicode) ↔
        ∀ v ∈ detectEnabled f, v.ruleId = CastRule.info.id → ∀ e ∈ v.edits,
          ∀ t ∈ f.code, e.start ≤ t.start → t.stop ≤ e.stop → t.text.IsUnicode) := by
  intro f report
  have hedit : ∀ v ∈ detectEnabled f, ∀ e ∈ v.edits, e.replacement.IsUnicode ↔
      (v.ruleId = CastRule.info.id →
        ∀ t ∈ f.code, e.start ≤ t.start → t.stop ≤ e.stop → t.text.IsUnicode) :=
    fun _ hv _ he => isUnicode_edit_iff hv he
  refine ⟨rfl, ?_, ?_⟩
  · refine (allTexts_report_iff (fun s => Or.inl (Text.isUnicode_ofString s)) base root _).mpr fun v hv e he => ?_
    by_cases hcast : v.ruleId = CastRule.info.id
    · exact Or.inr ⟨v, hv, hcast, e, he, rfl⟩
    · exact Or.inl ((hedit v hv e he).mpr fun h => absurd h hcast)
  · refine (allTexts_report_iff Text.isUnicode_ofString base root _).trans (forall₂_congr fun v hv => ?_)
    constructor
    · exact fun h hid e he => (hedit v hv e he).mp (h e he) hid
    · exact fun h e he => (hedit v hv e he).mpr fun hid => h hid e he

/-- A cast of a literal with a stray byte between its quotes. -/
def castOfStrayByte : Text := Text.ofString "char c = (char)'" ++ .raw 0xFF :: Text.ofString "';\n"

/-- What is written for it. -/
def writtenOfStrayByte : Text := Text.ofString "static_cast<char>('" ++ .raw 0xFF :: Text.ofString "')"

set_option maxRecDepth 10000 in
/-- A stray byte in the operand of a cast gets into the report. -/
theorem exists_stray_byte_in_report :
    ∃ t ∈ (JsonValue.array ((detectEnabled (.ofText {} false (.ofString "a.cpp")
        (Utf8.decode (Utf8.encode castOfStrayByte)))).map
          (Violation.record (.ofString "/p") (.ofString "/p")))).texts, ¬t.IsUnicode := by
  obtain ⟨hread, hreported⟩ :=
    SourceFile.of_asRead {} false (.ofString "a.cpp") castOfStrayByte
      (P := fun f => Utf8.decode (Utf8.encode castOfStrayByte) = castOfStrayByte ∧
        (detectEnabled f).any (fun v => v.edits == [⟨9, 18, writtenOfStrayByte⟩]) = true)
      (by
        rw [castOfStrayByte, Text.ofString_ofList, Text.ofString_ofList]
        decide +kernel)
  obtain ⟨v, hv, hedits⟩ := List.any_eq_true.mp hreported
  have hmem : ⟨9, 18, writtenOfStrayByte⟩ ∈ v.edits := by
    rw [eq_of_beq hedits]
    exact List.mem_singleton_self _
  by_contra hnone
  simp only [not_exists, not_and, not_not] at hnone
  rw [hread] at hnone
  have hwritten : writtenOfStrayByte.IsUnicode :=
    (allTexts_report_iff Text.isUnicode_ofString _ _ _).mp hnone v hv _ hmem
  exact absurd (hwritten (.raw 0xFF) (by simp [writtenOfStrayByte])) (by decide)

end HouseStyle
