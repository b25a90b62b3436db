import HouseStyle.Proofs.FixedText
import HouseStyle.Proofs.PlannedBatch

/-!
# Fixes that get in each other's way

The fixes of a file are applied together or not at all. Two things keep them from it: a name that is given
two new spellings, and a guarding line that is put in where a name that is renamed starts (`KeepApart`).
Nothing else does: the edits lie in the file, and ` class` is put in where no other edit is
(`fixes_rejected_iff`).
-/

namespace HouseStyle

open Extraction

/-! ## The fixes of a file -/

/-- The edits of the fixes of a file. -/
def fixEdits (f : SourceFile) : List Edit := (fixableViolations (detectEnabled f)).flatMap (·.edits)

/-- The two ways in which fixes get in each other's way do not happen: a name is given one new spelling only,
and nothing is put in where a name that is renamed starts. -/
structure KeepApart (text : Text) (edits : List Edit) : Prop where
  agree : ∀ a ∈ Edit.renames edits, ∀ b ∈ Edit.renames edits, a.replaced text = b.replaced text →
    a.replacement = b.replacement
  clear : ∀ a ∈ edits, a.isInsertion = true → ∀ b ∈ Edit.renames edits, a.start ≠ b.start

theorem keepApart_iff {text : Text} {edits : List Edit} :
    KeepApart text edits ↔
      (∀ a ∈ Edit.renames edits, ∀ b ∈ Edit.renames edits, a.replaced text = b.replaced text →
        a.replacement = b.replacement) ∧
      ∀ a ∈ edits, a.isInsertion = true → ∀ b ∈ Edit.renames edits, a.start ≠ b.start :=
  ⟨fun h => ⟨h.agree, h.clear⟩, fun h => ⟨h.1, h.2⟩⟩

instance (text : Text) (edits : List Edit) : Decidable (KeepApart text edits) :=
  decidable_of_iff' _ keepApart_iff

theorem harmless_iff {text : Text} {edits : List Edit} :
    Harmless text edits ↔
      (∀ a ∈ Edit.renames edits, ∀ b ∈ Edit.renames edits, a.replacement = b.replacement →
        a.replaced text ≠ b.replaced text → a.replaced text ∉ comparedNames (Token.code (tokens text))) ∧
      (∀ e ∈ Edit.renames edits, ∀ word ∈ contextualWords,
        e.replaced text ≠ Text.ofString word ∧ e.replacement ≠ Text.ofString word) ∧
      (∀ e ∈ Edit.renames edits, Lexeme.joinsQuote e.replacement (text.drop e.stop.toNat) = false) ∧
      ∀ e ∈ edits, e.start = text.length → ∀ t ∈ tokens text, t.isComment = true :=
  ⟨fun h => ⟨h.merge, h.words, h.quotes, h.fileEnd⟩, fun h => ⟨h.1, h.2.1, h.2.2.1, h.2.2.2⟩⟩

instance (text : Text) (edits : List Edit) : Decidable (Harmless text edits) :=
  decidable_of_iff' _ harmless_iff

section

variable {config : Config} {isOneOfMany : Bool} {path : SourcePath} {text : Text}

/-- The guarding line is put in before all code, or at the end of the file. -/
theorem IncludeGuardRule.start_le_of_guardEdit {e : Edit}
    (h : guardEdit? (.ofText config isOneOfMany path text) = some e) {t : Token} (ht : t ∈ tokens text)
    (hcomment : t.kind ≠ .comment) (hunknown : t.kind ≠ .unknown) :
    e.start ≤ t.start ∨ e.start = text.length := by
  by_cases hend : e.start = text.length
  · exact Or.inr hend
  obtain ⟨front, put, back, hat⟩ : ∃ front put back, GuardedAt text e front put back :=
    exists_guardedAt rfl rfl h fun heq => absurd heq hend
  rw [tokens, hat.pieces, Piece.place_append] at ht
  rcases List.mem_append.mp ht with ht | ht
  · obtain ⟨before, behind, rfl, -, -⟩ := Piece.mem_place ht
    exact absurd (hat.quiet t.kind t.text (by simp)) (by simp [hcomment, hunknown])
  · obtain ⟨before, behind, hback, hstart, -⟩ := Piece.mem_place ht
    rw [Piece.offset_past] at hstart
    left
    rw [hat.start, hstart]
    omega

/-- The guarding line is put in inside the file. -/
theorem IncludeGuardRule.within_of_guardEdit {e : Edit}
    (h : guardEdit? (.ofText config isOneOfMany path text) = some e) : e.Within text.length := by
  have hcases : e = ⟨0, 0, pragmaOnce⟩ ∨ e = ⟨text.length, text.length, .scalar '\n' :: pragmaOnce⟩ ∨
      ∃ comment ∈ tokens text, ∃ line below, text.drop comment.stop = line ++ .scalar '\n' :: below ∧
        (e.start = comment.stop ∧ e.stop = comment.stop ∨
          e.start = (comment.stop + line.length + 1 : Nat) ∧ e.stop = (comment.stop + line.length + 1 : Nat)) := by
    rcases guardEdit_eq_some h with rfl | rfl | ⟨comment, hmem, line, below, hdrop, -, ⟨-, rfl⟩ | ⟨-, rfl⟩⟩
    · exact Or.inl rfl
    · exact Or.inr (Or.inl rfl)
    · exact Or.inr (Or.inr ⟨comment, hmem, line, below, hdrop, Or.inl ⟨rfl, rfl⟩⟩)
    · exact Or.inr (Or.inr ⟨comment, hmem, line, below, hdrop, Or.inr ⟨rfl, rfl⟩⟩)
  rcases hcases with rfl | rfl | ⟨comment, hmem, line, below, hdrop, ⟨h₁, h₂⟩ | ⟨h₁, h₂⟩⟩
  · exact ⟨Int.le_refl 0, Int.le_refl 0, Int.natCast_nonneg _⟩
  · exact ⟨Int.natCast_nonneg _, Int.le_refl _, Int.le_refl _⟩
  all_goals
    have hlen := congrArg List.length hdrop
    have hstop := stop_le_length hmem
    rw [List.length_drop, List.length_append, List.length_cons] at hlen
    exact ⟨by omega, by omega, by omega⟩

theorem mem_fixEdits {f : SourceFile} {e : Edit} :
    e ∈ fixEdits f ↔ ∃ v ∈ fixableViolations (detectEnabled f), e ∈ v.edits := List.mem_flatMap

/-- Every edit of the fixes of a file is a rename, or it puts in ` class` or the guarding line. -/
theorem fixEdit_cases {e : Edit} (he : e ∈ fixEdits (.ofText config isOneOfMany path text)) :
    (e.isInsertion = false ∧ ∃ t ∈ tokens text, t.kind = .identifier ∧ e = t.renameTo e.replacement) ∨
      (e.isInsertion = true ∧ ∃ a keyword, IsScoped text a keyword ∧ e = keyword.scopeEdit) ∨
      (e.isInsertion = true ∧ IncludeGuardRule.guardEdit? (.ofText config isOneOfMany path text) = some e) := by
  obtain ⟨v, hv, hev⟩ := mem_fixEdits.mp he
  obtain ⟨info, line, hopen, -⟩ := openFix_of_mem_fixable hv
  rcases hopen.edit_kinds hev with ⟨-, hinsertion, hrename⟩ | hscope | hguard
  · exact Or.inl ⟨hinsertion, hrename⟩
  · exact Or.inr (Or.inl hscope)
  · exact Or.inr (Or.inr hguard)

/-- The edits of a file lie in it. -/
theorem within_of_mem_fixEdits {e : Edit}
    (he : e ∈ fixEdits (.ofText config isOneOfMany path text)) : e.Within text.length := by
  rcases fixEdit_cases he with ⟨-, t, ht, -, heq⟩ | ⟨-, a, keyword, ha, rfl⟩ | ⟨-, hguard⟩
  · have hlt := start_lt_stop ht
    have hend := stop_le_length ht
    rw [heq]
    exact ⟨Int.natCast_nonneg _, by show (t.start : Int) ≤ t.stop; omega, by show (t.stop : Int) ≤ _; omega⟩
  · exact ha.within
  · exact IncludeGuardRule.within_of_guardEdit hguard

/-- ` class` and the guarding line are not put in at the same place. -/
theorem IncludeGuardRule.start_ne_scopeEdit {e : Edit} {a : Entity} {keyword : Token}
    (h : guardEdit? (.ofText config isOneOfMany path text) = some e) (ha : IsScoped text a keyword) :
    e.start ≠ keyword.scopeEdit.start := by
  obtain ⟨hcode, hkind, head, ⟨-, rest, hsuffix, hread⟩, -⟩ := ha.hasHead
  have hkeyword := (List.mem_filter.mp hcode).1
  show e.start ≠ (keyword.stop : Int)
  rcases start_le_of_guardEdit h hkeyword (by simp [hkind]) (by simp [hkind]) with hstart | hend
  · have := start_lt_stop hkeyword
    omega
  · -- the end of the head stands behind the keyword
    obtain ⟨front, hfront, -⟩ := (takenFrom_typeHead hread).append
    have hmem : head.terminator ∈ rest := by simp [hfront]
    have ht := (List.mem_filter.mp (hsuffix.subset (List.mem_cons_of_mem _ hmem))).1
    have hordered := (tokens_ordered text).sublist (hsuffix.sublist.trans List.filter_sublist)
    have hbehind := (List.pairwise_cons.mp hordered).1 head.terminator hmem
    have hlt := start_lt_stop ht
    have hlen := stop_le_length ht
    omega

/-- An edit that puts something in keeps out of the way of a rename, if that does not start there. -/
theorem not_overlaps_rename {a b : Edit} (ha : a ∈ fixEdits (.ofText config isOneOfMany path text))
    (hb : b ∈ fixEdits (.ofText config isOneOfMany path text)) (hinsertion : a.isInsertion = true)
    (hrename : b.isInsertion = false) (hclear : a.start ≠ b.start) : a.overlaps b = false := by
  rcases fixEdit_cases hb with ⟨-, t, ht, htkind, heq⟩ | ⟨h, -⟩ | ⟨h, -⟩
  rotate_left
  · exact absurd h (by simp [hrename])
  · exact absurd h (by simp [hrename])
  have hstart : b.start = t.start := congrArg Edit.start heq
  have hstop : b.stop = t.stop := congrArg Edit.stop heq
  rw [Edit.overlaps, if_pos hinsertion, hrename, hstart, hstop]
  have hlen := stop_le_length ht
  have hplace : a.start < t.start ∨ t.stop ≤ a.start := by
    rcases fixEdit_cases ha with ⟨h, -⟩ | ⟨-, c, keyword, hc, rfl⟩ | ⟨-, hguard⟩
    · exact absurd h (by simp [hinsertion])
    · have hkeyword := (List.mem_filter.mp hc.hasHead.1).1
      have hne : keyword ≠ t := by
        rintro rfl
        exact absurd (hc.hasHead.2.1.symm.trans htkind) (by simp)
      have hlt := start_lt_stop ht
      show (keyword.stop : Int) < t.start ∨ (t.stop : Int) ≤ keyword.stop
      have : (keyword.stop : Int) ≠ t.start := by rwa [← hstart]
      have := start_lt_stop hkeyword
      rcases (tokens_apart hkeyword ht).resolve_left hne with hle | hle <;> omega
    · rcases IncludeGuardRule.start_le_of_guardEdit hguard ht (by simp [htkind]) (by simp [htkind]) with hle | hend
      · omega
      · omega
  simp only [Bool.false_eq_true, if_false, Bool.and_eq_false_iff, decide_eq_false_iff_not]
  omega

/-- Renames of a name to one new spelling keep out of each other's way. -/
theorem eq_or_not_overlaps_of_renames {a b : Edit}
    (ha : a ∈ fixEdits (.ofText config isOneOfMany path text))
    (hb : b ∈ fixEdits (.ofText config isOneOfMany path text)) (harename : a.isInsertion = false)
    (hbrename : b.isInsertion = false) (hagree : a.replaced text = b.replaced text → a.replacement = b.replacement) :
    a = b ∨ a.overlaps b = false := by
  rcases fixEdit_cases ha with ⟨-, t, ht, -, hat⟩ | ⟨h, -⟩ | ⟨h, -⟩
  rotate_left
  · exact absurd h (by simp [harename])
  · exact absurd h (by simp [harename])
  rcases fixEdit_cases hb with ⟨-, u, hu, -, hbu⟩ | ⟨h, -⟩ | ⟨h, -⟩
  rotate_left
  · exact absurd h (by simp [hbrename])
  · exact absurd h (by simp [hbrename])
  rcases tokens_apart ht hu with rfl | hle
  · left
    rw [hat, hbu, hagree (by rw [hat, hbu, Edit.RenameAll.replaced_renameTo ht, Edit.RenameAll.replaced_renameTo ht])]
  · right
    have hstarts : a.start = t.start ∧ b.start = u.start :=
      ⟨congrArg Edit.start hat, congrArg Edit.start hbu⟩
    have hstops : a.stop = t.stop ∧ b.stop = u.stop := ⟨congrArg Edit.stop hat, congrArg Edit.stop hbu⟩
    rw [Edit.overlaps, harename, hbrename, hstarts.1, hstarts.2, hstops.1, hstops.2]
    simp only [Bool.false_eq_true, if_false, Bool.and_eq_false_iff, decide_eq_false_iff_not]
    omega

/-- The edits of the fixes of a file that puts two things in keep out of each other's way. -/
theorem eq_or_not_overlaps_of_insertions {a b : Edit}
    (ha : a ∈ fixEdits (.ofText config isOneOfMany path text))
    (hb : b ∈ fixEdits (.ofText config isOneOfMany path text)) (hainsertion : a.isInsertion = true)
    (hbinsertion : b.isInsertion = true) : a = b ∨ a.overlaps b = false := by
  have happart : a.overlaps b = (a.start == b.start) := by
    rw [Edit.overlaps, if_pos hainsertion, if_pos hbinsertion]
  rcases fixEdit_cases ha with ⟨h, -⟩ | ⟨-, c, keyword, hc, rfl⟩ | ⟨-, haguard⟩
  · exact absurd h (by simp [hainsertion])
  · rcases fixEdit_cases hb with ⟨h, -⟩ | ⟨-, d, keyword', -, rfl⟩ | ⟨-, hbguard⟩
    · exact absurd h (by simp [hbinsertion])
    · exact keyword.eq_or_not_overlaps_scopeEdit keyword'
    · right
      rw [happart, beq_eq_false_iff_ne]
      exact (IncludeGuardRule.start_ne_scopeEdit hbguard hc).symm
  · rcases fixEdit_cases hb with ⟨h, -⟩ | ⟨-, d, keyword, hd, rfl⟩ | ⟨-, hbguard⟩
    · exact absurd h (by simp [hbinsertion])
    · right
      rw [happart, beq_eq_false_iff_ne]
      exact IncludeGuardRule.start_ne_scopeEdit haguard hd
    · exact Or.inl (Option.some.inj (haguard.symm.trans hbguard))

/-- Two edits of the fixes of a file are the same or keep out of each other's way exactly when the fixes keep
apart. -/
theorem pairwise_iff_keepApart :
    (∀ a ∈ fixEdits (.ofText config isOneOfMany path text), ∀ b ∈ fixEdits (.ofText config isOneOfMany path text),
        a = b ∨ a.overlaps b = false) ↔
      KeepApart text (fixEdits (.ofText config isOneOfMany path text)) := by
  constructor
  · intro h
    obtain ⟨planned, hplan⟩ := exists_planEdits_iff.mpr ⟨fun e he => within_of_mem_fixEdits he, h⟩
    obtain ⟨hmem, hwithin, hbefore⟩ := planEdits_ok hplan
    have hbatch : IsFixBatch (.ofText config isOneOfMany path text) planned :=
      ⟨fun e => (hmem e).trans mem_fixEdits, hwithin, hbefore⟩
    have hrenames : ∀ e ∈ Edit.renames (fixEdits (.ofText config isOneOfMany path text)),
        e ∈ Edit.renames planned := fun e he => by
      rw [Edit.mem_renames] at he ⊢
      exact ⟨(hmem e).mpr he.1, he.2⟩
    refine ⟨fun a ha b hb => hbatch.renameAll.1.replacement_unique (hrenames a ha) (hrenames b hb),
      fun a ha hinsertion b hb hstart => ?_⟩
    obtain ⟨hb, hrename⟩ := Edit.mem_renames.mp hb
    rw [eq_of_start_eq hbefore ((hmem a).mpr ha) ((hmem b).mpr hb) hstart, hrename] at hinsertion
    exact absurd hinsertion (by decide)
  · intro h a ha b hb
    cases hainsertion : a.isInsertion with
    | false =>
      cases hbinsertion : b.isInsertion with
      | false =>
        exact eq_or_not_overlaps_of_renames ha hb hainsertion hbinsertion
          (h.agree a (Edit.mem_renames.mpr ⟨ha, hainsertion⟩) b (Edit.mem_renames.mpr ⟨hb, hbinsertion⟩))
      | true =>
        right
        rw [Edit.overlaps_comm]
        exact not_overlaps_rename hb ha hbinsertion hainsertion
          (h.clear b hb hbinsertion a (Edit.mem_renames.mpr ⟨ha, hainsertion⟩))
    | true =>
      cases hbinsertion : b.isInsertion with
      | false =>
        exact Or.inr (not_overlaps_rename ha hb hainsertion hbinsertion
          (h.clear a ha hainsertion b (Edit.mem_renames.mpr ⟨hb, hbinsertion⟩)))
      | true => exact eq_or_not_overlaps_of_insertions ha hb hainsertion hbinsertion

/-- Only what the edits of a batch are tells whether it does harm. -/
theorem Harmless.of_mem_iff {edits planned : List Edit} (h : Harmless text edits)
    (hmem : ∀ e, e ∈ planned ↔ e ∈ edits) : Harmless text planned := by
  have hrenames : ∀ e, e ∈ Edit.renames planned ↔ e ∈ Edit.renames edits := fun e => by
    rw [Edit.mem_renames, Edit.mem_renames, hmem]
  exact {
    merge := fun a ha b hb => h.merge a ((hrenames a).mp ha) b ((hrenames b).mp hb)
    words := fun e he => h.words e ((hrenames e).mp he)
    quotes := fun e he => h.quotes e ((hrenames e).mp he)
    fileEnd := fun e he => h.fileEnd e ((hmem e).mp he) }

/-- What is planned of the fixes of a file is a batch of them. -/
theorem isFixBatch_of_planEdits {planned : List Edit}
    (h : planEdits text.length (fixEdits (.ofText config isOneOfMany path text)) = .ok planned) :
    IsFixBatch (.ofText config isOneOfMany path text) planned := by
  obtain ⟨hmem, hwithin, hbefore⟩ := planEdits_ok h
  exact ⟨fun e => (hmem e).trans mem_fixEdits, hwithin, hbefore⟩

/-- The fixes of a file are refused for two reasons only. They do not keep apart, which is when two different
edits overlap; or the new text declares other kinds of entities, which fixes that do no harm never lead to. -/
theorem fixes_rejected_iff (config : Config) (isOneOfMany : Bool) (path : SourcePath) (text : Text) :
    let f := SourceFile.ofText config isOneOfMany path text
    ((∀ a ∈ fixEdits f, ∀ b ∈ fixEdits f, a = b ∨ a.overlaps b = false) ↔ KeepApart text (fixEdits f)) ∧
      ((∃ first second, applyFixes text (detectEnabled f) = .error (.overlap first second)) ↔
        ¬ KeepApart text (fixEdits f)) ∧
      (∀ start stop, applyFixes text (detectEnabled f) ≠ .error (.outside start stop)) ∧
      (KeepApart text (fixEdits f) → Harmless text (fixEdits f) →
        ∃ updated, applyFixes text (detectEnabled f) = .ok updated ∧
          entityKinds updated = entityKinds text) := by
  intro f
  have hwithin : ∀ e ∈ fixEdits f, e.Within text.length := fun e he => within_of_mem_fixEdits he
  have hpairwise : (∀ a ∈ fixEdits f, ∀ b ∈ fixEdits f, a = b ∨ a.overlaps b = false) ↔
      KeepApart text (fixEdits f) := pairwise_iff_keepApart
  have hplanned := exists_planEdits_iff.trans ((and_iff_right hwithin).trans hpairwise)
  refine ⟨hpairwise, ⟨?_, fun hnot => ?_⟩, fun start stop h => ?_, fun hapart hharmless => ?_⟩
  · rintro ⟨first, second, h⟩ hapart
    obtain ⟨planned, hplan⟩ := hplanned.mpr hapart
    exact absurd (applyFixes_eq_error hplan h) (by simp)
  · exact applyFixes_of_overlapping hwithin (mt hpairwise.mp hnot)
  · cases hplan : planEdits text.length (fixEdits f) with
    | ok planned => exact absurd (applyFixes_eq_error hplan h) (by simp)
    | error r =>
      obtain ⟨first, second, rfl⟩ := planEdits_eq_error hwithin hplan
      rw [applyFixes_of_planEdits_error hplan] at h
      exact absurd h (by simp)
  · obtain ⟨planned, hplan⟩ := hplanned.mpr hapart
    have hbatch := isFixBatch_of_planEdits hplan
    have hkinds := hbatch.entityKinds_splice
      (hharmless.of_mem_iff fun e => (hbatch.mem_iff e).trans mem_fixEdits.symm)
    have hsplice : applyEdits text planned = splice 0 text planned :=
      applyEdits_eq_splice hbatch.within hbatch.before
    rw [← hsplice] at hkinds
    exact ⟨_, applyFixes_eq_ok_iff.mpr ⟨planned, hplan, rfl, hkinds⟩, hkinds⟩

end

/-- A header without a guard, with a name that is not in its style and an enumeration that is not scoped. -/
def mixedHeader : Text := Text.ofString "int fooBaz = 1;\nenum Foo \x7b One \x7d;\n"

set_option maxRecDepth 10000 in
/-- A guarding line, ` class` and a rename are put in together. -/
theorem fixes_applied_together :
    ∃ updated,
      applyFixes mixedHeader (detectEnabled (.ofText {} false (.ofString "a.h") mixedHeader)) = .ok updated ∧
        entityKinds updated = entityKinds mixedHeader := by
  obtain ⟨hapart, hharmless⟩ := SourceFile.of_asRead {} false (.ofString "a.h") mixedHeader
    (P := fun f => KeepApart mixedHeader (fixEdits f) ∧ Harmless mixedHeader (fixEdits f)) (by
      rw [mixedHeader, Text.ofString_ofList]
      decide +kernel)
  exact (fixes_rejected_iff {} false (.ofString "a.h") mixedHeader).2.2.2 hapart hharmless

set_option maxRecDepth 10000 in
/-- A name of a data member and of a variable, which is given two new spellings. In a header, a name at the
start that is renamed, and the guarding line before it. -/
theorem exists_rejected_fixes :
    (∃ text first second, applyFixes text (detectEnabled (.ofText {} false (.ofString "a.cpp") text)) =
        .error (.overlap first second)) ∧
      ∃ text first second, applyFixes text (detectEnabled (.ofText {} false (.ofString "a.h") text)) =
        .error (.overlap first second) := by
  refine ⟨⟨Text.ofString "struct A \x7b int fooBar_; \x7d;\nint fooBar_;\n", ?_⟩,
    ⟨Text.ofString "foo_t x;\nclass foo_t \x7b\x7d;\n", ?_⟩⟩
  · refine applyFixes_of_overlapping (fun e he => within_of_mem_fixEdits he) ?_
    exact SourceFile.of_asRead {} false (.ofString "a.cpp") _
      (P := fun f => ¬∀ a ∈ fixEdits f, ∀ b ∈ fixEdits f, a = b ∨ a.overlaps b = false)
      (by
        rw [Text.ofString_ofList]
        decide +kernel)
  · refine applyFixes_of_overlapping (fun e he => within_of_mem_fixEdits he) ?_
    exact SourceFile.of_asRead {} false (.ofString "a.h") _
      (P := fun f => ¬∀ a ∈ fixEdits f, ∀ b ∈ fixEdits f, a = b ∨ a.overlaps b = false)
      (by
        rw [Text.ofString_ofList]
        decide +kernel)

end HouseStyle
