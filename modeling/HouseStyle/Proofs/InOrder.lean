import HouseStyle.Detection
import HouseStyle.Proofs.Batch

/-!
# Files whose declarations are read in order

Entities, edits and open regions are sorted, since they can come up out of order: the name of a
function is recorded after its parameters. Where they come up in order there is nothing to sort, and
a file is what has been read of it, entity by entity. Such a file can be computed with.

- `ofText_eq_asRead`: a file whose entities come up in order and whose regions are all closed.
- `applyFixes_of_fixesTo`: the fixed text, for edits that come up in order.
-/

namespace HouseStyle

/-- What is read of a file, before the entities are put in order. -/
def Extraction.ofTokens (tokens : List Token) : Extraction :=
  let code := Token.code tokens
  let fileEnd := (code.getLast?.map (·.stop)).getD 0
  let read := ((Extraction.initial fileEnd).run code).endOpened fileEnd
  (tokens.filter (·.isDirective)).foldl (·.addMacro ·) read

/-- The declaration model with the entities in the order in which they have been read. -/
def Extraction.asRead (x : Extraction) : Model :=
  { entities := x.entities.toList, scopes := x.scopes, anomalies := x.anomalies.toList }

theorem extract_eq (tokens : List Token) :
    extract tokens =
      { entities := (Extraction.ofTokens tokens).entities.toList.mergeSort Entity.precedes
        scopes := (Extraction.ofTokens tokens).scopes
        anomalies := (Extraction.ofTokens tokens).anomalies.toList } := rfl

theorem mem_entities_extract {tokens : List Token} {e : Entity} :
    e ∈ (extract tokens).entities ↔ e ∈ (Extraction.ofTokens tokens).entities.toList := by
  rw [extract_eq, List.mem_mergeSort]

theorem Entity.precedes_iff (a b : Entity) :
    a.precedes b = true ↔ a.start < b.start ∨ a.start = b.start ∧ a.kind.label ≤ b.kind.label := by
  simp [Entity.precedes]

/-- The entities of a file are in the order of their names in it. -/
theorem sorted_entities_extract (tokens : List Token) :
    (extract tokens).entities.Pairwise fun a b => a.start ≤ b.start := by
  have htrans : ∀ a b c : Entity, a.precedes b = true → b.precedes c = true → a.precedes c = true := by
    intro a b c hab hbc
    rw [Entity.precedes_iff] at *
    rcases hab with hab | ⟨hab, hlabel⟩
    · exact Or.inl (by omega)
    · rcases hbc with hbc | ⟨hbc, hlabel'⟩
      · exact Or.inl (by omega)
      · exact Or.inr ⟨hab.trans hbc, String.le_trans hlabel hlabel'⟩
  have htotal : ∀ a b : Entity, (a.precedes b || b.precedes a) = true := by
    intro a b
    rw [Bool.or_eq_true, Entity.precedes_iff, Entity.precedes_iff]
    rcases Nat.lt_trichotomy a.start b.start with h | h | h
    · exact Or.inl (Or.inl h)
    · exact (String.le_total a.kind.label b.kind.label).imp (fun hle => Or.inr ⟨h, hle⟩)
        fun hle => Or.inr ⟨h.symm, hle⟩
    · exact Or.inr (Or.inl h)
  refine (List.pairwise_mergeSort htrans htotal _).imp fun h => ?_
  rw [Entity.precedes_iff] at h
  omega

/-- Entities that are read in order need not be sorted. -/
theorem extract_eq_asRead {tokens : List Token}
    (h : (Extraction.ofTokens tokens).entities.toList.Pairwise fun a b => a.precedes b = true) :
    extract tokens = (Extraction.ofTokens tokens).asRead := by
  rw [extract_eq, List.mergeSort_of_pairwise h]
  rfl

namespace Suppressions

/-- The suppressions of markers of which each region is closed. -/
def Reading.asRead (r : Reading) : Suppressions := { entries := r.entries.toList, notes := r.notes.toList }

theorem ofTokens_eq_asRead {tokens : List Token} (h : (Reading.ofTokens tokens).opened = []) :
    Suppressions.ofTokens tokens = (Reading.ofTokens tokens).asRead := by
  unfold Suppressions.ofTokens
  dsimp only
  rw [h, List.mergeSort_nil, List.map_nil, List.map_nil, List.append_nil, List.append_nil]
  rfl

end Suppressions

/-- A text taken apart, with nothing sorted. -/
def SourceFile.asRead (config : Config) (isOneOfMany : Bool) (path : SourcePath) (text : Text) :
    SourceFile :=
  let ts := HouseStyle.tokens text
  { path, text, tokens := ts, code := Token.code ts, model := (Extraction.ofTokens ts).asRead
    suppressions := (Suppressions.Reading.ofTokens ts).asRead, lines := LineIndex.ofText text, config
    isOneOfMany }

/-- A text that can be taken apart without sorting: its entities come up in order, and every region of
suppression is closed. -/
def InOrder (text : Text) : Prop :=
  ((Extraction.ofTokens (tokens text)).entities.toList.Pairwise fun a b => a.precedes b = true) ∧
    (Suppressions.Reading.ofTokens (tokens text)).opened.isEmpty = true

instance (text : Text) : Decidable (InOrder text) := inferInstanceAs (Decidable (_ ∧ _))

theorem SourceFile.ofText_eq_asRead {text : Text} (h : InOrder text) (config : Config)
    (isOneOfMany : Bool) (path : SourcePath) :
    SourceFile.ofText config isOneOfMany path text = .asRead config isOneOfMany path text := by
  unfold SourceFile.ofText SourceFile.asRead
  dsimp only
  rw [extract_eq_asRead h.1, Suppressions.ofTokens_eq_asRead (List.isEmpty_iff.mp h.2)]

/-- What is computed of a text in order holds of the file. -/
theorem SourceFile.of_asRead (config : Config) (isOneOfMany : Bool) (path : SourcePath) (text : Text)
    {P : SourceFile → Prop} (h : InOrder text ∧ P (.asRead config isOneOfMany path text)) :
    P (.ofText config isOneOfMany path text) := by
  rw [SourceFile.ofText_eq_asRead h.1]
  exact h.2

/-- The same for what is computed of the file and of the entity at an index. -/
theorem SourceFile.exists_entity_of_asRead (config : Config) (isOneOfMany : Bool) (path : SourcePath)
    (text : Text) (i : Nat) {P : SourceFile → Entity → Prop}
    (h : InOrder text ∧ ∃ e ∈ (SourceFile.asRead config isOneOfMany path text).model.entities[i]?,
      P (.asRead config isOneOfMany path text) e) :
    ∃ e, (extract (HouseStyle.tokens text)).entities[i]? = some e ∧ P (.ofText config isOneOfMany path text) e := by
  obtain ⟨horder, e, he, hP⟩ := h
  rw [SourceFile.ofText_eq_asRead horder, extract_eq_asRead horder.1]
  exact ⟨e, he, hP⟩

theorem entityKinds_eq_asRead {text : Text} (h : InOrder text) :
    entityKinds text = (Extraction.ofTokens (tokens text)).asRead.entities.map (·.kind) := by
  rw [entityKinds, extract_eq_asRead h.1]

/-- Whether edits that come up in order turn one text in order into another. -/
def editsTo (edits : List Edit) (text updated : Text) : Bool :=
  decide (InOrder text) && decide (InOrder updated) && !edits.isEmpty &&
    decide (edits.Pairwise fun a b => a.precedes b = true) &&
    (checkBatch text.length none none edits).isOk && splice 0 text edits == updated &&
    (Extraction.ofTokens (tokens updated)).asRead.entities.map (·.kind) ==
      (Extraction.ofTokens (tokens text)).asRead.entities.map (·.kind)

/-- Whether the fixes of some violations turn one text in order into another, found without sorting
the edits. -/
def fixesTo (vs : List Violation) (text updated : Text) : Bool :=
  editsTo (distinctEdits ((fixableViolations vs).flatMap (·.edits))) text updated

/-- What fixes do that have been found so. -/
theorem applyFixes_of_fixesTo (vs : SourceFile → List Violation) {config : Config}
    {isOneOfMany : Bool} {path : SourcePath} {text updated : Text}
    (h : fixesTo (vs (.asRead config isOneOfMany path text)) text updated = true) :
    applyFixes text (vs (.ofText config isOneOfMany path text)) = .ok updated := by
  simp only [fixesTo, editsTo, Bool.and_eq_true, decide_eq_true_eq, Bool.not_eq_true', beq_iff_eq] at h
  obtain ⟨⟨⟨⟨⟨⟨hbefore, hafter⟩, hne⟩, hsorted⟩, hcheck⟩, hsplice⟩, hkinds⟩ := h
  rw [SourceFile.ofText_eq_asRead hbefore]
  generalize hedits : distinctEdits ((fixableViolations
    (vs (.asRead config isOneOfMany path text))).flatMap (·.edits)) = edits at *
  have hplan : planEdits text.length
      ((fixableViolations (vs (.asRead config isOneOfMany path text))).flatMap (·.edits)) =
        .ok edits := by
    unfold planEdits
    rw [hedits, List.mergeSort_of_pairwise hsorted]
    dsimp only
    cases hc : checkBatch text.length none none edits with
    | error r => rw [hc] at hcheck; exact absurd hcheck (by simp [Except.isOk, Except.toBool])
    | ok u => rfl
  obtain ⟨-, hwithin, hapart⟩ := planEdits_ok hplan
  unfold applyFixes
  rw [hplan]
  cases edits with
  | nil => exact absurd hne (by decide)
  | cons e es =>
    dsimp only
    rw [applyEdits_eq_splice hwithin hapart, hsplice, entityKinds_eq_asRead hbefore,
      entityKinds_eq_asRead hafter, if_pos hkinds]

/-- What fixes do that have been found so, with what is computed of the file they are for. -/
theorem SourceFile.applyFixes_of_asRead (vs : SourceFile → List Violation) (config : Config)
    (isOneOfMany : Bool) (path : SourcePath) (text updated : Text) {P : SourceFile → Prop}
    (h : fixesTo (vs (.asRead config isOneOfMany path text)) text updated = true ∧
      InOrder text ∧ P (.asRead config isOneOfMany path text)) :
    applyFixes text (vs (.ofText config isOneOfMany path text)) = .ok updated ∧
      P (.ofText config isOneOfMany path text) :=
  ⟨applyFixes_of_fixesTo vs h.1, SourceFile.of_asRead config isOneOfMany path text h.2⟩

end HouseStyle
