import HouseStyle.Proofs.InOrder
import HouseStyle.Proofs.MarkerSites
import HouseStyle.Proofs.MarkerSteps

/-!
# What the markers of a file turn off

The markers of a file are read one after another, with the regions that are open as the state of the reading. What
they mean can be said without a state: a region of a key begins with a start that finds the key closed, and ends
with the first end behind it that is about the key (`HasRegion`), and every other marker stands for itself
(`TurnedOff`). Reading agrees with that, key by key: the regions that are still to come are those of the markers
ahead, given whether the key is open now (`HasRegionFrom`).

- `mem_entries_readAll`, `opener_readAll`: the stretches and the open regions behind any run of markers.
- `markers_as_documented`: suppressions mean what is documented of the markers that are read, and these are the
  markers that stand in the comments just if their keywords are in ASCII, ends of regions apart.
- `not_asDocumented_longSComment`: a keyword with a long `s` is taken for the end of a region.
-/

namespace HouseStyle

/-- A marker and the comment that it stands in. -/
structure PlacedMarker where
  comment : Token
  marker : Marker
  deriving DecidableEq, Repr

/-- A marker is about a rule if it lists it, or all rules, or nothing. -/
def Marker.IsAbout (m : Marker) (rule : String) : Prop :=
  m.rules = [] ∨ rule ∈ m.rules ∨ allRules ∈ m.rules

namespace Suppressions

variable {ms : List PlacedMarker} {p : PlacedMarker} {key : String} {opener : Token} {closer : Option Token}

/-! ## Regions -/

/-- A region of a key is open behind some markers: one of them opens it, and none behind that one closes it. -/
def IsOpen (ms : List PlacedMarker) (key : String) : Prop :=
  ∃ before p after, ms = before ++ p :: after ∧ p.marker.opens key = true ∧
    ∀ q ∈ after, q.marker.closes key = false

/-- A region of a key: a marker finds the key closed and opens it, and the first end behind it that is about the
key closes it, if there is one. -/
def HasRegion (ms : List PlacedMarker) (key : String) (opener : Token) (closer : Option Token) : Prop :=
  ∃ before p after, ms = before ++ p :: after ∧ p.comment = opener ∧ p.marker.opens key = true ∧
    ¬IsOpen before key ∧ (after.find? (·.marker.closes key)).map (·.comment) = closer

/-- Some markers turn a rule off on a line. -/
inductive TurnedOff (ms : List PlacedMarker) (rule : String) (line : Int) : Prop where
  /-- A marker for the file, on each of its lines. -/
  | file (p : PlacedMarker) (hp : p ∈ ms) (kind : p.marker.kind = .file) (about : p.marker.IsAbout rule)
      (from_first : 1 ≤ line)
  /-- A marker for its comment, on each line of it. -/
  | line (p : PlacedMarker) (hp : p ∈ ms) (kind : p.marker.kind = .line) (about : p.marker.IsAbout rule)
      (from_start : p.comment.line ≤ line) (to_end : line ≤ p.comment.endLine)
  /-- A marker for the line behind its comment. -/
  | nextLine (p : PlacedMarker) (hp : p ∈ ms) (kind : p.marker.kind = .nextLine)
      (about : p.marker.IsAbout rule) (behind : p.comment.endLine = line - 1)
  /-- A region of the rule or of all rules, from the line where the comment that opens it starts to the one where
  the comment that closes it ends. -/
  | region (key : String) (hkey : key = rule ∨ key = Marker.allRules) (opener : Token)
      (closer : Option Token) (hregion : HasRegion ms key opener closer) (from_start : opener.line ≤ line)
      (to_end : ∀ c ∈ closer, line ≤ c.endLine)

/-! ## One marker after another -/

/-- Whether a region of a key is open behind some markers, if it is told for the place in front of them. -/
def openBehind (key : String) : Bool → List PlacedMarker → Bool
  | isOpen, [] => isOpen
  | isOpen, p :: ms => openBehind key (p.marker.opens key || (isOpen && !p.marker.closes key)) ms

/-- A split of a list is one at its head or one behind it. -/
theorem exists_split_cons_iff {α : Type} {a : α} {l : List α} {P : List α → α → List α → Prop} :
    (∃ before b after, a :: l = before ++ b :: after ∧ P before b after) ↔
      P [] a l ∨ ∃ before b after, l = before ++ b :: after ∧ P (a :: before) b after := by
  constructor
  · rintro ⟨before, b, after, hsplit, h⟩
    cases before with
    | nil =>
      obtain ⟨rfl, rfl⟩ := List.cons.inj hsplit
      exact Or.inl h
    | cons c before =>
      obtain ⟨rfl, rfl⟩ := List.cons.inj hsplit
      exact Or.inr ⟨before, b, after, rfl, h⟩
  · rintro (h | ⟨before, b, after, rfl, h⟩)
    · exact ⟨[], a, l, rfl, h⟩
    · exact ⟨a :: before, b, after, rfl, h⟩

theorem isOpen_cons_iff :
    IsOpen (p :: ms) key ↔
      p.marker.opens key = true ∧ (∀ q ∈ ms, q.marker.closes key = false) ∨ IsOpen ms key :=
  exists_split_cons_iff

theorem openBehind_iff {isOpen : Bool} :
    openBehind key isOpen ms = true ↔
      isOpen = true ∧ (∀ q ∈ ms, q.marker.closes key = false) ∨ IsOpen ms key := by
  induction ms generalizing isOpen with
  | nil =>
    have hnone : ¬IsOpen [] key := by
      rintro ⟨before, p, after, hsplit, -⟩
      exact absurd hsplit (by simp)
    simp [openBehind, hnone]
  | cons p ms ih =>
    rw [openBehind, ih, isOpen_cons_iff, List.forall_mem_cons, Bool.or_eq_true, Bool.and_eq_true,
      Bool.not_eq_true', ← or_assoc]
    refine or_congr_left ?_
    rw [or_and_right, or_comm, and_assoc]

theorem openBehind_eq_false_iff : openBehind key false ms = false ↔ ¬IsOpen ms key := by
  rw [← Bool.not_eq_true, openBehind_iff]
  simp

instance (ms : List PlacedMarker) (key : String) : Decidable (IsOpen ms key) :=
  decidable_of_iff (openBehind key false ms = true) (by rw [openBehind_iff]; simp)

/-- The comment that has opened the region of a key behind a marker. -/
def openerBehind (key : String) (o : Option Token) (p : PlacedMarker) : Option Token :=
  if p.marker.opens key = true then some (o.getD p.comment)
  else if p.marker.closes key = true then none
  else o

theorem opener_step_eq (r : Reading) (p : PlacedMarker) (key : String) :
    (r.step p.comment p.marker).opener? key = openerBehind key (r.opener? key) p :=
  Reading.opener_step r p.comment p.marker key

theorem isSome_openerBehind (key : String) (o : Option Token) (p : PlacedMarker) :
    (openerBehind key o p).isSome = (p.marker.opens key || (o.isSome && !p.marker.closes key)) := by
  unfold openerBehind
  by_cases hopens : p.marker.opens key = true
  · simp [hopens]
  · by_cases hcloses : p.marker.closes key = true <;> simp [hopens, hcloses]

/-- The regions of a key that some markers end or begin, if the comment is given that has opened the one which is
open in front of them. -/
def HasRegionFrom (o : Option Token) (ms : List PlacedMarker) (key : String) (opener : Token)
    (closer : Option Token) : Prop :=
  o = some opener ∧ (ms.find? (·.marker.closes key)).map (·.comment) = closer ∨
    ∃ before p after, ms = before ++ p :: after ∧ p.comment = opener ∧ p.marker.opens key = true ∧
      openBehind key o.isSome before = false ∧ (after.find? (·.marker.closes key)).map (·.comment) = closer

theorem hasRegionFrom_none_iff : HasRegionFrom none ms key opener closer ↔ HasRegion ms key opener closer := by
  unfold HasRegionFrom HasRegion
  simp only [Option.isSome_none, openBehind_eq_false_iff, reduceCtorEq, false_and, false_or]

theorem hasRegionFrom_nil_iff {o : Option Token} :
    HasRegionFrom o [] key opener closer ↔ o = some opener ∧ closer = none := by
  unfold HasRegionFrom
  rw [or_iff_left]
  · exact and_congr_right fun _ => eq_comm
  · rintro ⟨before, p, after, hsplit, -⟩
    exact absurd hsplit (by simp)

/-- A marker ends the region that is open, or the regions are those of what is open behind it. -/
theorem hasRegionFrom_cons_iff {o : Option Token} :
    HasRegionFrom o (p :: ms) key opener closer ↔
      p.marker.closes key = true ∧ o = some opener ∧ closer = some p.comment ∨
        HasRegionFrom (openerBehind key o p) ms key opener closer := by
  unfold HasRegionFrom
  rw [exists_split_cons_iff, isSome_openerBehind]
  simp only [openBehind]
  rw [← or_assoc, ← or_assoc]
  refine or_congr_left ?_
  unfold openerBehind
  by_cases hopens : p.marker.opens key = true
  · have hcloses : p.marker.closes key = false := by
      refine Bool.eq_false_iff.mpr fun h => ?_
      rw [Marker.opens_eq_false_of_closes h] at hopens
      exact absurd hopens (by decide)
    rw [List.find?_cons_of_neg (by simp [hcloses])]
    -- a region that is open keeps its start
    cases o <;> simp [hopens, hcloses]
  · by_cases hcloses : p.marker.closes key = true
    · rw [List.find?_cons_of_pos (by simpa using hcloses)]
      simp only [hopens, hcloses, Option.map_some, true_and, false_and, and_false, or_false, if_true, if_false,
        reduceCtorEq, Bool.false_eq_true]
      exact and_congr_right fun _ => eq_comm
    · rw [List.find?_cons_of_neg (by simpa using hcloses)]
      simp [hopens, hcloses]

/-! ## Readings -/

/-- Reads some markers, one after another. -/
def readAll (r : Reading) (ms : List PlacedMarker) : Reading :=
  ms.foldl (fun r p => r.step p.comment p.marker) r

theorem readAll_cons (r : Reading) (p : PlacedMarker) (ms : List PlacedMarker) :
    readAll r (p :: ms) = readAll (r.step p.comment p.marker) ms := rfl

/-- The markers that are read of the comments among some tokens, in order. -/
def markersRead (tokens : List Token) : List PlacedMarker :=
  (tokens.filter (·.isComment)).flatMap fun comment => (Marker.inText comment.text).map (⟨comment, ·⟩)

theorem Reading.ofTokens_eq (tokens : List Token) : Reading.ofTokens tokens = readAll {} (markersRead tokens) := by
  unfold Reading.ofTokens readAll markersRead
  rw [List.foldl_flatMap]
  simp only [List.foldl_map]

theorem opener_readAll {r : Reading} :
    (readAll r ms).opener? key = some opener ↔ HasRegionFrom (r.opener? key) ms key opener none := by
  induction ms generalizing r with
  | nil =>
    rw [hasRegionFrom_nil_iff, and_iff_left rfl]
    rfl
  | cons p ms ih =>
    rw [readAll_cons, ih, hasRegionFrom_cons_iff, opener_step_eq]
    simp

theorem isSome_opener_readAll {r : Reading} :
    ((readAll r ms).opener? key).isSome = openBehind key (r.opener? key).isSome ms := by
  induction ms generalizing r with
  | nil => rfl
  | cons p ms ih =>
    rw [readAll_cons, ih, openBehind, opener_step_eq, isSome_openerBehind]

theorem mem_entries_readAll {r : Reading} {e : Suppression} :
    e ∈ (readAll r ms).entries.toList ↔
      e ∈ r.entries.toList ∨ (∃ p ∈ ms, p.marker.entry? p.comment = some e) ∨
        ∃ key opener closer, HasRegionFrom (r.opener? key) ms key opener (some closer) ∧
          e = Reading.region key opener (some closer) := by
  induction ms generalizing r with
  | nil => simp [readAll, hasRegionFrom_nil_iff]
  | cons p ms ih =>
    -- what is closed by the marker, and what by those behind it
    have hregions : (∃ key opener closer, HasRegionFrom (r.opener? key) (p :: ms) key opener (some closer) ∧
          e = Reading.region key opener (some closer)) ↔
        (∃ key, p.marker.closes key = true ∧ ∃ opener, r.opener? key = some opener ∧
            e = Reading.region key opener (some p.comment)) ∨
          ∃ key opener closer,
            HasRegionFrom ((r.step p.comment p.marker).opener? key) ms key opener (some closer) ∧
              e = Reading.region key opener (some closer) := by
      simp only [hasRegionFrom_cons_iff, opener_step_eq]
      constructor
      · rintro ⟨key, opener, closer, ⟨hcloses, hopener, hcloser⟩ | hlater, he⟩
        · obtain rfl := Option.some.inj hcloser
          exact Or.inl ⟨key, hcloses, opener, hopener, he⟩
        · exact Or.inr ⟨key, opener, closer, hlater, he⟩
      · rintro (⟨key, hcloses, opener, hopener, he⟩ | ⟨key, opener, closer, hlater, he⟩)
        · exact ⟨key, opener, p.comment, Or.inl ⟨hcloses, hopener, rfl⟩, he⟩
        · exact ⟨key, opener, closer, Or.inr hlater, he⟩
    rw [readAll_cons, ih, Reading.mem_entries_step, hregions]
    simp only [List.mem_cons, exists_eq_or_imp]
    rw [or_assoc, or_or_or_comm]

theorem isKeyed_readAll {r : Reading} (h : r.IsKeyed) (ms : List PlacedMarker) : (readAll r ms).IsKeyed := by
  induction ms generalizing r with
  | nil => exact h
  | cons p ms ih => exact ih (h.step p.comment p.marker)

theorem isKeyed_ofTokens (tokens : List Token) : (Reading.ofTokens tokens).IsKeyed := by
  have hempty : ({} : Reading).IsKeyed := List.nodup_nil
  rw [Reading.ofTokens_eq]
  exact isKeyed_readAll hempty (markersRead tokens)

/-! ## Stretches of lines -/

theorem mem_entries_iff {tokens : List Token} {e : Suppression} :
    e ∈ (ofTokens tokens).entries ↔
      (∃ p ∈ markersRead tokens, p.marker.entry? p.comment = some e) ∨
        ∃ key opener closer, HasRegion (markersRead tokens) key opener closer ∧
          e = Reading.region key opener closer := by
  have hkeyed := isKeyed_ofTokens tokens
  have hopened : (∃ region ∈ (Reading.ofTokens tokens).opened, Reading.region region.1 region.2 none = e) ↔
      ∃ key opener, HasRegion (markersRead tokens) key opener none ∧ e = Reading.region key opener none := by
    constructor
    · rintro ⟨⟨key, opener⟩, hmem, rfl⟩
      rw [hkeyed.mem_opened_iff, Reading.ofTokens_eq, opener_readAll] at hmem
      exact ⟨key, opener, hasRegionFrom_none_iff.mp hmem, rfl⟩
    · rintro ⟨key, opener, hregion, rfl⟩
      refine ⟨(key, opener), ?_, rfl⟩
      rw [hkeyed.mem_opened_iff, Reading.ofTokens_eq, opener_readAll]
      exact hasRegionFrom_none_iff.mpr hregion
  show e ∈ (Reading.ofTokens tokens).entries.toList ++ ((Reading.ofTokens tokens).opened.mergeSort
    openedBefore).map (fun region => Reading.region region.1 region.2 none) ↔ _
  rw [List.mem_append, List.mem_map]
  simp only [List.mem_mergeSort]
  rw [hopened, Reading.ofTokens_eq, mem_entries_readAll]
  constructor
  · rintro ((hnone | hplain | ⟨key, opener, closer, hregion, he⟩) | ⟨key, opener, hregion, he⟩)
    · exact absurd hnone (by simp)
    · exact Or.inl hplain
    · exact Or.inr ⟨key, opener, some closer, hasRegionFrom_none_iff.mp hregion, he⟩
    · exact Or.inr ⟨key, opener, none, hregion, he⟩
  · rintro (hplain | ⟨key, opener, closer, hregion, he⟩)
    · exact Or.inl (Or.inr (Or.inl hplain))
    · cases closer with
      | none => exact Or.inr ⟨key, opener, hregion, he⟩
      | some closer =>
        exact Or.inl (Or.inr (Or.inr ⟨key, opener, closer, hasRegionFrom_none_iff.mpr hregion, he⟩))

theorem concerns_filter_iff {start : Nat} {stop : Option Nat} {rules : List String} {rule : String} :
    (Suppression.mk start stop (Marker.filter rules)).concerns rule = true ↔
      rules = [] ∨ rule ∈ rules ∨ Marker.allRules ∈ rules := by
  unfold Suppression.concerns Marker.filter
  by_cases hall : Marker.allRules ∈ rules <;> simp [hall]

theorem covers_iff {e : Suppression} {rule : String} {line : Int} :
    e.covers rule line = true ↔
      e.startLine ≤ line ∧ (∀ last ∈ e.endLine, line ≤ last) ∧ e.concerns rule = true := by
  unfold Suppression.covers
  rw [Bool.and_eq_true, Bool.and_eq_true, decide_eq_true_eq, and_assoc]
  cases e.endLine <;> simp

theorem covers_region_iff {rule : String} {line : Int} :
    (Reading.region key opener closer).covers rule line = true ↔
      (key = rule ∨ key = Marker.allRules) ∧ opener.line ≤ line ∧ ∀ c ∈ closer, line ≤ c.endLine := by
  have hconcerns : (Reading.region key opener closer).concerns rule = true ↔
      key = rule ∨ key = Marker.allRules := by
    rw [Reading.region, concerns_filter_iff]
    simp [eq_comm]
  have hend : (∀ last ∈ (Reading.region key opener closer).endLine, line ≤ last) ↔
      ∀ c ∈ closer, line ≤ c.endLine := by
    cases closer <;> simp [Reading.region]
  rw [covers_iff, hconcerns, hend, and_rotate, and_rotate]
  exact Iff.rfl

theorem turnedOff_of_entry {e : Suppression} {rule : String} {line : Int} (hp : p ∈ ms)
    (hentry : p.marker.entry? p.comment = some e) (hcovers : e.covers rule line = true) :
    TurnedOff ms rule line := by
  rw [covers_iff] at hcovers
  obtain ⟨hstart, hend, hconcerns⟩ := hcovers
  unfold Marker.entry? at hentry
  split at hentry
  next hkind =>
    obtain rfl := Option.some.inj hentry
    exact .file p hp hkind (concerns_filter_iff.mp hconcerns) (by simpa using hstart)
  next hkind =>
    obtain rfl := Option.some.inj hentry
    exact .line p hp hkind (concerns_filter_iff.mp hconcerns) hstart (hend _ rfl)
  next hkind =>
    obtain rfl := Option.some.inj hentry
    have hlast := hend _ rfl
    refine .nextLine p hp hkind (concerns_filter_iff.mp hconcerns) ?_
    simp only at hstart
    omega
  next => exact absurd hentry (by simp)
  next => exact absurd hentry (by simp)

theorem turnedOff_iff {rule : String} {line : Int} :
    TurnedOff ms rule line ↔
      (∃ e, (∃ p ∈ ms, p.marker.entry? p.comment = some e) ∧ e.covers rule line = true) ∨
        ∃ key opener closer, HasRegion ms key opener closer ∧
          (Reading.region key opener closer).covers rule line = true := by
  constructor
  · intro h
    cases h with
    | file p hp kind about from_first =>
      refine Or.inl ⟨⟨1, none, Marker.filter p.marker.rules⟩, ⟨p, hp, by rw [Marker.entry?, kind]⟩, ?_⟩
      exact covers_iff.mpr ⟨from_first, by simp, concerns_filter_iff.mpr about⟩
    | line p hp kind about from_start to_end =>
      refine Or.inl ⟨⟨p.comment.line, some p.comment.endLine, Marker.filter p.marker.rules⟩,
        ⟨p, hp, by rw [Marker.entry?, kind]⟩, ?_⟩
      exact covers_iff.mpr ⟨from_start, by simpa using to_end, concerns_filter_iff.mpr about⟩
    | nextLine p hp kind about behind =>
      refine Or.inl ⟨⟨p.comment.endLine + 1, some (p.comment.endLine + 1), Marker.filter p.marker.rules⟩,
        ⟨p, hp, by rw [Marker.entry?, kind]⟩, ?_⟩
      refine covers_iff.mpr ⟨?_, ?_, concerns_filter_iff.mpr about⟩
      · show ((p.comment.endLine + 1 : Nat) : Int) ≤ line
        omega
      · intro last hlast
        obtain rfl := Option.some.inj hlast
        omega
    | region key hkey opener closer hregion from_start to_end =>
      exact Or.inr ⟨key, opener, closer, hregion, covers_region_iff.mpr ⟨hkey, from_start, to_end⟩⟩
  · rintro (⟨e, ⟨p, hp, hentry⟩, hcovers⟩ | ⟨key, opener, closer, hregion, hcovers⟩)
    · exact turnedOff_of_entry hp hentry hcovers
    · obtain ⟨hkey, hstart, hend⟩ := covers_region_iff.mp hcovers
      exact .region key hkey opener closer hregion hstart hend

/-- A rule is turned off on a line just if the markers that are read turn it off. -/
theorem isSuppressed_iff {tokens : List Token} {ruleId : String} {line : Int} :
    (ofTokens tokens).isSuppressed ruleId (some line) = true ↔
      TurnedOff (markersRead tokens) (Case.lower ruleId) line := by
  rw [turnedOff_iff]
  unfold isSuppressed
  simp only [List.any_eq_true, mem_entries_iff]
  constructor
  · rintro ⟨e, hplain | ⟨key, opener, closer, hregion, rfl⟩, hcovers⟩
    · exact Or.inl ⟨e, hplain, hcovers⟩
    · exact Or.inr ⟨key, opener, closer, hregion, hcovers⟩
  · rintro (⟨e, hplain, hcovers⟩ | ⟨key, opener, closer, hregion, hcovers⟩)
    · exact ⟨e, Or.inl hplain, hcovers⟩
    · exact ⟨_, Or.inr ⟨key, opener, closer, hregion, rfl⟩, hcovers⟩

/-! ## Notes -/

/-- An end that closes no region: none of the keys that it is about is open in front of it. -/
def ClosesNothing (before : List PlacedMarker) (p : PlacedMarker) : Prop :=
  p.marker.kind = .regionEnd ∧ ∀ key, p.marker.closes key = true → ¬IsOpen before key

instance (before : List PlacedMarker) (p : PlacedMarker) : Decidable (ClosesNothing before p) :=
  -- a key that is open is one of those of a marker in front
  decidable_of_iff (p.marker.kind = .regionEnd ∧ ∀ q ∈ before, ∀ key ∈ q.marker.regionKeys,
      p.marker.closes key = true → ¬IsOpen before key) <| by
    refine and_congr_right fun _ => ⟨fun h key hcloses hopen => ?_, fun h _ _ key _ => h key⟩
    obtain ⟨front, q, behind, rfl, hopens, hkept⟩ := hopen
    rw [Marker.opens, Bool.and_eq_true, List.contains_iff_mem] at hopens
    exact h q (by simp) key hopens.2 hcloses ⟨front, q, behind, rfl, by simp [Marker.opens, hopens], hkept⟩

/-- The ends among some markers that close no region, each judged by the markers in front of it. -/
def strayEnds (before : List PlacedMarker) : List PlacedMarker → List PlacedMarker
  | [] => []
  | p :: ms =>
    if ClosesNothing before p then p :: strayEnds (before ++ [p]) ms else strayEnds (before ++ [p]) ms

theorem isStray_iff {before : List PlacedMarker} :
    (readAll {} before).IsStray p.marker ↔ ClosesNothing before p := by
  refine and_congr_right fun _ => forall_congr' fun key => imp_congr_right fun _ => ?_
  rw [← openBehind_eq_false_iff, ← Option.not_isSome_iff_eq_none, isSome_opener_readAll]
  exact Bool.not_eq_true _ ▸ Iff.rfl

theorem notes_readAll (before ms : List PlacedMarker) :
    (readAll (readAll {} before) ms).notes.toList =
      (readAll {} before).notes.toList ++ (strayEnds before ms).map fun p => strayEnd p.comment := by
  induction ms generalizing before with
  | nil => simp [readAll, strayEnds]
  | cons p ms ih =>
    have hnext : (readAll {} before).step p.comment p.marker = readAll {} (before ++ [p]) := by
      simp [readAll]
    rw [readAll_cons, hnext, ih, ← hnext, strayEnds]
    by_cases hstray : ClosesNothing before p
    · rw [if_pos hstray, Reading.notes_step_of_stray (isStray_iff.mpr hstray)]
      simp
    · rw [if_neg hstray, Reading.notes_step_of_not_stray (mt isStray_iff.mp hstray)]

/-! ## Suppressions as they are documented -/

/-- Suppressions mean what is documented of some markers: a rule is turned off on a line just where the markers
turn it off, each end that closes nothing is noted, and so is, once and at the comment that has opened its region,
each key that is open behind the last marker. -/
structure AsDocumented (ms : List PlacedMarker) (s : Suppressions) : Prop where
  isSuppressed_iff : ∀ (ruleId : String) (line : Int),
    s.isSuppressed ruleId (some line) = true ↔ TurnedOff ms (Case.lower ruleId) line
  notes_eq : ∃ stillOpen : List (String × Token),
    s.notes = ((strayEnds [] ms).map fun p => strayEnd p.comment) ++
        stillOpen.map (fun region => unterminated region.1 region.2) ∧
      (stillOpen.map (·.1)).Nodup ∧ (∀ key, key ∈ stillOpen.map (·.1) ↔ IsOpen ms key) ∧
      ∀ region ∈ stillOpen, HasRegion ms region.1 region.2 none

/-- The regions that are open at the end are those of the keys that are open behind the last marker. -/
theorem mem_opened_iff_isOpen {tokens : List Token} :
    key ∈ (Reading.ofTokens tokens).opened.map Prod.fst ↔ IsOpen (markersRead tokens) key := by
  have hany : key ∈ (Reading.ofTokens tokens).opened.map Prod.fst ↔
      (Reading.ofTokens tokens).opened.any (·.1 == key) = true := by
    rw [List.mem_map, List.any_eq_true]
    simp only [beq_iff_eq]
  have hopener : (({} : Reading).opener? key).isSome = false := rfl
  rw [hany, Reading.any_opened, Reading.ofTokens_eq, isSome_opener_readAll, hopener, openBehind_iff]
  simp

theorem asDocumented_markersRead (tokens : List Token) :
    AsDocumented (markersRead tokens) (ofTokens tokens) := by
  refine ⟨fun ruleId line => isSuppressed_iff, ?_⟩
  have hkeyed := isKeyed_ofTokens tokens
  have hperm := List.mergeSort_perm (Reading.ofTokens tokens).opened openedBefore
  refine ⟨(Reading.ofTokens tokens).opened.mergeSort openedBefore, ?_, ?_, ?_, ?_⟩
  · have hstrays := notes_readAll [] (markersRead tokens)
    show (Reading.ofTokens tokens).notes.toList ++ _ = _
    rw [Reading.ofTokens_eq]
    exact congrArg (· ++ _) hstrays
  · exact (hperm.map Prod.fst).nodup_iff.mpr hkeyed
  · intro key
    rw [(hperm.map Prod.fst).mem_iff]
    exact mem_opened_iff_isOpen
  · rintro ⟨key, opener⟩ hmem
    rw [hperm.mem_iff, hkeyed.mem_opened_iff, Reading.ofTokens_eq, opener_readAll] at hmem
    exact hasRegionFrom_none_iff.mp hmem

/-- The markers that stand in the comments among some tokens, with those comments. -/
def placedSites (tokens : List Token) : List (Token × Marker.Site) :=
  (tokens.filter (·.isComment)).flatMap fun comment => (Marker.sites comment.text).map (comment, ·)

/-- The markers of the comments among some tokens, as they are documented. -/
def markersMeant (tokens : List Token) : List PlacedMarker :=
  (placedSites tokens).map fun site => ⟨site.1, site.2.documented⟩

theorem markersRead_eq (tokens : List Token) :
    markersRead tokens = (placedSites tokens).map fun site => ⟨site.1, site.2.marker⟩ := by
  unfold markersRead placedSites
  rw [List.map_flatMap]
  congr 1
  funext comment
  rw [Marker.inText_eq, List.map_map, List.map_map]
  rfl

theorem mem_sites_of_mem_placedSites {tokens : List Token} {site : Token × Marker.Site}
    (h : site ∈ placedSites tokens) : site.2 ∈ Marker.sites site.1.text := by
  obtain ⟨comment, -, h⟩ := List.mem_flatMap.mp h
  obtain ⟨s, hs, rfl⟩ := List.mem_map.mp h
  exact hs

/-- The markers are read as they are documented just if each keyword is known as it is written. -/
theorem markersRead_eq_markersMeant_iff (tokens : List Token) :
    markersRead tokens = markersMeant tokens ↔ ∀ site ∈ placedSites tokens, site.2.IsKnown := by
  rw [markersRead_eq, markersMeant, List.map_inj_left]
  refine forall₂_congr fun site hsite => ?_
  rw [← Marker.marker_eq_documented_iff (mem_sites_of_mem_placedSites hsite)]
  simp

/-- **Markers mean what is documented, as far as their keywords are in ASCII.** Of all tokens: a rule is turned off
on a line just if a marker for the file, for the lines of its comment or for the line behind it is about the rule,
or the line is in a region of the rule or of all rules; a region that is open keeps its start, and the first end
behind it that is about its key closes it. There is one note for each end that closes nothing and for each key that
is still open at the end. The markers are those that stand in the comments, each read as it is documented, just if
every keyword is in ASCII or is the end of a region; any other keyword is taken for such an end. -/
theorem markers_as_documented (tokens : List Token) :
    AsDocumented (markersRead tokens) (ofTokens tokens) ∧
      (markersRead tokens = markersMeant tokens ↔ ∀ site ∈ placedSites tokens, site.2.IsKnown) ∧
      ((∀ site ∈ placedSites tokens, site.2.IsKnown) →
        AsDocumented (markersMeant tokens) (ofTokens tokens)) := by
  have hread := markersRead_eq_markersMeant_iff tokens
  refine ⟨asDocumented_markersRead tokens, hread, ?_⟩
  intro hknown
  rw [← hread.mpr hknown]
  exact asDocumented_markersRead tokens

/-- The regions of two rules, one of which is closed by its name and the other one by an end for all. -/
def twoRegions : Text :=
  Text.ofString ("// cppconform: disable-begin=naming-casing, unscoped-enum\n" ++
    "// cppconform: disable-end=unscoped-enum\nint a;\n// CPPCONFORM: DISABLE-END\n")

/-- Behind the end of its region a rule is reported again, while the other one is still turned off. -/
theorem markers_as_documented_twoRegions :
    (∀ site ∈ placedSites (tokens twoRegions), site.2.IsKnown) ∧
      TurnedOff (markersMeant (tokens twoRegions)) "naming-casing" 3 ∧
      ¬TurnedOff (markersMeant (tokens twoRegions)) "unscoped-enum" 3 ∧
      AsDocumented (markersMeant (tokens twoRegions)) (ofTokens (tokens twoRegions)) := by
  obtain ⟨hknown, hclosed, hoff, hon⟩ :
      (∀ site ∈ placedSites (tokens twoRegions), site.2.IsKnown) ∧
        (Reading.ofTokens (tokens twoRegions)).opened = [] ∧
        (Reading.ofTokens (tokens twoRegions)).asRead.isSuppressed "naming-casing" (some 3) = true ∧
        ¬(Reading.ofTokens (tokens twoRegions)).asRead.isSuppressed "unscoped-enum" (some 3) = true := by
    rw [twoRegions, Text.ofString, String.toList_append, String.toList_ofList, String.toList_ofList]
    decide +kernel
  have hdocumented := (markers_as_documented (tokens twoRegions)).2.2 hknown
  rw [← ofTokens_eq_asRead hclosed] at hoff hon
  exact ⟨hknown, (hdocumented.isSuppressed_iff "naming-casing" 3).mp hoff,
    mt (hdocumented.isSuppressed_iff "unscoped-enum" 3).mpr hon, hdocumented⟩

/-- A comment for the whole file whose keyword is written with a long `s`. -/
def longSComment : Text := Text.ofString "// cppconform: di\u017fable-file\nint x;\n"

/-- A marker for the file whose keyword is not in ASCII turns nothing off, and is noted as an end that closes
nothing. -/
theorem not_asDocumented_longSComment :
    TurnedOff (markersMeant (tokens longSComment)) "naming-casing" 1 ∧
      (ofTokens (tokens longSComment)).isSuppressed "naming-casing" (some 1) = false ∧
      strayEnds [] (markersMeant (tokens longSComment)) = [] ∧
      (ofTokens (tokens longSComment)).notes.map (·.ruleId) = ["engine/stray-suppression-end"] ∧
      ¬AsDocumented (markersMeant (tokens longSComment)) (ofTokens (tokens longSComment)) := by
  obtain ⟨⟨p, hp, hkind, hrules⟩, hnone, hclosed, hreported, hstray, hlower⟩ :
      (∃ p ∈ markersMeant (tokens longSComment), p.marker.kind = .file ∧ p.marker.rules = []) ∧
        strayEnds [] (markersMeant (tokens longSComment)) = [] ∧
        (Reading.ofTokens (tokens longSComment)).opened = [] ∧
        (Reading.ofTokens (tokens longSComment)).asRead.isSuppressed "naming-casing" (some 1) = false ∧
        (Reading.ofTokens (tokens longSComment)).asRead.notes.map (·.ruleId) =
          ["engine/stray-suppression-end"] ∧
        Case.lower "naming-casing" = "naming-casing" := by
    rw [longSComment, Text.ofString_ofList]
    decide +kernel
  rw [← ofTokens_eq_asRead hclosed] at hreported hstray
  have hmeant : TurnedOff (markersMeant (tokens longSComment)) "naming-casing" 1 :=
    .file p hp hkind (Or.inl hrules) (by decide)
  refine ⟨hmeant, hreported, hnone, hstray, ?_⟩
  intro hdocumented
  have hoff := (hdocumented.isSuppressed_iff "naming-casing" 1).mpr (hlower.symm ▸ hmeant)
  rw [hreported] at hoff
  exact absurd hoff (by decide)

end Suppressions

end HouseStyle
