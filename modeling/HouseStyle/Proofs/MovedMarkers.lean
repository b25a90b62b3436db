import HouseStyle.Proofs.MarkedRegions
import HouseStyle.Proofs.RewrittenModel

/-!
# Markers that move with their lines

A guarding line moves down what stands behind it, the comments and the code alike. What the markers in those
comments turn off moves with them (`turnedOff_inComment_iff`). So if none of the comments in front of the line
holds a marker, a rule is turned off where something stands now just if it was turned off where that stood
before (`Rewrites.isSuppressed_iff`).
-/

namespace HouseStyle

/-- A marker whose comment has been replaced. -/
def PlacedMarker.inComment (g : Token → Token) (p : PlacedMarker) : PlacedMarker := ⟨g p.comment, p.marker⟩

namespace Suppressions

variable {ms : List PlacedMarker} {key : String} {g : Token → Token}

/-! ## Regions -/

theorem isOpen_inComment_iff : IsOpen (ms.map (·.inComment g)) key ↔ IsOpen ms key := by
  induction ms with
  | nil => exact Iff.rfl
  | cons p ms ih =>
    rw [List.map_cons, isOpen_cons_iff, isOpen_cons_iff, ih, List.forall_mem_map]
    exact Iff.rfl

theorem find_closes_inComment (after : List PlacedMarker) :
    ((after.map (·.inComment g)).find? (·.marker.closes key)).map (·.comment) =
      ((after.find? (·.marker.closes key)).map (·.comment)).map g := by
  rw [List.find?_map, Option.map_map, Option.map_map]
  rfl

/-- A region goes from comment to comment as before. -/
theorem hasRegion_inComment_iff {opener : Token} {closer : Option Token} :
    HasRegion (ms.map (·.inComment g)) key opener closer ↔
      ∃ o c, HasRegion ms key o c ∧ g o = opener ∧ c.map g = closer := by
  constructor
  · rintro ⟨before', p', after', hsplit, rfl, hopens, hclosed, rfl⟩
    obtain ⟨before, rest, rfl, rfl, hrest⟩ := List.map_eq_append_iff.mp hsplit
    obtain ⟨p, after, rfl, rfl, rfl⟩ := List.map_eq_cons_iff.mp hrest
    rw [isOpen_inComment_iff] at hclosed
    exact ⟨p.comment, _, ⟨before, p, after, rfl, rfl, hopens, hclosed, rfl⟩, rfl, (find_closes_inComment after).symm⟩
  · rintro ⟨_, _, ⟨before, p, after, rfl, rfl, hopens, hclosed, rfl⟩, rfl, rfl⟩
    refine ⟨before.map (·.inComment g), p.inComment g, after.map (·.inComment g), ?_, rfl, hopens, ?_,
      find_closes_inComment after⟩
    · rw [List.map_append, List.map_cons]
    · rwa [isOpen_inComment_iff]

/-- A region begins and ends in comments with markers. -/
theorem HasRegion.exists_markers {opener : Token} {closer : Option Token} (h : HasRegion ms key opener closer) :
    (∃ p ∈ ms, p.comment = opener) ∧ ∀ c ∈ closer, ∃ p ∈ ms, p.comment = c := by
  obtain ⟨before, p, after, rfl, rfl, -, -, rfl⟩ := h
  refine ⟨⟨p, by simp, rfl⟩, fun c hc => ?_⟩
  obtain ⟨q, hq, rfl⟩ := Option.map_eq_some_iff.mp hc
  exact ⟨q, by simp [List.mem_of_find?_eq_some hq], rfl⟩

/-! ## What is turned off -/

/-- Markers whose comments stand some lines further down turn off the lines that much further down. -/
theorem turnedOff_inComment_iff {n : Nat}
    (hg : ∀ p ∈ ms, (g p.comment).line = p.comment.line + n ∧ (g p.comment).endLine = p.comment.endLine + n)
    {rule : String} {line : Int} (hline : 1 ≤ line) :
    TurnedOff (ms.map (·.inComment g)) rule (line + n) ↔ TurnedOff ms rule line := by
  constructor
  · intro h
    cases h with
    | file p' hp' kind about from_first =>
      obtain ⟨p, hp, rfl⟩ := List.mem_map.mp hp'
      exact .file p hp kind about hline
    | line p' hp' kind about from_start to_end =>
      obtain ⟨p, hp, rfl⟩ := List.mem_map.mp hp'
      obtain ⟨hstart, hend⟩ := hg p hp
      dsimp only [PlacedMarker.inComment] at from_start to_end
      exact .line p hp kind about (by omega) (by omega)
    | nextLine p' hp' kind about behind =>
      obtain ⟨p, hp, rfl⟩ := List.mem_map.mp hp'
      obtain ⟨-, hend⟩ := hg p hp
      dsimp only [PlacedMarker.inComment] at behind
      exact .nextLine p hp kind about (by omega)
    | region key hkey opener closer hregion from_start to_end =>
      obtain ⟨o, c, hold, rfl, rfl⟩ := hasRegion_inComment_iff.mp hregion
      obtain ⟨⟨p, hp, rfl⟩, hclosers⟩ := hold.exists_markers
      obtain ⟨hstart, -⟩ := hg p hp
      refine .region key hkey p.comment c hold (by omega) fun t ht => ?_
      obtain ⟨q, hq, rfl⟩ := hclosers t ht
      have hlast := to_end (g q.comment) (Option.mem_map_of_mem g ht)
      obtain ⟨-, hend⟩ := hg q hq
      omega
  · intro h
    cases h with
    | file p hp kind about from_first =>
      exact .file (p.inComment g) (List.mem_map_of_mem hp) kind about (by omega)
    | line p hp kind about from_start to_end =>
      obtain ⟨hstart, hend⟩ := hg p hp
      refine .line (p.inComment g) (List.mem_map_of_mem hp) kind about ?_ ?_
      · show ((g p.comment).line : Int) ≤ _
        omega
      · show _ ≤ ((g p.comment).endLine : Int)
        omega
    | nextLine p hp kind about behind =>
      obtain ⟨-, hend⟩ := hg p hp
      refine .nextLine (p.inComment g) (List.mem_map_of_mem hp) kind about ?_
      show ((g p.comment).endLine : Int) = _
      omega
    | region key hkey opener closer hregion from_start to_end =>
      obtain ⟨⟨p, hp, rfl⟩, hclosers⟩ := hregion.exists_markers
      obtain ⟨hstart, -⟩ := hg p hp
      refine .region key hkey (g p.comment) (closer.map g) (hasRegion_inComment_iff.mpr ⟨_, _, hregion, rfl, rfl⟩)
        (by omega) fun t ht => ?_
      obtain ⟨c, hc, rfl⟩ := Option.map_eq_some_iff.mp ht
      obtain ⟨q, hq, rfl⟩ := hclosers c hc
      obtain ⟨-, hend⟩ := hg q hq
      have hlast := to_end q.comment hc
      omega

end Suppressions

/-! ## A rewritten file -/

namespace Rewrites

open Suppressions

variable {text updated : Text} {rs : List RewrittenToken} {name : Text → Text}

theorem comments_written (us : List RewrittenToken) (hus : ∀ r ∈ us, r.Respects name) :
    (us.flatMap (·.written)).filter (·.isComment) = (us.filter (·.old.isComment)).map (·.new) :=
  filter_written (fun h => by simp only [Token.isComment, h]) (fun h => by simp [Token.isComment, h]) us hus

/-- The comments of the new file are those of the old one, where they stand now. -/
theorem comments_eq (h : Rewrites text updated rs) (hrs : ∀ r ∈ rs, r.Respects name) :
    (tokens updated).filter (·.isComment) = (rs.filter (·.old.isComment)).map (·.new) := by
  obtain ⟨front, put, back, rfl, htokens, hput⟩ := h.new
  have hnone : put.filter (·.isComment) = [] := by
    refine List.filter_eq_nil_iff.mpr fun t ht => ?_
    simp [Token.isComment, (hput t ht).1]
  rw [htokens, List.filter_append, List.filter_append, hnone, List.append_nil,
    comments_written front fun r hr => hrs r (List.mem_append_left _ hr),
    comments_written back fun r hr => hrs r (List.mem_append_right _ hr), List.filter_append, List.map_append]

/-- The markers of the new file are those of the old one, in the comments that have taken their place. -/
theorem markersRead_eq (h : Rewrites text updated rs) (hname : IsRespelling name)
    (hrs : ∀ r ∈ rs, r.Respects name) :
    markersRead (tokens updated) =
      (markersRead (tokens text)).map (·.inComment (Rewriting.ofList hname hrs).token) := by
  unfold markersRead
  have hold : (tokens text).filter (·.isComment) = (rs.filter (·.old.isComment)).map (·.old) := by
    rw [← h.old, List.filter_map]
    rfl
  rw [h.comments_eq hrs, hold, List.flatMap_map, List.flatMap_map, List.map_flatMap]
  refine List.flatMap_congr fun r hr => ?_
  obtain ⟨hr, hcomment⟩ := List.mem_filter.mp hr
  have htext : r.new.text = r.old.text :=
    (hrs r hr).text_other (by simp only [Token.isComment, beq_iff_eq] at hcomment; simp [hcomment])
  rw [htext, List.map_map]
  refine List.map_congr_left fun m _ => ?_
  show PlacedMarker.mk r.new m = ⟨(Rewriting.ofList hname hrs).token r.old, m⟩
  rw [Rewriting.token_old h.nodup hr]

/-- A rule is turned off where a line has moved to just if it was turned off on the line, unless a marker has
stayed where it was. -/
theorem isSuppressed_iff (h : Rewrites text updated rs) (hname : IsRespelling name)
    (hrs : ∀ r ∈ rs, r.Respects name) {place n : Nat} (hmoves : RewrittenToken.MovesDown rs place n)
    (hmarkers : ∀ t ∈ tokens text, t.isComment = true → t.start < place → Marker.inText t.text = [])
    {ruleId : String} {line : Int} (hline : 1 ≤ line) :
    (ofTokens (tokens updated)).isSuppressed ruleId (some (line + n)) = true ↔
      (ofTokens (tokens text)).isSuppressed ruleId (some line) = true := by
  rw [Suppressions.isSuppressed_iff, Suppressions.isSuppressed_iff, h.markersRead_eq hname hrs]
  refine turnedOff_inComment_iff (fun p hp => ?_) hline
  obtain ⟨comment, hcomment, hp⟩ := List.mem_flatMap.mp hp
  obtain ⟨m, hm, rfl⟩ := List.mem_map.mp hp
  obtain ⟨hmem, hkind⟩ := List.mem_filter.mp hcomment
  -- a comment with a marker stands behind the place
  have hbehind : place ≤ comment.start := by
    refine Nat.le_of_not_lt fun hlt => ?_
    rw [hmarkers comment hmem hkind hlt] at hm
    exact absurd hm (by simp)
  obtain ⟨r, hr, rfl⟩ := h.exists_old hmem
  rw [Rewriting.token_old h.nodup hr]
  exact hmoves.below r hr hbehind

/-- A rule is turned off on the line of a name just if it was turned off on the line where the name stood. -/
theorem isSuppressed_token_iff (h : Rewrites text updated rs) (hname : IsRespelling name)
    (hrs : ∀ r ∈ rs, r.Respects name) {place n : Nat} (hmoves : RewrittenToken.MovesDown rs place n)
    (hmarkers : ∀ t ∈ tokens text, t.isComment = true → t.start < place → Marker.inText t.text = [])
    {ruleId : String} {t : Token} (ht : t ∈ tokens text) (hid : t.kind = .identifier) :
    (ofTokens (tokens updated)).isSuppressed ruleId (some ((Rewriting.ofList hname hrs).token t).line) = true ↔
      (ofTokens (tokens text)).isSuppressed ruleId (some t.line) = true := by
  have hline : 1 ≤ t.line := by
    rw [(mem_tokens_place ht).1]
    exact Nat.le_add_right 1 _
  obtain ⟨r, hr, rfl⟩ := h.exists_old ht
  -- only comments stand in front of a guarding line
  have hbehind : place ≤ r.old.start := by
    refine Nat.le_of_not_lt fun hlt => ?_
    rcases (hmoves.above r hr hlt).2 with hkind | hkind <;> exact absurd (hkind.symm.trans hid) (by simp)
  rw [Rewriting.token_old h.nodup hr, (hmoves.below r hr hbehind).1, Int.natCast_add]
  exact h.isSuppressed_iff hname hrs hmoves hmarkers (by omega)

end Rewrites

end HouseStyle
