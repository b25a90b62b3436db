import HouseStyle.Proofs.Lookahead
import Mathlib.Data.List.Induction

/-!
# Text with carriage returns at the line ends

`Text.withReturns` puts a carriage return in front of every line feed. Each shape of a token is measured in the
same form: as far as it goes in the text, its glyphs go in the text with carriage returns.

> `lengthThrough_withReturns`, `numberTail_withReturns` and their kind: the length in the new text is the length of
> what the shape covers of the old one, with the carriage returns in it.

There is one shape for which this fails. A backslash in a quoted literal takes one glyph with it, which is the line
feed in the old text and the carriage return in the new one, so the literal goes on over the line end in the old
text and is over at it in the new one. What becomes of it is told within the old text by `Lexeme.inLine`: how far a
literal goes if it has to end in its line, and whether it is still open there. A directive passes over such
literals, and `Lexeme.extentInLine` is its extent if they end in their lines.
-/

namespace HouseStyle

namespace Text

/-! ## Texts -/

/-- The text with a carriage return in front of every line feed. -/
def withReturns (t : Text) : Text :=
  t.flatMap fun g => if g = .scalar '\n' then [.scalar '\r', .scalar '\n'] else [g]

/-- The text without the carriage returns that stand in front of a line feed. -/
def withoutReturns : Text → Text
  | [] => []
  | g :: t =>
    if g = .scalar '\r' ∧ t.head? = some (.scalar '\n') then withoutReturns t else g :: withoutReturns t

@[simp] theorem withReturns_nil : withReturns [] = [] := rfl

@[simp] theorem withReturns_newline (t : Text) :
    withReturns (.scalar '\n' :: t) = .scalar '\r' :: .scalar '\n' :: withReturns t := rfl

theorem withReturns_cons {g : Glyph} (h : g ≠ .scalar '\n') (t : Text) :
    withReturns (g :: t) = g :: withReturns t := by
  unfold withReturns
  rw [List.flatMap_cons, if_neg h]
  rfl

@[simp] theorem withReturns_append (t u : Text) :
    withReturns (t ++ u) = withReturns t ++ withReturns u :=
  List.flatMap_append

/-- A text of one line is left as it is. -/
theorem withReturns_of_line {t : Text} (h : .scalar '\n' ∉ t) : withReturns t = t := by
  induction t with
  | nil => rfl
  | cons g t ih =>
    have hne : g ≠ .scalar '\n' := fun e => h (e ▸ List.mem_cons_self)
    rw [withReturns_cons hne, ih fun hm => h (List.mem_cons_of_mem g hm)]

/-- Induction on a text, with the line feeds apart. -/
@[elab_as_elim]
theorem line_rec {motive : Text → Prop} (nil : motive [])
    (newline : ∀ t, motive t → motive (.scalar '\n' :: t))
    (glyph : ∀ g t, g ≠ .scalar '\n' → motive t → motive (g :: t)) (t : Text) : motive t := by
  induction t with
  | nil => exact nil
  | cons g t ih =>
    by_cases hg : g = .scalar '\n'
    · exact hg ▸ newline t ih
    · exact glyph g t hg ih

@[simp] theorem withReturns_eq_nil {t : Text} : withReturns t = [] ↔ t = [] := by
  cases t using line_rec with
  | nil => simp
  | newline t => simp
  | glyph g t hg => simp [withReturns_cons hg]

/-- How many glyphs the first `n` glyphs of a text are with carriage returns. -/
def stretch (t : Text) (n : Nat) : Nat := (withReturns (t.take n)).length

@[simp] theorem stretch_zero (t : Text) : stretch t 0 = 0 := by
  unfold stretch
  rw [List.take_zero]
  rfl

theorem stretch_newline (t : Text) (n : Nat) : stretch (.scalar '\n' :: t) (1 + n) = 2 + stretch t n := by
  unfold stretch
  rw [Nat.add_comm 1 n, List.take_succ_cons, withReturns_newline, List.length_cons, List.length_cons]
  omega

theorem stretch_cons {g : Glyph} (h : g ≠ .scalar '\n') (t : Text) (n : Nat) :
    stretch (g :: t) (1 + n) = 1 + stretch t n := by
  unfold stretch
  rw [Nat.add_comm 1 n, List.take_succ_cons, withReturns_cons h, List.length_cons]
  omega

theorem stretch_two {g h : Glyph} (hg : g ≠ .scalar '\n') (hh : h ≠ .scalar '\n') (t : Text) (n : Nat) :
    stretch (g :: h :: t) (2 + n) = 2 + stretch t n := by
  rw [show 2 + n = 1 + (1 + n) by omega, stretch_cons hg, stretch_cons hh]
  omega

/-- Glyphs of one line stay as many as they are. -/
theorem stretch_append {u : Text} (h : .scalar '\n' ∉ u) (t : Text) (n : Nat) :
    stretch (u ++ t) (u.length + n) = u.length + stretch t n := by
  unfold stretch
  rw [List.take_length_add_append, withReturns_append, withReturns_of_line h, List.length_append]

theorem stretch_add (t : Text) (m n : Nat) : stretch t (m + n) = stretch t m + stretch (t.drop m) n := by
  unfold stretch
  rw [List.take_add, withReturns_append, List.length_append]

@[simp] theorem stretch_length (t : Text) : stretch t t.length = t.withReturns.length := by
  unfold stretch
  rw [List.take_length]

/-- The first glyphs of a text, in the text with carriage returns. -/
theorem take_withReturns (t : Text) (n : Nat) :
    t.withReturns.take (stretch t n) = withReturns (t.take n) := by
  conv => lhs; rw [← List.take_append_drop n t]; rw [withReturns_append]
  rw [List.take_append_drop, stretch, List.take_left]

/-- What stands behind the first glyphs of a text, in the text with carriage returns. -/
theorem drop_withReturns (t : Text) (n : Nat) :
    t.withReturns.drop (stretch t n) = withReturns (t.drop n) := by
  conv => lhs; rw [← List.take_append_drop n t]; rw [withReturns_append]
  rw [List.take_append_drop, stretch, List.drop_left]

/-- At a line end a carriage return comes next. -/
theorem take_withReturns_succ {t : Text} {n : Nat} (h : (t.drop n).head? = some (.scalar '\n')) :
    t.withReturns.take (stretch t n + 1) = withReturns (t.take n) ++ [.scalar '\r'] := by
  obtain ⟨below, hbelow⟩ := List.head?_eq_some_iff.mp h
  rw [List.take_add, take_withReturns, drop_withReturns, hbelow]
  rfl

theorem drop_withReturns_succ {t : Text} {n : Nat} (h : (t.drop n).head? = some (.scalar '\n')) :
    withReturns (t.drop n) = .scalar '\r' :: t.withReturns.drop (stretch t n + 1) := by
  obtain ⟨below, hbelow⟩ := List.head?_eq_some_iff.mp h
  rw [← List.drop_drop, drop_withReturns, hbelow]
  rfl

/-- A text ends in the same glyph with carriage returns in it. -/
theorem getLast?_withReturns (t : Text) : t.withReturns.getLast? = t.getLast? := by
  induction t using List.reverseRecOn with
  | nil => rfl
  | append_singleton t g _ =>
    rw [withReturns_append]
    by_cases hg : g = .scalar '\n'
    · subst hg
      simp
    · simp [withReturns_cons hg]

/-- A test that holds of neither glyph of a line end holds of the same glyphs at the front. -/
theorem takeWhile_withReturns {p : Glyph → Bool} (hr : p (.scalar '\r') = false)
    (hn : p (.scalar '\n') = false) (t : Text) : t.withReturns.takeWhile p = t.takeWhile p := by
  induction t using line_rec with
  | nil => rfl
  | newline t => simp [hr, hn]
  | glyph g t hg ih => rw [withReturns_cons hg, List.takeWhile_cons, List.takeWhile_cons, ih]

theorem dropWhile_withReturns {p : Glyph → Bool} (hr : p (.scalar '\r') = false)
    (hn : p (.scalar '\n') = false) (t : Text) :
    t.withReturns.dropWhile p = withReturns (t.dropWhile p) := by
  induction t using line_rec with
  | nil => rfl
  | newline t => simp [hr, hn]
  | glyph g t hg ih =>
    rw [withReturns_cons hg, List.dropWhile_cons, List.dropWhile_cons]
    split
    · exact ih
    · exact (withReturns_cons hg t).symm

/-- A test that does not tell the two glyphs of a line end apart does not tell the two first glyphs apart. -/
theorem map_head?_withReturns {α : Type} {f : Glyph → α} (h : f (.scalar '\r') = f (.scalar '\n'))
    (t : Text) : t.withReturns.head?.map f = t.head?.map f := by
  cases t using line_rec with
  | nil => rfl
  | newline t => exact congrArg some h
  | glyph g t hg =>
    rw [withReturns_cons hg]
    rfl

/-- A mark without line ends stands in front of both texts or of neither. -/
theorem isPrefixOf_withReturns {mark : Text} (hr : .scalar '\r' ∉ mark) (hn : .scalar '\n' ∉ mark)
    (t : Text) : mark.isPrefixOf t.withReturns = mark.isPrefixOf t := by
  induction mark generalizing t with
  | nil => simp
  | cons m mark ih =>
    cases t using line_rec with
    | nil => rfl
    | newline t =>
      have hmr : m ≠ .scalar '\r' := fun e => hr (e ▸ List.mem_cons_self)
      have hmn : m ≠ .scalar '\n' := fun e => hn (e ▸ List.mem_cons_self)
      simp [List.isPrefixOf, beq_eq_false_iff_ne.mpr hmr, beq_eq_false_iff_ne.mpr hmn]
    | glyph g t hg =>
      rw [withReturns_cons hg, List.isPrefixOf, List.isPrefixOf,
        ih (fun h => hr (List.mem_cons_of_mem m h)) (fun h => hn (List.mem_cons_of_mem m h))]

/-- The carriage returns of a text that had none can be taken away again. -/
theorem withoutReturns_withReturns {t : Text} (ht : .scalar '\r' ∉ t) (u : Text) :
    withoutReturns (withReturns t ++ u) = t ++ withoutReturns u := by
  have hkept : ∀ {g : Glyph} (v : Text), g ≠ .scalar '\r' → withoutReturns (g :: v) = g :: withoutReturns v := by
    intro g v hg
    rw [withoutReturns, if_neg (fun h => hg h.1)]
  induction t using line_rec with
  | nil => rfl
  | newline t ih =>
    rw [withReturns_newline, List.cons_append, withoutReturns, if_pos ⟨rfl, rfl⟩, List.cons_append,
      hkept _ (by decide), ih fun h => ht (List.mem_cons_of_mem _ h)]
    rfl
  | glyph g t hg ih =>
    rw [withReturns_cons hg, List.cons_append, hkept _ fun e => ht (e ▸ List.mem_cons_self),
      ih fun h => ht (List.mem_cons_of_mem g h)]
    rfl

end Text

namespace Lexeme

open Text

/-! ## Splices, marks and numbers -/

theorem spliceLength_withReturns {t : Text} (ht : .scalar '\r' ∉ t) :
    spliceLength t.withReturns = stretch t (spliceLength t) := by
  have hzero : ∀ {g : Glyph} (u : Text), g ≠ .scalar '\\' → spliceLength (g :: u) = 0 := by
    intro g u hg
    simp [spliceLength, hg]
  cases t using line_rec with
  | nil => rfl
  | newline t => rw [withReturns_newline, hzero _ (by decide), hzero _ (by decide), stretch_zero]
  | glyph g t hn =>
    rw [withReturns_cons hn]
    by_cases hg : g = .scalar '\\'
    · subst hg
      cases t using line_rec with
      | nil => rfl
      | newline t => rfl
      | glyph h t hn' =>
        have hr : h ≠ .scalar '\r' := fun e => ht (by simp [e])
        rw [withReturns_cons hn']
        simp [spliceLength, hn', hr]
    · rw [hzero _ hg, hzero _ hg, stretch_zero]

/-- A mark of one line is found at the same glyphs. -/
theorem lengthThrough_withReturns {mark : Text} (hmark : mark ≠ []) (hr : .scalar '\r' ∉ mark)
    (hn : .scalar '\n' ∉ mark) (t : Text) :
    lengthThrough? mark t.withReturns = (lengthThrough? mark t).map (stretch t) := by
  induction t using line_rec with
  | nil =>
    rw [withReturns_nil, lengthThrough?, if_neg (by simp [hmark])]
    rfl
  | newline t ih =>
    obtain ⟨m, mark, rfl⟩ := List.exists_cons_of_ne_nil hmark
    have hfront : ∀ {c u}, c ∉ m :: mark → ¬ (m :: mark).isPrefixOf (c :: u) = true := by
      intro c u hc h
      have hm : m ≠ c := fun e => hc (e ▸ List.mem_cons_self)
      simp [List.isPrefixOf, hm] at h
    rw [withReturns_newline, lengthThrough?, if_neg (hfront hr), lengthThrough?, if_neg (hfront hn),
      lengthThrough?, if_neg (hfront hn), ih, Option.map_map, Option.map_map, Option.map_map]
    rfl
  | glyph g t hg ih =>
    have hpre := isPrefixOf_withReturns hr hn (g :: t)
    rw [withReturns_cons hg] at hpre ⊢
    rw [lengthThrough?, lengthThrough?, hpre]
    split
    · next hp =>
      -- the glyphs of the mark itself are of one line
      obtain ⟨more, hmore⟩ := List.isPrefixOf_iff_prefix.mp hp
      have h := stretch_append hn more 0
      rw [hmore] at h
      simp only [Nat.add_zero, stretch_zero] at h
      rw [Option.map_some, h]
    · rw [ih, Option.map_map, Option.map_map]
      congr 1
      funext n
      simp only [Function.comp]
      rw [Nat.add_comm n 1, stretch_cons hg]
      omega

theorem blockCommentTail_withReturns (t : Text) :
    blockCommentTail t.withReturns = stretch t (blockCommentTail t) := by
  unfold blockCommentTail
  rw [lengthThrough_withReturns (by decide) (by decide) (by decide)]
  cases lengthThrough? (Text.ofString "*/") t with
  | none => exact (stretch_length t).symm
  | some n => rfl

theorem numberTail_withReturns (last : Glyph) (t : Text) :
    numberTail last t.withReturns = stretch t (numberTail last t) := by
  -- neither glyph of a line end goes on with a number
  have hend : ∀ {last c : Glyph} (u : Text), c = .scalar '\r' ∨ c = .scalar '\n' → numberTail last (c :: u) = 0 := by
    rintro last c u (rfl | rfl)
    · simp [numberTail, show isAlphanumeric (.scalar '\r') = false by decide]
    · simp [numberTail, show isAlphanumeric (.scalar '\n') = false by decide]
  induction t using line_rec generalizing last with
  | nil => rfl
  | newline t => rw [withReturns_newline, hend _ (Or.inl rfl), hend _ (Or.inr rfl), stretch_zero]
  | glyph g t hg ih =>
    rw [withReturns_cons hg, numberTail, numberTail, map_head?_withReturns (by decide)]
    simp only [ih g]
    split
    · rw [stretch_cons hg]
    · split
      · rw [stretch_cons hg]
      · split
        · rw [stretch_cons hg]
        · exact (stretch_zero _).symm

/-! ## Line comments -/

/-- Of a line comment the line is measured without the carriage returns at its end. -/
theorem lineCommentTail_line {line rest : Text} (hn : .scalar '\n' ∉ line)
    (hrest : rest = [] ∨ ∃ below, rest = .scalar '\n' :: below) :
    lineCommentTail (line ++ rest) = (line.reverse.dropWhile (· == .scalar '\r')).length := by
  have hall : ∀ g ∈ line, (g != .scalar '\n') = true := by
    intro g hg
    simpa using fun e : g = .scalar '\n' => hn (e ▸ hg)
  have hstop : rest.takeWhile (· != .scalar '\n') = [] := by
    rcases hrest with rfl | ⟨below, rfl⟩
    · rfl
    · rw [List.takeWhile_cons, if_neg (by simp)]
  unfold lineCommentTail
  rw [List.takeWhile_append_of_pos hall, hstop, List.append_nil]

/-- A line comment ends in front of the carriage return of its line. -/
theorem lineCommentTail_withReturns {t : Text} (ht : .scalar '\r' ∉ t) :
    lineCommentTail t.withReturns = stretch t (lineCommentTail t) := by
  have htrim : ∀ line : Text, .scalar '\r' ∉ line →
      (line.reverse.dropWhile (· == .scalar '\r')).length = line.length := by
    intro line hr
    have hlength : line.length = line.reverse.length := List.length_reverse.symm
    rw [hlength]
    cases hrev : line.reverse with
    | nil => rfl
    | cons g u =>
      have hg : g ≠ .scalar '\r' := fun e => hr (List.mem_reverse.mp (hrev ▸ e ▸ List.mem_cons_self))
      rw [List.dropWhile_cons, if_neg (by simpa using hg)]
  by_cases hn : .scalar '\n' ∈ t
  · obtain ⟨line, below, rfl, hline⟩ := List.eq_append_cons_of_mem hn
    have hr : .scalar '\r' ∉ line := fun h => ht (List.mem_append_left _ h)
    have hsplit : withReturns (line ++ .scalar '\n' :: below) =
        (line ++ [.scalar '\r']) ++ .scalar '\n' :: withReturns below := by
      simp [withReturns_of_line hline]
    rw [hsplit, lineCommentTail_line (by simp [hline]) (Or.inr ⟨_, rfl⟩),
      lineCommentTail_line hline (Or.inr ⟨_, rfl⟩), List.reverse_append, List.reverse_singleton,
      List.singleton_append, List.dropWhile_cons, if_pos (by simp), htrim line hr]
    exact (stretch_append hline _ 0).symm
  · have hall := lineCommentTail_line hn (Or.inl rfl)
    rw [List.append_nil, htrim t ht] at hall
    rw [withReturns_of_line hn, hall, stretch_length, withReturns_of_line hn]

/-! ## Quoted literals -/

/-- How far a quoted literal goes if it has to end in its line, and whether it is still open there: a backslash in
front of the line feed is its last glyph then. -/
def inLine (quote : Glyph) : Text → Nat × Bool
  | [] => (0, false)
  | [g] => if g = .scalar '\n' then (0, true) else (1, false)
  | g :: h :: t =>
    if g = .scalar '\\' then
      if h = .scalar '\n' then (1, true) else (2 + (inLine quote t).1, (inLine quote t).2)
    else if g = quote then (1, false)
    else if g = .scalar '\n' then (0, true)
    else (1 + (inLine quote (h :: t)).1, (inLine quote (h :: t)).2)

/-- What a quoted literal in its line covers: one line, at the end of which there is a line feed if it is still
open, and otherwise the whole of the literal. -/
theorem inLine_spec {quote : Glyph} (hquote : quote ≠ .scalar '\n') (t : Text) :
    (inLine quote t).1 ≤ t.length ∧ .scalar '\n' ∉ t.take (inLine quote t).1 ∧
      ((inLine quote t).2 = true → (t.drop (inLine quote t).1).head? = some (.scalar '\n')) ∧
      ((inLine quote t).2 = false → (inLine quote t).1 = quotedTail quote t) := by
  fun_induction inLine quote t with
  | case1 => simp [quotedTail]
  | case2 => simp
  | case3 g hg => simp [quotedTail, hg, Ne.symm hg]
  | case4 => simp
  | case5 h t hh ih =>
    -- a backslash and the glyph that it takes with it
    obtain ⟨hle, hline, hopen, hclosed⟩ := ih
    rw [Nat.add_comm 2, List.take_succ_cons, List.take_succ_cons, List.drop_succ_cons, List.drop_succ_cons,
      quotedTail_cons, if_pos rfl]
    refine ⟨by simp only [List.length_cons]; omega, ?_, hopen, fun h => by rw [hclosed h, Nat.add_comm]⟩
    simp only [List.mem_cons, not_or]
    exact ⟨by decide, Ne.symm hh, hline⟩
  | case6 h t hback =>
    rw [quotedTail_cons, if_neg hback, if_pos rfl]
    simp [Ne.symm hquote]
  | case7 h t hback hq => simp
  | case8 g h t hback hq hn ih =>
    obtain ⟨hle, hline, hopen, hclosed⟩ := ih
    rw [Nat.add_comm 1, List.take_succ_cons, List.drop_succ_cons, quotedTail_cons, if_neg hback, if_neg hq,
      if_neg hn]
    refine ⟨by simp only [List.length_cons] at hle ⊢; omega, ?_, hopen, fun h => by rw [hclosed h, Nat.add_comm]⟩
    rw [List.mem_cons, not_or]
    exact ⟨Ne.symm hn, hline⟩

/-- A line feed that no backslash takes ends a quoted literal. -/
theorem quotedTail_newline {quote : Glyph} (hn : quote ≠ .scalar '\n') (t : Text) :
    quotedTail quote (.scalar '\n' :: t) = 0 := by
  cases t with
  | nil => rfl
  | cons h t => rw [quotedTail_cons, if_neg (by decide), if_neg (Ne.symm hn), if_pos rfl]

theorem quotedTail_plain {quote g : Glyph} (hback : g ≠ .scalar '\\') (hn : g ≠ .scalar '\n') (t : Text) :
    quotedTail quote (g :: t) = if g = quote then 1 else 1 + quotedTail quote t := by
  cases t with
  | nil =>
    show (if g = .scalar '\n' then 0 else 1) = if g = quote then 1 else 1 + 0
    rw [if_neg hn]
    split <;> rfl
  | cons h t => rw [quotedTail_cons, if_neg hback, if_neg hn]

/-- With carriage returns a quoted literal goes as far as in its line, and takes the carriage return of the line with
it if it is still open there. -/
theorem quotedTail_withReturns {quote : Glyph} (hr : quote ≠ .scalar '\r') (hn : quote ≠ .scalar '\n')
    (t : Text) :
    quotedTail quote t.withReturns = (inLine quote t).1 + (inLine quote t).2.toNat := by
  have hend : ∀ u : Text, quotedTail quote (.scalar '\r' :: .scalar '\n' :: u) = 1 := by
    intro u
    rw [quotedTail_plain (by decide) (by decide), if_neg (Ne.symm hr), quotedTail_newline hn]
  fun_induction inLine quote t with
  | case1 => rfl
  | case2 => exact hend []
  | case3 g hg =>
    rw [withReturns_cons hg, withReturns_nil, quotedTail, if_neg hg]
    rfl
  | case4 =>
    -- the backslash takes the carriage return, and the line feed behind it ends the literal
    rw [withReturns_cons (by decide), withReturns_newline, quotedTail_cons, if_pos rfl, quotedTail_newline hn]
    rfl
  | case5 h t hh ih =>
    rw [withReturns_cons (by decide), withReturns_cons hh, quotedTail_cons, if_pos rfl, ih, Nat.add_assoc]
  | case6 h t hback =>
    rw [withReturns_cons hn, quotedTail_plain hback hn, if_pos rfl]
    rfl
  | case7 h t hback hq => exact hend _
  | case8 g h t hback hq hn' ih =>
    rw [withReturns_cons hn', quotedTail_plain hback hn', if_neg hq, ih, Nat.add_assoc]

/-! ## Raw strings -/

/-- The delimiter of a raw string is the same, since it has to end in its line. -/
theorem rawDelimiter_withReturns (room : Nat) (t : Text) :
    rawDelimiter? room t.withReturns =
      (rawDelimiter? room t).map fun (delimiter, body) => (delimiter, withReturns body) := by
  induction room generalizing t with
  | zero => rfl
  | succ room ih =>
    cases t using line_rec with
    | nil => rfl
    | newline t =>
      have hstop : ∀ (room : Nat) (u : Text), rawDelimiter? room (.scalar '\n' :: u) = none := by
        intro room u
        cases room <;> rfl
      rw [withReturns_newline, hstop, rawDelimiter?, if_neg (by decide), if_neg (by decide), hstop]
      rfl
    | glyph g t hg =>
      rw [withReturns_cons hg, rawDelimiter?, rawDelimiter?]
      split
      · rfl
      · split
        · rfl
        · rw [ih, Option.map_map, Option.map_map]
          rfl

/-- A delimiter has no line feed. -/
theorem newline_not_mem_delimiter {room : Nat} {t delimiter body : Text}
    (h : rawDelimiter? room t = some (delimiter, body)) : .scalar '\n' ∉ delimiter := by
  induction room generalizing t delimiter body with
  | zero => exact absurd h (by simp [rawDelimiter?])
  | succ room ih =>
    cases t with
    | nil => exact absurd h (by simp [rawDelimiter?])
    | cons g t =>
      rw [rawDelimiter?] at h
      split at h
      · simp only [Option.some.injEq, Prod.mk.injEq] at h
        rw [← h.1]
        exact List.not_mem_nil
      · split at h
        · exact absurd h (by simp)
        · next hstop =>
          obtain ⟨⟨d, b⟩, hd, heq⟩ := Option.map_eq_some_iff.mp h
          simp only [Prod.mk.injEq] at heq
          rw [← heq.1, List.mem_cons, not_or]
          refine ⟨?_, ih hd⟩
          rintro rfl
          exact hstop (by decide)

/-- A raw string ends at the same glyph, unless it has no delimiter and is an ordinary one. -/
theorem rawStringTail_withReturns {t : Text} (ht : .scalar '\r' ∉ t)
    (hraw : rawDelimiter? (maxDelimiter + 1) t ≠ none) :
    rawStringTail t.withReturns = stretch t (rawStringTail t) := by
  obtain ⟨⟨delimiter, body⟩, hd⟩ := Option.ne_none_iff_exists'.mp hraw
  have hsplit := append_of_rawDelimiter hd
  have hn := newline_not_mem_delimiter hd
  have hr : .scalar '\r' ∉ delimiter := fun h => ht (hsplit ▸ List.mem_append_left _ h)
  have hmark : lengthThrough? (.scalar ')' :: delimiter ++ [.scalar '"']) (withReturns body) =
      (lengthThrough? (.scalar ')' :: delimiter ++ [.scalar '"']) body).map (stretch body) :=
    lengthThrough_withReturns (by simp) (by simp [hr]) (by simp [hn]) body
  have hstretch : ∀ n, stretch t (delimiter.length + 1 + n) = delimiter.length + 1 + stretch body n := by
    intro n
    rw [hsplit, Nat.add_assoc, stretch_append hn, stretch_cons (by decide), Nat.add_assoc]
  unfold rawStringTail
  rw [rawDelimiter_withReturns, hd]
  simp only [Option.map_some]
  rw [hmark]
  cases lengthThrough? (.scalar ')' :: delimiter ++ [.scalar '"']) body with
  | none => exact (stretch_length t).symm
  | some n => exact (hstretch n).symm

/-! ## Words and symbols -/

theorem newline_not_mem_punct (q : Punct) : .scalar '\r' ∉ q.text ∧ .scalar '\n' ∉ q.text := by
  cases q <;> decide

theorem symbol_withReturns {g : Glyph} (hg : g ≠ .scalar '\n') (t : Text) :
    symbol (withReturns (g :: t)) = ((symbol (g :: t)).1, stretch (g :: t) (symbol (g :: t)).2) := by
  have hsame : ∀ q : Punct, q.text.isPrefixOf (withReturns (g :: t)) = q.text.isPrefixOf (g :: t) := fun q =>
    isPrefixOf_withReturns (newline_not_mem_punct q).1 (newline_not_mem_punct q).2 _
  unfold symbol Punct.leading?
  simp only [hsame]
  split
  · next q hq =>
    have hpre : q.text.isPrefixOf (g :: t) = true := by simpa using List.find?_some hq
    obtain ⟨more, hmore⟩ := List.isPrefixOf_iff_prefix.mp hpre
    have h := stretch_append (newline_not_mem_punct q).2 more 0
    rw [hmore, stretch_zero] at h
    exact Prod.ext rfl h.symm
  · rw [show 1 = 1 + 0 from rfl, stretch_cons hg, stretch_zero]

/-! ## Directives -/

/-- How far a directive goes, with its trailing blanks, if the quoted literals in it have to end in their lines. -/
def extentInLine (behind t : Text) : Nat :=
  match t with
  | [] => 0
  | g :: rest =>
    if g = .scalar '\n' then
      if splices behind then 1 + extentInLine (g :: behind) rest else 0
    else
      match g, rest with
      | .scalar '/', .scalar '/' :: _ => 0
      | .scalar '/', .scalar '*' :: inner =>
        let n := blockCommentTail inner
        2 + n + extentInLine ((inner.take n).reverse ++ .scalar '*' :: .scalar '/' :: behind) (inner.drop n)
      | g, rest =>
        if isQuote g then
          let n := (inLine g rest).1
          1 + n + extentInLine ((rest.take n).reverse ++ g :: behind) (rest.drop n)
        else 1 + extentInLine (g :: behind) rest
termination_by t.length
decreasing_by all_goals (simp_all; try omega)

/-- The rest of a directive after its `#`, if the quoted literals in it have to end in their lines. -/
def directiveTailInLine (t : Text) : Nat :=
  ((t.take (extentInLine [] t)).reverse.dropWhile fun g =>
    g == .scalar ' ' || g == .scalar '\t' || g == .scalar '\r').length

theorem directiveTailInLine_le (t : Text) : directiveTailInLine t ≤ t.length := by
  unfold directiveTailInLine
  have h := (List.dropWhile_sublist (fun g => g == Glyph.scalar ' ' || g == .scalar '\t' || g == .scalar '\r')
    (l := (t.take (extentInLine [] t)).reverse)).length_le
  simp only [List.length_reverse, List.length_take] at h
  omega

theorem extentInLine_newline (behind rest : Text) :
    extentInLine behind (.scalar '\n' :: rest) =
      if splices behind then 1 + extentInLine (.scalar '\n' :: behind) rest else 0 := by
  rw [extentInLine, if_pos rfl] <;> simp

theorem extentInLine_lineComment (behind rest : Text) :
    extentInLine behind (.scalar '/' :: .scalar '/' :: rest) = 0 := by
  rw [extentInLine, if_neg (by decide)]

theorem extentInLine_blockComment (behind rest : Text) :
    extentInLine behind (.scalar '/' :: .scalar '*' :: rest) =
      2 + blockCommentTail rest +
        extentInLine ((rest.take (blockCommentTail rest)).reverse ++ .scalar '*' :: .scalar '/' :: behind)
          (rest.drop (blockCommentTail rest)) := by
  rw [extentInLine, if_neg (by decide)]

theorem extentInLine_plain {behind : Text} {g : Glyph} {rest : Text} (hn : g ≠ .scalar '\n')
    (hc : OpensNoComment g rest) :
    extentInLine behind (g :: rest) =
      if isQuote g then
        1 + (inLine g rest).1 +
          extentInLine ((rest.take (inLine g rest).1).reverse ++ g :: behind) (rest.drop (inLine g rest).1)
      else 1 + extentInLine (g :: behind) rest := by
  rw [extentInLine, if_neg hn]
  · intro more hg hrest
    exact (hc hg _ more hrest).1 rfl
  · intro more hg hrest
    exact (hc hg _ more hrest).2 rfl

/-- A carriage return in a directive. -/
theorem directiveExtent_return (behind rest : Text) :
    directiveExtent behind (.scalar '\r' :: rest) = 1 + directiveExtent (.scalar '\r' :: behind) rest := by
  rw [directiveExtent_plain (by decide) fun h => absurd h (by decide), if_neg (by decide)]

/-- A line goes on below if there is a backslash at its end, in front of the carriage return or not. -/
theorem splices_eq {behind : Text} (h : behind.head? ≠ some (.scalar '\r')) :
    splices behind = (behind.head? == some (.scalar '\\')) := by
  cases behind with
  | nil => rfl
  | cons g more =>
    have hg : g ≠ .scalar '\r' := fun e => h (by rw [e]; rfl)
    rw [splices]
    · rfl
    · intro _ _ e
      exact absurd e hg

theorem splices_return (behind : Text) :
    splices (.scalar '\r' :: behind) = (behind.head? == some (.scalar '\\')) := by
  cases behind <;> rfl

/-- The carriage return that comes in front of a text, which is there if the text starts with a line feed. -/
def returnBefore (t : Text) : Nat := if t.head? = some (.scalar '\n') then 1 else 0

theorem stretch_inLine {quote : Glyph} (hn : quote ≠ .scalar '\n') (t : Text) :
    stretch t (inLine quote t).1 = (inLine quote t).1 := by
  obtain ⟨hle, hline, -⟩ := inLine_spec hn t
  rw [stretch, withReturns_of_line hline, List.length_take, Nat.min_eq_left hle]

/-- A quoted literal in a directive ends in its line, and the directive goes on from there. -/
theorem directiveExtent_quoted {behind rest : Text} {quote : Glyph} (hq : isQuote quote = true) :
    directiveExtent behind (quote :: rest.withReturns) =
      1 + (inLine quote rest).1 +
        directiveExtent ((rest.take (inLine quote rest).1).reverse ++ quote :: behind)
          (withReturns (rest.drop (inLine quote rest).1)) := by
  have hn := ne_of_isQuote hq (c := '\n') (by decide)
  have hr := ne_of_isQuote hq (c := '\r') (by decide)
  obtain ⟨-, hline, hopen, -⟩ := inLine_spec hn rest
  have hstretch := stretch_inLine hn rest
  rw [directiveExtent_plain hn fun h => absurd h (ne_of_isQuote hq (by decide)), if_pos hq,
    quotedTail_withReturns hr hn]
  cases ho : (inLine quote rest).2 with
  | false =>
    have htake := take_withReturns rest (inLine quote rest).1
    have hdrop := drop_withReturns rest (inLine quote rest).1
    rw [hstretch, withReturns_of_line hline] at htake
    rw [hstretch] at hdrop
    rw [Bool.toNat_false, Nat.add_zero, htake, hdrop]
  | true =>
    -- the literal takes the carriage return with it, which would be the next glyph of the directive
    have htake := take_withReturns_succ (hopen ho)
    have hdrop := drop_withReturns_succ (hopen ho)
    rw [hstretch, withReturns_of_line hline] at htake
    rw [hstretch] at hdrop
    rw [Bool.toNat_true, htake, hdrop, directiveExtent_return, List.reverse_append, List.reverse_singleton,
      List.singleton_append, List.cons_append]
    omega

theorem opensNoComment_withReturns {g : Glyph} {rest : Text} (h : OpensNoComment g rest) :
    OpensNoComment g rest.withReturns := by
  intro hg k more hk
  cases rest using line_rec with
  | nil => exact absurd hk (by simp)
  | newline rest =>
    obtain ⟨rfl, -⟩ := List.cons.inj hk
    exact ⟨by decide, by decide⟩
  | glyph c rest hc =>
    rw [withReturns_cons hc] at hk
    obtain ⟨rfl, -⟩ := List.cons.inj hk
    exact h hg c rest rfl

/-- What has been read of a directive in the two texts, `behind` and `behind'`, ends in the same glyph, which is no
carriage return. -/
structure SameEnd (behind behind' : Text) : Prop where
  head_eq : behind'.head? = behind.head?
  clean : behind.head? ≠ some (.scalar '\r')

theorem SameEnd.cons {g : Glyph} (hg : g ≠ .scalar '\r') (behind behind' : Text) :
    SameEnd (g :: behind) (g :: behind') :=
  ⟨rfl, by simpa using hg⟩

/-- What is read next stands in front of what was read before. -/
theorem SameEnd.append {u u' behind behind' : Text} (hlast : u'.getLast? = u.getLast?) (hu : .scalar '\r' ∉ u)
    (h : SameEnd behind behind') : SameEnd (u.reverse ++ behind) (u'.reverse ++ behind') := by
  constructor
  · rw [List.head?_append, List.head?_append, List.head?_reverse, List.head?_reverse, hlast, h.head_eq]
  · intro hr
    rw [List.head?_append, Option.or_eq_some_iff] at hr
    rcases hr with hr | ⟨-, hr⟩
    · exact hu (List.mem_reverse.mp (List.mem_of_head? hr))
    · exact h.clean hr

/-- From here on a directive goes as far as it does if its quoted literals end in their lines, and takes the carriage
return of its last line with it. -/
def InStep (behind behind' t : Text) : Prop :=
  directiveExtent behind' t.withReturns =
    stretch t (extentInLine behind t) + returnBefore (t.drop (extentInLine behind t))

theorem InStep.newline {behind behind' rest : Text} (h : SameEnd behind behind')
    (hbelow : InStep (.scalar '\n' :: behind) (.scalar '\n' :: .scalar '\r' :: behind') rest) :
    InStep behind behind' (.scalar '\n' :: rest) := by
  unfold InStep at hbelow ⊢
  rw [withReturns_newline, directiveExtent_return, directiveExtent_newline, splices_return, h.head_eq,
    extentInLine_newline, splices_eq h.clean]
  split
  · rw [hbelow, stretch_newline, Nat.add_comm 1 (extentInLine _ _), List.drop_succ_cons]
    omega
  · -- the directive ends here, in front of the line feed
    rw [stretch_zero, List.drop_zero]
    rfl

theorem InStep.lineComment (behind behind' rest : Text) :
    InStep behind behind' (.scalar '/' :: .scalar '/' :: rest) := by
  unfold InStep
  rw [withReturns_cons (by decide), withReturns_cons (by decide), directiveExtent_lineComment,
    extentInLine_lineComment, stretch_zero]
  rfl

theorem InStep.blockComment {behind behind' inner : Text} {n : Nat} (hn : blockCommentTail inner = n)
    (hbelow : InStep ((inner.take n).reverse ++ .scalar '*' :: .scalar '/' :: behind)
      ((withReturns (inner.take n)).reverse ++ .scalar '*' :: .scalar '/' :: behind') (inner.drop n)) :
    InStep behind behind' (.scalar '/' :: .scalar '*' :: inner) := by
  unfold InStep at hbelow ⊢
  rw [withReturns_cons (by decide), withReturns_cons (by decide), directiveExtent_blockComment,
    extentInLine_blockComment, blockCommentTail_withReturns, hn, take_withReturns, drop_withReturns, hbelow]
  generalize extentInLine ((inner.take n).reverse ++ .scalar '*' :: .scalar '/' :: behind) (inner.drop n) = e
  have hstretch : stretch (.scalar '/' :: .scalar '*' :: inner) (2 + n + e) =
      2 + stretch inner n + stretch (inner.drop n) e := by
    rw [Nat.add_assoc, stretch_two (by decide) (by decide), stretch_add, Nat.add_assoc]
  have hdrop : (Glyph.scalar '/' :: .scalar '*' :: inner).drop (2 + n + e) = (inner.drop n).drop e := by
    rw [List.drop_drop, show 2 + n + e = n + e + 1 + 1 by omega, List.drop_succ_cons, List.drop_succ_cons]
  rw [hstretch, hdrop]
  omega

theorem InStep.quoted {behind behind' rest : Text} {quote : Glyph} {n : Nat} (hq : isQuote quote = true)
    (hn : (inLine quote rest).1 = n)
    (hbelow : InStep ((rest.take n).reverse ++ quote :: behind) ((rest.take n).reverse ++ quote :: behind')
      (rest.drop n)) :
    InStep behind behind' (quote :: rest) := by
  unfold InStep at hbelow ⊢
  have hline := ne_of_isQuote hq (c := '\n') (by decide)
  have hstretch := stretch_inLine hline rest
  rw [withReturns_cons hline, directiveExtent_quoted hq,
    extentInLine_plain hline fun h => absurd h (ne_of_isQuote hq (by decide)), if_pos hq, hn, hbelow]
  rw [hn] at hstretch
  generalize extentInLine ((rest.take n).reverse ++ quote :: behind) (rest.drop n) = e
  rw [Nat.add_assoc 1 n e, stretch_cons hline, stretch_add, hstretch, Nat.add_comm 1 (n + e), List.drop_succ_cons,
    List.drop_drop]
  omega

theorem InStep.plain {behind behind' rest : Text} {g : Glyph} (hg : g ≠ .scalar '\n') (hc : OpensNoComment g rest)
    (hq : ¬ isQuote g = true) (hbelow : InStep (g :: behind) (g :: behind') rest) :
    InStep behind behind' (g :: rest) := by
  unfold InStep at hbelow ⊢
  rw [withReturns_cons hg, extentInLine_plain hg hc, if_neg hq,
    directiveExtent_plain hg (opensNoComment_withReturns hc), if_neg hq, hbelow, stretch_cons hg,
    Nat.add_comm 1 (extentInLine _ _), List.drop_succ_cons]
  omega

/-- A directive is read in step in the two texts, from any point on that is in front of no carriage return. -/
theorem inStep_of_sameEnd {behind behind' t : Text} (ht : .scalar '\r' ∉ t) (h : SameEnd behind behind') :
    InStep behind behind' t := by
  -- on the length, since a comment or a literal is passed over as a whole
  induction hl : t.length using Nat.strongRecOn generalizing behind behind' t with
  | _ n ih =>
    subst hl
    cases t with
    | nil =>
      rw [InStep, withReturns_nil, directiveExtent, extentInLine]
      rfl
    | cons g rest =>
      have hrest : .scalar '\r' ∉ rest := fun hm => ht (List.mem_cons_of_mem g hm)
      have hgr : g ≠ .scalar '\r' := fun e => ht (e ▸ List.mem_cons_self)
      by_cases hg : g = .scalar '\n'
      · subst hg
        exact .newline h (ih rest.length (by simp) hrest (.cons (by decide) _ _) rfl)
      rcases comment_cases g rest with ⟨more, rfl, rfl⟩ | ⟨inner, rfl, rfl⟩ | hplain
      · exact .lineComment behind behind' more
      · have hinner : .scalar '\r' ∉ inner := fun hm => hrest (List.mem_cons_of_mem _ hm)
        have hend := SameEnd.append (getLast?_withReturns (inner.take (blockCommentTail inner)))
          (fun hm => hinner (List.mem_of_mem_take hm))
          (.cons (g := .scalar '*') (by decide) (.scalar '/' :: behind) (.scalar '/' :: behind'))
        exact .blockComment rfl (ih _ (by simp only [List.length_drop, List.length_cons]; omega)
          (fun hm => hinner (List.mem_of_mem_drop hm)) hend rfl)
      by_cases hq : isQuote g = true
      · have hend := SameEnd.append (u := rest.take (inLine g rest).1) rfl
          (fun hm => hrest (List.mem_of_mem_take hm)) (.cons hgr behind behind')
        exact .quoted hq rfl (ih _ (by simp only [List.length_drop, List.length_cons]; omega)
          (fun hm => hrest (List.mem_of_mem_drop hm)) hend rfl)
      · exact .plain hg hplain hq (ih rest.length (by simp) hrest (.cons hgr _ _) rfl)

/-- Trailing blanks are taken off both texts alike. -/
theorem length_trimmed_withReturns (drop : Glyph → Bool) (hn : drop (.scalar '\n') = false) (t : Text) :
    (t.withReturns.reverse.dropWhile drop).length = stretch t (t.reverse.dropWhile drop).length := by
  induction t using List.reverseRecOn with
  | nil => rfl
  | append_singleton t g ih =>
    by_cases hg : drop g = true
    · -- a glyph that is taken off is no line feed, so it is one glyph in both texts
      have hline : g ≠ .scalar '\n' := by
        rintro rfl
        rw [hn] at hg
        exact absurd hg (by decide)
      have hle : (t.reverse.dropWhile drop).length ≤ t.length := by
        simpa using (List.dropWhile_sublist drop (l := t.reverse)).length_le
      rw [withReturns_append, withReturns_cons hline, List.reverse_append, List.reverse_append]
      simp only [withReturns_nil, List.reverse_singleton, List.singleton_append, List.dropWhile_cons, if_pos hg]
      rw [ih, stretch, stretch, List.take_append_of_le_length hle]
    · have hkept : ∀ u : Text, ((u ++ [g]).reverse.dropWhile drop).length = (u ++ [g]).length := by
        intro u
        rw [List.reverse_append, List.reverse_singleton, List.singleton_append, List.dropWhile_cons, if_neg hg,
          List.length_cons, List.length_reverse, List.length_append]
        rfl
      have hend : ∃ u, withReturns (t ++ [g]) = u ++ [g] := by
        rw [withReturns_append]
        by_cases hline : g = .scalar '\n'
        · subst hline
          exact ⟨withReturns t ++ [.scalar '\r'], by simp⟩
        · exact ⟨withReturns t, by rw [withReturns_cons hline]; rfl⟩
      obtain ⟨u, hu⟩ := hend
      rw [hkept, stretch_length, hu, hkept]

/-- With carriage returns a directive ends where it does if its quoted literals end in their lines. -/
theorem directiveTail_withReturns {t : Text} (ht : .scalar '\r' ∉ t) :
    directiveTail t.withReturns = stretch t (directiveTailInLine t) := by
  have hextent : InStep [] [] t := inStep_of_sameEnd ht ⟨rfl, by simp⟩
  unfold InStep at hextent
  have hle := (List.dropWhile_sublist
    (fun g => g == Glyph.scalar ' ' || g == .scalar '\t' || g == .scalar '\r')
    (l := (t.take (extentInLine [] t)).reverse)).length_le
  unfold directiveTail directiveTailInLine
  rw [hextent]
  generalize extentInLine [] t = e at hle ⊢
  have htrim := length_trimmed_withReturns
    (fun g => g == .scalar ' ' || g == .scalar '\t' || g == .scalar '\r') (by decide) (t.take e)
  have hsame : ∀ n ≤ (t.take e).reverse.length, stretch (t.take e) n = stretch t n := by
    intro n hn
    rw [List.length_reverse, List.length_take] at hn
    rw [stretch, stretch, List.take_take, Nat.min_eq_left (by omega)]
  rw [hsame _ hle] at htrim
  rw [← htrim]
  by_cases hnext : (t.drop e).head? = some (.scalar '\n')
  · -- the carriage return of the last line is a trailing blank
    rw [returnBefore, if_pos hnext, take_withReturns_succ hnext, List.reverse_append, List.reverse_singleton,
      List.singleton_append, List.dropWhile_cons, if_pos (by decide)]
  · rw [returnBefore, if_neg hnext, Nat.add_zero, take_withReturns]

end Lexeme

end HouseStyle
