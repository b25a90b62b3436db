import HouseStyle.Proofs.SelectedFiles

/-!
# Directory patterns match whole parts of a path

A pattern that ends with a slash names a directory by one part of its path or by several in a row. It is looked
for as a text in the text of a path, with a slash at either end and one in front of the path. What is found that
way are whole parts, because no part has a slash in it.

- `prefix_rooted_iff`, `infix_rooted_iff`: where parts with slashes around them are found in a path.
- `PathPattern.directory_accepts_iff`: a directory pattern matches just the paths that have its parts in a row,
  with another part behind them.
-/

namespace HouseStyle

/-! ## Parts of a path -/

/-- Parts of a path, each with a slash in front of it. -/
def rooted (parts : List (List Char)) : List Char := parts.flatMap fun part => '/' :: part

theorem rooted_cons (part : List Char) (parts : List (List Char)) :
    rooted (part :: parts) = '/' :: (part ++ rooted parts) := rfl

/-- The text of a path, told by its first part. -/
theorem intercalate_cons (part : List Char) (parts : List (List Char)) :
    List.intercalate ['/'] (part :: parts) = part ++ rooted parts := by
  induction parts generalizing part with
  | nil => simp [rooted]
  | cons next parts ih =>
    rw [List.intercalate_cons_cons, ih, rooted_cons, List.append_assoc]
    rfl

theorem eq_or_mem_of_mem_rooted {parts : List (List Char)} {c : Char} (h : c ∈ rooted parts) :
    c = '/' ∨ ∃ part ∈ parts, c ∈ part := by
  obtain ⟨part, hpart, hc⟩ := List.mem_flatMap.mp h
  exact (List.mem_cons.mp hc).imp_right fun hc => ⟨part, hpart, hc⟩

section

variable {c d x : List Char} {cs ds : List (List Char)}

/-- Behind parts without a slash, a slash tells where the first one ends. -/
theorem append_slash_prefix_iff (hc : '/' ∉ c) (hd : '/' ∉ d) :
    c ++ '/' :: x <+: d ++ rooted ds ↔ c = d ∧ '/' :: x <+: rooted ds := by
  induction c generalizing d with
  | nil =>
    cases d with
    | nil => simp
    | cons b d =>
      have hne : '/' ≠ b := fun h => hd (h ▸ List.mem_cons_self)
      rw [List.nil_append, List.cons_append, List.cons_prefix_cons]
      simp [hne]
  | cons a c ih =>
    have hne : a ≠ '/' := fun h => hc (h ▸ List.mem_cons_self)
    cases d with
    | nil =>
      cases ds with
      | nil => simp [rooted]
      | cons e ds =>
        rw [List.nil_append, List.cons_append, rooted_cons, List.cons_prefix_cons]
        simp [hne]
    | cons b d =>
      have hrest := ih (fun h => hc (List.mem_cons_of_mem a h)) fun h => hd (List.mem_cons_of_mem b h)
      rw [List.cons_append, List.cons_append, List.cons_prefix_cons, hrest, List.cons.injEq, and_assoc]

/-- Parts with slashes around them stand at the front of a path just if it starts with these parts and goes on. -/
theorem prefix_rooted_iff (hcs : ∀ c ∈ cs, '/' ∉ c) (hds : ∀ d ∈ ds, '/' ∉ d) :
    rooted cs ++ ['/'] <+: rooted ds ↔ ∃ after, after ≠ [] ∧ ds = cs ++ after := by
  induction cs generalizing ds with
  | nil =>
    cases ds with
    | nil => simp [rooted]
    | cons d ds => simp [rooted]
  | cons c cs ih =>
    cases ds with
    | nil => simp [rooted]
    | cons d ds =>
      obtain ⟨hc, hcs⟩ := List.forall_mem_cons.mp hcs
      obtain ⟨hd, hds⟩ := List.forall_mem_cons.mp hds
      -- what stands behind the first part starts with a slash again
      obtain ⟨x, hx⟩ : ∃ x, rooted cs ++ ['/'] = '/' :: x := by
        cases cs with
        | nil => exact ⟨[], rfl⟩
        | cons next cs => exact ⟨_, rfl⟩
      rw [rooted_cons, rooted_cons, List.cons_append, List.append_assoc, List.cons_prefix_cons, hx,
        append_slash_prefix_iff hc hd, ← hx, ih hcs hds]
      constructor
      · rintro ⟨-, rfl, after, hafter, rfl⟩
        exact ⟨after, hafter, rfl⟩
      · rintro ⟨after, hafter, heq⟩
        obtain ⟨rfl, rfl⟩ := List.cons.inj heq
        exact ⟨rfl, rfl, after, hafter, rfl⟩

/-- What starts with a slash is not found before the next slash. -/
theorem slash_infix_append_iff {y : List Char} (hd : '/' ∉ d) :
    '/' :: x <:+: d ++ y ↔ '/' :: x <:+: y := by
  induction d with
  | nil => rfl
  | cons b d ih =>
    have hne : '/' ≠ b := fun h => hd (h ▸ List.mem_cons_self)
    rw [List.cons_append, List.infix_cons_iff, List.cons_prefix_cons, ih fun h => hd (List.mem_cons_of_mem b h)]
    simp [hne]

/-- Parts with slashes around them are found in a path just if they stand in it in a row and it goes on. -/
theorem infix_rooted_iff (hcs : ∀ c ∈ cs, '/' ∉ c) (hds : ∀ d ∈ ds, '/' ∉ d) :
    rooted cs ++ ['/'] <:+: rooted ds ↔ ∃ before after, after ≠ [] ∧ ds = before ++ cs ++ after := by
  obtain ⟨x, hx⟩ : ∃ x, rooted cs ++ ['/'] = '/' :: x := by
    cases cs with
    | nil => exact ⟨[], rfl⟩
    | cons c cs => exact ⟨_, rfl⟩
  induction ds with
  | nil =>
    rw [hx]
    refine iff_of_false (by simp [rooted]) ?_
    rintro ⟨before, after, hafter, heq⟩
    exact hafter (List.append_eq_nil_iff.mp heq.symm).2
  | cons d ds ih =>
    have hfront := prefix_rooted_iff hcs hds
    obtain ⟨hd, hds⟩ := List.forall_mem_cons.mp hds
    rw [rooted_cons] at hfront ⊢
    rw [List.infix_cons_iff, hfront, hx, slash_infix_append_iff hd, ← hx, ih hds]
    constructor
    · rintro (⟨after, hafter, heq⟩ | ⟨before, after, hafter, rfl⟩)
      · exact ⟨[], after, hafter, heq⟩
      · exact ⟨d :: before, after, hafter, rfl⟩
    · rintro ⟨before, after, hafter, heq⟩
      cases before with
      | nil => exact Or.inl ⟨after, hafter, heq⟩
      | cons b before =>
        obtain ⟨-, rfl⟩ := List.cons.inj heq
        exact Or.inr ⟨before, after, hafter, rfl⟩

end

namespace PathPattern

theorem isWithin_iff {text inside : List Char} : isWithin text inside = true ↔ text <:+: inside := by
  unfold isWithin
  rw [Glob.suffixes_eq_tails, List.any_eq_true, List.infix_iff_prefix_suffix]
  simp only [List.mem_tails, List.isPrefixOf_iff_prefix, and_comm]

/-! ## Reading a directory pattern -/

/-- A name that stands for itself in a pattern. -/
structure IsPlainName (name : String) : Prop where
  nonempty : name ≠ ""
  slash : '/' ∉ name.toList
  backslash : '\\' ∉ name.toList
  /-- There is no white space at either end of it. -/
  trimmed : Blank.trim name = name

/-- What is left as it is when white space is taken off its ends does not start with any. -/
theorem IsPlainName.exists_cons {name : String} (h : IsPlainName name) :
    ∃ a rest, name.toList = a :: rest ∧ Blank.isBlank a = false := by
  cases hname : name.toList with
  | nil => exact absurd (String.toList_inj.mp hname) h.nonempty
  | cons a rest =>
    refine ⟨a, rest, rfl, Bool.eq_false_iff.mpr fun ha => ?_⟩
    have hlength := congrArg (fun s : String => s.toList.length) h.trimmed
    simp only [Blank.trim, String.toList_ofList, hname, List.dropWhile_cons_of_pos ha, List.length_reverse,
      List.length_cons] at hlength
    have hfront := (List.dropWhile_sublist Blank.isBlank (l := rest)).length_le
    have hback := (List.dropWhile_sublist Blank.isBlank (l := (rest.dropWhile Blank.isBlank).reverse)).length_le
    rw [List.length_reverse] at hback
    omega

/-- A directory pattern is read as it is written. -/
theorem ofString_directory {first : String} {more : List String} (hfirst : IsPlainName first)
    (hmore : ∀ n ∈ more, IsPlainName n) (hhere : first ≠ ".") :
    ofString? ("/".intercalate (first :: more) ++ "/") =
      some (.directory (first.toList ++ (rooted (more.map String.toList) ++ ['/']))) := by
  obtain ⟨text, htext⟩ : ∃ text, text = first.toList ++ (rooted (more.map String.toList) ++ ['/']) := ⟨_, rfl⟩
  have hlist : ("/".intercalate (first :: more) ++ "/").toList = text := by
    rw [htext, String.toList_append, String.toList_intercalate, List.map_cons]
    show List.intercalate ['/'] _ ++ ['/'] = _
    rw [intercalate_cons, List.append_assoc]
  obtain ⟨a, rest, hcons, ha⟩ := hfirst.exists_cons
  -- no white space at either end, and no backslash
  have hspelled : spelled ("/".intercalate (first :: more) ++ "/") = text := by
    have hfront : text.dropWhile Blank.isBlank = text := by
      rw [htext, hcons, List.cons_append, List.dropWhile_cons_of_neg (by simp [ha])]
    have hback : text.reverse.dropWhile Blank.isBlank = text.reverse := by
      rw [htext, List.reverse_append, List.reverse_append, List.reverse_singleton, List.append_assoc,
        List.singleton_append, List.dropWhile_cons_of_neg (by decide)]
    have hplain : ∀ c ∈ text, (if c = '\\' then '/' else c) = c := by
      refine fun c hc => if_neg ?_
      rintro rfl
      rw [htext, List.mem_append, List.mem_append] at hc
      rcases hc with hc | hc | hc
      · exact hfirst.backslash hc
      · rcases eq_or_mem_of_mem_rooted hc with heq | ⟨part, hpart, hc⟩
        · exact absurd heq (by decide)
        · obtain ⟨n, hn, rfl⟩ := List.mem_map.mp hpart
          exact (hmore n hn).backslash hc
      · exact absurd hc (by decide)
    unfold spelled Blank.trim
    rw [hlist, hfront, hback, List.reverse_reverse, String.toList_ofList, List.map_congr_left hplain, List.map_id']
  -- the first part is more than a point
  have hkept : withoutHere text = text := by
    unfold withoutHere
    split
    next behind =>
      rw [hcons, List.cons_append] at htext
      obtain ⟨rfl, heq⟩ := List.cons.inj htext
      cases rest with
      | nil => exact absurd (String.toList_inj.mp hcons) hhere
      | cons b rest =>
        obtain ⟨rfl, -⟩ := List.cons.inj heq
        exact absurd (by rw [hcons]; simp) hfirst.slash
    next => rfl
  have hlast : text.getLast? = some '/' := by
    rw [htext, ← List.append_assoc]
    exact List.getLast?_concat
  unfold ofString?
  rw [hspelled, hkept, if_neg (by simp [htext]), ofChars, if_pos hlast, htext]

/-- A directory pattern matches just the paths that have its parts in a row, as whole parts and at any depth, and
another part behind them. -/
theorem directory_accepts_iff {parts names : List String} (hparts : ∀ d ∈ parts, '/' ∉ d.toList)
    (hne : names ≠ []) (hnames : ∀ n ∈ names, IsPlainName n) (hhere : names.head? ≠ some ".") :
    anyAccepts ["/".intercalate names ++ "/"] ("/".intercalate parts) = true ↔
      ∃ before after, after ≠ [] ∧ parts = before ++ names ++ after := by
  obtain ⟨first, more, rfl⟩ := List.exists_cons_of_ne_nil hne
  obtain ⟨hfirst, hmore⟩ := List.forall_mem_cons.mp hnames
  have hread := ofString_directory hfirst hmore fun heq => hhere (congrArg some heq)
  have hfound : anyAccepts ["/".intercalate (first :: more) ++ "/"] ("/".intercalate parts) = true ↔
      rooted ((first :: more).map String.toList) ++ ['/'] <:+: '/' :: ("/".intercalate parts).toList := by
    unfold anyAccepts
    rw [List.filterMap_cons_some hread, List.filterMap_nil, List.any_cons, List.any_nil, Bool.or_false, accepts,
      isWithin_iff, List.map_cons, rooted_cons, List.cons_append, List.append_assoc]
  rw [hfound]
  -- with a slash in front the text of a path is that of its parts with slashes in front, if it has any
  cases parts with
  | nil =>
    refine iff_of_false (fun h => ?_) ?_
    · obtain ⟨a, rest, hcons, -⟩ := hfirst.exists_cons
      have hlength := h.length_le
      simp [rooted_cons, hcons] at hlength
    · rintro ⟨before, after, hafter, heq⟩
      exact hafter (List.append_eq_nil_iff.mp heq.symm).2
  | cons d parts =>
    have hpath : '/' :: ("/".intercalate (d :: parts)).toList = rooted ((d :: parts).map String.toList) := by
      rw [String.toList_intercalate]
      exact congrArg ('/' :: ·) (intercalate_cons d.toList (parts.map String.toList))
    have hslash : ∀ names : List String, (∀ n ∈ names, '/' ∉ n.toList) →
        ∀ n ∈ names.map String.toList, '/' ∉ n := by
      intro names h n hn
      obtain ⟨name, hname, rfl⟩ := List.mem_map.mp hn
      exact h name hname
    rw [hpath, infix_rooted_iff (hslash _ fun n hn => (hnames n hn).slash) (hslash _ hparts)]
    constructor
    · rintro ⟨before, after, hafter, hmapped⟩
      obtain ⟨front, behind, hcut, hfront, rfl⟩ := List.map_eq_append_iff.mp hmapped
      obtain ⟨before', names', rfl, -, hsame⟩ := List.map_eq_append_iff.mp hfront
      rw [(List.map_inj_right fun a b => String.toList_inj.mp).mp hsame] at hcut
      exact ⟨before', behind, by rintro rfl; exact hafter rfl, hcut⟩
    · rintro ⟨before, after, hafter, heq⟩
      rw [heq, List.map_append, List.map_append]
      exact ⟨_, _, by simpa using hafter, rfl⟩

theorem directory_accepts_iff_third_party :
    anyAccepts ["/".intercalate ["third_party", "zlib"] ++ "/"]
        ("/".intercalate ["src", "third_party", "zlib", "zlib.h"]) = true ∧
      anyAccepts ["/".intercalate ["third_party", "zlib"] ++ "/"]
        ("/".intercalate ["third_party", "zlib2", "zlib.h"]) = false := by
  have hnames : ∀ n ∈ ["third_party", "zlib"], IsPlainName n := by
    intro n hn
    simp only [List.mem_cons, List.not_mem_nil, or_false] at hn
    rcases hn with rfl | rfl <;> exact ⟨by decide, by decide, by decide, by decide⟩
  refine ⟨(directory_accepts_iff (by decide) (by decide) hnames (by decide)).mpr
    ⟨["src"], ["zlib.h"], by decide, rfl⟩, ?_⟩
  rw [Bool.eq_false_iff, Ne, directory_accepts_iff (by decide) (by decide) hnames (by decide)]
  rintro ⟨before, after, -, heq⟩
  have hpart : "zlib" ∈ ["third_party", "zlib2", "zlib.h"] := by
    rw [heq]
    simp
  exact absurd hpart (by decide)

end PathPattern

end HouseStyle
