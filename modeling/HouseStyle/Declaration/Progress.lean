import HouseStyle.Declaration.Statement

/-!
# Reading goes forward

Whatever a statement leaves over is an end of the tokens that were given, and without the first of
them (`suffix_statement`). So reading a file statement by statement comes to an end, and no token is
read that is not there. The lemmas before it say the same of the parts of a statement.
-/

namespace HouseStyle

open List (IsSuffix)

/-! ## Brackets and heads -/

/-- What follows a closed run is an end of the tokens given. -/
theorem suffix_enclosed {closer : Punct} {depth : Nat} {ts : List Token} {e : Enclosed}
    (h : enclosed? closer depth ts = some e) : e.after <:+ ts :=
  ⟨e.inside ++ [e.closer], by simp [enclosed?_append h]⟩

/-- What follows a run that may not be closed is an end of the tokens given. -/
theorem suffix_enclosed_getD (closer : Punct) (ts : List Token) :
    ((enclosed? closer 0 ts).map (·.after)).getD [] <:+ ts := by
  cases h : enclosed? closer 0 ts with
  | none => exact List.nil_suffix
  | some e => exact suffix_enclosed h

/-- What follows a template argument list is an end of the tokens given. -/
theorem suffix_angled {depth : Nat} {ts : List Token} {a : Angled}
    (h : angled? depth ts = some a) : a.after <:+ ts := by
  fun_induction angled? depth ts generalizing a with
  | case1 => simp at h
  | case2 _ _ _ _ ih | case4 _ _ _ _ ih | case10 _ _ _ _ _ _ _ _ _ _ ih | case11 _ _ _ _ _ _ _ _ ih =>
    obtain ⟨b, hb, hafter⟩ := after_of_map_prepend h
    exact hafter ▸ (ih hb).trans (List.suffix_cons _ _)
  | case3 =>
    simp only [Option.some.injEq] at h
    exact h ▸ List.suffix_cons _ _
  | case5 => simp at h
  | case6 _ _ _ _ _ he ih | case8 _ _ _ _ _ he ih =>
    obtain ⟨b, hb, hafter⟩ := after_of_map_prepend h
    exact hafter ▸ ((ih hb).trans (suffix_enclosed he)).trans (List.suffix_cons _ _)
  | case7 => simp at h
  | case9 => simp at h

/-- What follows the head of a statement is an end of the tokens given. -/
theorem suffix_readFrom (seen : Head.Seen) (last : Option Token) (depth : Nat) (ts : List Token) :
    (Head.readFrom seen last depth ts).rest <:+ ts := by
  fun_induction Head.readFrom seen last depth ts with
  | case1 => exact List.nil_suffix
  | case2 _ _ _ _ _ _ _ _ ih => exact ih.trans (List.suffix_cons _ _)
  | case3 => exact List.suffix_rfl
  | case4 => exact List.suffix_cons _ _
  | case5 => exact List.nil_suffix
  | case6 _ _ _ _ _ _ _ he ih =>
    exact (ih.trans (suffix_enclosed he)).trans (List.suffix_cons _ _)

/-- Only a closing brace ends a head without being read. -/
theorem kind_of_step_eq_scopeEnd {seen : Head.Seen} {last : Option Token} {depth : Nat} {t : Token}
    (h : Head.step seen last depth t = .finish .scopeEnd) : t.kind = .punct .rbrace := by
  unfold Head.step at h
  split at h
  case h_5 p _ _ _ _ hp =>
    split at h
    · split at h
      case h_2 => exact hp
      case h_5 => split at h <;> simp at h
      all_goals simp at h
    · simp at h
  all_goals simp at h

/-- A head that does not start with a closing brace takes its first token. -/
theorem suffix_read {t : Token} {rest : List Token} (ht : t.kind ≠ .punct .rbrace) :
    (Head.read (t :: rest)).rest <:+ rest := by
  unfold Head.read
  rw [Head.readFrom]
  split
  · exact suffix_readFrom ..
  · rename_i hstep
    exact absurd (kind_of_step_eq_scopeEnd hstep) ht
  · exact List.suffix_rfl
  · split
    · exact List.nil_suffix
    · rename_i he
      exact (suffix_readFrom ..).trans (suffix_enclosed he)

/-- What follows a head with its body is an end of what follows the head. -/
theorem suffix_afterStatement_head (h : Head) : h.afterStatement <:+ h.rest := by
  unfold Head.afterStatement
  split
  · exact suffix_enclosed_getD ..
  · exact List.suffix_rfl

/-- What follows a statement is an end of the tokens given. -/
theorem suffix_afterStatement (ts : List Token) : afterStatement ts <:+ ts :=
  (suffix_afterStatement_head _).trans (suffix_readFrom ..)

/-- A statement that does not start with a closing brace takes its first token. -/
theorem suffix_afterStatement_cons {t : Token} {rest : List Token} (ht : t.kind ≠ .punct .rbrace) :
    afterStatement (t :: rest) <:+ rest :=
  (suffix_afterStatement_head _).trans (suffix_read ht)

/-! ## Heads of classes and enumerations -/

/-- What follows an attribute is an end of the tokens given. -/
theorem suffix_afterAttribute {ts after : List Token} (h : afterAttribute? ts = some after) :
    after <:+ ts := by
  unfold afterAttribute? at h
  split at h
  · split at h
    · obtain ⟨e, he, rfl⟩ := Option.map_eq_some_iff.1 h
      exact (suffix_enclosed he).trans (List.suffix_cons _ _)
    · split at h
      · obtain ⟨e, he, rfl⟩ := Option.map_eq_some_iff.1 h
        exact ((suffix_enclosed he).trans (List.suffix_cons _ _)).trans (List.suffix_cons _ _)
      · simp at h
  · simp at h

/-- What follows specifiers is an end of the tokens given. -/
theorem suffix_specifiersFrom (s : Specifiers) (ts : List Token) : (specifiersFrom s ts).2 <:+ ts := by
  fun_induction specifiersFrom s ts with
  | case1 => exact List.suffix_rfl
  | case2 _ _ _ _ _ ih => exact ih.trans (List.suffix_cons _ _)
  | case3 _ _ _ _ _ h ih => exact ih.trans (suffix_afterAttribute h)
  | case4 => exact List.suffix_rfl

namespace Extraction

theorem suffix_afterExportMacros (ts : List Token) : afterExportMacros ts <:+ ts := by
  fun_induction afterExportMacros ts with
  | case1 _ _ _ _ ih => exact ih.trans (List.suffix_cons _ _)
  | case2 => exact List.suffix_rfl
  | case3 => exact List.suffix_rfl

theorem suffix_lastSegment (name : Token) (ts : List Token) : (lastSegment name ts).2 <:+ ts := by
  fun_induction lastSegment name ts with
  | case1 _ _ _ _ _ ih => exact (ih.trans (List.suffix_cons _ _)).trans (List.suffix_cons _ _)
  | case2 => exact List.suffix_rfl
  | case3 => exact List.suffix_rfl

theorem suffix_afterBases (ts : List Token) : afterBases ts <:+ ts := by
  unfold afterBases
  split
  · exact List.dropWhile_suffix _
  · exact List.suffix_rfl

theorem suffix_afterFinal (ts : List Token) : afterFinal ts <:+ ts := by
  unfold afterFinal
  split
  · exact List.drop_suffix _ _
  · exact List.suffix_rfl

theorem suffix_finish {name : Option Token} {isSpecialization isScopedEnum : Bool} {ts : List Token}
    {head : TypeHead} (h : TypeHead.finish? name isSpecialization isScopedEnum ts = some head) :
    head.rest <:+ ts := by
  unfold TypeHead.finish? at h
  split at h
  · simp at h
  · rename_i terminator rest hafter
    simp only [Option.some.injEq] at h
    have hsuffix := hafter ▸ suffix_afterBases ts
    exact h ▸ (List.suffix_cons terminator rest).trans hsuffix

theorem suffix_classHead {ts : List Token} {head : TypeHead} (h : classHead? ts = some head) :
    head.rest <:+ ts := by
  have hstart := (suffix_afterExportMacros (afterSpecifiers ts)).trans (suffix_specifiersFrom {} ts)
  unfold classHead? at h
  split at h
  · simp at h
  · rename_i t rest hrest
    rw [hrest] at hstart
    have hlast := (suffix_lastSegment t rest).trans ((List.suffix_cons t rest).trans hstart)
    split at h
    · simp only at h
      split at h
      · split at h
        · simp at h
        · rename_i ha
          exact (((suffix_finish h).trans (suffix_afterFinal _)).trans (suffix_angled ha)).trans
            ((List.drop_suffix _ _).trans hlast)
      · exact ((suffix_finish h).trans (suffix_afterFinal _)).trans hlast
    · exact ((suffix_finish h).trans (suffix_afterFinal _)).trans hstart

theorem suffix_enumHeadFrom {isScoped : Bool} {ts : List Token} {head : TypeHead}
    (h : enumHeadFrom? isScoped ts = some head) : head.rest <:+ ts := by
  unfold enumHeadFrom? at h
  split at h
  · simp at h
  · rename_i t rest hrest
    have hstart : t :: rest <:+ ts := hrest ▸ suffix_specifiersFrom {} ts
    split at h
    · exact ((suffix_finish h).trans (List.suffix_cons _ _)).trans hstart
    · exact (suffix_finish h).trans hstart

theorem suffix_typeHead {keyword : Token} {ts : List Token} {head : TypeHead}
    (h : typeHead? keyword ts = some head) : head.rest <:+ ts := by
  unfold typeHead? at h
  split at h
  · unfold enumHead? at h
    split at h
    · exact (suffix_enumHeadFrom h).trans (List.drop_suffix _ _)
    · exact suffix_enumHeadFrom h
  · exact suffix_classHead h

/-! ## Statements -/

theorem suffix_typeStatement {x : Extraction} {inTypedef : Bool} {keyword : Token}
    {ts : List Token} {r : Extraction × List Token}
    (h : x.typeStatement? inTypedef keyword ts = some r) : r.2 <:+ ts := by
  unfold typeStatement? at h
  split at h
  · simp at h
  · rename_i hhead
    obtain ⟨_, _, rfl⟩ := Option.map_eq_some_iff.1 h
    exact suffix_typeHead hhead

theorem suffix_trailingDeclarators (x : Extraction) (closed : Scope) (ts : List Token) :
    (x.trailingDeclarators closed ts).2 <:+ ts := by
  unfold trailingDeclarators
  split
  · exact List.suffix_rfl
  · split
    · exact List.suffix_rfl
    · split <;> exact suffix_readFrom ..

theorem suffix_closeScope (x : Extraction) (brace : Token) (ts : List Token) :
    (x.closeScope brace ts).2 <:+ ts := by
  unfold closeScope
  split
  · exact List.suffix_rfl
  · split
    · exact suffix_trailingDeclarators ..
    · exact List.suffix_rfl

theorem suffix_afterNamespaceSign {ts after : List Token} (h : afterNamespaceSign? ts = some after) :
    after <:+ ts := by
  unfold afterNamespaceSign? at h
  split at h
  · simp at h
  · split at h
    · simp only [Option.some.injEq] at h
      subst h
      split
      · exact (List.drop_suffix _ _).trans (List.suffix_cons _ _)
      · exact List.suffix_cons _ _
    · simp at h

theorem suffix_namespaceNamesAt (ts : List Token) : (namespaceNamesAt ts).2 <:+ ts := by
  fun_induction namespaceNamesAt ts with
  | case1 => exact List.suffix_rfl
  | case2 _ _ _ _ h ih => exact (ih.trans (suffix_afterNamespaceSign h)).trans (List.suffix_cons _ _)
  | case3 => exact List.suffix_cons _ _
  | case4 => exact List.suffix_rfl

theorem suffix_namespaceStatement (x : Extraction) (ts : List Token) :
    (x.namespaceStatement ts).2 <:+ ts := by
  have hnames := suffix_namespaceNamesAt ts
  unfold namespaceStatement
  simp only
  split
  · exact List.nil_suffix
  · rename_i t rest hafter
    rw [hafter] at hnames
    split
    · exact hafter ▸ (suffix_afterStatement _).trans hnames
    · split
      · split <;> exact (List.suffix_cons _ _).trans hnames
      · exact hafter ▸ (suffix_afterStatement _).trans hnames

theorem suffix_templateStatement (x : Extraction) {t : Token} {rest : List Token}
    (ht : t.kind ≠ .punct .rbrace) : (x.templateStatement (t :: rest)).2 <:+ rest := by
  unfold templateStatement
  split
  · rename_i heq
    simp only [List.cons.injEq] at heq
    obtain ⟨-, rfl⟩ := heq
    split
    · split
      · exact List.suffix_cons _ _
      · rename_i ha
        exact (suffix_angled ha).trans (List.suffix_cons _ _)
    · exact suffix_afterStatement_cons ht
  · exact suffix_afterStatement_cons ht

theorem suffix_usingStatement (x : Extraction) {t : Token} {rest : List Token}
    (ht : t.kind ≠ .punct .rbrace) : (x.usingStatement (t :: rest)).2 <:+ rest := by
  unfold usingStatement
  split <;> exact suffix_afterStatement_cons ht

theorem suffix_plainTypedef (x : Extraction) {t : Token} {rest : List Token}
    (ht : t.kind ≠ .punct .rbrace) : (x.plainTypedef (t :: rest)).2 <:+ rest :=
  suffix_read ht

theorem suffix_typedefStatement (x : Extraction) {t : Token} {rest : List Token}
    (ht : t.kind ≠ .punct .rbrace) : (x.typedefStatement (t :: rest)).2 <:+ rest := by
  unfold typedefStatement
  split
  · rename_i heq
    simp only [List.cons.injEq] at heq
    obtain ⟨-, rfl⟩ := heq
    split
    · rename_i keyword more _
      cases h : x.typeStatement? true keyword more with
      | none => exact suffix_plainTypedef x ht
      | some r => exact (suffix_typeStatement h).trans (List.suffix_cons _ _)
    · exact suffix_plainTypedef x ht
  · exact suffix_plainTypedef x ht

theorem suffix_afterEnumerator (depth : Nat) (ts : List Token) : afterEnumerator depth ts <:+ ts := by
  fun_induction afterEnumerator depth ts <;> grind [List.suffix_cons, List.IsSuffix.trans]

theorem suffix_afterLabel (ts : List Token) : afterLabel ts <:+ ts := by
  have hdrop := List.dropWhile_suffix (l := ts)
    fun t : Token => !t.isOneOf [.colon, .semicolon, .lbrace, .rbrace]
  unfold afterLabel
  split
  · exact List.nil_suffix
  · rename_i heq
    rw [heq] at hdrop
    split
    · exact (List.suffix_cons _ _).trans hdrop
    · exact hdrop

theorem suffix_conditionStatement (x : Extraction) (isFor : Bool) (ts : List Token) :
    (x.conditionStatement isFor ts).2 <:+ ts := by
  have hstart : (if ts.head?.any (·.isKeyword .constexprKw) then ts.drop 1 else ts) <:+ ts := by
    split
    · exact List.drop_suffix _ _
    · exact List.suffix_rfl
  unfold conditionStatement
  split
  · exact List.nil_suffix
  · rename_i t rest heq
    rw [heq] at hstart
    split
    · exact hstart
    · split
      · exact List.nil_suffix
      · rename_i he
        have hafter := (suffix_enclosed he).trans ((List.suffix_cons t rest).trans hstart)
        split
        · split <;> exact hafter
        · exact hafter

theorem suffix_controlStatement {x : Extraction} {keyword : Keyword} {ts : List Token}
    {r : Extraction × List Token} (h : x.controlStatement? keyword ts = some r) : r.2 <:+ ts := by
  unfold controlStatement? at h
  split at h <;> simp only [Option.some.injEq, reduceCtorEq] at h <;> subst h
  case h_1 | h_2 | h_3 => exact List.suffix_rfl
  case h_4 | h_5 => exact suffix_afterLabel ts
  all_goals exact suffix_conditionStatement ..

theorem suffix_declarationOrExpression (x : Extraction) {t : Token} {rest : List Token}
    (ht : t.kind ≠ .punct .rbrace) : (x.declarationOrExpression (t :: rest)).2 <:+ rest := by
  unfold declarationOrExpression
  simp only
  split <;> exact suffix_read ht

theorem suffix_linkage (x : Extraction) (ts : List Token) : (x.linkage ts).2 <:+ ts := by
  unfold linkage
  split
  · exact List.suffix_rfl
  · split
    · exact List.suffix_cons _ _
    · exact List.suffix_rfl

theorem suffix_keywordStatement (x : Extraction) (keyword : Keyword) {t : Token} {rest : List Token}
    (ht : t.kind ≠ .punct .rbrace) : (x.keywordStatement keyword t rest).2 <:+ rest := by
  have hother : (if x.inFunction then
      (x.controlStatement? keyword rest).getD (x.declarationOrExpression (t :: rest))
      else x.declarationOrExpression (t :: rest)).2 <:+ rest := by
    split
    · cases h : x.controlStatement? keyword rest with
      | none => exact suffix_declarationOrExpression x ht
      | some r => exact suffix_controlStatement h
    · exact suffix_declarationOrExpression x ht
  unfold keywordStatement
  simp only
  split
  case h_1 =>
    split
    · exact (suffix_namespaceStatement ..).trans (List.drop_suffix _ _)
    · exact hother
  case h_2 => exact suffix_namespaceStatement ..
  case h_3 => exact suffix_templateStatement x ht
  case h_4 => exact suffix_usingStatement x ht
  case h_5 => exact suffix_typedefStatement x ht
  case h_9 =>
    split
    · exact (suffix_linkage ..).trans (List.drop_suffix _ _)
    · exact hother
  case h_6 | h_7 | h_8 =>
    split
    · exact List.drop_suffix _ _
    · exact hother
  case h_10 | h_11 | h_12 | h_13 | h_14 => exact suffix_afterStatement_cons ht
  case h_15 | h_16 | h_17 | h_18 =>
    cases h : x.typeStatement? false t rest with
    | none => exact hother
    | some r => exact suffix_typeStatement h
  case h_19 => exact hother

/-- What a statement leaves over is an end of the tokens after its first one. -/
theorem suffix_statement (x : Extraction) (t : Token) (rest : List Token) :
    (x.statement t rest).2 <:+ rest := by
  unfold statement
  split
  · exact suffix_closeScope ..
  · exact List.suffix_rfl
  · exact List.suffix_rfl
  · rename_i hbrace _ _
    split
    · exact suffix_afterEnumerator ..
    · split
      · exact suffix_keywordStatement _ _ hbrace
      · exact suffix_declarationOrExpression _ hbrace

end Extraction

end HouseStyle
