import HouseStyle.Declaration.Extraction
import HouseStyle.Proofs.Heads

/-!
# What a statement does, token by token

A statement is read by many functions, but there are few things that reading can do to the state, and
each does them at certain tokens: a name is declared where it stands, a scope is opened where its brace
stands or at a parameter list, and a scope is left at its brace.

> `Takes code ts x y`: from the state `x` one comes to `y` by such steps, at tokens that are among `ts`,
> in the order in which they stand there. The heads of types are read off ends of `code`.

- `reads_statement`: what a statement takes off the front leads from the state before it to the state
  after it.
- `takes_run`: the same for all tokens of a file.

So whatever the few steps of `Takes` preserve holds of everything that is ever read.
-/

namespace HouseStyle

open List (Sublist)
open scoped List

namespace Extraction

/-- The head of a class or an enumeration as it is read behind a keyword of the code. -/
structure HeadAt (code : List Token) (keyword : Token) (head : TypeHead) : Prop where
  isKeyword : ∃ k, keyword.kind = .keyword k
  read : ∃ rest, keyword :: rest <:+ code ∧ typeHead? keyword rest = some head

theorem HeadAt.isIdentifier {code : List Token} {keyword : Token} {head : TypeHead}
    (h : HeadAt code keyword head) : ∀ name, head.name = some name → name.isIdentifier = true := by
  obtain ⟨rest, -, hread⟩ := h.read
  exact (takenFrom_typeHead hread).isIdentifier

/-- One state of reading after another, and the tokens at which it comes about. -/
inductive Takes (code : List Token) : List Token → Extraction → Extraction → Prop where
  /-- The name of a class or a namespace is noted. -/
  | note (x : Extraction) (classNames namespaceNames : List Text) :
    Takes code [] x { x with classNames, namespaceNames }
  /-- A stretch that was not understood is noted. -/
  | anomaly {x : Extraction} {ts : List Token} {first last : Token} (hfirst : ts.head? = some first)
    (hlast : ts.getLast? = some last) :
    Takes code ts x { x with anomalies := x.anomalies.push (first, last) }
  /-- A name is declared in the current scope. -/
  | declare {x : Extraction} {e : Entity} {t : Token} (htoken : e.token = t)
    (hid : t.isIdentifier = true) (hname : e.name = t.text) (hscope : e.scope = x.currentIndex)
    (hbody : e.bodyScope = none) (hkeyword : e.keyword = none) (hparameters : e.parameters = [])
    (hspecial : e.isSpecial = false) (hkind : e.kind ≠ .macro_) : Takes code [t] x (x.add e)
  /-- A class or an enumeration is declared without braces. -/
  | declareType {x : Extraction} {keyword : Token} {head : TypeHead} (hhead : HeadAt code keyword head) :
    Takes code (keyword :: head.name.toList) x (x.addType keyword head none)
  /-- A function is declared, with its parameters, and its body may be entered. -/
  | function {x : Extraction} {f : FunctionHead} (hasBody : Bool) (hnamed : f.Named) :
    Takes code (f.name :: f.opener :: f.afterOpener) x (x.addFunction f hasBody)
  /-- The braces of a class or an enumeration are opened. -/
  | opensType {x : Extraction} {keyword : Token} {head : TypeHead} (inTypedef : Bool)
    (hhead : HeadAt code keyword head) (hbrace : head.terminator.isPunct .lbrace = true) :
    Takes code (keyword :: head.name.toList ++ [head.terminator]) x (x.openType inTypedef keyword head)
  /-- Another scope is opened, which declares no name. -/
  | opens {x : Extraction} {brace : Token} (kind : ScopeKind) (hkind : kind ≠ .file)
    (hbrace : brace.isPunct .lbrace = true) : Takes code [brace] x (x.openScope kind none brace.start)
  /-- The scopes of a namespace are opened. -/
  | opensNamespaces {x : Extraction} {names : List Token} {brace : Token}
    (hid : ∀ t ∈ names, t.isIdentifier = true) (hbrace : brace.isPunct .lbrace = true) :
    Takes code (names ++ [brace]) x (x.openNamespaces false brace.start names)
  /-- A scope is left, with those it is chained to. -/
  | closes {x y : Extraction} {brace : Token} {closed : Scope} (hbrace : brace.isPunct .rbrace = true)
    (hleave : x.leave brace.stop = some (closed, y)) : Takes code [brace] x y
  | append {ts us : List Token} {x y z : Extraction} (hxy : Takes code ts x y)
    (hyz : Takes code us y z) : Takes code (ts ++ us) x z
  /-- Tokens may be passed over. -/
  | within {ts us : List Token} {x y : Extraction} (h : Takes code ts x y) (hts : ts <+ us) :
    Takes code us x y

/-- What has been read off the front of tokens that end the code: the state after it and the tokens left
over. -/
def Reads (code : List Token) (x : Extraction) (ts : List Token) (r : Extraction × List Token) : Prop :=
  ts <:+ code → ∃ front, ts = front ++ r.2 ∧ Takes code front x r.1

variable {code : List Token}

theorem Takes.skip (x : Extraction) (ts : List Token) : Takes code ts x x :=
  (Takes.note x x.classNames x.namespaceNames).within (List.nil_sublist ts)

theorem takes_noteAnomaly (x : Extraction) (ts : List Token) :
    Takes code ts x (x.noteAnomaly ts) := by
  unfold noteAnomaly
  split
  · next hfirst hlast => exact .anomaly hfirst hlast
  · exact .skip x ts

namespace Reads

variable {x y : Extraction} {ts us rest : List Token} {r : Extraction × List Token}

/-- Nothing happens at the tokens that are taken. -/
theorem skip (h : rest <:+ ts) : Reads code x ts (x, rest) := by
  intro _
  obtain ⟨front, rfl⟩ := h
  exact ⟨front, rfl, .skip x front⟩

theorem of_suffix (h : Reads code x us r) (hus : us <:+ ts) : Reads code x ts r := by
  intro hcode
  obtain ⟨front, rfl, htakes⟩ := h (hus.trans hcode)
  obtain ⟨skipped, rfl⟩ := hus
  exact ⟨skipped ++ front, by rw [List.append_assoc],
    htakes.within (List.sublist_append_right skipped front)⟩

/-- Something happens at some of the tokens that are taken. -/
theorem of_takes (front : List Token) (h : Takes code us x y) (hus : us <+ front)
    (hts : ts = front ++ rest) : Reads code x ts (y, rest) :=
  fun _ => ⟨front, hts, h.within hus⟩

/-- Reading goes on after something has happened. -/
theorem after (front : List Token) (h : Takes code front x y) (hy : Reads code y us r) :
    Reads code x (front ++ us) r := by
  intro hcode
  obtain ⟨more, rfl, hmore⟩ := hy ((List.suffix_append front us).trans hcode)
  exact ⟨front ++ more, by rw [List.append_assoc], h.append hmore⟩

end Reads

/-! ## Names, functions and variables -/

theorem takes_addName {x : Extraction} {t : Token} {kind : EntityKind} (hkind : kind ≠ .macro_)
    (ht : t.isIdentifier = true) : Takes code [t] x (x.addName kind t) :=
  .declare rfl ht rfl rfl rfl rfl rfl rfl hkind

theorem takes_addNames {x : Extraction} {names : List Token} {kind : EntityKind} (hkind : kind ≠ .macro_)
    (hid : ∀ t ∈ names, t.isIdentifier = true) : Takes code names x (x.addNames kind names) := by
  unfold addNames
  induction names generalizing x with
  | nil => exact .skip x []
  | cons t names ih =>
    rw [List.forall_mem_cons] at hid
    exact (takes_addName hkind hid.1).append (ih hid.2)

theorem ne_macro_variableKind (scope : ScopeKind) (specifiers : Specifiers) (d : Declarator)
    (isConst : Bool) : variableKind scope specifiers d isConst ≠ .macro_ := by
  unfold variableKind
  split <;> decide

theorem takes_addVariables {x : Extraction} {specifiers : Specifiers} {type : List Token}
    {typeName : Text} {declarators : List Declarator}
    (hid : ∀ d ∈ declarators, d.name.isIdentifier = true) :
    Takes code (declarators.map (·.name)) x (x.addVariables specifiers type typeName declarators) := by
  unfold addVariables
  induction declarators generalizing x with
  | nil => exact .skip x []
  | cons d declarators ih =>
    rw [List.forall_mem_cons] at hid
    show Takes code ([d.name] ++ declarators.map (·.name)) x _
    refine Takes.append ?_ (ih hid.2)
    exact .declare rfl hid.1 rfl rfl rfl rfl rfl rfl
      (ne_macro_variableKind _ specifiers d _)

/-- What a declaration declares is recorded at tokens of its head. -/
theorem takes_addDeclaration {x : Extraction} {d : Declaration} {head : List Token} (hasBody : Bool)
    (h : d.TakenFrom head) : Takes code head x (x.addDeclaration d hasBody) := by
  rcases d with f | ⟨specifiers, type, declarators⟩
  · obtain ⟨⟨front, mid, rfl⟩, hnamed⟩ := h
    refine (Takes.function hasBody hnamed).within ?_
    refine Sublist.trans (Sublist.cons_cons f.name ?_) (List.sublist_append_right front _)
    exact List.sublist_append_right mid _
  · exact (takes_addVariables h.2).within h.1

theorem reads_declarationOrExpression (x : Extraction) (ts : List Token) :
    Reads code x ts (x.declarationOrExpression ts) := by
  obtain ⟨ender, hts, hbody⟩ := read_append ts
  have hskip : (Head.read ts).tokens <+ (Head.read ts).tokens ++ ender := List.sublist_append_left _ _
  unfold declarationOrExpression
  dsimp only
  split
  · next f _ hread =>
    exact .of_takes _ (takes_addDeclaration true (Declaration.takenFrom_read hread)) hskip hts
  · next brace d _ hending hread =>
    obtain ⟨rfl, hbrace⟩ := hbody brace hending
    exact .of_takes _ ((takes_addDeclaration false (Declaration.takenFrom_read hread)).append
      (.opens .block (by decide) hbrace)) (Sublist.refl _) hts
  · next brace hending _ =>
    obtain ⟨rfl, hbrace⟩ := hbody brace hending
    exact .of_takes _ (.opens .block (by decide) hbrace) (List.sublist_append_right _ _) hts
  · next hread _ _ =>
    exact .of_takes _ (takes_addDeclaration false (Declaration.takenFrom_read hread)) hskip hts
  · split
    · exact .of_takes _ (.skip x []) (List.nil_sublist _) hts
    · exact .of_takes _ (takes_noteAnomaly x _) hskip hts

/-! ## Scopes that close -/

theorem reads_trailingDeclarators (x : Extraction) (closed : Scope) (ts : List Token) :
    Reads code x ts (x.trailingDeclarators closed ts) := by
  unfold trailingDeclarators
  split
  · exact .skip List.suffix_rfl
  · next t rest =>
    split
    · exact .skip List.suffix_rfl
    · obtain ⟨ender, hts, -⟩ := read_append (t :: rest)
      dsimp only
      split
      · have hnames : ((allCommaParts (Head.read (t :: rest)).tokens).filterMap
            fun part => part.find? (·.isIdentifier)) <+ (Head.read (t :: rest)).tokens ++ ender :=
          ((filterMap_sublist_flatten (fun _ _ => List.mem_of_find?_eq_some) _).trans
            (allCommaParts_sublist _)).trans (List.sublist_append_left _ _)
        refine .of_takes _ (takes_addNames (by decide) fun t ht => ?_) hnames hts
        obtain ⟨part, -, hpart⟩ := List.mem_filterMap.mp ht
        exact List.find?_some hpart
      · obtain ⟨hnames, hid⟩ := Declarator.names_readAll_sublist (Head.read (t :: rest)).tokens
        exact .of_takes _ (takes_addVariables hid) (hnames.trans (List.sublist_append_left _ _)) hts

theorem reads_closeScope (x : Extraction) {brace : Token} (ts : List Token)
    (hbrace : brace.isPunct .rbrace = true) : Reads code x (brace :: ts) (x.closeScope brace ts) := by
  unfold closeScope
  split
  · exact .of_takes _ (takes_noteAnomaly x [brace]) (Sublist.refl [brace]) rfl
  · next closed y hleave =>
    refine Reads.after [brace] (.closes hbrace hleave) ?_
    split
    · exact reads_trailingDeclarators y closed ts
    · exact .skip List.suffix_rfl

/-! ## Namespaces, templates and aliases -/

theorem reads_namespaceStatement (x : Extraction) (ts : List Token) :
    Reads code x ts (x.namespaceStatement ts) := by
  obtain ⟨⟨front, hts, hnames⟩, hid⟩ := namespaceNamesAt_append ts
  unfold namespaceStatement
  dsimp only
  split
  · exact .skip List.nil_suffix
  · next t rest hafter =>
    rw [hafter] at hts
    have hrest : rest <:+ ts := hts ▸ (List.suffix_cons t rest).trans (List.suffix_append front _)
    split
    · -- an alias
      obtain ⟨skipped, hskipped⟩ := suffix_afterStatement (t :: rest)
      refine .of_takes (front ++ skipped) ((takes_addNames (by decide) hid).append (.note _ _ _))
        ?_ ?_
      · rw [List.append_nil]
        exact hnames.trans (List.sublist_append_left front skipped)
      · rw [hafter, List.append_assoc, hskipped, hts]
    · split
      · next hbrace =>
        split
        · exact Reads.of_suffix (.of_takes [t] (.opens .namespace_ (by decide) hbrace) (Sublist.refl _) rfl)
            (hts ▸ List.suffix_append front (t :: rest))
        · refine .of_takes (front ++ [t]) (.opensNamespaces hid hbrace)
            (hnames.append (Sublist.refl [t])) ?_
          rw [hts, List.append_assoc]
          rfl
      · refine .skip ?_
        rw [hafter]
        exact (suffix_afterStatement _).trans (hts ▸ List.suffix_append front _)

theorem reads_templateStatement (x : Extraction) (ts : List Token) :
    Reads code x ts (x.templateStatement ts) := by
  unfold templateStatement
  split
  · next first t rest =>
    have hrest : rest <:+ first :: t :: rest := (List.suffix_cons t rest).trans (List.suffix_cons first _)
    split
    · split
      · exact .skip hrest
      · next a ha =>
        obtain ⟨closer, hinside⟩ := angled_append ha
        refine Reads.of_suffix ?_ hrest
        refine .of_takes (a.inside ++ [closer]) (takes_addNames (by decide) fun t ht => ?_)
          ?_ (by rw [hinside, List.append_assoc]; rfl)
        · obtain ⟨part, -, hpart⟩ := List.mem_filterMap.mp ht
          exact (mem_of_templateParameter hpart).2
        · exact ((filterMap_sublist_flatten (fun _ _ h => (mem_of_templateParameter h).1) _).trans
            (allCommaParts_sublist _)).trans (List.sublist_append_left _ _)
    · exact .skip (suffix_afterStatement _)
  · exact .skip (suffix_afterStatement _)

/-- A token that is no punctuator belongs to the head that it stands in. -/
theorem readFrom_cons {seen : Head.Seen} {last : Option Token} {depth : Nat} {t : Token}
    {ts : List Token} (ht : t.isAnyPunct = false) :
    Head.readFrom seen last depth (t :: ts) = (Head.readFrom seen (some t) depth ts).prepend [t] := by
  have hstep : Head.step seen last depth t = .keep seen depth := by
    unfold Head.step
    unfold Token.isAnyPunct at ht
    split
    all_goals first | rfl | simp [*] at ht
  rw [Head.readFrom, hstep]

theorem isAnyPunct_of_isIdentifier {t : Token} (h : t.isIdentifier = true) : t.isAnyPunct = false := by
  rw [Token.isIdentifier, beq_iff_eq] at h
  rw [Token.isAnyPunct, h]

theorem reads_usingStatement (x : Extraction) {t : Token} {ts : List Token}
    (ht : t.isAnyPunct = false) : Reads code x (t :: ts) (x.usingStatement (t :: ts)) := by
  unfold usingStatement
  split
  · next name sign more heq =>
    obtain ⟨rfl, rfl⟩ := List.cons.inj heq
    split
    · next hname =>
      rw [Bool.and_eq_true] at hname
      -- the statement reaches past its name
      have hsuffix : afterStatement (t :: name :: sign :: more) <:+ sign :: more := by
        unfold afterStatement Head.read
        rw [readFrom_cons ht, readFrom_cons (isAnyPunct_of_isIdentifier hname.1)]
        exact (suffix_afterStatement_head _).trans (suffix_readFrom ..)
      obtain ⟨skipped, hskipped⟩ := hsuffix
      exact .of_takes (t :: name :: skipped) (takes_addName (by decide) hname.1)
        (List.singleton_sublist.mpr (by simp)) (congrArg (t :: name :: ·) hskipped.symm)
    · exact .skip (suffix_afterStatement _)
  · exact .skip (suffix_afterStatement _)

/-! ## Classes and enumerations -/

theorem reads_typeStatement {x : Extraction} {inTypedef : Bool} {keyword : Token}
    {k : Keyword} {ts : List Token} {r : Extraction × List Token} (hkeyword : keyword.kind = .keyword k)
    (h : x.typeStatement? inTypedef keyword ts = some r) : Reads code x (keyword :: ts) r := by
  intro hcode
  unfold typeStatement? at h
  split at h
  · exact absurd h (by simp)
  · next head hhead =>
    obtain ⟨⟨front, hts, hname⟩, -⟩ := takenFrom_typeHead hhead
    have hat : HeadAt code keyword head := ⟨⟨k, hkeyword⟩, ts, hcode, hhead⟩
    obtain ⟨y, hy, rfl⟩ := Option.map_eq_some_iff.mp h
    have hts' : keyword :: ts = (keyword :: front ++ [head.terminator]) ++ head.rest := by
      rw [hts, List.append_assoc]
      rfl
    unfold readType? at hy
    split at hy
    · obtain rfl := Option.some.inj hy
      exact ⟨_, hts', (Takes.declareType hat).within
        ((hname.cons_cons keyword).trans (List.sublist_append_left _ _))⟩
    · split at hy
      · next hbrace =>
        obtain rfl := Option.some.inj hy
        exact ⟨_, hts', (Takes.opensType inTypedef hat hbrace).within
          ((hname.cons_cons keyword).append (Sublist.refl _))⟩
      · exact absurd hy (by simp)

theorem toList_sublist {o : Option Token} {ts : List Token} (h : ∀ t, o = some t → t ∈ ts) :
    o.toList <+ ts := by
  cases o with
  | none => exact List.nil_sublist ts
  | some t => exact List.singleton_sublist.mpr (h t rfl)

theorem reads_plainTypedef (x : Extraction) (ts : List Token) : Reads code x ts (x.plainTypedef ts) := by
  obtain ⟨ender, hts, -⟩ := read_append ts
  have htokens : (Head.read ts).tokens.drop 1 <+ (Head.read ts).tokens ++ ender :=
    (List.drop_sublist 1 _).trans (List.sublist_append_left _ _)
  have hnamed : ∀ name : Option Token,
      (∀ t, name = some t → t ∈ (Head.read ts).tokens.drop 1 ∧ t.isIdentifier = true) →
        Reads code x ts (x.addNames .typeAlias name.toList, (Head.read ts).rest) := fun name hname =>
    .of_takes _ (takes_addNames (by decide) fun t ht => (hname t (Option.mem_toList.mp ht)).2)
      ((toList_sublist fun t ht => (hname t ht).1).trans htokens) hts
  unfold plainTypedef
  refine hnamed _ fun t ht => ?_
  split at ht
  · next name hname =>
    obtain rfl := Option.some.inj ht
    exact mem_of_pointerAlias hname
  · split at ht
    · have hmem := List.mem_filter.mp (List.mem_of_getLast? ht)
      exact ⟨(fst_partsFrom_isPrefix ..).subset hmem.1, hmem.2⟩
    · exact absurd ht (by simp)

theorem reads_typedefStatement (x : Extraction) (ts : List Token) :
    Reads code x ts (x.typedefStatement ts) := by
  unfold typedefStatement
  split
  · next t keyword rest =>
    split
    · next hin =>
      obtain ⟨k, hkeyword⟩ : ∃ k, keyword.kind = .keyword k := by
        unfold Token.isKeywordIn at hin
        split at hin
        · next k hk => exact ⟨k, hk⟩
        · exact absurd hin (by simp)
      cases h : x.typeStatement? true keyword rest with
      | none => exact reads_plainTypedef x _
      | some r => exact (reads_typeStatement hkeyword h).of_suffix (List.suffix_cons _ _)
    · exact reads_plainTypedef x _
  · exact reads_plainTypedef x _

/-! ## Control flow and statements -/

theorem reads_enumeratorStatement (x : Extraction) (t : Token) (ts : List Token) :
    Reads code x (t :: ts) (x.enumeratorStatement t ts) := by
  obtain ⟨skipped, hskipped⟩ := suffix_afterEnumerator 0 ts
  unfold enumeratorStatement
  split
  · next hid =>
    exact .of_takes (t :: skipped) (takes_addName (by decide) hid)
      (List.singleton_sublist.mpr (by simp)) (congrArg (t :: ·) hskipped.symm)
  · exact .skip ((suffix_afterEnumerator 0 ts).trans (List.suffix_cons t ts))

theorem forInitializer_isPrefix (inside : List Token) : forInitializer inside <+: inside := by
  unfold forInitializer
  dsimp only
  split <;> exact fst_partsFrom_isPrefix ..

theorem reads_conditionStatement (x : Extraction) (isFor : Bool) (ts : List Token) :
    Reads code x ts (x.conditionStatement isFor ts) := by
  have hstart : (if ts.head?.any (·.isKeyword .constexprKw) then ts.drop 1 else ts) <:+ ts := by
    split
    · exact List.drop_suffix _ _
    · exact List.suffix_rfl
  unfold conditionStatement
  split
  · exact .skip List.nil_suffix
  · next t rest heq =>
    rw [heq] at hstart
    refine Reads.of_suffix ?_ hstart
    split
    · exact .skip List.suffix_rfl
    · split
      · exact .skip List.nil_suffix
      · next e he =>
        have hafter : e.after <:+ t :: rest := (suffix_enclosed he).trans (List.suffix_cons t rest)
        split
        · split
          · next d hread =>
            refine .of_takes (t :: e.inside ++ [e.closer])
              (takes_addDeclaration false (Declaration.takenFrom_read hread)) ?_ ?_
            · exact ((forInitializer_isPrefix _).sublist.trans (List.sublist_append_left _ _)).cons t
            · rw [enclosed?_append he]
              simp
          · exact .skip hafter
        · exact .skip hafter

theorem reads_controlStatement {x : Extraction} {keyword : Keyword} {ts : List Token}
    {r : Extraction × List Token} (h : x.controlStatement? keyword ts = some r) : Reads code x ts r := by
  unfold controlStatement? at h
  split at h
  case h_11 => exact absurd h (by simp)
  all_goals obtain rfl := Option.some.inj h
  case h_1 | h_2 | h_3 => exact .skip List.suffix_rfl
  case h_4 | h_5 => exact .skip (suffix_afterLabel ts)
  all_goals exact reads_conditionStatement x _ ts

theorem reads_linkage (x : Extraction) (ts : List Token) : Reads code x ts (x.linkage ts) := by
  unfold linkage
  split
  · exact .skip List.suffix_rfl
  · next t rest =>
    split
    · next hbrace => exact .of_takes [t] (.opens .linkage (by decide) hbrace) (Sublist.refl _) rfl
    · exact .skip List.suffix_rfl

theorem reads_keywordStatement (x : Extraction) {keyword : Keyword} {t : Token} (rest : List Token)
    (hkeyword : t.kind = .keyword keyword) : Reads code x (t :: rest) (x.keywordStatement keyword t rest) := by
  have htail : rest <:+ t :: rest := List.suffix_cons t rest
  have hother : Reads code x (t :: rest) (if x.inFunction then
      (x.controlStatement? keyword rest).getD (x.declarationOrExpression (t :: rest))
      else x.declarationOrExpression (t :: rest)) := by
    split
    · cases h : x.controlStatement? keyword rest with
      | none => exact reads_declarationOrExpression x _
      | some r => exact (reads_controlStatement h).of_suffix htail
    · exact reads_declarationOrExpression x _
  have hdrop : ∀ r, Reads code x (rest.drop 1) r → Reads code x (t :: rest) r := fun r hr =>
    hr.of_suffix ((List.drop_suffix 1 rest).trans htail)
  unfold keywordStatement
  dsimp only
  split
  case h_1 =>
    split
    · exact hdrop _ (reads_namespaceStatement x _)
    · exact hother
  case h_2 => exact (reads_namespaceStatement x _).of_suffix htail
  case h_3 => exact reads_templateStatement x _
  case h_4 => exact reads_usingStatement x (by rw [Token.isAnyPunct, hkeyword])
  case h_5 => exact reads_typedefStatement x _
  case h_6 | h_7 | h_8 =>
    split
    · exact hdrop _ (.skip List.suffix_rfl)
    · exact hother
  case h_9 =>
    split
    · exact hdrop _ (reads_linkage x _)
    · exact hother
  case h_10 | h_11 | h_12 | h_13 | h_14 => exact .skip (suffix_afterStatement _)
  case h_15 | h_16 | h_17 | h_18 =>
    cases h : x.typeStatement? false t rest with
    | none => exact hother
    | some r => exact reads_typeStatement hkeyword h
  case h_19 => exact hother

/-- A statement leads from the state before it to the state after it at the tokens it takes. -/
theorem reads_statement (x : Extraction) (t : Token) (rest : List Token) :
    Reads code x (t :: rest) (x.statement t rest) := by
  unfold statement
  split
  · next hkind => exact reads_closeScope x rest (by rw [Token.isPunct, hkind]; rfl)
  · exact .skip (List.suffix_cons t rest)
  · next hkind =>
    exact .of_takes [t] (.opens .block (by decide) (by rw [Token.isPunct, hkind]; rfl)) (Sublist.refl _) rfl
  · split
    · exact reads_enumeratorStatement x t rest
    · split
      · next hkind => exact reads_keywordStatement x rest hkind
      · exact reads_declarationOrExpression x _

/-- Reading tokens to their end leads from the state before them to the state after them. -/
theorem takes_run (x : Extraction) {ts : List Token} (hcode : ts <:+ code) :
    Takes code ts x (x.run ts) := by
  fun_induction run x ts with
  | case1 x => exact .skip x []
  | case2 x t rest read ih =>
    obtain ⟨front, hts, htakes⟩ := reads_statement x t rest hcode
    rw [hts] at hcode ⊢
    exact htakes.append (ih ((List.suffix_append front _).trans hcode))

/-- Reading tokens statement by statement comes to the state `y` in front of the tokens `us`. -/
inductive Reaches (x : Extraction) (ts : List Token) : Extraction → List Token → Prop where
  | refl : Reaches x ts x ts
  | statement {y : Extraction} {t : Token} {rest : List Token} (h : Reaches x ts y (t :: rest)) :
    Reaches x ts (y.statement t rest).1 (y.statement t rest).2

namespace Reaches

variable {x y z : Extraction} {t : Token} {ts us vs rest : List Token}

/-- One statement. -/
theorem of_statement (h : x.statement t rest = (y, us)) : Reaches x (t :: rest) y us := by
  have hstep : Reaches x (t :: rest) (x.statement t rest).1 (x.statement t rest).2 := .statement .refl
  rwa [h] at hstep

theorem trans (h : Reaches x ts y us) (h' : Reaches y us z vs) : Reaches x ts z vs := by
  induction h' with
  | refl => exact h
  | statement _ ih => exact .statement ih

/-- The rest is read from there. -/
theorem run_eq (h : Reaches x ts y us) : x.run ts = y.run us := by
  induction h with
  | refl => rfl
  | statement _ ih => rw [ih, run]

/-- What is reached comes about at the tokens in front. -/
theorem takes (h : Reaches x ts y us) (hcode : ts <:+ code) :
    ∃ front, ts = front ++ us ∧ Takes code front x y := by
  induction h with
  | refl => exact ⟨[], rfl, .skip x []⟩
  | @statement y t rest _ ih =>
    obtain ⟨front, rfl, htakes⟩ := ih
    obtain ⟨more, hmore, htakes'⟩ := reads_statement y t rest ((List.suffix_append front _).trans hcode)
    exact ⟨front ++ more, by rw [List.append_assoc, ← hmore], htakes.append htakes'⟩

end Reaches

end Extraction

end HouseStyle
