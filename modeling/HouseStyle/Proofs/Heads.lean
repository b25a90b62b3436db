import HouseStyle.Proofs.Readers

/-!
# Where the names that a head declares stand

What is read off the head of a statement (`Declaration.read?`) or the head of a class, an enumeration
or a namespace, said in terms of the tokens: a declaration takes its names from the head
(`Declaration.TakenFrom`), and the name of a function stands in front of its parameter list
(`FunctionHead.TakenFrom`).
-/

namespace HouseStyle

open List (Sublist)
open scoped List

/-! ## Functions and variables -/

/-- The name of a function is the token it is shown by; only a destructor is shown with its tilde, and
an operator by the word `operator` with its symbol. -/
def FunctionHead.Named (f : FunctionHead) : Prop :=
  (f.name.isIdentifier = true ∧
      (f.display = f.name.text ∨ f.isSpecial = true ∧ f.display = .scalar '~' :: f.name.text)) ∨
    (f.name.isKeyword .operatorKw = true ∧ f.isSpecial = true ∧
      ∃ symbol, f.display = Text.ofString "operator" ++ symbol)

/-- The name of a function, the bracket after it and what follows are tokens of a head, in this
order. -/
structure FunctionHead.TakenFrom (f : FunctionHead) (head : List Token) : Prop where
  append : ∃ front mid, head = front ++ f.name :: (mid ++ f.opener :: f.afterOpener)
  named : f.Named

/-- The names that a declaration declares are tokens of a head, in the order of the head. -/
def Declaration.TakenFrom (head : List Token) : Declaration → Prop
  | .function f => f.TakenFrom head
  | .variables _ _ declarators =>
    declarators.map (·.name) <+ head ∧ ∀ d ∈ declarators, d.name.isIdentifier = true

namespace Declaration

theorem TakenFrom.of_suffix {ts head : List Token} {d : Declaration} (h : d.TakenFrom ts)
    (hts : ts <:+ head) : d.TakenFrom head := by
  rcases d with f | ⟨specifiers, type, declarators⟩
  · obtain ⟨⟨front, mid, rfl⟩, hnamed⟩ := h
    obtain ⟨skipped, rfl⟩ := hts
    exact ⟨⟨skipped ++ front, mid, by rw [List.append_assoc]⟩, hnamed⟩
  · exact ⟨h.1.trans hts.sublist, h.2⟩

/-- The symbol of an operator is written in the tokens up to the bracket of its parameter list. -/
theorem upToBracket_append {ts rest : List Token} {symbol : Text} {opener : Token}
    (h : operatorSymbol?.upToBracket ts = some (symbol, opener, rest)) :
    ∃ mid, ts = mid ++ opener :: rest ∧ symbol = mid.flatMap (·.text) ∧ opener.isPunct .lparen = true := by
  induction ts generalizing symbol with
  | nil => exact absurd h (by simp [operatorSymbol?.upToBracket])
  | cons t ts ih =>
    unfold operatorSymbol?.upToBracket at h
    split at h
    · next ht =>
      simp only [Option.some.injEq, Prod.mk.injEq] at h
      obtain ⟨rfl, rfl, rfl⟩ := h
      exact ⟨[], rfl, rfl, ht⟩
    · split at h
      · exact absurd h (by simp)
      · obtain ⟨⟨symbol', opener', rest'⟩, hmore, heq⟩ := Option.map_eq_some_iff.mp h
        simp only [Prod.mk.injEq] at heq
        obtain ⟨rfl, rfl, rfl⟩ := heq
        obtain ⟨mid, rfl, rfl, hopener⟩ := ih hmore
        exact ⟨t :: mid, rfl, rfl, hopener⟩

theorem operatorSymbol_append {ts rest : List Token} {symbol : Text} {opener : Token}
    (h : operatorSymbol? ts = some (symbol, opener, rest)) :
    ∃ mid, ts = mid ++ opener :: rest ∧ symbol = mid.flatMap (·.text) ∧ opener.isPunct .lparen = true := by
  unfold operatorSymbol? at h
  split at h
  · next a b c rest' =>
    split at h
    · next hcall =>
      simp only [Option.some.injEq, Prod.mk.injEq] at h
      obtain ⟨rfl, rfl, rfl⟩ := h
      exact ⟨[a, b], rfl, by simp, (Bool.and_eq_true_iff.mp hcall).2⟩
    · exact upToBracket_append h
  · exact upToBracket_append h

theorem takenFrom_operator {specifiers : Specifiers} {type ts : List Token} {word : Token}
    {d : Declaration} (hword : word.isKeyword .operatorKw = true)
    (h : operator? specifiers type word ts = some d) : d.TakenFrom (word :: ts) := by
  obtain ⟨⟨symbol, opener, rest⟩, hsymbol, rfl⟩ := Option.map_eq_some_iff.mp h
  obtain ⟨mid, rfl, -⟩ := operatorSymbol_append hsymbol
  exact ⟨⟨[], mid, rfl⟩, Or.inr ⟨hword, rfl, _, rfl⟩⟩

theorem takenFrom_special {scope : Scope} {specifiers : Specifiers} {ts : List Token}
    {d : Declaration} (h : special? scope specifiers ts = some d) : d.TakenFrom ts := by
  unfold special? at h
  split at h
  · exact absurd h (by simp)
  · next t rest =>
    split at h
    · next hword => exact takenFrom_operator hword h
    · split at h
      · exact absurd h (by simp)
      · next name hname =>
        split at h
        · exact absurd h (by simp)
        · next opener afterOpener hrest =>
          obtain ⟨⟨front, mid, hts⟩, hlast, hwritten⟩ := qualifiedName_append hname
          rw [hrest] at hts
          have taken : ∀ qualifier, TakenFrom (t :: rest) (.function {
              name := name.last, display := name.base, qualifier, type := [], isSpecial := true
              specifiers, opener, afterOpener }) := fun qualifier =>
            ⟨⟨front, mid, hts⟩, Or.inl ⟨hlast, hwritten.imp id fun h => ⟨rfl, h⟩⟩⟩
          dsimp only at h
          split at h
          · exact absurd h (by simp)
          · split at h
            · rw [← Option.some.inj h]
              exact taken _
            · split at h
              · rw [← Option.some.inj h]
                exact taken _
              · split at h
                · rw [← Option.some.inj h]
                  exact taken _
                · exact absurd h (by simp)

theorem takenFrom_variables {specifiers : Specifiers} {type ts : List Token} {d : Declaration}
    (h : variables? specifiers type ts = some d) : d.TakenFrom ts := by
  unfold variables? at h
  dsimp only at h
  split at h
  · exact absurd h (by simp)
  · rw [← Option.some.inj h]
    exact Declarator.names_readAll_sublist ts

theorem takenFrom_typed {scope : Scope} {inFunction : Bool} {specifiers : Specifiers}
    {type ts : List Token} {d : Declaration} (h : typed? scope inFunction specifiers type ts = some d) :
    d.TakenFrom ts := by
  unfold typed? at h
  split at h
  · exact absurd h (by simp)
  · next t rest =>
    split at h
    · next hword => exact takenFrom_operator hword h
    · split at h
      · next hscope =>
        split at h
        · next word after =>
          rw [Bool.and_eq_true] at hscope
          exact (takenFrom_operator (by simpa using hscope.2) h).of_suffix (List.suffix_cons _ _)
        · exact absurd h (by simp)
      · split at h
        · exact takenFrom_variables h
        · split at h
          · exact absurd h (by simp)
          · split at h
            · exact absurd h (by simp)
            · next name hname =>
              obtain ⟨⟨front, mid, hts⟩, hlast, -⟩ := qualifiedName_append hname
              split at h
              · next opener afterOpener hrest =>
                split at h
                · rw [hrest] at hts
                  rw [← Option.some.inj h]
                  exact ⟨⟨front, mid, hts⟩, Or.inl ⟨hlast, Or.inl rfl⟩⟩
                · exact takenFrom_variables h
              · exact takenFrom_variables h

/-- What a head declares is taken from the head. -/
theorem takenFrom_read {scope : Scope} {inFunction : Bool} {head : List Token} {d : Declaration}
    (h : read? scope inFunction head = some d) : d.TakenFrom head := by
  unfold read? at h
  have hspecifiers := suffix_specifiers head
  dsimp only at h
  split at h
  · next declaration hspecial =>
    rw [← Option.some.inj h]
    exact (takenFrom_special hspecial).of_suffix hspecifiers
  · split at h
    · exact absurd h (by simp)
    · next rest hrest =>
      exact (takenFrom_typed h).of_suffix ((suffix_afterType hrest).trans hspecifiers)

end Declaration

/-! ## Classes, enumerations and namespaces -/

namespace Extraction

theorem lastSegment_append (name : Token) (ts : List Token) (hname : name.isIdentifier = true) :
    (∃ front mid, name :: ts = front ++ (lastSegment name ts).1 :: (mid ++ (lastSegment name ts).2)) ∧
      (lastSegment name ts).1.isIdentifier = true := by
  fun_induction lastSegment name ts with
  | case1 name c u rest hc ih =>
    rw [Bool.and_eq_true] at hc
    obtain ⟨⟨front, mid, hts⟩, hid⟩ := ih hc.2
    exact ⟨⟨name :: c :: front, mid, by rw [hts]; rfl⟩, hid⟩
  | case2 => exact ⟨⟨[], [], rfl⟩, hname⟩
  | case3 => exact ⟨⟨[], [], rfl⟩, hname⟩

/-- The name of a class or an enumeration stands in front of the token that ends its head. -/
structure TypeHead.TakenFrom (head : TypeHead) (ts : List Token) : Prop where
  append : ∃ front, ts = front ++ head.terminator :: head.rest ∧ head.name.toList <+ front
  isIdentifier : ∀ name, head.name = some name → name.isIdentifier = true

theorem TypeHead.TakenFrom.of_suffix {head : TypeHead} {ts us : List Token} (h : head.TakenFrom us)
    (hus : us <:+ ts) : head.TakenFrom ts := by
  obtain ⟨⟨front, rfl, hname⟩, hid⟩ := h
  obtain ⟨skipped, rfl⟩ := hus
  exact ⟨⟨skipped ++ front, by rw [List.append_assoc], hname.trans (List.sublist_append_right _ _)⟩, hid⟩

theorem takenFrom_finish (front : List Token) {name : Option Token}
    {isSpecialization isScopedEnum : Bool}
    {ts : List Token} {head : TypeHead} (hname : name.toList <+ front)
    (hid : ∀ t, name = some t → t.isIdentifier = true)
    (h : TypeHead.finish? name isSpecialization isScopedEnum ts = some head) :
    head.TakenFrom (front ++ ts) := by
  unfold TypeHead.finish? at h
  split at h
  · exact absurd h (by simp)
  · next terminator rest hafter =>
    obtain ⟨bases, hbases⟩ := suffix_afterBases ts
    rw [hafter] at hbases
    rw [← Option.some.inj h]
    refine ⟨⟨front ++ bases, by rw [← hbases, List.append_assoc], ?_⟩, hid⟩
    exact hname.trans (List.sublist_append_left _ _)

theorem takenFrom_classHead {ts : List Token} {head : TypeHead} (h : classHead? ts = some head) :
    head.TakenFrom ts := by
  have hstart := (suffix_afterExportMacros (afterSpecifiers ts)).trans (suffix_specifiers ts)
  unfold classHead? at h
  split at h
  · exact absurd h (by simp)
  · next t rest hrest =>
    rw [hrest] at hstart
    refine TypeHead.TakenFrom.of_suffix ?_ hstart
    split at h
    · next hid =>
      obtain ⟨⟨front, mid, hts⟩, hlast⟩ := lastSegment_append t rest hid
      dsimp only at h
      -- whatever stands between the name and the end of the head
      have finished : ∀ {isSpecialization : Bool} {after : List Token},
          after <:+ (lastSegment t rest).2 →
          TypeHead.finish? (some (lastSegment t rest).1) isSpecialization false (afterFinal after) =
            some head → head.TakenFrom (t :: rest) := by
        intro isSpecialization after hafter hfinish
        obtain ⟨skipped, hskipped⟩ := (suffix_afterFinal after).trans hafter
        have := takenFrom_finish (front ++ (lastSegment t rest).1 :: (mid ++ skipped))
          (by simp) (by rintro u ⟨⟩; exact hlast) hfinish
        rw [hts, ← hskipped]
        simpa using this
      split at h
      · split at h
        · exact absurd h (by simp)
        · next a ha => exact finished ((suffix_angled ha).trans (List.drop_suffix _ _)) h
      · exact finished List.suffix_rfl h
    · exact (takenFrom_finish [] (by simp) (by simp) h).of_suffix (suffix_afterFinal _)

theorem takenFrom_enumHeadFrom {isScoped : Bool} {ts : List Token} {head : TypeHead}
    (h : enumHeadFrom? isScoped ts = some head) : head.TakenFrom ts := by
  have hstart := suffix_specifiers ts
  unfold enumHeadFrom? at h
  split at h
  · exact absurd h (by simp)
  · next t rest hrest =>
    have hstart : t :: rest <:+ ts := hrest ▸ hstart
    refine TypeHead.TakenFrom.of_suffix ?_ hstart
    split at h
    · next hid => exact takenFrom_finish [t] (by simp) (by rintro u ⟨⟩; exact hid) h
    · exact takenFrom_finish [] (by simp) (by simp) h

/-- What is read of the head of a class or an enumeration is taken from its tokens. -/
theorem takenFrom_typeHead {keyword : Token} {ts : List Token} {head : TypeHead}
    (h : typeHead? keyword ts = some head) : head.TakenFrom ts := by
  unfold typeHead? at h
  split at h
  · unfold enumHead? at h
    split at h
    · exact (takenFrom_enumHeadFrom h).of_suffix (List.drop_suffix _ _)
    · exact takenFrom_enumHeadFrom h
  · exact takenFrom_classHead h

/-- The names of a namespace are identifiers, in the order of the tokens. -/
theorem namespaceNamesAt_append (ts : List Token) :
    (∃ front, ts = front ++ (namespaceNamesAt ts).2 ∧ (namespaceNamesAt ts).1 <+ front) ∧
      ∀ t ∈ (namespaceNamesAt ts).1, t.isIdentifier = true := by
  fun_induction namespaceNamesAt ts with
  | case1 => exact ⟨⟨[], rfl, List.nil_sublist _⟩, by simp⟩
  | case2 t rest hid next hnext ih =>
    obtain ⟨⟨front, hfront, hnames⟩, hids⟩ := ih
    obtain ⟨sign, hsign⟩ := suffix_afterNamespaceSign hnext
    refine ⟨⟨t :: (sign ++ front), ?_, ?_⟩, by simpa using ⟨hid, hids⟩⟩
    · rw [← hsign]
      simp only [List.cons_append, List.append_assoc, List.cons.injEq, true_and,
        List.append_cancel_left_eq]
      exact hfront
    · exact (hnames.trans (List.sublist_append_right _ _)).cons_cons t
  | case3 t rest hid => exact ⟨⟨[t], rfl, Sublist.refl _⟩, by simpa using hid⟩
  | case4 => exact ⟨⟨[], rfl, List.nil_sublist _⟩, by simp⟩

/-- The name of a function pointer type is an identifier of the tokens. -/
theorem mem_of_pointerAlias {ts : List Token} {t : Token} (h : pointerAlias? ts = some t) :
    t ∈ ts ∧ t.isIdentifier = true := by
  fun_induction pointerAlias? ts with
  | case1 a b c rest hc =>
    obtain rfl := Option.some.inj h
    simp only [Bool.and_eq_true] at hc
    exact ⟨by simp, hc.2⟩
  | case2 _ _ _ _ _ ih =>
    obtain ⟨hmem, hid⟩ := ih h
    exact ⟨List.mem_cons_of_mem _ hmem, hid⟩
  | case3 => exact absurd h (by simp)

end Extraction

end HouseStyle
