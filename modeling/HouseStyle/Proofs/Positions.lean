import HouseStyle.Proofs.Heads

/-!
# Reading by positions

Here declarations are read by a position that moves along the list of all tokens, and not off the front of the tokens
that are left. Looking a token up may then fail, a loop may go on for ever, and the partner of a token may be asked
for that is no bracket. All this is a `Fault`, so that reading without one says that none of it happens.

Every function has its counterpart that takes tokens from the front. A position `i` and the tokens `rest` from there
on say the same, `At ts i rest`, and each lemma reads: the function succeeds, and its answer is that of the
counterpart, with a position for the tokens left over.

> `nameAt_eq`: where `rest` stands at `i`, `nameAt ts i = .ok ((qualifiedName? rest).map (NameAt.ofName ts))`.

Loops are given as many rounds as there are tokens, and one more to find the end (`rounds`). That these are enough is
part of the lemma. This file has the readers of brackets, specifiers, names, types and operators.
-/

namespace HouseStyle

/-- What can go wrong when a list is read by positions. -/
inductive Fault where
  /-- There is nothing at the position that is asked for. -/
  | outOfRange
  /-- The partner is asked for of a token that is no opening bracket. -/
  | noBracket
  /-- A loop goes on for more rounds than there are tokens. -/
  | endless
  /-- A statement takes no token. -/
  | noProgress
  deriving DecidableEq, Repr

namespace ByPosition

open Declaration (operatorSymbol?)

/-! ## Items at positions -/

/-- The item at a position. -/
def itemAt {α : Type} (xs : List α) (i : Nat) : Except Fault α :=
  match xs[i]? with
  | some a => .ok a
  | none => .error .outOfRange

/-- The last item. -/
def lastItem {α : Type} (xs : List α) : Except Fault α := itemAt xs (xs.length - 1)

/-- Whether the list goes on to a position and a test holds of the token there. -/
def holdsAt (ts : List Token) (i : Nat) (test : Token → Bool) : Except Fault Bool :=
  if i < ts.length then do return test (← itemAt ts i) else return false

/-- What comes of each item of a list, where something does. -/
def collect {α β : Type} (f : α → Except Fault (Option β)) : List α → Except Fault (List β)
  | [] => return []
  | a :: as => do
    match ← f a with
    | none => collect f as
    | some b => return b :: (← collect f as)

/-- The rounds that a loop over a list may take: one for each token, and one more to see that there is none left. -/
def rounds (ts : List Token) : Nat := ts.length + 1

/-- The position from which `rest` is the end of `ts`. -/
def position (ts rest : List Token) : Nat := ts.length - rest.length

/-- From a position on a list is `rest`. -/
structure At (ts : List Token) (i : Nat) (rest : List Token) : Prop where
  le : i ≤ ts.length
  drop : ts.drop i = rest

@[simp] theorem ok_bind {α β : Type} (a : α) (f : α → Except Fault β) : (Except.ok a >>= f) = f a := rfl

@[simp] theorem pure_eq_ok {α : Type} (a : α) : (pure a : Except Fault α) = .ok a := rfl

theorem collect_eq {α β : Type} {f : α → Except Fault (Option β)} {g : α → Option β} (hf : ∀ a, f a = .ok (g a))
    (as : List α) : collect f as = .ok (as.filterMap g) := by
  induction as with
  | nil => rfl
  | cons a as ih =>
    rw [collect, hf, ok_bind, List.filterMap_cons]
    cases g a with
    | none => exact ih
    | some b =>
      dsimp only
      rw [ih]
      rfl

theorem at_zero (ts : List Token) : At ts 0 ts := ⟨Nat.zero_le _, rfl⟩

namespace At

variable {ts rest : List Token} {t : Token} {i : Nat}

theorem length_eq (h : At ts i rest) : i + rest.length = ts.length := by
  have := h.le
  rw [← h.drop, List.length_drop]
  omega

theorem position_eq (h : At ts i rest) : position ts rest = i := by
  have := h.length_eq
  unfold position
  omega

theorem lt (h : At ts i (t :: rest)) : i < ts.length := by
  have := h.length_eq
  rw [List.length_cons] at this
  omega

theorem not_lt (h : At ts i []) : ¬ i < ts.length := by
  have := h.length_eq
  rw [List.length_nil] at this
  omega

theorem getElem? (h : At ts i rest) (n : Nat) : ts[i + n]? = rest[n]? := by
  rw [← h.drop, List.getElem?_drop]

theorem itemAt (h : At ts i (t :: rest)) : itemAt ts i = .ok t := by
  have hget := h.getElem? 0
  rw [Nat.add_zero] at hget
  rw [ByPosition.itemAt, hget]
  rfl

theorem succ (h : At ts i (t :: rest)) : At ts (i + 1) rest := by
  refine ⟨h.lt, ?_⟩
  rw [← List.drop_drop, h.drop]
  rfl

theorem suffix (h : At ts i rest) {later : List Token} (hlater : later <:+ rest) :
    At ts (position ts later) later := by
  obtain ⟨front, rfl⟩ := hlater
  have hlen := h.length_eq
  rw [List.length_append] at hlen
  have hposition : position ts later = i + front.length := by
    unfold position
    omega
  rw [hposition]
  exact ⟨by omega, by rw [← List.drop_drop, h.drop, List.drop_left]⟩

end At

variable {ts rest : List Token} {i : Nat}

theorem holdsAt_eq (h : At ts i rest) (test : Token → Bool) : holdsAt ts i test = .ok (rest.head?.any test) := by
  unfold holdsAt
  cases rest with
  | nil => rw [if_neg h.not_lt]; rfl
  | cons t rest => rw [if_pos h.lt, h.itemAt]; rfl

/-- A token is passed over if a test holds of it. -/
theorem At.passing (h : At ts i rest) (test : Token → Bool) :
    At ts (if rest.head?.any test then i + 1 else i) (if rest.head?.any test then rest.drop 1 else rest) := by
  cases rest with
  | nil => exact h
  | cons t rest =>
    rw [List.head?_cons, Option.any_some]
    split
    · exact h.succ
    · exact h

/-! ## Brackets -/

/-- Goes on looking for the partner of a bracket at some positions, with so many brackets open. -/
def partnerFrom (ts : List Token) (closer : Punct) (depth : Int) : List Nat → Except Fault (Option Nat)
  | [] => return none
  | j :: js => do
    match (← itemAt ts j).kind with
    | .punct p =>
      if p.opens then partnerFrom ts closer (depth + 1) js
      else if p.closes then
        if depth - 1 = 0 then return if p = closer then some j else none
        else partnerFrom ts closer (depth - 1) js
      else partnerFrom ts closer depth js
    | _ => partnerFrom ts closer depth js

/-- The position of the bracket that closes the one at a position; none if there is none, or another bracket stands
there. -/
def partner (ts : List Token) (i : Nat) : Except Fault (Option Nat) := do
  match (← itemAt ts i).kind with
  | .punct p =>
    match p.closer? with
    | some closer => partnerFrom ts closer 0 (List.range' i (ts.length - i))
    | none => .error .noBracket
  | _ => .error .noBracket

theorem suffix_closer {closer : Punct} {depth : Nat} {e : Enclosed} (h : enclosed? closer depth rest = some e) :
    e.closer :: e.after <:+ rest :=
  ⟨e.inside, (enclosed?_append h).symm⟩

theorem partnerFrom_eq (h : At ts i rest) (closer : Punct) (depth : Nat) :
    partnerFrom ts closer (depth + 1) (List.range' i rest.length) =
      .ok ((enclosed? closer depth rest).map fun e => position ts (e.closer :: e.after)) := by
  induction rest generalizing i depth with
  | nil => rfl
  | cons t rest ih =>
    rw [List.length_cons, List.range'_succ, partnerFrom, h.itemAt, ok_bind, enclosed?]
    have hlater : ∀ depth : Nat, partnerFrom ts closer (depth + 1) (List.range' (i + 1) rest.length) =
        .ok (((enclosed? closer depth rest).map (Enclosed.cons t)).map fun e =>
          position ts (e.closer :: e.after)) := by
      intro depth
      rw [ih h.succ, Option.map_map]
      rfl
    cases t.kind with
    | punct p =>
      dsimp only
      split
      · exact_mod_cast hlater (depth + 1)
      split
      · cases depth with
        | zero =>
          rw [if_pos (by omega)]
          dsimp only
          split
          · rw [Option.map_some, h.position_eq]
            rfl
          · rfl
        | succ depth =>
          rw [if_neg (by omega)]
          have := hlater depth
          simpa only [Int.natCast_succ, Int.add_sub_cancel] using this
      · exact hlater depth
    | _ => exact hlater depth

/-- The partner of an opening bracket is the one that ends the run behind it. -/
theorem partner_eq {t : Token} {p closer : Punct} (h : At ts i (t :: rest)) (hp : t.isPunct p = true)
    (hcloser : p.closer? = some closer) :
    partner ts i = .ok ((enclosed? closer 0 rest).map fun e => position ts (e.closer :: e.after)) := by
  have hopens : p.opens = true := by cases p <;> simp_all [Punct.closer?, Punct.opens]
  have hlength : ts.length - i = rest.length + 1 := by
    have := h.length_eq
    rw [List.length_cons] at this
    omega
  rw [partner, h.itemAt, ok_bind, eq_of_beq hp, hlength, List.range'_succ]
  dsimp only
  rw [hcloser]
  dsimp only
  rw [partnerFrom, h.itemAt, ok_bind, eq_of_beq hp]
  dsimp only
  rw [if_pos hopens]
  exact partnerFrom_eq h.succ closer 0

theorem partner_lparen {t : Token} (h : At ts i (t :: rest)) (ht : t.isPunct .lparen = true) :
    partner ts i = .ok ((parenthesised? rest).map fun e => position ts (e.closer :: e.after)) :=
  partner_eq h ht rfl

theorem partner_lbracket {t : Token} (h : At ts i (t :: rest)) (ht : t.isPunct .lbracket = true) :
    partner ts i = .ok ((bracketed? rest).map fun e => position ts (e.closer :: e.after)) :=
  partner_eq h ht rfl

theorem partner_lbrace {t : Token} (h : At ts i (t :: rest)) (ht : t.isPunct .lbrace = true) :
    partner ts i = .ok ((braced? rest).map fun e => position ts (e.closer :: e.after)) :=
  partner_eq h ht rfl

/-- Goes on passing over a template argument list, with so many `<` open. -/
def pastAnglesFrom (ts : List Token) : (fuel : Nat) → (depth : Int) → (j : Nat) → Except Fault (Option Nat)
  | 0, _, _ => .error .endless
  | fuel + 1, depth, j =>
    if j < ts.length then do
      match (← itemAt ts j).kind with
      | .punct p =>
        if p == .less then pastAnglesFrom ts fuel (depth + 1) (j + 1)
        else if p == .greater then
          if depth - 1 = 0 then return some (j + 1) else pastAnglesFrom ts fuel (depth - 1) (j + 1)
        else if p == .lparen || p == .lbracket then
          match ← partner ts j with
          | none => return none
          | some close => pastAnglesFrom ts fuel depth (close + 1)
        else if [.semicolon, .lbrace, .rbrace, .rparen, .rbracket, .ampAmp, .barBar].contains p then return none
        else pastAnglesFrom ts fuel depth (j + 1)
      | _ => pastAnglesFrom ts fuel depth (j + 1)
    else return none

/-- The position behind the `>` that closes the `<` at a position; none if it is no template argument list. -/
def pastAngles (ts : List Token) (i : Nat) : Except Fault (Option Nat) := pastAnglesFrom ts (rounds ts) 0 i

theorem pastAnglesFrom_eq {fuel : Nat} (h : At ts i rest) (hfuel : rest.length < fuel) (depth : Nat) :
    pastAnglesFrom ts fuel (depth + 1) i = .ok ((angled? depth rest).map fun a => position ts a.after) := by
  have hmap : ∀ (front : List Token) (o : Option Angled),
      (o.map (Angled.prepend front)).map (fun a => position ts a.after) = o.map fun a => position ts a.after := by
    intro front o
    rw [Option.map_map]
    rfl
  fun_induction angled? depth rest generalizing i fuel <;>
    obtain ⟨fuel, rfl⟩ := Nat.exists_eq_add_one.mpr (Nat.zero_lt_of_lt hfuel)
  -- the scan is at its end: `At` with nothing left means the index is out of range
  case case1 => rw [pastAnglesFrom, if_neg h.not_lt]; rfl
  all_goals rw [pastAnglesFrom, if_pos h.lt, h.itemAt, ok_bind]
  all_goals simp only [List.length_cons] at hfuel
  case case2 depth t rest hk ih =>
    rw [hk]
    dsimp only
    rw [if_pos (by decide), hmap]
    exact_mod_cast ih h.succ (by omega)
  case case3 t rest hk =>
    rw [hk]
    dsimp only
    rw [if_neg (by decide), if_pos (by decide), if_pos (by omega), Option.map_some, h.succ.position_eq]
    rfl
  case case4 t rest hk depth ih =>
    rw [hk]
    dsimp only
    rw [if_neg (by decide), if_pos (by decide), if_neg (by omega), hmap]
    simpa only [Int.natCast_succ, Int.add_sub_cancel] using ih h.succ (by omega)
  -- an opening bracket without a partner
  case case5 depth t rest hk hnone | case7 depth t rest hk hnone =>
    change enclosed? _ 0 rest = none at hnone
    rw [hk]
    dsimp only
    rw [if_neg (by decide), if_neg (by decide), if_pos (by decide), partner_eq h (beq_iff_eq.mpr hk) rfl, hnone]
    rfl
  -- an opening bracket: the scan goes on behind its partner
  case case6 depth t rest hk e he ih | case8 depth t rest hk e he ih =>
    change enclosed? _ 0 rest = some e at he
    have hclose := h.succ.suffix (suffix_closer he)
    have hshorter := length_after_lt he
    rw [hk]
    dsimp only
    rw [if_neg (by decide), if_neg (by decide), if_pos (by decide), partner_eq h (beq_iff_eq.mpr hk) rfl, he, hmap]
    exact ih hclose.succ (by omega)
  case case9 depth t rest p hless hgreater hparen hbracket hk hstop =>
    rw [hk]
    dsimp only
    rw [if_neg (by simpa using hless), if_neg (by simpa using hgreater),
      if_neg (by simpa using ⟨hparen, hbracket⟩), if_pos hstop]
    rfl
  case case10 depth t rest p hless hgreater hparen hbracket hk hgo ih =>
    rw [hk]
    dsimp only
    rw [if_neg (by simpa using hless), if_neg (by simpa using hgreater),
      if_neg (by simpa using ⟨hparen, hbracket⟩), if_neg hgo, hmap]
    exact ih h.succ (by omega)
  case case11 depth t rest _ _ _ _ hpunct ih =>
    rw [hmap]
    split
    · next p hp => exact absurd hp (hpunct p)
    · exact ih h.succ (by omega)

/-- A template argument list ends where the list read off the tokens behind its `<` does. -/
theorem pastAngles_eq {t : Token} (h : At ts i (t :: rest)) (ht : t.isPunct .less = true) :
    pastAngles ts i = .ok ((angled? 0 rest).map fun a => position ts a.after) := by
  have hlt := h.lt
  have hlength := h.length_eq
  rw [List.length_cons] at hlength
  rw [pastAngles, rounds, pastAnglesFrom, if_pos hlt, h.itemAt, ok_bind, eq_of_beq ht]
  dsimp only
  rw [if_pos (by decide)]
  exact pastAnglesFrom_eq h.succ (by omega) 0

/-! ## Specifiers -/

/-- A test, and then another one of the token at a position, if the list goes on to it. -/
def andHoldsAt (here : Bool) (ts : List Token) (i : Nat) (test : Token → Bool) : Except Fault Bool :=
  if here then holdsAt ts i test else return false

theorem andHoldsAt_eq (h : At ts i rest) (here : Bool) (test : Token → Bool) :
    andHoldsAt here ts i test = .ok (here && rest.head?.any test) := by
  cases here with
  | true => exact holdsAt_eq h test
  | false => rfl

/-- The position behind the attribute at a position. -/
def pastAttribute (ts : List Token) (p : Nat) : Except Fault (Option Nat) := do
  let t ← itemAt ts p
  if ← andHoldsAt (t.isPunct .lbracket) ts (p + 1) (·.isPunct .lbracket) then
    return (← partner ts p).map (· + 1)
  else if ← andHoldsAt (t.isKeyword .alignasKw || attributeWords.any t.isWord) ts (p + 1) (·.isPunct .lparen) then
    return (← partner ts (p + 1)).map (· + 1)
  else return none

/-- The position behind a closing bracket. -/
theorem position_closer_add_one {closer : Punct} {depth : Nat} {e : Enclosed} (h : At ts i rest)
    (he : enclosed? closer depth rest = some e) : position ts (e.closer :: e.after) + 1 = position ts e.after :=
  ((h.suffix (suffix_closer he)).succ.position_eq).symm

theorem map_partner (closer : Punct) (h : At ts i rest) :
    ((enclosed? closer 0 rest).map fun e => position ts (e.closer :: e.after)).map (· + 1) =
      ((enclosed? closer 0 rest).map (·.after)).map (position ts) := by
  cases he : enclosed? closer 0 rest with
  | none => rfl
  | some e => exact congrArg some (position_closer_add_one h he)

theorem pastAttribute_eq {t : Token} (h : At ts i (t :: rest)) :
    pastAttribute ts i = .ok ((afterAttribute? (t :: rest)).map (position ts)) := by
  rw [pastAttribute, h.itemAt, ok_bind, andHoldsAt_eq h.succ, ok_bind, andHoldsAt_eq h.succ]
  unfold afterAttribute?
  cases rest with
  | nil => simp
  | cons u rest =>
    dsimp only
    rw [List.head?_cons, Option.any_some, Option.any_some, ok_bind]
    by_cases hsquare : (t.isPunct .lbracket && u.isPunct .lbracket) = true
    · rw [if_pos hsquare, if_pos hsquare, partner_eq h (Bool.and_eq_true_iff.mp hsquare).1 rfl]
      exact congrArg Except.ok (map_partner .rbracket h.succ)
    rw [if_neg hsquare, if_neg hsquare]
    by_cases hround : ((t.isKeyword .alignasKw || attributeWords.any t.isWord) && u.isPunct .lparen) = true
    · rw [if_pos hround, if_pos hround, partner_eq h.succ (Bool.and_eq_true_iff.mp hround).2 rfl]
      exact congrArg Except.ok (map_partner .rparen h.succ.succ)
    · rw [if_neg hround, if_neg hround]
      rfl

/-- Adds the specifiers from a position on to some others; the position behind them. -/
def pastSpecifiersFrom (ts : List Token) :
    (fuel : Nat) → (s : Specifiers) → (p : Nat) → Except Fault (Specifiers × Nat)
  | 0, _, _ => .error .endless
  | fuel + 1, s, p =>
    if p < ts.length then do
      match (← itemAt ts p).specifier? with
      | some k => pastSpecifiersFrom ts fuel (s.note k) (p + 1)
      | none =>
        match ← pastAttribute ts p with
        | some q => pastSpecifiersFrom ts fuel s q
        | none => return (s, p)
    else return (s, p)

/-- The specifiers from a position on and the position behind them. -/
def pastSpecifiers (ts : List Token) (p : Nat) : Except Fault (Specifiers × Nat) :=
  pastSpecifiersFrom ts (rounds ts) {} p

theorem pastSpecifiersFrom_eq {fuel : Nat} (h : At ts i rest) (hfuel : rest.length < fuel) (s : Specifiers) :
    pastSpecifiersFrom ts fuel s i = .ok ((specifiersFrom s rest).1, position ts (specifiersFrom s rest).2) := by
  fun_induction specifiersFrom s rest generalizing i fuel <;>
    obtain ⟨fuel, rfl⟩ := Nat.exists_eq_add_one.mpr (Nat.zero_lt_of_lt hfuel)
  case case1 =>
    rw [pastSpecifiersFrom, if_neg h.not_lt, h.position_eq]
    rfl
  all_goals rw [pastSpecifiersFrom, if_pos h.lt, h.itemAt, ok_bind]
  all_goals simp only [List.length_cons] at hfuel
  case case2 s t rest k hk ih =>
    rw [hk]
    exact ih h.succ (by omega)
  case case3 s t rest hk after ha ih =>
    have hshorter := length_afterAttribute_lt ha
    rw [hk]
    dsimp only
    rw [pastAttribute_eq h, ha]
    exact ih (h.suffix (suffix_afterAttribute ha)) (by rw [List.length_cons] at hshorter; omega)
  case case4 s t rest hk ha =>
    rw [hk]
    dsimp only
    rw [pastAttribute_eq h, ha, h.position_eq]
    rfl

theorem At.length_lt_rounds (h : At ts i rest) : rest.length < rounds ts := by
  have := h.length_eq
  unfold rounds
  omega

theorem pastSpecifiers_eq (h : At ts i rest) :
    pastSpecifiers ts i = .ok ((specifiers rest).1, position ts (specifiers rest).2) :=
  pastSpecifiersFrom_eq h h.length_lt_rounds {}

/-! ## Names -/

/-- The position behind the template arguments at a position, if there are any; none if what follows `<` is no such
list. -/
def pastArguments (ts : List Token) (q : Nat) : Except Fault (Option Nat) := do
  if ← holdsAt ts q (·.isPunct .less) then pastAngles ts q else return some q

theorem pastArguments_eq (h : At ts i rest) :
    pastArguments ts i = .ok ((afterArguments? rest).map (position ts)) := by
  rw [pastArguments, holdsAt_eq h, ok_bind]
  unfold afterArguments?
  cases rest with
  | nil => simp [h.position_eq]
  | cons t rest =>
    dsimp only
    rw [List.head?_cons, Option.any_some]
    by_cases ht : t.isPunct .less = true
    · rw [if_pos ht, if_pos ht, pastAngles_eq h ht, Option.map_map]
      rfl
    · rw [if_neg ht, if_neg ht, Option.map_some, h.position_eq]
      rfl

/-- The position from which a name goes on behind a `::`. -/
def pastScope (ts : List Token) (q : Nat) : Except Fault (Option Nat) :=
  if q + 1 < ts.length then do
    if (← itemAt ts q).isPunct .scope then
      let u ← itemAt ts (q + 1)
      if u.isKeyword .templateKw then return some (q + 2)
      else if u.isIdentifier || u.isPunct .tilde then return some (q + 1)
      else return none
    else return none
  else return none

theorem At.add_one_lt_iff (h : At ts i rest) : i + 1 < ts.length ↔ 2 ≤ rest.length := by
  have := h.length_eq
  omega

theorem pastScope_eq (h : At ts i rest) : pastScope ts i = .ok ((afterScope? rest).map (position ts)) := by
  unfold pastScope afterScope?
  match rest, h with
  | [], h => rw [if_neg (by rw [h.add_one_lt_iff]; simp)]; rfl
  | [t], h => rw [if_neg (by rw [h.add_one_lt_iff]; simp)]; rfl
  | t :: u :: rest, h =>
    rw [if_pos (by rw [h.add_one_lt_iff]; simp), h.itemAt, ok_bind, h.succ.itemAt, ok_bind]
    dsimp only
    by_cases hscope : t.isPunct .scope = true
    · rw [if_pos hscope, if_pos hscope]
      by_cases htemplate : u.isKeyword .templateKw = true
      · rw [if_pos htemplate, if_pos htemplate, Option.map_some, h.succ.succ.position_eq]
        rfl
      rw [if_neg htemplate, if_neg htemplate]
      by_cases hname : (u.isIdentifier || u.isPunct .tilde) = true
      · rw [if_pos hname, if_pos hname, Option.map_some, h.succ.position_eq]
        rfl
      · rw [if_neg hname, if_neg hname]
        rfl
    · rw [if_neg hscope, if_neg hscope]
      rfl

/-- The segments of a name from a position on, each with its token, and the position behind the name. -/
def segmentsFrom (ts : List Token) :
    (fuel : Nat) → (q : Nat) → Except Fault (Option (List (Text × Token) × Nat))
  | 0, _ => .error .endless
  | fuel + 1, q =>
    if q < ts.length then do
      let t ← itemAt ts q
      if ← andHoldsAt (t.isPunct .tilde) ts (q + 1) (·.isIdentifier) then
        let u ← itemAt ts (q + 1)
        return some ([(.scalar '~' :: u.text, u)], q + 2)
      else if !t.isIdentifier then return some ([], q)
      else
        match ← pastArguments ts (q + 1) with
        | none => return none
        | some q =>
          match ← pastScope ts q with
          | none => return some ([(t.text, t)], q)
          | some next =>
            return (← segmentsFrom ts fuel next).map fun (segments, stop) => ((t.text, t) :: segments, stop)
    else return some ([], q)

theorem not_isIdentifier_of_isPunct {t : Token} {p : Punct} (h : t.isPunct p = true) : t.isIdentifier = false := by
  rw [Token.isIdentifier, eq_of_beq h]
  rfl

theorem segmentsFrom_eq {fuel : Nat} (h : At ts i rest) (hfuel : rest.length < fuel) :
    segmentsFrom ts fuel i = .ok ((segments? rest).map (Prod.map id (position ts))) := by
  fun_induction segments? rest generalizing i fuel <;>
    obtain ⟨fuel, rfl⟩ := Nat.exists_eq_add_one.mpr (Nat.zero_lt_of_lt hfuel)
  case case1 =>
    rw [segmentsFrom, if_neg h.not_lt]
    simp [h.position_eq]
  -- there is a token to look at
  all_goals rw [segmentsFrom, if_pos h.lt, h.itemAt, ok_bind, andHoldsAt_eq h.succ, ok_bind]
  all_goals simp only [List.length_cons] at hfuel
  case case2 t htilde u after hu =>
    rw [if_pos (by simp [htilde, hu]), h.succ.itemAt, ok_bind, Option.map_some, Prod.map_apply,
      h.succ.succ.position_eq]
    rfl
  case case3 t htilde u after hu =>
    rw [if_neg (by simp [hu]), if_pos (by simp [not_isIdentifier_of_isPunct htilde]), Option.map_some,
      Prod.map_apply, h.position_eq]
    rfl
  case case4 t htilde =>
    rw [if_neg (by simp), if_pos (by simp [not_isIdentifier_of_isPunct htilde]), Option.map_some,
      Prod.map_apply, h.position_eq]
    rfl
  case case5 t rest htilde hid hargs =>
    rw [if_neg (by simp [htilde]), if_neg (by simp [hid]), pastArguments_eq h.succ, hargs]
    rfl
  -- a segment with `::` behind it: the name goes on
  case case6 t rest htilde hid after hargs next hscope ih =>
    have hafter := h.succ.suffix (suffix_afterArguments hargs)
    have hshorter := length_afterArguments_le hargs
    have hshorter' := length_afterScope_lt hscope
    rw [if_neg (by simp [htilde]), if_neg (by simp [hid]), pastArguments_eq h.succ, hargs, Option.map_some, ok_bind]
    dsimp only
    rw [pastScope_eq hafter, hscope, Option.map_some, ok_bind]
    dsimp only
    rw [ih (hafter.suffix (suffix_afterScope hscope)) (by omega), ok_bind, pure_eq_ok, Option.map_map, Option.map_map]
    rfl
  case case7 t rest htilde hid after hargs hscope =>
    have hafter := h.succ.suffix (suffix_afterArguments hargs)
    rw [if_neg (by simp [htilde]), if_neg (by simp [hid]), pastArguments_eq h.succ, hargs, Option.map_some, ok_bind]
    dsimp only
    rw [pastScope_eq hafter, hscope]
    rfl
  case case8 t rest htilde hid =>
    rw [if_neg (by simp [htilde]), if_pos (by simp [hid]), Option.map_some,
      Prod.map_apply, h.position_eq]
    rfl

/-- A qualified name at a position. -/
structure NameAt where
  segments : List Text
  last : Token
  stop : Nat
  deriving DecidableEq, Repr

/-- The name at a position. -/
def nameAt (ts : List Token) (p : Nat) : Except Fault (Option NameAt) := do
  let q := if ← holdsAt ts p (·.isPunct .scope) then p + 1 else p
  match ← segmentsFrom ts (rounds ts) q with
  | none => return none
  | some (segments, stop) =>
    return segments.getLast?.map fun (_, last) => ⟨segments.map (·.1), last, stop⟩

/-- The name at the front of what follows a position, by positions. -/
def NameAt.ofName (ts : List Token) (n : QualifiedName) : NameAt := ⟨n.segments, n.last, position ts n.rest⟩

theorem nameAt_eq (h : At ts i rest) : nameAt ts i = .ok ((qualifiedName? rest).map (NameAt.ofName ts)) := by
  have hglobal : At ts (if rest.head?.any (·.isPunct .scope) then i + 1 else i) (afterGlobal rest) := by
    cases rest <;> exact h.passing _
  rw [nameAt, holdsAt_eq h, ok_bind]
  dsimp only
  rw [segmentsFrom_eq hglobal hglobal.length_lt_rounds]
  unfold qualifiedName?
  cases segments? (afterGlobal rest) with
  | none => rfl
  | some found =>
    rw [Option.map_some, ok_bind]
    dsimp only
    rw [Option.map_map]
    rfl

/-! ## Types -/

/-- Goes on from a position as long as a test holds. -/
def pastWhileFrom (ts : List Token) (test : Token → Bool) : (fuel : Nat) → (p : Nat) → Except Fault Nat
  | 0, _ => .error .endless
  | fuel + 1, p => do if ← holdsAt ts p test then pastWhileFrom ts test fuel (p + 1) else return p

/-- The first position, from a given one on, at which a test does not hold. -/
def pastWhile (ts : List Token) (test : Token → Bool) (p : Nat) : Except Fault Nat :=
  pastWhileFrom ts test (rounds ts) p

theorem pastWhileFrom_eq {fuel : Nat} (h : At ts i rest) (hfuel : rest.length < fuel) (test : Token → Bool) :
    pastWhileFrom ts test fuel i = .ok (position ts (rest.dropWhile test)) := by
  induction rest generalizing i fuel with
  | nil =>
    obtain ⟨fuel, rfl⟩ := Nat.exists_eq_add_one.mpr (Nat.zero_lt_of_lt hfuel)
    rw [pastWhileFrom, holdsAt_eq h, List.dropWhile_nil, h.position_eq]
    rfl
  | cons t rest ih =>
    obtain ⟨fuel, rfl⟩ := Nat.exists_eq_add_one.mpr (Nat.zero_lt_of_lt hfuel)
    rw [pastWhileFrom, holdsAt_eq h, ok_bind, List.head?_cons, Option.any_some, List.dropWhile_cons]
    split
    · exact ih h.succ (by rw [List.length_cons] at hfuel; omega)
    · rw [h.position_eq]
      rfl

theorem pastWhile_eq (h : At ts i rest) (test : Token → Bool) :
    pastWhile ts test i = .ok (position ts (rest.dropWhile test)) :=
  pastWhileFrom_eq h h.length_lt_rounds test

/-- The position behind the operand of the `decltype` at a position, where the token `t` stands. The outer option
tells whether there is an operand at all. -/
def pastOperand (ts : List Token) (t : Token) (p : Nat) : Except Fault (Option (Option Nat)) := do
  if ← andHoldsAt (t.isKeyword .decltypeKw) ts (p + 1) (·.isPunct .lparen) then
    return some ((← partner ts (p + 1)).map (· + 1))
  else return none

theorem pastOperand_eq {t : Token} (h : At ts i (t :: rest)) :
    pastOperand ts t i =
      .ok ((if t.isKeyword .decltypeKw then afterDecltype? rest else none).map (Option.map (position ts))) := by
  rw [pastOperand, andHoldsAt_eq h.succ, ok_bind]
  by_cases ht : t.isKeyword .decltypeKw = true
  · rw [if_pos ht, ht, Bool.true_and]
    unfold afterDecltype?
    cases rest with
    | nil => rfl
    | cons u rest =>
      dsimp only
      rw [List.head?_cons, Option.any_some]
      by_cases hu : u.isPunct .lparen = true
      · rw [if_pos hu, if_pos hu, partner_eq h.succ hu rfl]
        exact congrArg (Except.ok ∘ some) (map_partner .rparen h.succ.succ)
      · rw [if_neg hu, if_neg hu]
        rfl
  · rw [if_neg ht, if_neg (by simp [ht])]
    rfl

/-- Goes on over the words that name a type; `seen` says that one has been named. -/
def pastTypeWordsFrom (ts : List Token) :
    (fuel : Nat) → (seen : Bool) → (p : Nat) → Except Fault (Option (Bool × Nat))
  | 0, _, _ => .error .endless
  | fuel + 1, seen, p =>
    if p < ts.length then do
      let t ← itemAt ts p
      if t.isCv || t.isElaborated then pastTypeWordsFrom ts fuel seen (p + 1)
      else if t.isTypeName then pastTypeWordsFrom ts fuel true (p + 1)
      else
        match ← pastOperand ts t p with
        | some none => return none
        | some (some q) => pastTypeWordsFrom ts fuel true q
        | none =>
          if (t.isIdentifier || t.isPunct .scope) && !seen then
            match ← nameAt ts p with
            | none => return none
            | some name => pastTypeWordsFrom ts fuel true name.stop
          else return some (seen, p)
    else return some (seen, p)

/-- The position behind the type at a position; none if there is no type. -/
def pastType (ts : List Token) (p : Nat) : Except Fault (Option Nat) := do
  match ← pastTypeWordsFrom ts (rounds ts) false p with
  | some (true, p) =>
    return some (← pastWhile ts (fun t => t.isPointerOrReference || t.isPunct .ellipsis || t.isCv) p)
  | _ => return none

theorem pastTypeWordsFrom_eq {fuel : Nat} (h : At ts i rest) (hfuel : rest.length < fuel) (seen : Bool) :
    pastTypeWordsFrom ts fuel seen i = .ok ((afterTypeWords? seen rest).map (Prod.map id (position ts))) := by
  fun_induction afterTypeWords? seen rest generalizing i fuel <;>
    obtain ⟨fuel, rfl⟩ := Nat.exists_eq_add_one.mpr (Nat.zero_lt_of_lt hfuel)
  case case1 =>
    rw [pastTypeWordsFrom, if_neg h.not_lt, Option.map_some, Prod.map_apply, h.position_eq]
    rfl
  -- at each of the other steps there is a token to look at
  all_goals rw [pastTypeWordsFrom, if_pos h.lt, h.itemAt, ok_bind]
  all_goals simp only [List.length_cons] at hfuel
  case case2 seen t rest hword ih =>
    rw [if_pos hword]
    exact ih h.succ (by omega)
  case case3 seen t rest hword htype ih =>
    rw [if_neg hword, if_pos htype]
    exact ih h.succ (by omega)
  -- `decltype` without its operand
  case case4 seen t rest hword htype hoperand =>
    rw [dite_eq_ite] at hoperand
    rw [if_neg hword, if_neg htype, pastOperand_eq h, hoperand]
    rfl
  -- `decltype` with its operand: the scan goes on behind that
  case case5 seen t rest hword htype after hoperand ih =>
    rw [dite_eq_ite] at hoperand
    have hafter : afterDecltype? rest = some (some after) := by
      split at hoperand
      · exact hoperand
      · exact absurd hoperand (by simp)
    have hshorter := length_afterDecltype_lt hafter
    rw [if_neg hword, if_neg htype, pastOperand_eq h, hoperand]
    exact ih (h.succ.suffix (suffix_afterDecltype hafter)) (by omega)
  case case6 seen t rest hword htype hoperand hname hnone =>
    rw [dite_eq_ite] at hoperand
    rw [if_neg hword, if_neg htype, pastOperand_eq h, hoperand, Option.map_none, ok_bind]
    dsimp only
    rw [if_pos hname, nameAt_eq h, hnone]
    rfl
  case case7 seen t rest hword htype hoperand hname name hn ih =>
    rw [dite_eq_ite] at hoperand
    have hshorter := length_qualifiedName_lt hn
    rw [List.length_cons] at hshorter
    rw [if_neg hword, if_neg htype, pastOperand_eq h, hoperand, Option.map_none, ok_bind]
    dsimp only
    rw [if_pos hname, nameAt_eq h, hn]
    exact ih (h.suffix (suffix_qualifiedName hn)) (by omega)
  case case8 seen t rest hword htype hoperand hname =>
    rw [dite_eq_ite] at hoperand
    rw [if_neg hword, if_neg htype, pastOperand_eq h, hoperand, Option.map_none, ok_bind]
    dsimp only
    rw [if_neg hname, Option.map_some, Prod.map_apply, h.position_eq]
    rfl

theorem pastType_eq (h : At ts i rest) : pastType ts i = .ok ((afterType? rest).map (position ts)) := by
  rw [pastType, pastTypeWordsFrom_eq h h.length_lt_rounds, ok_bind]
  unfold afterType?
  cases hwords : afterTypeWords? false rest with
  | none => rfl
  | some found =>
    obtain ⟨named, later⟩ := found
    cases named with
    | false => rfl
    | true =>
      rw [Option.map_some, Prod.map_apply]
      dsimp only [id]
      rw [pastWhile_eq (h.suffix (suffix_afterTypeWords hwords))]
      rfl

/-! ## Operators and constness -/

/-- Goes on to the bracket of the parameter list of an operator; a semicolon or a brace refuses it. -/
def operatorBracketFrom (ts : List Token) : (fuel : Nat) → (q : Nat) → Except Fault (Option Nat)
  | 0, _ => .error .endless
  | fuel + 1, q =>
    if q < ts.length then do
      let t ← itemAt ts q
      if t.isPunct .lparen then return some q
      else if t.isOneOf [.semicolon, .lbrace, .rbrace] then return none
      else operatorBracketFrom ts fuel (q + 1)
    else return none

/-- The position of the bracket that opens the parameter list of an operator, the word `operator` of which stands at a
position. The brackets of the call operator are part of its name. -/
def operatorBracket (ts : List Token) (word : Nat) : Except Fault (Option Nat) := do
  if word + 3 < ts.length then
    if (← itemAt ts (word + 1)).isPunct .lparen && (← itemAt ts (word + 2)).isPunct .rparen &&
        (← itemAt ts (word + 3)).isPunct .lparen then
      return some (word + 3)
  operatorBracketFrom ts (rounds ts) (word + 1)

/-- The text of the tokens between two positions. -/
def textBetween (ts : List Token) (start stop : Nat) : Text := (ts.extract start stop).flatMap (·.text)

theorem At.extract (h : At ts i rest) {front later : List Token} (hrest : rest = front ++ later) :
    ts.extract i (position ts later) = front := by
  have hlength := h.length_eq
  rw [hrest, List.length_append] at hlength
  have hposition : position ts later - i = front.length := by
    unfold position
    omega
  rw [List.extract_eq_take_drop, h.drop, hposition, hrest, List.take_left]

theorem operatorBracketFrom_eq {fuel : Nat} (h : At ts i rest) (hfuel : rest.length < fuel) :
    operatorBracketFrom ts fuel i =
      .ok ((operatorSymbol?.upToBracket rest).map fun (_, opener, later) => position ts (opener :: later)) := by
  induction rest generalizing i fuel with
  | nil =>
    obtain ⟨fuel, rfl⟩ := Nat.exists_eq_add_one.mpr (Nat.zero_lt_of_lt hfuel)
    rw [operatorBracketFrom, if_neg h.not_lt]
    rfl
  | cons t rest ih =>
    obtain ⟨fuel, rfl⟩ := Nat.exists_eq_add_one.mpr (Nat.zero_lt_of_lt hfuel)
    rw [List.length_cons] at hfuel
    rw [operatorBracketFrom, if_pos h.lt, h.itemAt, ok_bind, operatorSymbol?.upToBracket]
    split
    · rw [Option.map_some]
      dsimp only
      rw [h.position_eq]
      rfl
    split
    · rfl
    · rw [ih h.succ (by omega), Option.map_map]
      rfl

theorem operatorBracket_eq {t : Token} (h : At ts i (t :: rest)) :
    operatorBracket ts i =
      .ok ((operatorSymbol? rest).map fun (_, opener, later) => position ts (opener :: later)) := by
  have hfrom := operatorBracketFrom_eq h.succ h.succ.length_lt_rounds
  have hlength := h.length_eq
  unfold operatorBracket operatorSymbol?
  match rest, h with
  | a :: b :: c :: later, h =>
    rw [if_pos (by simp only [List.length_cons] at hlength; omega), h.succ.itemAt, h.succ.succ.itemAt,
      h.succ.succ.succ.itemAt]
    simp only [ok_bind, pure_eq_ok]
    split
    · rw [Option.map_some, h.succ.succ.succ.position_eq]
    · exact hfrom
  | [], _ | [_], _ | [_, _], _ =>
    rw [if_neg (by simp only [List.length_cons, List.length_nil] at hlength; omega)]
    exact hfrom

/-- The position of the last pointer or reference from a position on, or else what has been found before. -/
def lastOperatorFrom (found : Option Nat) (k : Nat) : List Token → Option Nat
  | [] => found
  | t :: ts => lastOperatorFrom (if t.isPointerOrReference then some k else found) (k + 1) ts

/-- Whether an object of a type is constant, from the position of the last pointer or reference. -/
def constAt (type : List Token) : Except Fault Bool := do
  match lastOperatorFrom none 0 type with
  | none => return type.any (·.isKeyword .constKw)
  | some k =>
    if (← itemAt type k).isPunct .star then return (type.drop (k + 1)).any (·.isKeyword .constKw)
    else return false

/-- The last pointer or reference of a type and where it is found. -/
theorem lastOperatorFrom_cases (found : Option Nat) (k : Nat) (type : List Token) :
    (lastOperatorFrom found k type = found ∧ ∀ t ∈ type, t.isPointerOrReference = false) ∨
      ∃ front op back, type = front ++ op :: back ∧ lastOperatorFrom found k type = some (k + front.length) ∧
        op.isPointerOrReference = true ∧ ∀ t ∈ back, t.isPointerOrReference = false := by
  induction type generalizing found k with
  | nil => exact Or.inl ⟨rfl, by simp⟩
  | cons t type ih =>
    rw [lastOperatorFrom]
    rcases ih (if t.isPointerOrReference then some k else found) (k + 1) with
      ⟨hfound, hall⟩ | ⟨front, op, back, rfl, hfound, hop, hback⟩
    · by_cases ht : t.isPointerOrReference = true
      · exact Or.inr ⟨[], t, type, rfl, by rw [hfound, if_pos ht]; rfl, ht, hall⟩
      · exact Or.inl ⟨by rw [hfound, if_neg ht], by simpa [ht] using hall⟩
    · exact Or.inr ⟨t :: front, op, back, rfl,
        by rw [hfound, List.length_cons, Nat.add_assoc, Nat.add_comm 1], hop, hback⟩

theorem constAt_eq (type : List Token) : constAt type = .ok (isConstObject type) := by
  unfold constAt isConstObject
  rcases lastOperatorFrom_cases none 0 type with ⟨hnone, hall⟩ | ⟨front, op, back, rfl, hsome, hop, hback⟩
  · have hall' : ∀ t ∈ type.reverse, (!t.isPointerOrReference) = true := by simpa using hall
    rw [hnone, ← List.append_nil type.reverse, List.dropWhile_append_of_pos hall']
    rfl
  · have hat : At (front ++ op :: back) front.length (op :: back) := ⟨by simp, List.drop_left⟩
    have hreverse : (front ++ op :: back).reverse = back.reverse ++ op :: front.reverse := by simp
    have hback' : ∀ t ∈ back.reverse, (!t.isPointerOrReference) = true := by simpa using hback
    rw [hsome, hreverse, List.dropWhile_append_of_pos hback', List.takeWhile_append_of_pos hback',
      List.dropWhile_cons_of_neg (by simp [hop]), List.takeWhile_cons_of_neg (by simp [hop]), List.append_nil,
      Nat.zero_add]
    dsimp only
    rw [hat.itemAt, ok_bind, hat.succ.drop, List.any_reverse]
    split
    · next hstar => rw [hstar, Bool.true_and]; rfl
    · next hstar => rw [Bool.not_eq_true] at hstar; rw [hstar]; rfl

end ByPosition

end HouseStyle
