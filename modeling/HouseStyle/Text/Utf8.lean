import HouseStyle.Text.Glyph

/-!
# UTF-8

`decode` reads a byte string as text and `encode` writes it back. A byte that starts no
well-formed character stands for itself, so `encode (decode bs) = bs` for every byte string.

`printable` is the text as it is shown in messages. There every ill-formed part becomes one
replacement character; an ill-formed part is the longest run of bytes that could have been the
start of a well-formed character, or else a single byte.
-/

namespace HouseStyle.Utf8

/-- Whether the byte continues a character: `10xxxxxx`. -/
def isContinuation (b : UInt8) : Bool := 0x80 ≤ b && b < 0xC0

/-- The payload of a continuation byte. -/
def payload (b : UInt8) : Nat := b.toNat % 64

/-- The number of bytes of the character that a lead byte announces; none for a byte that
cannot start a character. -/
def announced? (b : UInt8) : Option Nat :=
  if b < 0x80 then some 1
  else if 0xC2 ≤ b && b < 0xE0 then some 2
  else if 0xE0 ≤ b && b < 0xF0 then some 3
  else if 0xF0 ≤ b && b < 0xF5 then some 4
  else none

/-- Whether `second` may follow `lead`. Beyond being a continuation byte it must not make the
form overlong, a surrogate, or larger than the last code point. -/
def mayFollow (lead second : UInt8) : Bool :=
  isContinuation second &&
    !(lead == 0xE0 && second < 0xA0) && !(lead == 0xED && 0xA0 ≤ second) &&
    !(lead == 0xF0 && second < 0x90) && !(lead == 0xF4 && 0x90 ≤ second)

/-- The character that a byte string starts with, and the bytes after it. -/
def decodeChar? : List UInt8 → Option (Char × List UInt8)
  | [] => none
  | b :: bs =>
    match announced? b, bs with
    | some 1, bs => some (Char.ofNat b.toNat, bs)
    | some 2, b₂ :: bs =>
      if mayFollow b b₂ then some (Char.ofNat (b.toNat % 32 * 64 + payload b₂), bs) else none
    | some 3, b₂ :: b₃ :: bs =>
      if mayFollow b b₂ && isContinuation b₃ then
        some (Char.ofNat (b.toNat % 16 * 4096 + payload b₂ * 64 + payload b₃), bs)
      else none
    | some 4, b₂ :: b₃ :: b₄ :: bs =>
      if mayFollow b b₂ && isContinuation b₃ && isContinuation b₄ then
        some (Char.ofNat (b.toNat % 8 * 262144 + payload b₂ * 4096 + payload b₃ * 64 + payload b₄),
          bs)
      else none
    | _, _ => none

/-- Reading a character uses up at least one byte. -/
theorem decodeChar?_length_lt {bs rest : List UInt8} {c : Char}
    (h : decodeChar? bs = some (c, rest)) : rest.length < bs.length := by
  unfold decodeChar? at h
  split at h
  · simp at h
  · split at h <;> (try split at h) <;> simp at h <;> obtain ⟨-, rfl⟩ := h <;> simp <;> omega

/-- Reads a byte string; a byte at which no character starts is kept as it is. -/
def decode (bs : List UInt8) : Text :=
  match bs with
  | [] => []
  | b :: rest =>
    match _h : decodeChar? (b :: rest) with
    | some (c, after) => .scalar c :: decode after
    | none => .raw b :: decode rest
termination_by bs.length
decreasing_by
  · exact decodeChar?_length_lt (by assumption)
  · simp

/-- The bytes of one glyph. -/
def encodeGlyph : Glyph → List UInt8
  | .scalar c => String.utf8EncodeChar c
  | .raw b => [b]

/-- Writes a text as bytes. -/
def encode (t : Text) : List UInt8 := t.flatMap encodeGlyph

/-- How many bytes the ill-formed part at the front of a byte string covers: the lead byte and
as many of the bytes after it as could still belong to its character. -/
def illFormedLength : List UInt8 → Nat
  | [] => 0
  | b :: bs =>
    match announced? b, bs with
    | some 3, b₂ :: _ => if mayFollow b b₂ then 2 else 1
    | some 4, b₂ :: bs =>
      if mayFollow b b₂ then
        match bs with
        | b₃ :: _ => if isContinuation b₃ then 3 else 2
        | [] => 2
      else 1
    | _, _ => 1

/-- Reads a byte string as characters; each ill-formed part becomes U+FFFD. -/
def decodeReplacing (bs : List UInt8) : List Char :=
  match bs with
  | [] => []
  | b :: rest =>
    match _h : decodeChar? (b :: rest) with
    | some (c, after) => c :: decodeReplacing after
    | none => '\uFFFD' :: decodeReplacing (rest.drop (illFormedLength (b :: rest) - 1))
termination_by bs.length
decreasing_by
  · exact decodeChar?_length_lt (by assumption)
  · simp only [List.length_drop, List.length_cons]; omega

/-- The text as characters, fit to be shown: ill-formed parts appear as U+FFFD. -/
def printable (t : Text) : String := String.ofList (decodeReplacing (encode t))

end HouseStyle.Utf8
