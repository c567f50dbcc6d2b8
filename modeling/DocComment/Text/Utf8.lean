import DocComment.Text.Quoted

/-!
# UTF-8

Encoding of text as bytes, and decoding with a report of the first bytes that
are no text. A byte that cannot begin a character is wrong by itself. Otherwise
the bytes that began a character are wrong if the next byte cannot go on with
it, or if there is none.
-/

namespace DocComment.Text

/-! ## Encoding -/

/-- A continuation byte with the last six bits of a number. -/
def continuation (n : Nat) : UInt8 :=
  UInt8.ofNat (0x80 + n % 0x40)

def encodeChar (c : Char) : List UInt8 :=
  let n := c.toNat
  if n < 0x80 then [UInt8.ofNat n]
  else if n < 0x800 then [UInt8.ofNat (0xc0 + n / 0x40), continuation n]
  else if n < 0x10000 then
    [UInt8.ofNat (0xe0 + n / 0x1000), continuation (n / 0x40), continuation n]
  else
    [UInt8.ofNat (0xf0 + n / 0x40000), continuation (n / 0x1000), continuation (n / 0x40),
      continuation n]

def encodeUtf8 (cs : List Char) : List UInt8 :=
  cs.flatMap encodeChar

/-! ## Decoding -/

inductive Utf8Cause where
  | invalidStart
  | invalidContinuation
  | unexpectedEnd
deriving DecidableEq

/-- Bytes that are no text: the place of the first one, the byte itself, how many
there are and what is wrong with them. -/
structure Utf8Fault where
  position : Nat
  first : UInt8
  length : Nat
  cause : Utf8Cause
deriving DecidableEq

def Utf8Cause.message : Utf8Cause → String
  | invalidStart => "invalid start byte"
  | invalidContinuation => "invalid continuation byte"
  | unexpectedEnd => "unexpected end of data"

def Utf8Fault.message (fault : Utf8Fault) : String :=
  let place :=
    if fault.length = 1 then
      "byte 0x" ++ String.ofList (hexDigits 2 fault.first.toNat) ++ " in position " ++
        toString fault.position
    else
      "bytes in position " ++ toString fault.position ++ "-" ++
        toString (fault.position + fault.length - 1)
  "'utf-8' codec can't decode " ++ place ++ ": " ++ fault.cause.message

/-- A character of which some bytes have been read: how many, the first of them,
the bits so far, how many bytes are missing and the bounds of the next one. -/
structure Begun where
  read : Nat
  first : UInt8
  bits : Nat
  missing : Nat
  low : UInt8
  high : UInt8

/-- The character that a byte begins, if it begins one of several bytes. The
bounds of the second byte exclude overlong forms, surrogates and numbers beyond
the last character. -/
def beginChar? (b : UInt8) : Option Begun :=
  -- continuation bytes and overlong two-byte forms begin nothing
  if b < 0xc2 then none
  else if b < 0xe0 then some ⟨1, b, b.toNat - 0xc0, 1, 0x80, 0xbf⟩
  else if b = 0xe0 then some ⟨1, b, 0, 2, 0xa0, 0xbf⟩
  else if b = 0xed then some ⟨1, b, 0xd, 2, 0x80, 0x9f⟩
  else if b < 0xf0 then some ⟨1, b, b.toNat - 0xe0, 2, 0x80, 0xbf⟩
  else if b = 0xf0 then some ⟨1, b, 0, 3, 0x90, 0xbf⟩
  else if b < 0xf4 then some ⟨1, b, b.toNat - 0xf0, 3, 0x80, 0xbf⟩
  else if b = 0xf4 then some ⟨1, b, 4, 3, 0x80, 0x8f⟩
  else none

/-- The text of some bytes, where `position` bytes have been read, the last of
which may have begun a character. -/
def decodeFrom : Nat → Option Begun → List UInt8 → Except Utf8Fault (List Char)
  | _, none, [] => .ok []
  | position, some begun, [] =>
    .error ⟨position - begun.read, begun.first, begun.read, .unexpectedEnd⟩
  | position, none, b :: bs =>
    if b < 0x80 then (decodeFrom (position + 1) none bs).map (Char.ofNat b.toNat :: ·)
    else match beginChar? b with
      | some begun => decodeFrom (position + 1) (some begun) bs
      | none => .error ⟨position, b, 1, .invalidStart⟩
  | position, some begun, b :: bs =>
    if begun.low ≤ b && b ≤ begun.high then
      let bits := begun.bits * 0x40 + (b.toNat - 0x80)
      if begun.missing ≤ 1 then
        (decodeFrom (position + 1) none bs).map (Char.ofNat bits :: ·)
      else
        decodeFrom (position + 1)
          (some ⟨begun.read + 1, begun.first, bits, begun.missing - 1, 0x80, 0xbf⟩) bs
    -- the byte that does not fit may begin a character itself and is not blamed
    else .error ⟨position - begun.read, begun.first, begun.read, .invalidContinuation⟩

def decodeUtf8 (bytes : List UInt8) : Except Utf8Fault (List Char) :=
  decodeFrom 0 none bytes

end DocComment.Text
