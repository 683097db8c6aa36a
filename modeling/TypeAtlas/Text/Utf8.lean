import TypeAtlas.Text.Quoted

namespace TypeAtlas.Text

/-- What can be wrong with bytes that should encode a code point. -/
inductive Utf8Reason
  | badStart
  | badContinuation
  | endOfData
  deriving DecidableEq, Repr, Inhabited

/-- What bytes start with: a code point, or a part of one that can go no further. Either comes with
its length in bytes. -/
inductive Utf8Unit
  | point (c length : Nat)
  | broken (reason : Utf8Reason) (length : Nat)
  deriving DecidableEq, Repr

def Utf8Unit.length : Utf8Unit → Nat
  | .point _ n => n
  | .broken _ n => n

def isContinuation (b : UInt8) : Bool :=
  b.toNat / 64 = 2

/-- The bytes that may follow a lead byte: not those that would spell a shorter code point, a
surrogate, or a number beyond the last code point. -/
def isSecond (lead b : UInt8) : Bool :=
  isContinuation b &&
    (if lead = 0xE0 then 0xA0 ≤ b
    else if lead = 0xED then b < 0xA0
    else if lead = 0xF0 then 0x90 ≤ b
    else if lead = 0xF4 then b < 0x90
    else true)

def lowBits (b : UInt8) : Nat :=
  b.toNat % 64

/-- What bytes start with after the byte `lead`. -/
def utf8Unit (lead : UInt8) (rest : List UInt8) : Utf8Unit :=
  if lead < 0x80 then .point lead.toNat 1
  else if 0xC2 ≤ lead ∧ lead ≤ 0xDF then
    match rest with
    | [] => .broken .endOfData 1
    | b :: _ =>
      if isContinuation b then .point (lead.toNat % 32 * 64 + lowBits b) 2
      else .broken .badContinuation 1
  else if 0xE0 ≤ lead ∧ lead ≤ 0xEF then
    match rest with
    | [] => .broken .endOfData 1
    | b :: rest =>
      if !isSecond lead b then .broken .badContinuation 1
      else match rest with
        | [] => .broken .endOfData 2
        | c :: _ =>
          if isContinuation c then
            .point ((lead.toNat % 16 * 64 + lowBits b) * 64 + lowBits c) 3
          else .broken .badContinuation 2
  else if 0xF0 ≤ lead ∧ lead ≤ 0xF4 then
    match rest with
    | [] => .broken .endOfData 1
    | b :: rest =>
      if !isSecond lead b then .broken .badContinuation 1
      else match rest with
        | [] => .broken .endOfData 2
        | c :: rest =>
          if !isContinuation c then .broken .badContinuation 2
          else match rest with
            | [] => .broken .endOfData 3
            | d :: _ =>
              if isContinuation d then
                .point (((lead.toNat % 8 * 64 + lowBits b) * 64 + lowBits c) * 64 + lowBits d) 4
              else .broken .badContinuation 3
  else .broken .badStart 1

/-- Decodes bytes after passing over the first `passed`. Each broken part becomes one replacement
character. -/
def decodeLossyFrom (passed : Nat) : List UInt8 → Text
  | [] => []
  | b :: bs =>
    match passed with
    | k + 1 => decodeLossyFrom k bs
    | 0 =>
      match utf8Unit b bs with
      | .point c n => c :: decodeLossyFrom (n - 1) bs
      | .broken _ n => 0xFFFD :: decodeLossyFrom (n - 1) bs

def decodeLossy (bytes : List UInt8) : Text :=
  decodeLossyFrom 0 bytes

/-- A broken part of an encoded text: its bytes from `start` on. -/
structure Utf8Fault where
  reason : Utf8Reason
  start : Nat
  bytes : List UInt8
  deriving DecidableEq, Repr, Inhabited

/-- Decodes bytes, of which the first has the place `start`, after passing over the first
`passed`. -/
def decodeFrom (start passed : Nat) : List UInt8 → Except Utf8Fault Text
  | [] => .ok []
  | b :: bs =>
    match passed with
    | k + 1 => decodeFrom (start + 1) k bs
    | 0 =>
      match utf8Unit b bs with
      | .point c n => (decodeFrom (start + 1) (n - 1) bs).map (c :: ·)
      | .broken reason n => .error ⟨reason, start, (b :: bs).take n⟩

/-- Decodes bytes that must not be broken anywhere. -/
def decode (bytes : List UInt8) : Except Utf8Fault Text :=
  decodeFrom 0 0 bytes

def isSurrogate (c : Nat) : Bool :=
  0xD800 ≤ c && c ≤ 0xDFFF

/-- The byte for which a surrogate stands in a path: one that is no part of an encoded code
point. -/
def escapedByte? (c : Nat) : Option UInt8 :=
  if 0xDC80 ≤ c && c ≤ 0xDCFF then some (c - 0xDC00).toUInt8 else none

/-- The bytes of a code point that is no surrogate. -/
def utf8Bytes (c : Nat) : List UInt8 :=
  let follower (n : Nat) := (0x80 + n % 64).toUInt8
  if c < 0x80 then [c.toUInt8]
  else if c < 0x800 then [(0xC0 + c / 64).toUInt8, follower c]
  else if c < 0x10000 then [(0xE0 + c / 4096).toUInt8, follower (c / 64), follower c]
  else [(0xF0 + c / 262144).toUInt8, follower (c / 4096), follower (c / 64), follower c]

/-- Surrogates in a text, from `start` on, that cannot be encoded. -/
structure EncodingFault where
  start : Nat
  surrogates : Text
  deriving DecidableEq, Repr, Inhabited

def EncodingFault.message (f : EncodingFault) : Text :=
  let place : Text := match f.surrogates with
    | [c] => "character '\\u" ++ hexDigits 4 c ++ "' in position " ++ Nat.repr f.start
    | cs => "characters in position " ++ Nat.repr f.start ++ "-" ++
      Nat.repr (f.start + cs.length - 1)
  "'utf-8' codec can't encode " ++ place ++ ": surrogates not allowed"

/-- Encodes a text of which the first code point has the place `start`. Surrogates have no code,
unless `escape` gives them a byte. -/
def encodeFrom (escape : Nat → Option UInt8) (start : Nat) :
    Text → Except EncodingFault (List UInt8)
  | [] => .ok []
  | c :: t =>
    if isSurrogate c then
      match escape c with
      | some b => (encodeFrom escape (start + 1) t).map (b :: ·)
      | none => .error ⟨start, c :: t.takeWhile isSurrogate⟩
    else (encodeFrom escape (start + 1) t).map (utf8Bytes c ++ ·)

/-- The bytes of a text for a file. -/
def encode (t : Text) : Except EncodingFault (List UInt8) :=
  encodeFrom (fun _ => none) 0 t

/-- The bytes of a path as the system knows it. -/
def encodePath (t : Text) : Except EncodingFault (List UInt8) :=
  encodeFrom escapedByte? 0 t

/-- Makes each end of a line a line feed: a carriage return, a line feed, or the two in this
order. -/
def unifyLineEnds : Text → Text
  | [] => []
  | c :: t =>
    if c = '\r'.toNat then
      match t with
      | [] => ['\n'.toNat]
      | d :: u =>
        if d = '\n'.toNat then '\n'.toNat :: unifyLineEnds u
        else '\n'.toNat :: unifyLineEnds (d :: u)
    else c :: unifyLineEnds t

/-- The text of a source file. -/
def ofBytes (bytes : List UInt8) : Text :=
  unifyLineEnds (decodeLossy bytes)

end TypeAtlas.Text
