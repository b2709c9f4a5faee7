import Synopsis.Text.Quote

/-!
# Reading UTF-8

`decode` turns bytes into text or reports the first fault: the bytes that belong to it, where they
stand and what is wrong with them. Overlong forms, surrogates and values above the last code point
are faults, since the byte after the lead is held to the range that excludes them.
-/

namespace Synopsis.Text

/-- What is wrong with a sequence of bytes. -/
inductive DecodeReason where
  | invalidStart
  | unexpectedEnd
  | invalidContinuation
deriving DecidableEq, Repr

/-- The wording of a reason. -/
def DecodeReason.message : DecodeReason → Text
  | .invalidStart => "invalid start byte".toList
  | .unexpectedEnd => "unexpected end of data".toList
  | .invalidContinuation => "invalid continuation byte".toList

/-- The bytes that do not form a character, from `position` on. -/
structure DecodeFault where
  position : Nat
  bytes : List UInt8
  reason : DecodeReason
deriving DecidableEq, Repr

/-- Names a single byte by its value and several by their range. -/
def DecodeFault.message (f : DecodeFault) : Text :=
  let decimal (n : Nat) : Text := Nat.toDigits 10 n
  let place : Text := match f.bytes with
    | [b] => "byte 0x".toList ++ hex 2 b.toNat ++ " in position ".toList ++ decimal f.position
    | bs => "bytes in position ".toList ++ decimal f.position ++ "-".toList ++
        decimal (f.position + bs.length - 1)
  "'utf-8' codec can't decode ".toList ++ place ++ ": ".toList ++ f.reason.message

/-- A character of which some bytes are still to come; the next one must lie in `low` to `high`. -/
structure Pending where
  seen : List UInt8
  value : Nat
  missing : Nat
  low : Nat
  high : Nat

/-- The character that a lead byte announces, if it can start a longer sequence. -/
def Pending.ofLead? (b : UInt8) : Option Pending :=
  let n := b.toNat
  if 0xC2 ≤ n && n ≤ 0xDF then some ⟨[b], n - 0xC0, 1, 0x80, 0xBF⟩
  else if 0xE0 ≤ n && n ≤ 0xEF then
    some ⟨[b], n - 0xE0, 2, if n = 0xE0 then 0xA0 else 0x80, if n = 0xED then 0x9F else 0xBF⟩
  else if 0xF0 ≤ n && n ≤ 0xF4 then
    some ⟨[b], n - 0xF0, 3, if n = 0xF0 then 0x90 else 0x80, if n = 0xF4 then 0x8F else 0xBF⟩
  else none

/-- The character with one more byte read. -/
def Pending.extend (p : Pending) (b : UInt8) : Pending :=
  ⟨p.seen ++ [b], p.value * 64 + (b.toNat - 0x80), p.missing - 1, 0x80, 0xBF⟩

/-- The fault of a sequence that stops before `position`. -/
def Pending.fault (p : Pending) (position : Nat) (reason : DecodeReason) : DecodeFault :=
  ⟨position - p.seen.length, p.seen, reason⟩

/-- Decodes from a byte position on, possibly in the middle of a character. -/
def decodeFrom : (position : Nat) → Option Pending → List UInt8 → Except DecodeFault Text
  | _, none, [] => .ok []
  | k, some p, [] => .error (p.fault k .unexpectedEnd)
  | k, none, b :: bs =>
    if b.toNat < 0x80 then (decodeFrom (k + 1) none bs).map (Char.ofNat b.toNat :: ·)
    else match Pending.ofLead? b with
      | some p => decodeFrom (k + 1) (some p) bs
      | none => .error ⟨k, [b], .invalidStart⟩
  | k, some p, b :: bs =>
    if p.low ≤ b.toNat && b.toNat ≤ p.high then
      let q := p.extend b
      if q.missing = 0 then (decodeFrom (k + 1) none bs).map (Char.ofNat q.value :: ·)
      else decodeFrom (k + 1) (some q) bs
    else .error (p.fault k .invalidContinuation)

/-- The text of a byte sequence, or its first fault. -/
def decode (bytes : List UInt8) : Except DecodeFault Text := decodeFrom 0 none bytes

end Synopsis.Text
