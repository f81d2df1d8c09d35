/-!
# UTF-8

`Utf8.encode` writes characters as bytes and `Utf8.decode` reads them back.  A character has
one spelling, the bytes that `String.utf8EncodeChar` gives it, and `Utf8.next?` accepts no
other: overlong forms, surrogates and cut-off sequences are refused.  A refusal of
`Utf8.decode` carries the number of bytes before the first offending one.
-/

namespace Reconciliation.Utf8

/-- The bytes of a text. -/
def encode (s : List Char) : List UInt8 :=
  s.flatMap String.utf8EncodeChar

/-- The number of bytes that a sequence with this first byte spans. -/
def span (first : UInt8) : Nat :=
  if first < 0x80 then 1 else if first < 0xE0 then 2 else if first < 0xF0 then 3 else 4

/-- The code point that a sequence of one to four bytes spells. -/
def codePoint : List UInt8 → Nat
  | [a] => a.toNat
  | [a, b] => a.toNat % 32 * 64 + b.toNat % 64
  | [a, b, c] => (a.toNat % 16 * 64 + b.toNat % 64) * 64 + c.toNat % 64
  | [a, b, c, d] =>
    ((a.toNat % 8 * 64 + b.toNat % 64) * 64 + c.toNat % 64) * 64 + d.toNat % 64
  | _ => 0

/-- The first character of a byte sequence, if the sequence begins with the spelling of one. -/
def next? : List UInt8 → Option Char
  | [] => none
  | first :: rest =>
    let spelling := (first :: rest).take (span first)
    let c := Char.ofNat (codePoint spelling)
    if String.utf8EncodeChar c = spelling then some c else none

theorem next?_eq_some {bytes : List UInt8} {c : Char} (h : next? bytes = some c) :
  ∃ rest, bytes = String.utf8EncodeChar c ++ rest
  := by
  cases bytes with
  | nil => simp [next?] at h
  | cons first rest =>
    simp only [next?] at h
    split at h
    · next hspell =>
      obtain rfl := Option.some.inj h
      refine ⟨(first :: rest).drop (span first), ?_⟩
      rw [hspell, List.take_append_drop]
    · cases h

/-- Reading past a character leaves fewer bytes. -/
theorem length_drop_lt {bytes : List UInt8} {c : Char} (h : next? bytes = some c) :
  (bytes.drop c.utf8Size).length < bytes.length
  := by
  obtain ⟨rest, rfl⟩ := next?_eq_some h
  have hpos := c.utf8Size_pos
  simp only [List.length_drop, List.length_append, String.length_utf8EncodeChar]
  omega

/-- The characters of a byte sequence, or the number of bytes before the first one that is
not part of a character. -/
def decode (bytes : List UInt8) : Except Nat (List Char) :=
  go 0 [] bytes
where
  /-- Reading on after `read` bytes, with the characters read so far in reverse. -/
  go (read : Nat) (sofar : List Char) (bytes : List UInt8) : Except Nat (List Char) :=
    match _h : next? bytes with
    | some c => go (read + c.utf8Size) (c :: sofar) (bytes.drop c.utf8Size)
    | none => if bytes.isEmpty then .ok sofar.reverse else .error read
  termination_by bytes.length
  decreasing_by exact length_drop_lt _h

/-- The text of a byte sequence, if it is UTF-8. -/
def decodeString (bytes : List UInt8) : Except Nat String :=
  (decode bytes).map String.ofList

/-- The bytes of a string. -/
def encodeString (s : String) : List UInt8 :=
  encode s.toList

end Reconciliation.Utf8
