import Mathlib.Data.List.DropRight
import Reconciliation.Text.Blank
import Reconciliation.Text.Utf8

/-!
# Reading back UTF-8

What `Utf8.encode` writes, `Utf8.decode` reads back (`Utf8.decode_encode`).  A byte below 128 is the
whole spelling of a character, and never a part of another one (`Utf8.encodeChar_of_mem`), so
removing ASCII blanks from the bytes of a text is removing them from the text
(`Utf8.stripBoth_encode`).
-/

namespace Reconciliation.Utf8

/-! ### Spellings -/

/-- The spelling of the character with this code point: one byte below 128, or a longer sequence
of bytes that are all above. -/
inductive Spells (n : Nat) : List UInt8 → Prop where
  | one {a : UInt8} (ha : a.toNat < 0x80) (hn : codePoint [a] = n) : Spells n [a]
  | two {a b : UInt8} (ha : 0x80 ≤ a.toNat ∧ a.toNat < 0xE0) (hb : 0x80 ≤ b.toNat)
      (hn : codePoint [a, b] = n) : Spells n [a, b]
  | three {a b c : UInt8} (ha : 0xE0 ≤ a.toNat ∧ a.toNat < 0xF0) (hb : 0x80 ≤ b.toNat)
      (hc : 0x80 ≤ c.toNat) (hn : codePoint [a, b, c] = n) : Spells n [a, b, c]
  | four {a b c d : UInt8} (ha : 0xF0 ≤ a.toNat) (hb : 0x80 ≤ b.toNat) (hc : 0x80 ≤ c.toNat)
      (hd : 0x80 ≤ d.toNat) (hn : codePoint [a, b, c, d] = n) : Spells n [a, b, c, d]

variable {n : Nat} {bytes : List UInt8}

theorem spells_encodeChar (c : Char) :
  Spells c.toNat (String.utf8EncodeChar c)
  := by
  have hmax : c.val.toNat < 0x110000 := by
    rcases c.valid with h | h
    · exact Nat.lt_trans h (by decide)
    · exact h.2
  have hbyte : ∀ m : Nat, m < 256 → (UInt8.ofNat m).toNat = m :=
    fun _ hm => UInt8.toNat_ofNat_of_lt' hm
  show Spells c.val.toNat _
  unfold String.utf8EncodeChar
  dsimp only
  split
  · apply Spells.one <;> simp only [codePoint, hbyte _ (by omega : c.val.toNat < 256)]
    omega
  · split
    · have ha := hbyte (c.val.toNat / 64 % 0x20 + 0xc0) (by omega)
      have hb := hbyte (c.val.toNat % 0x40 + 0x80) (by omega)
      apply Spells.two <;> simp only [codePoint, ha, hb] <;> omega
    · split
      · have ha := hbyte (c.val.toNat / 4096 % 0x10 + 0xe0) (by omega)
        have hb := hbyte (c.val.toNat / 64 % 0x40 + 0x80) (by omega)
        have hc := hbyte (c.val.toNat % 0x40 + 0x80) (by omega)
        apply Spells.three <;> simp only [codePoint, ha, hb, hc] <;> omega
      · have ha := hbyte (c.val.toNat / 262144 % 0x08 + 0xf0) (by omega)
        have hb := hbyte (c.val.toNat / 4096 % 0x40 + 0x80) (by omega)
        have hc := hbyte (c.val.toNat / 64 % 0x40 + 0x80) (by omega)
        have hd := hbyte (c.val.toNat % 0x40 + 0x80) (by omega)
        apply Spells.four <;> simp only [codePoint, ha, hb, hc, hd] <;> omega

theorem Spells.codePoint_eq (h : Spells n bytes) :
  codePoint bytes = n
  := by
  cases h with
  | one _ hn | two _ _ hn | three _ _ _ hn | four _ _ _ _ hn => apply hn

/-- The first byte tells the length of the spelling. -/
theorem Spells.exists_span (h : Spells n bytes) :
  ∃ first more, bytes = first :: more ∧ span first = bytes.length
  := by
  have hspan : ∀ a : UInt8, span a = if a.toNat < 0x80 then 1 else if a.toNat < 0xE0 then 2
      else if a.toNat < 0xF0 then 3 else 4 := by
    intro a
    simp only [span, UInt8.lt_iff_toNat_lt]
    rfl
  cases h with
  | one | two | three | four =>
    refine ⟨_, _, rfl, ?_⟩
    rw [hspan]
    simp only [List.length_cons, List.length_nil]
    split_ifs <;> omega

/-- A byte below 128 is a whole spelling. -/
theorem Spells.of_mem (h : Spells n bytes) {b : UInt8} (hb : b ∈ bytes) (hlow : b.toNat < 0x80) :
  n = b.toNat ∧ bytes = [b]
  := by
  cases h with
  | one _ hn =>
    rw [List.mem_singleton.1 hb]
    exact ⟨hn.symm, rfl⟩
  | two | three | four =>
    simp only [List.mem_cons, List.not_mem_nil, or_false] at hb
    rcases hb with rfl | rfl | rfl | rfl <;> omega

/-- A byte below 128 is the whole spelling of a character. -/
theorem encodeChar_of_mem {c : Char} {b : UInt8} (hb : b ∈ String.utf8EncodeChar c)
    (hlow : b.toNat < 0x80) :
  c.toNat = b.toNat ∧ String.utf8EncodeChar c = [b]
  := (spells_encodeChar c).of_mem hb hlow

/-! ### Reading back -/

theorem encode_append (s t : List Char) :
  encode (s ++ t) = encode s ++ encode t
  := List.flatMap_append

theorem encode_cons (c : Char) (s : List Char) :
  encode (c :: s) = String.utf8EncodeChar c ++ encode s
  := List.flatMap_cons

/-- A character is read back from the beginning of a byte sequence. -/
theorem next?_encodeChar (c : Char) (rest : List UInt8) :
  next? (String.utf8EncodeChar c ++ rest) = some c
  := by
  have hspells := spells_encodeChar c
  obtain ⟨first, more, hspelling, hspan⟩ := hspells.exists_span
  rw [hspelling] at hspan
  rw [hspelling, List.cons_append, next?, hspan, ← List.cons_append, List.take_left, ← hspelling,
    hspells.codePoint_eq, Char.ofNat_toNat, if_pos rfl]

theorem go_encode (read : Nat) (sofar s : List Char) :
  decode.go read sofar (encode s) = .ok (sofar.reverse ++ s)
  := by
  induction s generalizing read sofar with
  | nil =>
    have hnext : next? (encode []) = none := rfl
    rw [decode.go, hnext, List.append_nil]
    rfl
  | cons c s ih =>
    have hnext : next? (encode (c :: s)) = some c := next?_encodeChar c (encode s)
    have hdrop : (encode (c :: s)).drop c.utf8Size = encode s := by
      rw [encode_cons, ← String.length_utf8EncodeChar, List.drop_left]
    rw [decode.go, hnext]
    dsimp only
    rw [hdrop, ih, List.reverse_cons, List.append_assoc]
    rfl

/-- What is written is read back. -/
theorem decode_encode (s : List Char) :
  decode (encode s) = .ok s
  := go_encode 0 [] s

theorem decodeString_encode (s : List Char) :
  decodeString (encode s) = .ok (String.ofList s)
  := by
  rw [decodeString, decode_encode]
  rfl

/-- The first character shows in the first bytes. -/
theorem head?_of_prefix {c : Char} {s : List Char} (h : String.utf8EncodeChar c <+: encode s) :
  s.head? = some c
  := by
  obtain ⟨rest, hrest⟩ := h
  have hnext := next?_encodeChar c rest
  rw [hrest] at hnext
  cases s with
  | nil => cases hnext
  | cons d s => exact (next?_encodeChar d (encode s)).symm.trans hnext

/-! ### Blanks -/

/-- The blank characters that are bytes. -/
def isAsciiBlankChar (c : Char) : Bool :=
  (String.utf8EncodeChar c).any Text.isAsciiBlank

theorem toNat_lt_of_isAsciiBlank {b : UInt8} (h : Text.isAsciiBlank b) :
  b.toNat < 0x80
  := by
  simp only [Text.isAsciiBlank, Bool.or_eq_true, beq_iff_eq] at h
  rcases h with (((rfl | rfl) | rfl) | rfl) | rfl <;> decide

/-- Such a character is blank. -/
theorem isBlank_of_isAsciiBlankChar {c : Char} (h : isAsciiBlankChar c) :
  Text.isBlank c
  := by
  obtain ⟨b, hb, hblank⟩ := List.any_eq_true.1 h
  obtain ⟨hc, -⟩ := encodeChar_of_mem hb (toNat_lt_of_isAsciiBlank hblank)
  simp only [Text.isAsciiBlank, Bool.or_eq_true, beq_iff_eq] at hblank
  simp only [Text.isBlank, hc]
  rcases hblank with (((rfl | rfl) | rfl) | rfl) | rfl <;> decide

/-- The spelling of a character is a blank byte, or no byte of it is blank. -/
theorem encodeChar_blank_cases (c : Char) :
  (isAsciiBlankChar c = true ∧ ∃ b, String.utf8EncodeChar c = [b] ∧ Text.isAsciiBlank b = true) ∨
    (isAsciiBlankChar c = false ∧ ∀ b ∈ String.utf8EncodeChar c, Text.isAsciiBlank b = false)
  := by
  cases h : isAsciiBlankChar c with
  | true =>
    obtain ⟨b, hb, hblank⟩ := List.any_eq_true.1 h
    exact .inl ⟨rfl, b, (encodeChar_of_mem hb (toNat_lt_of_isAsciiBlank hblank)).2, hblank⟩
  | false =>
    refine .inr ⟨rfl, fun b hb => ?_⟩
    rw [isAsciiBlankChar, List.any_eq_false] at h
    rw [← Bool.not_eq_true]
    apply h b hb

theorem dropWhile_encode (s : List Char) :
  (encode s).dropWhile Text.isAsciiBlank = encode (s.dropWhile isAsciiBlankChar)
  := by
  induction s with
  | nil => rfl
  | cons c s ih =>
    rcases encodeChar_blank_cases c with ⟨hc, b, hspelling, hb⟩ | ⟨hc, hbytes⟩
    · rw [encode_cons, hspelling, List.singleton_append, List.dropWhile_cons_of_pos hb,
        List.dropWhile_cons_of_pos hc, ih]
    · rw [List.dropWhile_cons_of_neg (by simp [hc]), encode_cons]
      obtain ⟨first, more, hspelling, -⟩ := (spells_encodeChar c).exists_span
      rw [hspelling] at hbytes ⊢
      rw [List.cons_append, List.dropWhile_cons_of_neg]
      simp [hbytes first List.mem_cons_self]

theorem rdropWhile_encode (s : List Char) :
  (encode s).rdropWhile Text.isAsciiBlank = encode (s.rdropWhile isAsciiBlankChar)
  := by
  induction s using List.reverseRecOn with
  | nil => rfl
  | append_singleton s c ih =>
    have hsingle : encode [c] = String.utf8EncodeChar c := List.append_nil _
    rw [encode_append, hsingle]
    rcases encodeChar_blank_cases c with ⟨hc, b, hspelling, hb⟩ | ⟨hc, hbytes⟩
    · rw [hspelling, List.rdropWhile_concat_pos _ _ _ hb, List.rdropWhile_concat_pos _ _ _ hc, ih]
    · rw [List.rdropWhile_concat_neg _ _ _ (by simp [hc]), encode_append, hsingle,
        List.rdropWhile_eq_self_iff]
      intro hne
      have hlast : (encode s ++ String.utf8EncodeChar c).getLast hne ∈ String.utf8EncodeChar c := by
        rw [List.getLast_append_of_ne_nil _ String.utf8EncodeChar_ne_nil]
        apply List.getLast_mem
      rw [hbytes _ hlast]
      apply Bool.false_ne_true

/-- The bytes of a text without the ASCII blanks at both ends. -/
theorem stripBoth_encode (s : List Char) :
  Text.stripBoth Text.isAsciiBlank (encode s) = encode (Text.stripBoth isAsciiBlankChar s)
  := by
  show ((encode s).dropWhile _).rdropWhile _ = _
  rw [dropWhile_encode, rdropWhile_encode]
  rfl

end Reconciliation.Utf8
