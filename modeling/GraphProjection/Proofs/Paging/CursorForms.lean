import Mathlib.Algebra.Group.Nat.Defs
import Mathlib.Data.List.Basic
import GraphProjection.Proofs.Paging.CursorText

/-!
# Which texts are cursors

Cursors come back from clients, and a client may send any text.  What is read as the cursor of an
offset is said here from the outside, in three layers.

A text is written for some bytes (`Text.Base64.Writes`) when each of its characters stands for six
bits and all of these together are the bits of the bytes, with fewer than six zeros behind them.
This leaves no room for padding or foreign characters, and it leaves one text for some bytes, as the
number of zeros is fixed by the number of bits.  A number is denoted (`Cursor.Denotes`) by decimal
digits, as many as one likes, behind an optional `+`.  A cursor, then, is a text written for the
label and such a number, where the number is an offset that a storage can be asked for.

Main statement: **`Cursor.decode?_eq_some_iff_writes`**.
-/

namespace GraphProjection

namespace Text.Base64

/-! ## Numbers and their bits -/

/-- So many of the lowest bits of a number, the most significant of them first. -/
def bits : Nat → Nat → List Bool
  | 0, _ => []
  | width + 1, n => n.testBit width :: bits width n

@[simp] lemma length_bits (width n : Nat) : (bits width n).length = width := by
  induction width with
  | zero => rfl
  | succ width ih => rw [bits, List.length_cons, ih]

lemma bits_add (high low n : Nat) :
    bits (high + low) n = bits high (n / 2 ^ low) ++ bits low n := by
  induction high with
  | zero => rw [Nat.zero_add, bits, List.nil_append]
  | succ high ih =>
    rw [Nat.succ_add, bits, bits, ih, Nat.testBit_div_two_pow, List.cons_append]

lemma testBit_congr_of_bits_eq {width n m : Nat} (h : bits width n = bits width m) {i : Nat}
    (hi : i < width) : n.testBit i = m.testBit i := by
  induction width with
  | zero => exact absurd hi (Nat.not_lt_zero i)
  | succ width ih =>
    obtain ⟨hfirst, hrest⟩ := List.cons.inj h
    rcases Nat.lt_succ_iff_lt_or_eq.1 hi with hi | rfl
    · exact ih hrest hi
    · exact hfirst

lemma bits_congr {width n m : Nat} (h : ∀ i < width, n.testBit i = m.testBit i) :
    bits width n = bits width m := by
  induction width with
  | zero => rfl
  | succ width ih =>
    rw [bits, bits, h width (Nat.lt_succ_self width), ih fun i hi => h i (Nat.lt_succ_of_lt hi)]

lemma bits_mod (width n : Nat) : bits width (n % 2 ^ width) = bits width n := by
  refine bits_congr fun i hi => ?_
  rw [Nat.testBit_mod_two_pow, decide_eq_true hi, Bool.true_and]

/-- The bits of a number are those of its two parts. -/
lemma bits_append (high low : Nat) {a b n : Nat} (h : a * 2 ^ low + b = n) (hb : b < 2 ^ low) :
    bits high a ++ bits low b = bits (high + low) n := by
  have hdiv : n / 2 ^ low = a := by
    rw [← h, Nat.add_comm, Nat.add_mul_div_right _ _ (Nat.two_pow_pos low),
      Nat.div_eq_of_lt hb, Nat.zero_add]
  have hmod : n % 2 ^ low = b := by
    rw [← h, Nat.add_comm, Nat.add_mul_mod_self_right, Nat.mod_eq_of_lt hb]
  rw [bits_add, hdiv, ← bits_mod low n, hmod]

lemma bits_zero (width : Nat) : bits width 0 = List.replicate width false := by
  induction width with
  | zero => rfl
  | succ width ih => rw [bits, Nat.zero_testBit, ih, List.replicate_succ]

lemma eq_of_bits_eq {width n m : Nat} (hn : n < 2 ^ width) (hm : m < 2 ^ width)
    (h : bits width n = bits width m) : n = m := by
  refine Nat.eq_of_testBit_eq fun i => ?_
  rcases Nat.lt_or_ge i width with hi | hi
  · exact testBit_congr_of_bits_eq h hi
  · have hpow : 2 ^ width ≤ 2 ^ i := Nat.pow_le_pow_right (by decide) hi
    rw [Nat.testBit_lt_two_pow (Nat.lt_of_lt_of_le hn hpow),
      Nat.testBit_lt_two_pow (Nat.lt_of_lt_of_le hm hpow)]

lemma length_flatMap_bits (width : Nat) (ns : List Nat) :
    (ns.flatMap (bits width)).length = width * ns.length := by
  induction ns with
  | nil => rfl
  | cons n ns ih =>
    rw [List.flatMap_cons, List.length_append, ih, length_bits, List.length_cons, Nat.mul_succ,
      Nat.add_comm]

/-- Numbers of one width are known from their bits. -/
lemma eq_of_flatMap_bits_eq {width : Nat} {ns ms : List Nat} (hns : ∀ n ∈ ns, n < 2 ^ width)
    (hms : ∀ m ∈ ms, m < 2 ^ width) (hlength : ns.length = ms.length)
    (h : ns.flatMap (bits width) = ms.flatMap (bits width)) : ns = ms := by
  induction ns generalizing ms with
  | nil => exact (List.eq_nil_of_length_eq_zero hlength.symm).symm
  | cons n ns ih =>
    cases ms with
    | nil => exact nomatch hlength
    | cons m ms =>
      rw [List.forall_mem_cons] at hns hms
      obtain ⟨hfirst, hrest⟩ := List.append_inj h (by rw [length_bits, length_bits])
      rw [eq_of_bits_eq hns.1 hms.1 hfirst, ih hns.2 hms.2 (Nat.succ.inj hlength) hrest]

/-! ## The text that is written for some bytes -/

/-- The number of a character: capital letters come first, then small ones, then digits, and last
the two signs that are safe in an address. -/
def number? (c : Char) : Option Nat :=
  if c.isUpper then some (c.toNat - 'A'.toNat)
  else if c.isLower then some (26 + (c.toNat - 'a'.toNat))
  else if c.isDigit then some (52 + (c.toNat - '0'.toNat))
  else if c = '-' then some 62
  else if c = '_' then some 63
  else none

/-- The bits of a sequence of bytes. -/
def bitsOfBytes (bytes : List UInt8) : List Bool := bytes.flatMap fun b => bits 8 b.toNat

/-- A text is written for bytes: the bits that its characters stand for are those of the bytes, and
fewer than six zeros. -/
def Writes (cs : List Char) (bytes : List UInt8) : Prop :=
  ∃ (numbers : List Nat) (spare : Nat), cs.map number? = numbers.map some ∧ spare < 6 ∧
    numbers.flatMap (bits 6) = bitsOfBytes bytes ++ List.replicate spare false

lemma digitValue?_eq_number? (c : Char) : digitValue? c = number? c := by
  by_cases h : c.toNat < 128
  · have all : ∀ n : Fin 128, digitValue? (Char.ofNat n) = number? (Char.ofNat n) := by
      decide +kernel
    simpa using all ⟨c.toNat, h⟩
  · have foreign : c ∉ alphabet := by
      intro hc
      have all : alphabet.all (fun d => decide (d.toNat < 128)) = true := by decide
      exact h (of_decide_eq_true (List.all_eq_true.1 all c hc))
    have hdash : c ≠ '-' := by rintro rfl; exact h (by decide)
    have hline : c ≠ '_' := by rintro rfl; exact h (by decide)
    have outside : ∀ high : UInt32, high.toNat < 128 → decide (c.val ≤ high) = false := by
      intro high hhigh
      rw [decide_eq_false_iff_not, UInt32.not_le, UInt32.lt_iff_toNat_lt]
      exact Nat.lt_of_lt_of_le hhigh (Nat.le_of_not_lt h)
    have hupper : c.isUpper = false :=
      decide_eq_false fun hc => of_decide_eq_false (outside 90 (by decide)) hc.2
    have hlower : c.isLower = false := Bool.and_eq_false_imp.2 fun _ => outside 122 (by decide)
    have hdigit : c.isDigit = false := Bool.and_eq_false_imp.2 fun _ => outside 57 (by decide)
    rw [digitValue?, List.idxOf?_eq_none_iff.2 foreign, number?]
    simp [hupper, hlower, hdigit, hdash, hline]

lemma mapM_digitValue?_eq_some_iff {cs : List Char} {numbers : List Nat} :
    cs.mapM digitValue? = some numbers ↔ cs.map number? = numbers.map some := by
  induction cs generalizing numbers with
  | nil => cases numbers <;> simp
  | cons c cs ih =>
    cases numbers with
    | nil => simp [Option.bind_eq_some_iff]
    | cons n ns => simp [Option.bind_eq_some_iff, digitValue?_eq_number?, ih]

lemma lt_of_number?_eq_some {c : Char} {n : Nat} (h : number? c = some n) : n < 64 := by
  rw [← digitValue?_eq_number?, digitValue?] at h
  exact (List.idxOf?_eq_some_iff.1 h).1

lemma lt_of_map_number?_eq {cs : List Char} {numbers : List Nat}
    (h : cs.map number? = numbers.map some) : ∀ n ∈ numbers, n < 64 := by
  intro n hn
  have hmem : some n ∈ cs.map number? := h ▸ List.mem_map_of_mem hn
  obtain ⟨c, -, hc⟩ := List.mem_map.1 hmem
  exact lt_of_number?_eq_some hc

lemma bits_mod_byte (n : Nat) : bits 8 (n % 256) = bits 8 n := bits_mod 8 n

lemma bits_ofNat (n : Nat) : bits 8 (UInt8.ofNat n).toNat = bits 8 n := by
  rw [UInt8.toNat_ofNat', bits_mod]

/-- A number whose lowest bits are zeros. -/
lemma bits_of_mod_eq_zero (high low : Nat) {n : Nat} (h : n % 2 ^ low = 0) :
    bits (high + low) n = bits high (n / 2 ^ low) ++ List.replicate low false := by
  rw [bits_add, ← bits_mod low n, h, bits_zero]

/-- Six-bit numbers that are put together to bytes have the bits of these, and spare ones. -/
lemma exists_flatMap_bits_of_ofSextets? (numbers : List Nat) (hnumbers : ∀ n ∈ numbers, n < 64) :
    ∀ bytes, ofSextets? numbers = some bytes → ∃ spare < 6,
      numbers.flatMap (bits 6) = bitsOfBytes bytes ++ List.replicate spare false := by
  fun_induction ofSextets? numbers with
  | case1 a b c d rest n ih =>
    simp only [List.forall_mem_cons] at hnumbers
    obtain ⟨-, hb, hc, hd, hrest⟩ := hnumbers
    intro bytes h
    obtain ⟨tail, htail, rfl⟩ := Option.map_eq_some_iff.1 h
    obtain ⟨spare, hspare, hbits⟩ := ih hrest tail htail
    -- Four sextets and three bytes are the same 24 bits, cut at different places.
    have hsextets : bits 6 a ++ (bits 6 b ++ (bits 6 c ++ bits 6 d)) = bits 24 n := by
      rw [bits_append 6 6 rfl hd, bits_append 6 12 rfl (by omega),
        bits_append 6 18 rfl (by omega)]
      exact congrArg (bits 24) (by omega)
    have hbytes : bits 24 n = bits 8 (n / 65536) ++ (bits 8 (n / 256) ++ bits 8 n) := by
      rw [bits_add 8 16, bits_add 8 8]
      rfl
    refine ⟨spare, hspare, ?_⟩
    simp only [List.flatMap_cons, bitsOfBytes, bits_ofNat, bits_mod_byte] at hbits ⊢
    rw [hbits]
    simp only [← List.append_assoc] at hsextets hbytes ⊢
    rw [hsextets, hbytes]
  | case2 a b c n hspare =>
    simp only [List.forall_mem_cons] at hnumbers
    obtain ⟨-, hb, hc, -⟩ := hnumbers
    rintro bytes ⟨rfl⟩
    have hsextets : bits 6 a ++ (bits 6 b ++ bits 6 c) = bits 18 n := by
      rw [bits_append 6 6 rfl hc, bits_append 6 12 rfl (by omega)]
      exact congrArg (bits 18) (by omega)
    have hbytes : bits 18 n = bits 8 (n / 1024) ++ bits 8 (n / 4) ++ [false, false] := by
      rw [bits_of_mod_eq_zero 16 2 hspare, bits_add 8 8, Nat.div_div_eq_div_mul]
      rfl
    refine ⟨2, by decide, ?_⟩
    simp [bitsOfBytes, bits_mod_byte, hsextets, hbytes]
  | case3 a b c n hspare => exact fun _ h => nomatch h
  | case4 a b n hspare =>
    simp only [List.forall_mem_cons] at hnumbers
    obtain ⟨-, hb, -⟩ := hnumbers
    rintro bytes ⟨rfl⟩
    -- A group at the end that is not full leaves bits to spare, which have to be zero.
    have hsextets : bits 6 a ++ bits 6 b = bits 12 n := bits_append 6 6 rfl hb
    have hbytes : bits 12 n = bits 8 (n / 16) ++ [false, false, false, false] :=
      bits_of_mod_eq_zero 8 4 hspare
    refine ⟨4, by decide, ?_⟩
    simp [bitsOfBytes, bits_mod_byte, hsextets, hbytes]
  | case5 a b n hspare => exact fun _ h => nomatch h
  | case6 => exact fun _ h => nomatch h
  | case7 =>
    rintro bytes ⟨rfl⟩
    exact ⟨0, by decide, rfl⟩

/-- **Reading accepts the one text that is written for some bytes.** -/
theorem decode?_eq_some_iff {cs : List Char} {bytes : List UInt8} :
    decode? cs = some bytes ↔ Writes cs bytes := by
  constructor
  · intro h
    obtain ⟨numbers, hnumbers, hbytes⟩ := Option.bind_eq_some_iff.1 h
    rw [mapM_digitValue?_eq_some_iff] at hnumbers
    obtain ⟨spare, hspare, hbits⟩ := exists_flatMap_bits_of_ofSextets? numbers
      (lt_of_map_number?_eq hnumbers) bytes hbytes
    exact ⟨numbers, spare, hnumbers, hspare, hbits⟩
  · rintro ⟨numbers, spare, hnumbers, hspare, hbits⟩
    -- The six-bit numbers of the bytes have the same bits, up to a number of spare ones that is
    -- fixed by their length, so they are the same numbers.
    obtain ⟨spare', hspare', hbits'⟩ := exists_flatMap_bits_of_ofSextets? (sextets bytes)
      (fun _ => lt_of_mem_sextets) bytes (ofSextets?_sextets bytes)
    have hlength := congrArg List.length hbits
    have hlength' := congrArg List.length hbits'
    rw [length_flatMap_bits, List.length_append, List.length_replicate] at hlength hlength'
    have hsame : numbers.length = (sextets bytes).length ∧ spare = spare' := by omega
    have hnumbers' : numbers = sextets bytes :=
      eq_of_flatMap_bits_eq (lt_of_map_number?_eq hnumbers) (fun _ => lt_of_mem_sextets) hsame.1
        (by rw [hbits, hbits', hsame.2])
    rw [decode?, mapM_digitValue?_eq_some_iff.2 hnumbers, hnumbers', Option.bind_some,
      ofSextets?_sextets]

end Text.Base64

namespace Cursor

/-! ## Numbers in decimal -/

/-- A text denotes a number: digits, one at least, behind an optional sign. -/
def Denotes (cs : List Char) (n : Nat) : Prop :=
  ∃ sign digits, cs = sign ++ digits ∧ (sign = [] ∨ sign = ['+']) ∧ digits ≠ [] ∧
    (∀ c ∈ digits, c.isDigit = true) ∧ Nat.ofDigitChars 10 digits 0 = n

/-- Digits without a sign. -/
lemma readDecimal?_eq_some_iff_of_ne {cs : List Char} (hsign : ∀ rest, cs ≠ '+' :: rest)
    {n : Nat} : readDecimal? cs = some n ↔
      cs ≠ [] ∧ (∀ c ∈ cs, c.isDigit = true) ∧ Nat.ofDigitChars 10 cs 0 = n := by
  rw [readDecimal?]
  · simp [and_assoc]
  · exact hsign

lemma readDecimal?_sign (digits : List Char) (n : Nat) :
    readDecimal? ('+' :: digits) = some n ↔
      digits ≠ [] ∧ (∀ c ∈ digits, c.isDigit = true) ∧ Nat.ofDigitChars 10 digits 0 = n := by
  rw [readDecimal?, ← List.all_eq_true]
  cases digits <;> simp

lemma readDecimal?_eq_some_iff {cs : List Char} {n : Nat} :
    readDecimal? cs = some n ↔ Denotes cs n := by
  have hplus : ¬ '+'.isDigit = true := by decide
  constructor
  · intro h
    by_cases hsign : ∃ digits, cs = '+' :: digits
    · obtain ⟨digits, rfl⟩ := hsign
      exact ⟨['+'], digits, rfl, .inr rfl, (readDecimal?_sign digits n).1 h⟩
    · have hsign' : ∀ digits, cs ≠ '+' :: digits := fun digits hcs => hsign ⟨digits, hcs⟩
      exact ⟨[], cs, rfl, .inl rfl, (readDecimal?_eq_some_iff_of_ne hsign').1 h⟩
  · rintro ⟨sign, digits, rfl, rfl | rfl, h⟩
    · refine (readDecimal?_eq_some_iff_of_ne ?_).2 h
      rintro rest (rfl : digits = _)
      exact hplus (h.2.1 '+' List.mem_cons_self)
    · exact (readDecimal?_sign digits n).2 h

/-! ## The texts of cursors -/

lemma ofPlain?_eq_some_iff {cs : List Char} {n : Nat} :
    ofPlain? cs = some n ↔ n ≤ maxOffset ∧ ∃ number, cs = label ++ number ∧ Denotes number n := by
  simp only [ofPlain?, Option.filter_eq_some_iff, Option.bind_eq_some_iff,
    List.isPrefixOf?_eq_some_iff_append_eq, readDecimal?_eq_some_iff, decide_eq_true_eq]
  constructor
  · rintro ⟨⟨number, hcs, hnumber⟩, hn⟩
    exact ⟨hn, number, hcs.symm, hnumber⟩
  · rintro ⟨hn, number, hcs, hnumber⟩
    exact ⟨⟨number, hcs.symm, hnumber⟩, hn⟩

/-- The text of an offset is plain ASCII. -/
lemma Denotes.toNat_lt {number : List Char} {n : Nat} (h : Denotes number n) :
    ∀ c ∈ label ++ number, c.toNat < 128 := by
  obtain ⟨sign, digits, rfl, hsign, -, hdigits, -⟩ := h
  intro c hc
  simp only [List.mem_append] at hc
  rcases hc with hc | hc | hc
  · exact toNat_lt_of_mem_label hc
  · rcases hsign with rfl | rfl
    · exact absurd hc List.not_mem_nil
    · exact List.mem_singleton.1 hc ▸ by decide
  · exact toNat_lt_of_isDigit (hdigits c hc)

lemma utf8EncodeChar_of_lt {c : Char} (h : c.toNat < 128) :
    String.utf8EncodeChar c = [UInt8.ofNat c.toNat] := by
  have hsize : c.utf8Size = 1 :=
    Char.utf8Size_eq_one_iff.2 (UInt32.le_iff_toNat_le.2 (Nat.le_of_lt_succ h))
  rw [String.utf8EncodeChar_eq_singleton hsize]
  rfl

/-- Bytes stand for the characters of an ASCII text where they are its UTF-8 form. -/
theorem map_ofNat_eq_iff {cs : List Char} (h : ∀ c ∈ cs, c.toNat < 128) {bytes : List UInt8} :
    (bytes.map fun b => Char.ofNat b.toNat) = cs ↔ bytes = cs.flatMap String.utf8EncodeChar := by
  have hbyte : ∀ b : UInt8, UInt8.ofNat (Char.ofNat b.toNat).toNat = b := by
    have all : ∀ n : Fin 256, (Char.ofNat n).toNat = n := by decide +kernel
    intro b
    rw [all ⟨b.toNat, b.toNat_lt⟩, UInt8.ofNat_toNat]
  have hchars : cs.flatMap String.utf8EncodeChar = cs.map fun c => UInt8.ofNat c.toNat := by
    rw [List.flatMap_congr fun c hc => utf8EncodeChar_of_lt (h c hc), List.map_eq_flatMap]
  rw [hchars]
  constructor
  · rintro rfl
    rw [List.map_map]
    exact (List.map_id'' hbyte bytes).symm
  · rintro rfl
    exact map_ofNat_map_ofNat fun c hc => Nat.lt_trans (h c hc) (by decide)

/-- **Cursors name their offset, and nothing else is one.**

The cursor of an offset is read back as that offset, up to the largest one that a storage can be
asked for, and from there on as none.  And of all texts those are read as the cursor of an offset
that are written for the label and the offset in decimal, where a sign and leading zeros are
allowed. -/
theorem decode?_eq_some_iff_writes :
    (∀ n, decode? (encode n) = if n ≤ 2 ^ 63 - 1 then some n else none) ∧
      ∀ cursor n, decode? cursor = some n ↔ n ≤ 2 ^ 63 - 1 ∧ ∃ number, Denotes number n ∧
        Text.Base64.Writes cursor.toList ((label ++ number).flatMap String.utf8EncodeChar) := by
  have hmax : maxOffset = 2 ^ 63 - 1 := rfl
  rw [← hmax]
  refine ⟨fun n => ?_, fun cursor n => ?_⟩
  · rw [decode?_encode_eq, ofPlain?_plain]
  · simp only [decode?, Option.bind_eq_some_iff, Text.Base64.decode?_eq_some_iff,
      ofPlain?_eq_some_iff]
    constructor
    · rintro ⟨bytes, hwrites, hn, number, hbytes, hnumber⟩
      rw [map_ofNat_eq_iff hnumber.toNat_lt] at hbytes
      exact ⟨hn, number, hnumber, hbytes ▸ hwrites⟩
    · rintro ⟨hn, number, hnumber, hwrites⟩
      exact ⟨_, hwrites, hn, number, (map_ofNat_eq_iff hnumber.toNat_lt).2 rfl, hnumber⟩

/-- A last character whose spare bits are not zeros is refused. -/
example : decode? "b2Zmc2V0OjA" = some 0 ∧ decode? "b2Zmc2V0OjB" = none := by decide +kernel

end Cursor

end GraphProjection
