import GraphProjection.Page.Cursor
import Mathlib.Tactic.Lemma

/-!
# Reading back cursors

A cursor is opaque to its holder, so all that can be asked of its text is that whoever wrote it
can read it.  Main statement: `Cursor.decode?_encode`, the offset is read back, up to the largest
offset that a storage can be asked for.

The text is written in three layers, the digits of the offset, the label before them and the
base64 form of the bytes, and each layer is undone by its own lemma.  For base64 the step between
bytes and characters is the list of six-bit numbers (`sextets`): its characters are those of
`encode` (`encode_eq_map_digit`), and three bytes are put together again from four of them.
-/

namespace GraphProjection

namespace Text.Base64

/-! ## Bytes and six-bit numbers -/

/-- The six-bit numbers of a sequence of bytes. -/
def sextets : List UInt8 → List Nat
  | a :: b :: c :: rest =>
    let n := a.toNat * 65536 + b.toNat * 256 + c.toNat
    n / 262144 :: n / 4096 % 64 :: n / 64 % 64 :: n % 64 :: sextets rest
  | [a, b] =>
    let n := a.toNat * 256 + b.toNat
    [n / 1024, n / 16 % 64, n % 16 * 4]
  | [a] => [a.toNat / 4, a.toNat % 4 * 16]
  | [] => []

theorem encode_eq_map_digit (bytes : List UInt8) : encode bytes = (sextets bytes).map digit := by
  fun_induction sextets bytes with
  | case1 a b c rest n ih => simp [encode, ih, n]
  | case2 a b n => simp [encode, n]
  | case3 a => simp [encode]
  | case4 => rfl

lemma lt_of_mem_sextets {bytes : List UInt8} {n : Nat} (h : n ∈ sextets bytes) : n < 64 := by
  fun_induction sextets bytes with
  | case1 a b c rest m ih =>
    have ha := a.toNat_lt
    have hb := b.toNat_lt
    have hc := c.toNat_lt
    simp only [List.mem_cons] at h
    rcases h with rfl | rfl | rfl | rfl | h
    all_goals first | exact ih h | omega
  | case2 a b m =>
    have ha := a.toNat_lt
    have hb := b.toNat_lt
    simp only [List.mem_cons, List.not_mem_nil, or_false] at h
    omega
  | case3 a =>
    have ha := a.toNat_lt
    simp only [List.mem_cons, List.not_mem_nil, or_false] at h
    omega
  | case4 => simp at h

lemma digitValue?_digit {n : Nat} (h : n < 64) : digitValue? (digit n) = some n := by
  have all : ∀ m : Fin 64, digitValue? (digit m) = some m.val := by decide +kernel
  exact all ⟨n, h⟩

/-- A byte is put together from the parts of a number that hold it. -/
lemma ofNat_eq_of_toNat_eq {a : UInt8} {n : Nat} (h : n = a.toNat) : UInt8.ofNat n = a := by
  rw [h, UInt8.ofNat_toNat]

lemma ofSextets?_sextets (bytes : List UInt8) : ofSextets? (sextets bytes) = some bytes := by
  -- Whole groups of three, then one or two bytes that are left over.
  fun_induction sextets bytes with
  | case1 a b c rest n ih =>
    have ha := a.toNat_lt
    have hb := b.toNat_lt
    have hc := c.toNat_lt
    have whole : n / 262144 * 262144 + n / 4096 % 64 * 4096 + n / 64 % 64 * 64 + n % 64 = n := by
      omega
    simp only [ofSextets?, ih, whole, Option.map_some]
    rw [ofNat_eq_of_toNat_eq (a := a) (by omega), ofNat_eq_of_toNat_eq (a := b) (by omega),
      ofNat_eq_of_toNat_eq (a := c) (by omega)]
  | case2 a b n =>
    have ha := a.toNat_lt
    have hb := b.toNat_lt
    have whole : n / 1024 * 4096 + n / 16 % 64 * 64 + n % 16 * 4 = n * 4 := by omega
    simp only [ofSextets?, whole]
    rw [if_pos (by omega), ofNat_eq_of_toNat_eq (a := a) (by omega),
      ofNat_eq_of_toNat_eq (a := b) (by omega)]
  | case3 a =>
    have ha := a.toNat_lt
    have whole : a.toNat / 4 * 64 + a.toNat % 4 * 16 = a.toNat * 16 := by omega
    simp only [ofSextets?, whole]
    rw [if_pos (by omega), ofNat_eq_of_toNat_eq (a := a) (by omega)]
  | case4 => rfl

lemma mapM_digitValue?_map_digit {ns : List Nat} (h : ∀ n ∈ ns, n < 64) :
    (ns.map digit).mapM digitValue? = some ns := by
  induction ns with
  | nil => rfl
  | cons n ns ih =>
    rw [List.map_cons, List.mapM_cons, ih fun m hm => h m (List.mem_cons_of_mem _ hm),
      digitValue?_digit (h n List.mem_cons_self)]
    rfl

theorem decode?_encode (bytes : List UInt8) : decode? (encode bytes) = some bytes := by
  rw [decode?, encode_eq_map_digit, mapM_digitValue?_map_digit fun n hn => lt_of_mem_sextets hn]
  exact ofSextets?_sextets bytes

end Text.Base64

namespace Cursor

/-! ## The text behind a cursor -/

lemma readDecimal?_toDigits (n : Nat) : readDecimal? (Nat.toDigits 10 n) = some n := by
  have digits : (Nat.toDigits 10 n).all Char.isDigit = true :=
    List.all_eq_true.2 fun c hc => Nat.isDigit_of_mem_toDigits (by decide) (by decide) hc
  cases h : Nat.toDigits 10 n with
  | nil => exact absurd h Nat.toDigits_ne_nil
  | cons c cs =>
    rw [h, List.all_cons, Bool.and_eq_true] at digits
    -- a sign is no digit, so none is stripped
    have sign : c ≠ '+' := by rintro rfl; exact absurd digits.1 (by decide)
    have value : Nat.ofDigitChars 10 (c :: cs) 0 = n := h ▸ Nat.ofDigitChars_ten_toDigits
    simpa [readDecimal?, sign, digits.1, value] using digits.2

lemma ofPlain?_plain (n : Nat) :
    ofPlain? (plain n) = if n ≤ maxOffset then some n else none := by
  have stripped : label.isPrefixOf? (plain n) = some (Nat.toDigits 10 n) := rfl
  simp [ofPlain?, stripped, readDecimal?_toDigits, Option.filter]

lemma toNat_lt_of_mem_label {c : Char} (h : c ∈ label) : c.toNat < 128 := by
  have all : label.all (fun d => decide (d.toNat < 128)) = true := by decide
  exact of_decide_eq_true (List.all_eq_true.1 all c h)

lemma toNat_lt_of_isDigit {c : Char} (h : c.isDigit = true) : c.toNat < 128 := by
  simp only [Char.isDigit, Bool.and_eq_true, decide_eq_true_eq, ge_iff_le,
    UInt32.le_iff_toNat_le] at h
  exact Nat.lt_of_le_of_lt h.2 (by decide)

/-- The text behind a cursor has only characters of one byte. -/
lemma toNat_lt_of_mem_plain {n : Nat} {c : Char} (h : c ∈ plain n) : c.toNat < 256 := by
  have ascii : c.toNat < 128 := by
    rcases List.mem_append.1 h with h | h
    · exact toNat_lt_of_mem_label h
    · exact toNat_lt_of_isDigit (Nat.isDigit_of_mem_toDigits (by decide) (by decide) h)
  omega

/-- Characters of one byte are found again from their bytes. -/
lemma map_ofNat_map_ofNat {cs : List Char} (h : ∀ c ∈ cs, c.toNat < 256) :
    ((cs.map fun c => UInt8.ofNat c.toNat).map fun b => Char.ofNat b.toNat) = cs := by
  rw [List.map_map, List.map_congr_left, List.map_id]
  intro c hc
  have byte : (UInt8.ofNat c.toNat).toNat = c.toNat := UInt8.toNat_ofNat_of_lt' (h c hc)
  rw [Function.comp, byte, Char.ofNat_toNat, id]

/-- The text behind a cursor is found again. -/
lemma decode?_encode_eq (n : Nat) : decode? (encode n) = ofPlain? (plain n) := by
  rw [decode?, encode, String.toList_ofList, Text.Base64.decode?_encode, Option.bind_some,
    map_ofNat_map_ofNat fun _ => toNat_lt_of_mem_plain]

theorem decode?_encode {n : Nat} (h : n ≤ maxOffset) : decode? (encode n) = some n := by
  rw [decode?_encode_eq, ofPlain?_plain, if_pos h]

end Cursor

end GraphProjection
