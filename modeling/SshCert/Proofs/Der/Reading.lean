import Mathlib.Data.List.Forall2
import SshCert.Der.Writer
import SshCert.Proofs.Wire.Integer

/-
  A strict reader of DER.
  It takes definite lengths in their shortest form only, and so reads exactly the elements that are
  written, each in one way (`Der.exact_readLength`, `Der.exact_readElement`). Integers must be in
  their shortest form too. Bytes are read as an item if the reader finds it at their front, whatever
  follows (`Der.Reads`): elements are then put together to sequences as they are written
  (`Der.reads_sequence`).
-/

namespace SshCert

/-! ## Numbers in as few bytes as possible -/

namespace Bytes

theorem valueCount_le {m n : Nat} (h : m ≤ n) : valueCount m ≤ valueCount n := by
  rw [valueCount, valueCount, Nat.shiftLeft_eq, Nat.shiftLeft_eq, Nat.one_mul, Nat.one_mul]
  exact Nat.pow_le_pow_right (by decide) (Nat.mul_le_mul_left 8 h)

theorem dropZeros_eq_self_iff {b : Bytes} : dropZeros b = b ↔ b.head? ≠ some 0 := by
  cases b with
  | nil => simp [dropZeros]
  | cons x r =>
    by_cases hx : x = 0
    · have hle := length_dropZeros_le r
      subst hx
      rw [dropZeros_zero_cons]
      constructor
      · intro h
        have hlength := congrArg List.length h
        rw [List.length_cons] at hlength
        omega
      · intro h
        exact absurd rfl h
    · simp [dropZeros_cons_of_ne hx, hx]

end Bytes

namespace Der

theorem minimalBytes_zero : minimalBytes 0 = [] := by
  rw [minimalBytes, if_pos rfl]

theorem minimalBytes_of_ne_zero {n : Nat} (h : n ≠ 0) :
    minimalBytes n = minimalBytes (n / 256) ++ [UInt8.ofNat n] := by
  rw [minimalBytes, if_neg h]

theorem toNat_minimalBytes (n : Nat) : Bytes.toNat (minimalBytes n) = n := by
  fun_induction minimalBytes n with
  | case1 => rfl
  | case2 n h ih =>
    rw [Bytes.toNat_append_singleton, ih, UInt8.toNat_ofNat']
    omega

theorem head?_minimalBytes (n : Nat) : (minimalBytes n).head? ≠ some 0 := by
  fun_induction minimalBytes n with
  | case1 => nofun
  | case2 n h ih =>
    rw [List.head?_append]
    by_cases hsmall : n / 256 = 0
    · -- the only digit is the number itself
      have hdigit : UInt8.ofNat n ≠ 0 := by
        rw [Ne, ← UInt8.toNat_inj, UInt8.toNat_ofNat']
        change ¬ n % 256 = 0
        omega
      rw [hsmall, minimalBytes_zero]
      simpa using hdigit
    · rw [minimalBytes_of_ne_zero hsmall, List.head?_append] at ih ⊢
      simpa using ih

theorem dropZeros_minimalBytes (n : Nat) : Bytes.dropZeros (minimalBytes n) = minimalBytes n :=
  Bytes.dropZeros_eq_self_iff.mpr (head?_minimalBytes n)

theorem minimalBytes_toNat {b : Bytes} (h : b.head? ≠ some 0) :
    minimalBytes (Bytes.toNat b) = b := by
  rw [← dropZeros_minimalBytes, ← Bytes.dropZeros_eq_self_iff.mpr h]
  exact Bytes.dropZeros_eq_of_toNat_eq (by rw [toNat_minimalBytes, Bytes.toNat_dropZeros])

theorem length_minimalBytes_le {n size : Nat} (h : n < Bytes.valueCount size) :
    (minimalBytes n).length ≤ size := by
  have hvalue : Bytes.toNat (Bytes.ofNat size n) = Bytes.toNat (minimalBytes n) := by
    rw [Bytes.toNat_ofNat, Nat.mod_eq_of_lt h, toNat_minimalBytes]
  have hle := Bytes.length_dropZeros_le (Bytes.ofNat size n)
  rwa [Bytes.dropZeros_eq_of_toNat_eq hvalue, dropZeros_minimalBytes, Bytes.length_ofNat] at hle

/-! ## Lengths -/

/-- Reads the digits of a length that needs them, of which the first one is not zero. -/
def readDigits (count : Nat) : Wire.Reader Nat := do
  let digits ← Wire.take count
  guard (digits.head? ≠ some 0 ∧ 128 ≤ Bytes.toNat digits)
  return Bytes.toNat digits

/-- Reads the length of a content. The first byte is the length itself or says how many digits it
has: none would leave the length open, and 127 is reserved. -/
def readLength : Wire.Reader Nat := do
  let x ← Wire.u8
  if x < 0x80 then return x.toNat
  else if x = 0xff then failure
  else readDigits (x.toNat - 128)

/-- Whether there is a length for the bytes: one with at most 126 digits. -/
def Fits (b : Bytes) : Prop := b.length < Bytes.valueCount 126

instance (b : Bytes) : Decidable (Fits b) := inferInstanceAs (Decidable (_ < _))

theorem length_of_lt {n : Nat} (h : n < 128) : length n = [UInt8.ofNat n] := by
  rw [length, if_pos h]

theorem length_of_le {n : Nat} (h : 128 ≤ n) :
    length n = UInt8.ofNat (128 + (minimalBytes n).length) :: minimalBytes n := by
  rw [length, if_neg (Nat.not_lt.mpr h)]

theorem readDigits_eq_some_iff {count n : Nat} {b rest : Bytes} :
    readDigits count b = some (n, rest) ↔
      count = (minimalBytes n).length ∧ 128 ≤ n ∧ b = minimalBytes n ++ rest := by
  unfold readDigits
  rw [Wire.bind_eq_some_iff]
  constructor
  · intro h
    obtain ⟨digits, r, hdigits, h⟩ := h
    obtain ⟨u, r', hguard, h⟩ := Wire.bind_eq_some_iff.mp h
    obtain ⟨⟨hhead, hlong⟩, heq⟩ := Wire.guard_eq_some_iff.mp hguard
    cases heq
    cases Wire.pure_eq_some_iff.mp h
    obtain ⟨rfl, rfl⟩ := Wire.take_eq_some_iff.mp hdigits
    rw [minimalBytes_toNat hhead]
    exact ⟨rfl, hlong, rfl⟩
  · intro h
    obtain ⟨rfl, hlong, rfl⟩ := h
    refine ⟨minimalBytes n, rest, Wire.take_eq_some_iff.mpr ⟨rfl, rfl⟩, ?_⟩
    rw [Wire.bind_eq_some_iff, toNat_minimalBytes]
    exact ⟨(), rest, Wire.guard_eq_some_iff.mpr ⟨⟨head?_minimalBytes n, hlong⟩, rfl⟩, rfl⟩

/-- A length is read from nothing but the one form that is written for it. -/
theorem exact_readLength : Wire.Exact readLength (· < Bytes.valueCount 126) length := by
  intro b n rest
  unfold readLength
  rw [Wire.bind_eq_some_iff]
  constructor
  · intro h
    obtain ⟨x, r, hx, h⟩ := h
    obtain rfl := Wire.u8_eq_some_iff.mp hx
    have hbyte := x.toNat_lt
    split at h
    · next hlow =>
      cases Wire.pure_eq_some_iff.mp h
      refine ⟨Nat.lt_of_lt_of_le hbyte (Bytes.valueCount_le (m := 1) (by decide)), ?_⟩
      rw [length_of_lt (UInt8.lt_iff_toNat_lt.mp hlow), UInt8.ofNat_toNat]
      rfl
    · next hhigh =>
      split at h
      · cases h
      · next hreserved =>
        obtain ⟨hcount, hlong, rfl⟩ := readDigits_eq_some_iff.mp h
        have hhigh : 128 ≤ x.toNat := Nat.le_of_not_lt fun h => hhigh (UInt8.lt_iff_toNat_lt.mpr h)
        have hreserved : x.toNat ≠ 255 := fun h => hreserved (UInt8.toNat_inj.mp h)
        have hfirst : 128 + (minimalBytes n).length = x.toNat := by omega
        have hn := Bytes.toNat_lt (minimalBytes n)
        rw [toNat_minimalBytes] at hn
        refine ⟨Nat.lt_of_lt_of_le hn (Bytes.valueCount_le (by omega)), ?_⟩
        rw [length_of_le hlong, hfirst, UInt8.ofNat_toNat]
        rfl
  · intro h
    obtain ⟨hn, rfl⟩ := h
    by_cases hlow : n < 128
    · have hx : (UInt8.ofNat n).toNat = n :=
        UInt8.toNat_ofNat_of_lt' (Nat.lt_trans hlow (by decide))
      rw [length_of_lt hlow]
      refine ⟨UInt8.ofNat n, rest, rfl, ?_⟩
      rw [if_pos (UInt8.lt_iff_toNat_lt.mpr (by rw [hx]; exact hlow)), hx]
      rfl
    · have hcount : (minimalBytes n).length ≤ 126 := length_minimalBytes_le hn
      have hx : (UInt8.ofNat (128 + (minimalBytes n).length)).toNat =
          128 + (minimalBytes n).length := by
        rw [UInt8.toNat_ofNat']
        omega
      rw [length_of_le (Nat.le_of_not_lt hlow)]
      refine ⟨_, minimalBytes n ++ rest, rfl, ?_⟩
      rw [if_neg, if_neg]
      · exact readDigits_eq_some_iff.mpr ⟨by omega, Nat.le_of_not_lt hlow, rfl⟩
      · intro h
        rw [h] at hx
        change 255 = _ at hx
        omega
      · rw [UInt8.lt_iff_toNat_lt, hx]
        change ¬ _ < 128
        omega

/-! ## Elements -/

/-- Reads an element: the byte of its tag and its content. -/
def readElement : Wire.Reader (UInt8 × Bytes) := do
  let tag ← Wire.u8
  let size ← readLength
  let content ← Wire.take size
  return (tag, content)

/-- An element is read from nothing but its tag, the shortest length and the content. -/
theorem exact_readElement :
    Wire.Exact readElement (fun e => Fits e.2) fun e => e.1 :: length e.2.length ++ e.2 := by
  intro b e rest
  obtain ⟨tag, content⟩ := e
  unfold readElement
  rw [Wire.bind_eq_some_iff]
  constructor
  · intro h
    obtain ⟨x, r, hx, h⟩ := h
    obtain ⟨size, r', hsize, h⟩ := Wire.bind_eq_some_iff.mp h
    obtain ⟨v, r'', hv, h⟩ := Wire.bind_eq_some_iff.mp h
    cases Wire.pure_eq_some_iff.mp h
    obtain rfl := Wire.u8_eq_some_iff.mp hx
    obtain ⟨hfits, rfl⟩ := (exact_readLength _ _ _).mp hsize
    obtain ⟨rfl, rfl⟩ := Wire.take_eq_some_iff.mp hv
    exact ⟨hfits, by simp⟩
  · intro h
    obtain ⟨hfits, rfl⟩ := h
    refine ⟨tag, length content.length ++ (content ++ rest), by simp [Wire.u8], ?_⟩
    refine Wire.bind_eq_some_iff.mpr ⟨content.length, content ++ rest,
      (exact_readLength _ _ _).mpr ⟨hfits, rfl⟩, ?_⟩
    exact Wire.bind_eq_some_iff.mpr ⟨content, rest, Wire.take_eq_some_iff.mpr ⟨rfl, rfl⟩, rfl⟩

theorem readElement_element {content : Bytes} (h : Fits content) (tag : Tag) (rest : Bytes) :
    readElement (element tag content ++ rest) = some ((tag.byte, content), rest) :=
  (exact_readElement _ _ _).mpr ⟨h, rfl⟩

theorem length_readElement {b content rest : Bytes} {x : UInt8}
    (h : readElement b = some ((x, content), rest)) : content.length + rest.length < b.length := by
  obtain ⟨-, rfl⟩ := (exact_readElement _ _ _).mp h
  simp only [List.length_append, List.length_cons]
  omega

/-! ## Items -/

/-- What an element says. -/
inductive Item
  | integer (v : Int)
  | bitString (unused : Nat) (bits : Bytes)
  | octetString (content : Bytes)
  | null
  | oid (arcs : List Nat)
  | sequence (items : List Item)

/-- The tags that are read, by their bytes. -/
def Tag.ofByte? : UInt8 → Option Tag
  | 0x02 => some .integer
  | 0x03 => some .bitString
  | 0x04 => some .octetString
  | 0x05 => some .null
  | 0x06 => some .oid
  | 0x30 => some .sequence
  | _ => none

theorem Tag.ofByte?_byte (tag : Tag) : Tag.ofByte? tag.byte = some tag := by
  cases tag <;> rfl

/-- Whether the content of an integer is in its shortest form: there is a byte, and the first nine
bits are not all the same. -/
def isShortestInteger : Bytes → Bool
  | [] => false
  | [_] => true
  | x :: y :: _ => !(x == 0 && y < 0x80 || x == 0xff && 0x80 ≤ y)

/-- Whether the bits that a bit string announces as unused are there, and zero. -/
def isPadded (unused : Nat) (bits : Bytes) : Bool :=
  match bits.getLast? with
  | none => unused == 0
  | some x => unused < 8 && x.toNat % (1 <<< unused) == 0

/-- The numbers of an identifier, of which the first one has begun with the digits `v`. All digits
of a number but the last one have their high bit set, and none begins with a zero digit. -/
def subidentifiers? (v : Nat) : Bytes → Option (List Nat)
  | [] => if v = 0 then some [] else none
  | x :: r =>
    if x < 0x80 then (subidentifiers? 0 r).map ((v * 128 + x.toNat) :: ·)
    else if v = 0 ∧ x = 0x80 then none
    else subidentifiers? (v * 128 + (x.toNat - 128)) r

/-- The arcs of an identifier. Its first number stands for two of them. -/
def arcs? (b : Bytes) : Option (List Nat) :=
  match subidentifiers? 0 b with
  | some (first :: others) =>
    let root := min (first / 40) 2
    some (root :: (first - 40 * root) :: others)
  | _ => none

/-- What an element says that is not a sequence. -/
def simple? : Tag → Bytes → Option Item
  | .integer, b => if isShortestInteger b then some (.integer (Mpint.twosComplement b)) else none
  | .bitString, b =>
    match b with
    | [] => none
    | unused :: bits =>
      if isPadded unused.toNat bits then some (.bitString unused.toNat bits) else none
  | .octetString, b => some (.octetString b)
  | .null, b => if b = [] then some .null else none
  | .oid, b => (arcs? b).map .oid
  | .sequence, _ => none

/-- The items whose elements stand one behind the other in the bytes. -/
def items? (b : Bytes) : Option (List Item) :=
  if b = [] then some []
  else
    match _h : readElement b with
    | none => none
    | some ((x, content), rest) => do
      let tag ← Tag.ofByte? x
      let first ← if tag = .sequence then (items? content).map .sequence else simple? tag content
      let others ← items? rest
      return first :: others
termination_by b.length
decreasing_by
  all_goals
    have := length_readElement ‹readElement b = some ((x, content), rest)›
    omega

/-- The one item that takes up all of the bytes. -/
def decode (b : Bytes) : Option Item :=
  match items? b with
  | some [i] => some i
  | _ => none

/-! ## Reading what is written -/

/-- The bytes are read as the item, whatever follows them. -/
def Reads (b : Bytes) (i : Item) : Prop := ∀ rest, items? (b ++ rest) = (items? rest).map (i :: ·)

theorem items?_nil : items? [] = some [] := by
  rw [items?, if_pos rfl]

theorem items?_flatten {elements : List Bytes} {items : List Item}
    (h : List.Forall₂ Reads elements items) : items? elements.flatten = some items := by
  induction h with
  | nil => exact items?_nil
  | cons hfirst _ ih => rw [List.flatten_cons, hfirst, ih, Option.map_some]

theorem Reads.decode {b : Bytes} {i : Item} (h : Reads b i) : decode b = some i := by
  have hall := h []
  rw [List.append_nil, items?_nil] at hall
  rw [Der.decode, hall]
  rfl

theorem Fits.of_le {a b : Bytes} (h : Fits b) (hle : a.length ≤ b.length) : Fits a :=
  Nat.lt_of_le_of_lt hle h

theorem length_lt_element (tag : Tag) (content : Bytes) :
    content.length < (element tag content).length := by
  rw [element, List.length_append, List.length_cons]
  omega

theorem Fits.content {tag : Tag} {content : Bytes} (h : Fits (element tag content)) :
    Fits content :=
  h.of_le (Nat.le_of_lt (length_lt_element tag content))

theorem Fits.of_mem {elements : List Bytes} (h : Fits (sequence elements)) {e : Bytes}
    (he : e ∈ elements) : Fits e :=
  h.content.of_le (List.sublist_flatten_of_mem he).length_le

theorem items?_element {content : Bytes} (tag : Tag) (h : Fits content) (rest : Bytes) :
    items? (element tag content ++ rest) = do
      let first ← if tag = .sequence then (items? content).map .sequence else simple? tag content
      let others ← items? rest
      return first :: others := by
  rw [items?, if_neg (by simp [element])]
  split
  · next hread =>
    rw [readElement_element h] at hread
    cases hread
  · next hread =>
    rw [readElement_element h] at hread
    cases hread
    rw [Tag.ofByte?_byte]
    rfl

theorem reads_simple {tag : Tag} {content : Bytes} {i : Item} (h : Fits (element tag content))
    (hi : simple? tag content = some i) : Reads (element tag content) i := by
  intro rest
  have hsimple : tag ≠ .sequence := by
    rintro rfl
    cases hi
  rw [items?_element tag h.content, if_neg hsimple, hi]
  cases items? rest <;> rfl

theorem reads_sequence {elements : List Bytes} {items : List Item}
    (h : Fits (sequence elements)) (hitems : List.Forall₂ Reads elements items) :
    Reads (sequence elements) (.sequence items) := by
  intro rest
  rw [sequence, items?_element .sequence h.content, if_pos rfl, items?_flatten hitems]
  cases items? rest <;> rfl

theorem reads_null : Reads null .null :=
  reads_simple (by decide) rfl

theorem reads_oid {b : Bytes} {arcs : List Nat} (h : Fits (oid b)) (harcs : arcs? b = some arcs) :
    Reads (oid b) (.oid arcs) :=
  reads_simple h (by rw [simple?, harcs, Option.map_some])

theorem reads_bitString {b : Bytes} (h : Fits (bitString b)) :
    Reads (bitString b) (.bitString 0 b) := by
  refine reads_simple h (if_pos ?_)
  cases hlast : b.getLast? with
  | none => simp [isPadded, hlast]
  | some x => simp [isPadded, hlast, Nat.mod_one]

theorem integerContent_of_nil {b : Bytes} (h : Bytes.dropZeros b = []) :
    integerContent b = [0] := by
  rw [integerContent, h]

/-- But for zero, the content is the payload of the unsigned integer. -/
theorem integerContent_of_ne_nil {b : Bytes} (h : Bytes.dropZeros b ≠ []) :
    integerContent b = (Mpint.unsigned b).payload := by
  obtain ⟨x, r, hx⟩ := List.exists_cons_of_ne_nil h
  rw [integerContent, hx, Mpint.payload, hx]
  simp [Mpint.isHigh]

theorem twosComplement_integerContent (b : Bytes) :
    Mpint.twosComplement (integerContent b) = Bytes.toNat b := by
  by_cases h : Bytes.dropZeros b = []
  · rw [integerContent_of_nil h, ← Bytes.toNat_dropZeros, h]
    rfl
  · rw [integerContent_of_ne_nil h, Mpint.twosComplement_payload_unsigned]

theorem isShortestInteger_integerContent (b : Bytes) :
    isShortestInteger (integerContent b) = true := by
  have hhead : (Bytes.dropZeros b).head? ≠ some 0 :=
    Bytes.dropZeros_eq_self_iff.mp (Bytes.dropZeros_dropZeros b)
  rw [integerContent]
  split
  · rfl
  · next x r hx =>
    rw [hx] at hhead
    split
    · next hhigh => simp [isShortestInteger, UInt8.not_lt.mpr hhigh]
    · next hlow =>
      have hff : x ≠ 0xff := by
        rintro rfl
        exact hlow (by decide)
      have hzero : x ≠ 0 := fun h => hhead (congrArg some h)
      cases r <;> simp [isShortestInteger, hzero, hff]

/-- Unsigned bytes are read as the number that they are. -/
theorem reads_integer {b : Bytes} (h : Fits (integer b)) :
    Reads (integer b) (.integer (Bytes.toNat b)) := by
  refine reads_simple h ?_
  rw [simple?, if_pos (isShortestInteger_integerContent b), twosComplement_integerContent]

end Der

end SshCert
