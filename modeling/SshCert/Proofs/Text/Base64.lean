import Mathlib.Data.List.DropRight
import SshCert.Proofs.Text.Scan
import SshCert.Proofs.Text.Token

/-
  Base64 texts and the byte strings that they stand for.
  What is encoded is decoded, with its padding or without (`encode_roundTrip`). Conversely a text
  that is decoded is one of the two forms of the bytes that it gives, but for two things that the
  scanner lets through: vertical tabs and form feeds, and one more group at the end of whole
  groups that holds no byte (`decode_eq_some_iff`). `decode_written_iff` says that nothing but
  these two stands between the texts that are decoded and the texts that are written.
-/

namespace SshCert.Base64

/-! ## Padding -/

/-- How many bytes the last group lacks. -/
def missing (d : Bytes) : Nat := (3 - d.length % 3) % 3

theorem missing_le (d : Bytes) : missing d ≤ 2 := by
  unfold missing
  omega

/-- Whether every character is one of the alphabet. -/
def Alphabetic (t : Bytes) : Prop := ∀ x ∈ t, ∃ v < 64, x = character v

theorem Alphabetic.not_mem_padding {t : Bytes} (h : Alphabetic t) : padding ∉ t := by
  intro hmem
  obtain ⟨v, hv, heq⟩ := h padding hmem
  exact (character_plain v hv).1 heq.symm

theorem Alphabetic.clean {t : Bytes} (h : Alphabetic t) : Clean t := by
  intro x hx
  obtain ⟨v, hv, rfl⟩ := h x hx
  exact (character_plain v hv).2.1

theorem alphabetic_cons {v : Nat} (hv : v < 64) {t : Bytes} (ht : Alphabetic t) :
    Alphabetic (character v :: t) := by
  intro x hx
  rcases List.mem_cons.mp hx with rfl | hx
  · exact ⟨v, hv, rfl⟩
  · exact ht x hx

theorem exists_encode_eq (d : Bytes) :
    ∃ t, Alphabetic t ∧ encode d = t ++ List.replicate (missing d) padding := by
  have hnil : Alphabetic [] := fun x hx => absurd hx List.not_mem_nil
  induction d using encode.induct with
  | case1 a b c r ih =>
    have ha := a.toNat_lt
    have hb := b.toNat_lt
    have hc := c.toNat_lt
    obtain ⟨t, ht, heq⟩ := ih
    have hmissing : missing (a :: b :: c :: r) = missing r := by
      simp only [missing, List.length_cons]
      omega
    rw [hmissing, encode, heq]
    exact ⟨_, alphabetic_cons (by omega) (alphabetic_cons (by omega)
      (alphabetic_cons (by omega) (alphabetic_cons (by omega) ht))), rfl⟩
  | case2 a b =>
    have ha := a.toNat_lt
    have hb := b.toNat_lt
    exact ⟨_, alphabetic_cons (by omega) (alphabetic_cons (by omega)
      (alphabetic_cons (by omega) hnil)), rfl⟩
  | case3 a =>
    have ha := a.toNat_lt
    exact ⟨_, alphabetic_cons (by omega) (alphabetic_cons (by omega) hnil), rfl⟩
  | case4 => exact ⟨[], hnil, rfl⟩

/-- The padding is all that the unpadded form lacks, and it is not in it. -/
theorem encode_eq_append (d : Bytes) :
    Alphabetic (encodeUnpadded d)
      ∧ encode d = encodeUnpadded d ++ List.replicate (missing d) padding := by
  obtain ⟨t, ht, heq⟩ := exists_encode_eq d
  have hunpadded : encodeUnpadded d = t := by
    have hall : ∀ x ∈ t, (x != padding) = true := by
      intro x hx
      rw [bne_iff_ne]
      rintro rfl
      exact ht.not_mem_padding hx
    rw [encodeUnpadded, heq, List.takeWhile_append_of_pos hall]
    cases missing d with
    | zero => exact List.append_nil t
    | succ k => exact List.append_nil t
  rw [hunpadded]
  exact ⟨ht, heq⟩

theorem mem_encode {d : Bytes} {c : UInt8} (hc : c ∈ encode d) :
    c = padding ∨ ∃ v < 64, c = character v := by
  obtain ⟨halphabetic, happend⟩ := encode_eq_append d
  rw [happend, List.mem_append] at hc
  rcases hc with hc | hc
  · exact Or.inr (halphabetic c hc)
  · exact Or.inl (List.eq_of_mem_replicate hc)

theorem count_padding_encode (d : Bytes) : (encode d).count padding = missing d := by
  obtain ⟨halphabetic, heq⟩ := encode_eq_append d
  rw [heq, List.count_append, List.count_eq_zero.mpr halphabetic.not_mem_padding,
    List.count_replicate_self, Nat.zero_add]

theorem length_encode (d : Bytes) : (encode d).length = 4 * ((d.length + 2) / 3) := by
  induction d using encode.induct with
  | case1 a b c r ih =>
    simp only [encode, List.length_cons, ih]
    omega
  | case2 a b => simp [encode]
  | case3 a => simp [encode]
  | case4 => rfl

theorem length_encodeUnpadded (d : Bytes) :
    (encodeUnpadded d).length = (4 * d.length + 2) / 3 := by
  have hlength := length_encode d
  rw [(encode_eq_append d).2, List.length_append, List.length_replicate, missing] at hlength
  omega

/-- Dropping characters from the end as long as they are padding leaves the unpadded form. -/
theorem rdropWhile_encode (d : Bytes) :
    (encode d).rdropWhile (· == padding) = encodeUnpadded d := by
  obtain ⟨halphabetic, heq⟩ := encode_eq_append d
  have hend : (encodeUnpadded d).rdropWhile (· == padding) = encodeUnpadded d := by
    rw [List.rdropWhile_eq_self_iff]
    intro hne hlast
    rw [beq_iff_eq] at hlast
    exact halphabetic.not_mem_padding (hlast ▸ List.getLast_mem hne)
  rw [heq]
  generalize missing d = k
  induction k with
  | zero => rw [List.replicate_zero, List.append_nil, hend]
  | succ k ih =>
    rw [List.replicate_succ', ← List.append_assoc, List.rdropWhile_concat_pos _ _ _ rfl, ih]

/-! ## Completing a text -/

/-- The completed text has whole groups; at most two characters complete it, and only if it has
no padding yet. -/
theorem complete?_eq_some_iff {s t : Bytes} :
    complete? s = some t ↔ ∃ k ≤ 2, 4 ∣ s.length + k ∧ (k = 0 ∨ padding ∉ s)
      ∧ t = s ++ List.replicate k padding := by
  unfold complete?
  constructor
  · intro h
    split at h
    · next hmod =>
      cases h
      exact ⟨0, Nat.zero_le 2, by omega, Or.inl rfl, (List.append_nil s).symm⟩
    · cases h
    · next hzero hone =>
      replace hzero : s.length % 4 ≠ 0 := hzero
      replace hone : s.length % 4 ≠ 1 := hone
      split at h
      · cases h
      · next hpadding =>
        cases h
        refine ⟨4 - s.length % 4, by omega, by omega, Or.inr ?_, rfl⟩
        simpa using hpadding
  · intro h
    obtain ⟨k, hk, hwhole, hfree, rfl⟩ := h
    split
    · next hmod =>
      have hzero : k = 0 := by omega
      rw [hzero, List.replicate_zero, List.append_nil]
    · next hmod => omega
    · next hzero hone =>
      replace hzero : s.length % 4 ≠ 0 := hzero
      replace hone : s.length % 4 ≠ 1 := hone
      have hk' : 4 - s.length % 4 = k := by omega
      have hnone : padding ∉ s := hfree.resolve_left (by omega)
      rw [if_neg (by simpa using hnone), hk']

/-- Nothing at all is no result. -/
theorem nonempty_eq_some_iff {result : Option Bytes} {d : Bytes} :
    (match result with
      | some [] => none
      | r => r) = some d ↔ d ≠ [] ∧ result = some d := by
  split
  · constructor
    · intro h
      cases h
    · intro h
      exact absurd (Option.some.inj h.2).symm h.1
  · next hne =>
    refine (and_iff_right_of_imp ?_).symm
    rintro h rfl
    exact hne h

/-- A text is decoded if it holds no blank and its completed form is scanned to something. -/
theorem decode_eq_some_iff_scan {s d : Bytes} :
    decode s = some d ↔ d ≠ [] ∧ (∀ c ∈ s, Text.isBlank c = false)
      ∧ ∃ t, complete? s = some t ∧ scan .start t = some d := by
  rw [← Option.bind_eq_some_iff]
  by_cases hrefused : (s.isEmpty || s.any Text.isBlank) = true
  · rw [decode, if_pos hrefused]
    constructor
    · intro h
      cases h
    · intro h
      obtain ⟨hd, hblank, hscan⟩ := h
      rw [Bool.or_eq_true, List.isEmpty_iff, List.any_eq_true] at hrefused
      rcases hrefused with rfl | ⟨c, hc, hcblank⟩
      · exact absurd (Option.some.inj hscan).symm hd
      · rw [hblank c hc] at hcblank
        cases hcblank
  · have hblank : ∀ c ∈ s, Text.isBlank c = false := by
      intro c hc
      rw [← Bool.not_eq_true]
      intro hcblank
      exact hrefused (Bool.or_eq_true_iff.mpr (Or.inr (List.any_eq_true.mpr ⟨c, hc, hcblank⟩)))
    rw [decode, if_neg hrefused, and_iff_right hblank]
    exact nonempty_eq_some_iff

/-- What is decoded holds no blank, so it is a token wherever it stands. -/
theorem isToken_of_decode {s d : Bytes} (h : decode s = some d) :
    Text.IsToken s ∧ Text.trimEnd s = s := by
  obtain ⟨-, hblank, -⟩ := decode_eq_some_iff_scan.mp h
  have hne : s ≠ [] := by
    rintro rfl
    cases h
  have hunblanked : ∀ c ∈ s, c ∉ Text.blanks := fun c hc =>
    Text.isBlank_eq_false_iff.mp (hblank c hc)
  exact ⟨Text.isToken_of_unblanked hne hunblanked, Text.trimEnd_of_unblanked hunblanked⟩

/-! ## Texts and what they stand for -/

/-- The text without the characters that are passed over. -/
def stripped (s : Bytes) : Bytes := s.filter (!isSkipped ·)

theorem mem_stripped_iff {s : Bytes} {c : UInt8} :
    c ∈ stripped s ↔ c ∈ s ∧ isSkipped c = false := by
  rw [stripped, List.mem_filter, Bool.not_eq_true']

theorem clean_stripped (s : Bytes) : Clean (stripped s) :=
  fun _ hc => (mem_stripped_iff.mp hc).2

theorem stripped_eq_self {s : Bytes} (h : Clean s) : stripped s = s :=
  List.filter_eq_self.mpr fun c hc => by rw [h c hc]; rfl

theorem padding_mem_stripped_iff {s : Bytes} : padding ∈ stripped s ↔ padding ∈ s :=
  mem_stripped_iff.trans (and_iff_left rfl)

theorem length_eq_stripped (s : Bytes) :
    s.length = (stripped s).length + s.countP isSkipped := by
  rw [List.length_eq_length_filter_add isSkipped, List.countP_eq_length_filter, Nat.add_comm]
  rfl

theorem scan_completed_iff {s d : Bytes} {k : Nat} :
    scan .start (s ++ List.replicate k padding) = some d ↔
      stripped s ++ List.replicate k padding = encode d
        ∨ 3 ∣ d.length ∧ stripped s ++ List.replicate k padding = encode d ++ emptyGroup := by
  have hreplicate : Clean (List.replicate k padding) := by
    intro c hc
    rw [List.eq_of_mem_replicate hc]
    rfl
  have hstripped : stripped (s ++ List.replicate k padding) =
      stripped s ++ List.replicate k padding := by
    rw [stripped, List.filter_append]
    exact congrArg (stripped s ++ ·) (stripped_eq_self hreplicate)
  rw [← hstripped, ← scan_start_eq_some_iff (clean_stripped _)]
  exact (congrArg (· = some d) (scan_filter _ _).symm).to_iff

/-- What is left of a decoded text when the skipped characters are taken out. -/
def Written (t d : Bytes) : Prop :=
  t = encode d ∨ t = encodeUnpadded d ∨ 3 ∣ d.length ∧ t = encode d ++ emptyGroup

/-- The characters that are passed over count for the completion, so they come in fours. -/
theorem written_of_completion {s d : Bytes} {k : Nat} (hk : k ≤ 2) (hwhole : 4 ∣ s.length + k)
    (hfree : k = 0 ∨ padding ∉ s)
    (hscan : scan .start (s ++ List.replicate k padding) = some d) :
    4 ∣ s.countP isSkipped ∧ Written (stripped s) d := by
  have hsize := length_eq_stripped s
  have hencode := length_encode d
  rw [scan_completed_iff] at hscan
  have hlength : 4 ∣ (stripped s).length + k := by
    have hfour : emptyGroup.length = 4 := rfl
    rcases hscan with h | ⟨-, h⟩
    · replace h := congrArg List.length h
      rw [List.length_append, List.length_replicate] at h
      omega
    · replace h := congrArg List.length h
      rw [List.length_append, List.length_replicate, List.length_append] at h
      omega
  refine ⟨by omega, ?_⟩
  rcases hfree with rfl | hfree
  · rw [List.replicate_zero, List.append_nil] at hscan
    exact hscan.imp_right Or.inr
  · -- all the padding there is has been added: it is that of the last group
    have hcount : (stripped s ++ List.replicate k padding).count padding = k := by
      rw [List.count_append, List.count_replicate_self,
        List.count_eq_zero.mpr (mt padding_mem_stripped_iff.mp hfree), Nat.zero_add]
    rcases hscan with h | ⟨-, h⟩
    · rw [h, count_padding_encode] at hcount
      rw [(encode_eq_append d).2, hcount] at h
      exact Or.inr (Or.inl (List.append_cancel_right h))
    · have hthree : emptyGroup.count padding = 3 := by decide
      rw [h, List.count_append, hthree] at hcount
      omega

/-- A text is completed to what is scanned if it is written for something but for characters that
are passed over, and these come in fours. -/
theorem exists_completion_iff {s d : Bytes} :
    (∃ k ≤ 2, 4 ∣ s.length + k ∧ (k = 0 ∨ padding ∉ s)
      ∧ scan .start (s ++ List.replicate k padding) = some d) ↔
    4 ∣ s.countP isSkipped ∧ Written (stripped s) d := by
  constructor
  · intro h
    obtain ⟨k, hk, hwhole, hfree, hscan⟩ := h
    exact written_of_completion hk hwhole hfree hscan
  · intro h
    obtain ⟨hfour, h⟩ := h
    have hsize := length_eq_stripped s
    have hencode := length_encode d
    obtain ⟨halphabetic, happend⟩ := encode_eq_append d
    rcases h with h | h | h
    · refine ⟨0, Nat.zero_le 2, ?_, Or.inl rfl, scan_completed_iff.mpr (Or.inl ?_)⟩
      · rw [h] at hsize
        omega
      · rw [List.replicate_zero, List.append_nil, h]
    · have hlength := congrArg List.length happend
      rw [List.length_append, List.length_replicate] at hlength
      refine ⟨missing d, missing_le d, ?_, Or.inr ?_, scan_completed_iff.mpr (Or.inl ?_)⟩
      · rw [h] at hsize
        omega
      · rw [← padding_mem_stripped_iff, h]
        exact halphabetic.not_mem_padding
      · rw [h, happend]
    · refine ⟨0, Nat.zero_le 2, ?_, Or.inl rfl, scan_completed_iff.mpr (Or.inr ⟨h.1, ?_⟩)⟩
      · have hl : emptyGroup.length = 4 := rfl
        rw [h.2, List.length_append] at hsize
        omega
      · rw [List.replicate_zero, List.append_nil, h.2]

theorem isBlank_of_mem_encode {d : Bytes} {c : UInt8} (hc : c ∈ encode d) :
    Text.isBlank c = false := by
  rcases mem_encode hc with rfl | ⟨v, hv, rfl⟩
  · rfl
  · exact (character_plain v hv).2.2

theorem Written.isBlank_eq {t d : Bytes} (h : Written t d) {c : UInt8} (hc : c ∈ t) :
    Text.isBlank c = false := by
  rcases h with rfl | rfl | ⟨-, rfl⟩
  · exact isBlank_of_mem_encode hc
  · exact isBlank_of_mem_encode ((List.takeWhile_prefix _).subset hc)
  · rcases List.mem_append.mp hc with hc | hc
    · exact isBlank_of_mem_encode hc
    · have hall : ∀ x ∈ emptyGroup, Text.isBlank x = false := by decide +kernel
      exact hall c hc

/-- The characters that are passed over are no blanks. -/
theorem isBlank_of_isSkipped {c : UInt8} (h : isSkipped c = true) : Text.isBlank c = false := by
  rw [isSkipped, Bool.or_eq_true, beq_iff_eq, beq_iff_eq] at h
  rcases h with rfl | rfl <;> rfl

/-- The texts that are decoded, and what they give. -/
theorem decode_eq_some_iff {s d : Bytes} :
    decode s = some d ↔ d ≠ [] ∧ 4 ∣ s.countP isSkipped ∧ Written (stripped s) d := by
  rw [← exists_completion_iff, decode_eq_some_iff_scan]
  constructor
  · intro h
    obtain ⟨hd, -, t, ht, hscan⟩ := h
    obtain ⟨k, hk, hwhole, hfree, rfl⟩ := complete?_eq_some_iff.mp ht
    exact ⟨hd, k, hk, hwhole, hfree, hscan⟩
  · intro h
    obtain ⟨hd, k, hk, hwhole, hfree, hscan⟩ := h
    have hwritten := (exists_completion_iff.mp ⟨k, hk, hwhole, hfree, hscan⟩).2
    refine ⟨hd, ?_, _, complete?_eq_some_iff.mpr ⟨k, hk, hwhole, hfree, rfl⟩, hscan⟩
    intro c hc
    cases hskipped : isSkipped c with
    | true => exact isBlank_of_isSkipped hskipped
    | false => exact hwritten.isBlank_eq (mem_stripped_iff.mpr ⟨hc, hskipped⟩)

/-- No text stands for more bytes than it has characters. -/
theorem length_le_of_decode {s d : Bytes} (h : decode s = some d) : d.length ≤ s.length := by
  obtain ⟨-, -, hwritten⟩ := decode_eq_some_iff.mp h
  have hstripped := length_eq_stripped s
  rcases hwritten with hwritten | hwritten | ⟨-, hwritten⟩
  · rw [hwritten, length_encode] at hstripped
    omega
  · rw [hwritten, length_encodeUnpadded] at hstripped
    omega
  · rw [hwritten, List.length_append, length_encode] at hstripped
    omega

/-! ## Decoding what is encoded -/

theorem clean_encode (d : Bytes) : Clean (encode d) := by
  intro c hc
  rcases mem_encode hc with rfl | ⟨v, hv, rfl⟩
  · rfl
  · exact (character_plain v hv).2.1

/-- A text without skipped characters is decoded if it is written for something. -/
theorem Clean.decode_eq_some_iff {s d : Bytes} (hs : Clean s) :
    decode s = some d ↔ d ≠ [] ∧ Written s d := by
  have hnone : s.countP isSkipped = 0 :=
    List.countP_eq_zero.mpr fun c hc => by rw [hs c hc]; exact Bool.false_ne_true
  rw [Base64.decode_eq_some_iff, hnone, stripped_eq_self hs, and_iff_right (Nat.dvd_zero 4)]

theorem decode_encode {d : Bytes} (hd : d ≠ []) : decode (encode d) = some d :=
  (clean_encode d).decode_eq_some_iff.mpr ⟨hd, Or.inl rfl⟩

theorem decode_encodeUnpadded {d : Bytes} (hd : d ≠ []) : decode (encodeUnpadded d) = some d :=
  (encode_eq_append d).1.clean.decode_eq_some_iff.mpr ⟨hd, Or.inr (Or.inl rfl)⟩

/-- No bytes are written as no text, which the decoder refuses as it refuses others. -/
theorem getD_decode_encode (d : Bytes) : (decode (encode d)).getD [] = d := by
  by_cases hd : d = []
  · rw [hd]
    rfl
  · rw [decode_encode hd, Option.getD_some]

theorem getD_decode_encodeUnpadded (d : Bytes) : (decode (encodeUnpadded d)).getD [] = d := by
  by_cases hd : d = []
  · rw [hd]
    rfl
  · rw [decode_encodeUnpadded hd, Option.getD_some]

/-- Different bytes are written differently. -/
theorem encodeUnpadded_injective : Function.Injective encodeUnpadded := by
  intro a b h
  have hlength := congrArg List.length h
  rw [length_encodeUnpadded, length_encodeUnpadded] at hlength
  by_cases ha : a = []
  · -- a text without characters stands for no bytes, and the decoder refuses it
    rw [ha, List.length_nil] at hlength
    rw [ha, List.length_eq_zero_iff.mp (by omega : b.length = 0)]
  · have hpos := List.length_pos_iff.mpr ha
    have hb : b ≠ [] := List.length_pos_iff.mp (by omega)
    have hdecode := decode_encodeUnpadded ha
    rw [h, decode_encodeUnpadded hb] at hdecode
    exact (Option.some.inj hdecode).symm

/-- Both forms are decoded to the bytes that they are written for, where a text without bytes is
the failure of the decoder. Their lengths are those of whole groups and of the bits, and the second
form is the first one without the `=` characters at its end. -/
theorem encode_roundTrip (d : Bytes) :
    (decode (encode d)).getD [] = d ∧ (decode (encodeUnpadded d)).getD [] = d
      ∧ (encode d).length = 4 * ((d.length + 2) / 3)
      ∧ (encodeUnpadded d).length = (4 * d.length + 2) / 3
      ∧ encodeUnpadded d = (encode d).rdropWhile (· == 0x3d) :=
  ⟨getD_decode_encode d, getD_decode_encodeUnpadded d, length_encode d, length_encodeUnpadded d,
    (rdropWhile_encode d).symm⟩

/-! ## Decoding what is not encoded -/

/-- No written form ends in an empty group: it has at most two characters of padding. -/
theorem not_emptyGroup_suffix_encode (d : Bytes) : ¬ emptyGroup <:+ encode d := by
  intro h
  have hcount := h.sublist.count_le padding
  have hthree : emptyGroup.count padding = 3 := by decide
  have hmissing := missing_le d
  rw [count_padding_encode, hthree] at hcount
  omega

theorem not_emptyGroup_suffix_encodeUnpadded (d : Bytes) : ¬ emptyGroup <:+ encodeUnpadded d := by
  intro h
  have hmem : padding ∈ emptyGroup := by decide
  exact (encode_eq_append d).1.not_mem_padding (h.subset hmem)

theorem clean_iff {s : Bytes} : Clean s ↔ ∀ c ∈ s, c ≠ 0x0b ∧ c ≠ 0x0c := by
  simp [Clean, isSkipped]

/-- A text is decoded exactly if the characters that are passed over come in fours and the others
are one of the two written forms or the padded one with an empty group behind it. What is decoded
is therefore itself a written form exactly if it holds no vertical tab and no form feed and does not
end in an empty group. -/
theorem decode_written_iff (s d : Bytes) :
    (decode s = some d ↔ d ≠ [] ∧ 4 ∣ s.countP isSkipped ∧ Written (stripped s) d)
      ∧ (decode s = some d →
        ((s = encode d ∨ s = encodeUnpadded d) ↔
          (∀ c ∈ s, c ≠ 0x0b ∧ c ≠ 0x0c) ∧ ¬ ascii "A===" <:+ s)) := by
  have hgroup : emptyGroup = ascii "A===" := by decide
  rw [← hgroup, ← clean_iff]
  refine ⟨decode_eq_some_iff, fun h => ⟨?_, ?_⟩⟩
  · rintro (rfl | rfl)
    · exact ⟨clean_encode d, not_emptyGroup_suffix_encode d⟩
    · exact ⟨(encode_eq_append d).1.clean, not_emptyGroup_suffix_encodeUnpadded d⟩
  · rintro ⟨hclean, hend⟩
    rcases (hclean.decode_eq_some_iff.mp h).2 with h | h | ⟨-, h⟩
    · exact Or.inl h
    · exact Or.inr h
    · exact absurd ⟨_, h.symm⟩ hend

/-- Four vertical tabs, four form feeds, or an empty group, behind a written form: all these texts
are decoded like it. -/
theorem decode_unwritten :
    decode (ascii "Zm9v" ++ List.replicate 4 0x0b) = some (ascii "foo")
      ∧ decode (ascii "Zm9v" ++ List.replicate 4 0x0c) = some (ascii "foo")
      ∧ decode (ascii "AAAAA===") = some [0, 0, 0]
      ∧ ¬ ∀ s d, decode s = some d → s = encode d ∨ s = encodeUnpadded d := by
  have htabs : decode (ascii "Zm9v" ++ List.replicate 4 0x0b) = some (ascii "foo") := by decide
  refine ⟨htabs, by decide, by decide, ?_⟩
  intro h
  exact absurd (h _ _ htabs) (by decide)

end SshCert.Base64
