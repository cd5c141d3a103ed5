import SshCert.Text.Base64

/-
  Scanning base64, character by character.
  A scan works in groups of four characters. What is written for whole groups is taken group by
  group (`scan_encode_append`) and what is written for a byte string gives it back
  (`scan_encode`). Conversely a text is only scanned if it is what is written for the bytes that
  it gives, up to the characters that are passed over (`scan_filter`) and one group at the end
  that holds no byte, a zero and three times padding (`scan_start_eq_some_iff`).
-/

namespace SshCert.Base64

/-! ## The alphabet -/

theorem value?_character : ∀ n < 64, value? (character n) = some n := by
  decide

/-- A character of the alphabet is neither padding nor white space. -/
theorem character_plain : ∀ n < 64, character n ≠ padding ∧ isSkipped (character n) = false
    ∧ Text.isBlank (character n) = false := by
  decide

theorem eq_character_of_value? {c : UInt8} {v : Nat} (h : value? c = some v) :
    v < 64 ∧ c = character v := by
  have hbyte : c = UInt8.ofNat c.toNat := UInt8.ofNat_toNat.symm
  unfold value? at h
  split at h
  · next hc =>
    cases h
    have hlow : 65 ≤ c.toNat := hc.1
    have hhigh : c.toNat ≤ 90 := hc.2
    refine ⟨by omega, ?_⟩
    rw [character, if_pos (by omega), Nat.sub_add_cancel hlow]
    exact hbyte
  · split at h
    · next hc =>
      cases h
      have hlow : 97 ≤ c.toNat := hc.1
      have hhigh : c.toNat ≤ 122 := hc.2
      refine ⟨by omega, ?_⟩
      rw [character, if_neg (by omega), if_pos (by omega), Nat.sub_add_cancel (by omega)]
      exact hbyte
    · split at h
      · next hc =>
        cases h
        have hlow : 48 ≤ c.toNat := hc.1
        have hhigh : c.toNat ≤ 57 := hc.2
        refine ⟨by omega, ?_⟩
        rw [character, if_neg (by omega), if_neg (by omega), if_pos (by omega),
          Nat.add_sub_cancel]
        exact hbyte
      · split at h
        · next hc =>
          cases h
          rw [hc]
          decide
        · split at h
          · next hc =>
            cases h
            rw [hc]
            decide
          · cases h

/-! ## Steps of a scan -/

section Steps

variable {s : Scan} {c : UInt8} {r d : Bytes}

theorem scan_padding_eq_some_iff :
    scan s (padding :: r) = some d ↔ (s.bits ≠ 0 ∧ s.padded ≤ 2 ∧ s.pending = 0)
      ∧ scan ⟨s.bits - 2, 0, s.padded + 1⟩ r = some d := by
  rw [scan, if_pos rfl, Option.ite_none_right_eq_some]

theorem scan_skipped (hc : isSkipped c = true) : scan s (c :: r) = scan s r := by
  have hne : c ≠ padding := by
    intro h
    rw [h] at hc
    exact absurd hc (by decide)
  rw [scan, if_neg hne, if_pos hc]

/-- The first character of a group is only held. -/
theorem scan_first {v : Nat} (hv : v < 64) (p : Nat) :
    scan ⟨0, p, 0⟩ (character v :: r) = scan ⟨6, v, 0⟩ r := by
  obtain ⟨hpadding, hskipped, -⟩ := character_plain v hv
  rw [scan, if_neg hpadding, if_neg (by rw [hskipped]; exact Bool.false_ne_true),
    value?_character v hv]
  rfl

/-- A later character completes a byte; what is over of its bits is held. -/
theorem scan_later {v bits p : Nat} (hv : v < 64) (hbits : bits ≠ 0) :
    scan ⟨bits, p, 0⟩ (character v :: r) =
      (scan ⟨bits - 2, (p * 64 + v) % (1 <<< (bits - 2)), 0⟩ r).map
        (UInt8.ofNat ((p * 64 + v) / (1 <<< (bits - 2))) :: ·) := by
  obtain ⟨hpadding, hskipped, -⟩ := character_plain v hv
  rw [scan, if_neg hpadding, if_neg (by rw [hskipped]; exact Bool.false_ne_true),
    value?_character v hv]
  dsimp only
  rw [if_neg (not_not_intro rfl), if_neg hbits]

theorem scan_second {v w : Nat} (hw : w < 64) :
    scan ⟨6, v, 0⟩ (character w :: r) =
      (scan ⟨4, w % 16, 0⟩ r).map (UInt8.ofNat (v * 4 + w / 16) :: ·) := by
  have hpending : (v * 64 + w) % 16 = w % 16 := by omega
  have hbyte : (v * 64 + w) / 16 = v * 4 + w / 16 := by omega
  rw [← hpending, ← hbyte]
  exact scan_later hw (by decide)

theorem scan_third {p x : Nat} (hx : x < 64) :
    scan ⟨4, p, 0⟩ (character x :: r) =
      (scan ⟨2, x % 4, 0⟩ r).map (UInt8.ofNat (p * 16 + x / 4) :: ·) := by
  have hpending : (p * 64 + x) % 4 = x % 4 := by omega
  have hbyte : (p * 64 + x) / 4 = p * 16 + x / 4 := by omega
  rw [← hpending, ← hbyte]
  exact scan_later hx (by decide)

/-- The last character of a group leaves nothing to hold. -/
theorem scan_fourth {p y : Nat} (hy : y < 64) :
    scan ⟨2, p, 0⟩ (character y :: r) =
      (scan .start r).map (UInt8.ofNat (p * 64 + y) :: ·) := by
  refine (scan_later hy (Nat.succ_ne_zero 1)).trans ?_
  show (scan ⟨0, (p * 64 + y) % 1, 0⟩ r).map (UInt8.ofNat ((p * 64 + y) / 1) :: ·) = _
  rw [Nat.mod_one, Nat.div_one]
  rfl

/-- Nothing but padding and the alphabet is taken, and the alphabet only in front of padding. -/
theorem scan_cons_eq_some (hc : isSkipped c = false) (h : scan s (c :: r) = some d) :
    c = padding ∨ s.padded = 0 ∧ ∃ v < 64, c = character v := by
  rw [scan] at h
  split at h
  · next hpadding => exact Or.inl hpadding
  · rw [if_neg (by rw [hc]; exact Bool.false_ne_true)] at h
    split at h
    · cases h
    · next v hv =>
      split at h
      · cases h
      · next hpadded =>
        exact Or.inr ⟨Decidable.not_not.mp hpadded, v, eq_character_of_value? hv⟩

end Steps

/-- The skipped characters change nothing. -/
theorem scan_filter (s : Scan) (t : Bytes) : scan s (t.filter (!isSkipped ·)) = scan s t := by
  induction t generalizing s with
  | nil => rfl
  | cons c r ih =>
    by_cases hc : isSkipped c = true
    · rw [scan_skipped hc, List.filter_cons_of_neg (by rw [hc]; decide), ih]
    · rw [List.filter_cons_of_pos (by simpa using hc)]
      simp only [scan, ih]

/-! ## Groups of four characters -/

/-- No character of the text is passed over. -/
def Clean (t : Bytes) : Prop := ∀ c ∈ t, isSkipped c = false

theorem Clean.head {c : UInt8} {r : Bytes} (h : Clean (c :: r)) : isSkipped c = false :=
  h c List.mem_cons_self

theorem Clean.tail {c : UInt8} {r : Bytes} (h : Clean (c :: r)) : Clean r :=
  fun x hx => h x (List.mem_cons_of_mem c hx)

/-- Behind the first padding the rest of it must follow and nothing else. -/
theorem scan_padded_eq_some_iff {k m : Nat} {r d : Bytes} (hm : m ≠ 0) (hk : m + k ≤ 3)
    (hr : Clean r) :
    scan ⟨2 * k, 0, m⟩ r = some d ↔ r = List.replicate k padding ∧ d = [] := by
  induction k generalizing m r with
  | zero =>
    cases r with
    | nil => simp [scan, eq_comm]
    | cons c r =>
      constructor
      · intro h
        rcases scan_cons_eq_some hr.head h with rfl | ⟨hpadded, -⟩
        · exact absurd rfl (scan_padding_eq_some_iff.mp h).1.1
        · exact absurd hpadded hm
      · intro h
        cases h.1
  | succ k ih =>
    cases r with
    | nil => simp [scan, List.replicate_succ]
    | cons c r =>
      have hstep : scan ⟨2 * (k + 1), 0, m⟩ (padding :: r) = some d ↔
          r = List.replicate k padding ∧ d = [] := by
        rw [scan_padding_eq_some_iff, ← ih (Nat.succ_ne_zero m) (by omega) hr.tail]
        exact and_iff_right ⟨by dsimp only; omega, by dsimp only; omega, rfl⟩
      rw [List.replicate_succ, List.cons.injEq]
      constructor
      · intro h
        rcases scan_cons_eq_some hr.head h with rfl | ⟨hpadded, -⟩
        · obtain ⟨hrest, hd⟩ := hstep.mp h
          exact ⟨⟨rfl, hrest⟩, hd⟩
        · exact absurd hpadded hm
      · intro h
        obtain ⟨⟨rfl, hrest⟩, hd⟩ := h
        exact hstep.mpr ⟨hrest, hd⟩

/-- The first padding needs bits of a byte that are all zero. -/
theorem scan_stop_eq_some_iff {k p : Nat} {r d : Bytes} (hk : k ≤ 2) (hr : Clean r) :
    scan ⟨2 * (k + 1), p, 0⟩ (padding :: r) = some d ↔
      p = 0 ∧ r = List.replicate k padding ∧ d = [] := by
  rw [scan_padding_eq_some_iff, ← scan_padded_eq_some_iff Nat.one_ne_zero (by omega) hr]
  constructor
  · intro h
    exact ⟨h.1.2.2, h.2⟩
  · intro h
    exact ⟨⟨by dsimp only; omega, Nat.zero_le 2, h.1⟩, h.2⟩

theorem toNat_ofNat_eq {n : Nat} (h : n < 256) : (UInt8.ofNat n).toNat = n :=
  UInt8.toNat_ofNat_of_lt' h

theorem exists_encode_three {v w x y : Nat} (hv : v < 64) (hw : w < 64) (hx : x < 64)
    (hy : y < 64) :
    ∃ a b c, encode [a, b, c] = [character v, character w, character x, character y] := by
  refine ⟨UInt8.ofNat (v * 4 + w / 16), UInt8.ofNat (w % 16 * 16 + x / 4),
    UInt8.ofNat (x % 4 * 64 + y), ?_⟩
  have hfirst : (v * 4 + w / 16) / 4 = v := by omega
  have hsecond : (v * 4 + w / 16) % 4 * 16 + (w % 16 * 16 + x / 4) / 16 = w := by omega
  have hthird : (w % 16 * 16 + x / 4) % 16 * 4 + (x % 4 * 64 + y) / 64 = x := by omega
  have hfourth : (x % 4 * 64 + y) % 64 = y := by omega
  rw [encode, encode, toNat_ofNat_eq (by omega), toNat_ofNat_eq (by omega),
    toNat_ofNat_eq (by omega), hfirst, hsecond, hthird, hfourth]

theorem exists_encode_two {v w x : Nat} (hv : v < 64) (hw : w < 64) (hx : x < 64)
    (hzero : x % 4 = 0) :
    ∃ a b, encode [a, b] = [character v, character w, character x, padding] := by
  refine ⟨UInt8.ofNat (v * 4 + w / 16), UInt8.ofNat (w % 16 * 16 + x / 4), ?_⟩
  have hfirst : (v * 4 + w / 16) / 4 = v := by omega
  have hsecond : (v * 4 + w / 16) % 4 * 16 + (w % 16 * 16 + x / 4) / 16 = w := by omega
  have hthird : (w % 16 * 16 + x / 4) % 16 * 4 = x := by omega
  rw [encode, toNat_ofNat_eq (by omega), toNat_ofNat_eq (by omega), hfirst, hsecond, hthird]

theorem exists_encode_one {v w : Nat} (hv : v < 64) (hw : w < 64) (hzero : w % 16 = 0) :
    ∃ a, encode [a] = [character v, character w, padding, padding] := by
  refine ⟨UInt8.ofNat (v * 4 + w / 16), ?_⟩
  have hfirst : (v * 4 + w / 16) / 4 = v := by omega
  have hsecond : (v * 4 + w / 16) % 4 * 16 = w := by omega
  rw [encode, toNat_ofNat_eq (by omega), hfirst, hsecond]

theorem ofNat_eq {n : Nat} {a : UInt8} (h : n = a.toNat) : UInt8.ofNat n = a := by
  rw [h, UInt8.ofNat_toNat]

/-- A whole group gives its three bytes. -/
theorem scan_encode_three (a b c : UInt8) (r : Bytes) :
    scan .start (encode [a, b, c] ++ r) = (scan .start r).map (a :: b :: c :: ·) := by
  have ha := a.toNat_lt
  have hb := b.toNat_lt
  have hc := c.toNat_lt
  simp only [encode, List.cons_append, List.nil_append]
  rw [Scan.start, scan_first (by omega), scan_second (by omega), scan_third (by omega),
    scan_fourth (by omega), Option.map_map, Option.map_map]
  rw [ofNat_eq (a := a) (by omega), ofNat_eq (a := b) (by omega), ofNat_eq (a := c) (by omega)]
  rfl

theorem scan_encode_two (a b : UInt8) : scan .start (encode [a, b]) = some [a, b] := by
  have ha := a.toNat_lt
  have hb := b.toNat_lt
  have hzero : b.toNat % 16 * 4 % 4 = 0 := by omega
  have hstop : scan ⟨2, 0, 0⟩ [padding] = some [] := rfl
  rw [encode, Scan.start, scan_first (by omega), scan_second (by omega), scan_third (by omega),
    hzero, hstop, ofNat_eq (a := a) (by omega), ofNat_eq (a := b) (by omega)]
  rfl

theorem scan_encode_one (a : UInt8) : scan .start (encode [a]) = some [a] := by
  have ha := a.toNat_lt
  have hzero : a.toNat % 4 * 16 % 16 = 0 := by omega
  have hstop : scan ⟨4, 0, 0⟩ [padding, padding] = some [] := rfl
  rw [encode, Scan.start, scan_first (by omega), scan_second (by omega), hzero, hstop,
    ofNat_eq (a := a) (by omega)]
  rfl

theorem encode_three_append (a b c : UInt8) (r : Bytes) :
    encode (a :: b :: c :: r) = encode [a, b, c] ++ encode r := by
  simp only [encode, List.cons_append, List.nil_append]

/-- What is encoded is scanned again. -/
theorem scan_encode (d : Bytes) : scan .start (encode d) = some d := by
  induction d using encode.induct with
  | case1 a b c r ih => rw [encode_three_append, scan_encode_three, ih, Option.map_some]
  | case2 a b => exact scan_encode_two a b
  | case3 a => exact scan_encode_one a
  | case4 => rfl

/-- The bytes of whole groups, whatever is behind them. -/
theorem scan_encode_append {d : Bytes} (hd : 3 ∣ d.length) (r : Bytes) :
    scan .start (encode d ++ r) = (scan .start r).map (d ++ ·) := by
  induction d using encode.induct with
  | case1 a b c d ih =>
    have hd' : 3 ∣ d.length := by
      simp only [List.length_cons] at hd
      omega
    rw [encode_three_append, List.append_assoc, scan_encode_three, ih hd', Option.map_map]
    rfl
  | case2 a b => simp at hd
  | case3 a => simp at hd
  | case4 => simp [encode]

/-- A zero and three times padding: the scanner takes it for a group without bytes. -/
def emptyGroup : Bytes := [character 0, padding, padding, padding]

/-- What a text begins with if it is scanned. -/
theorem scan_start_eq_some {t d : Bytes} (ht : Clean t) (h : scan .start t = some d) :
    t = [] ∨ t = emptyGroup ∨ (∃ a, t = encode [a]) ∨ (∃ a b, t = encode [a, b])
      ∨ ∃ a b c r, Clean r ∧ t = encode [a, b, c] ++ r := by
  cases t with
  | nil => exact Or.inl rfl
  | cons c r =>
    refine Or.inr ?_
    rcases scan_cons_eq_some ht.head h with rfl | ⟨-, v, hv, rfl⟩
    · exact absurd rfl (scan_padding_eq_some_iff.mp h).1.1
    rw [Scan.start, scan_first hv] at h
    replace ht := ht.tail
    cases r with
    | nil => cases h
    | cons c r =>
      rcases scan_cons_eq_some ht.head h with rfl | ⟨-, w, hw, rfl⟩
      · obtain ⟨rfl, rfl, -⟩ := (scan_stop_eq_some_iff (k := 2) (Nat.le_refl 2) ht.tail).mp h
        exact Or.inl rfl
      refine Or.inr ?_
      rw [scan_second hw] at h
      obtain ⟨d, h, -⟩ := Option.map_eq_some_iff.mp h
      replace ht := ht.tail
      cases r with
      | nil => cases h
      | cons c r =>
        rcases scan_cons_eq_some ht.head h with rfl | ⟨-, x, hx, rfl⟩
        · obtain ⟨hzero, rfl, -⟩ :=
            (scan_stop_eq_some_iff (k := 1) (Nat.le_succ 1) ht.tail).mp h
          obtain ⟨a, ha⟩ := exists_encode_one hv hw hzero
          exact Or.inl ⟨a, ha.symm⟩
        refine Or.inr ?_
        rw [scan_third hx] at h
        obtain ⟨d, h, -⟩ := Option.map_eq_some_iff.mp h
        replace ht := ht.tail
        cases r with
        | nil => cases h
        | cons c r =>
          rcases scan_cons_eq_some ht.head h with rfl | ⟨-, y, hy, rfl⟩
          · obtain ⟨hzero, rfl, -⟩ :=
              (scan_stop_eq_some_iff (k := 0) (Nat.zero_le 2) ht.tail).mp h
            obtain ⟨a, b, hab⟩ := exists_encode_two hv hw hx hzero
            exact Or.inl ⟨a, b, hab.symm⟩
          obtain ⟨a, b, c, habc⟩ := exists_encode_three hv hw hx hy
          exact Or.inr ⟨a, b, c, r, ht.tail, by rw [habc]; rfl⟩

/-- A text of whole groups is what is written, possibly with an empty group at the end. -/
theorem scan_start_eq_some_iff {t d : Bytes} (ht : Clean t) :
    scan .start t = some d ↔ t = encode d ∨ 3 ∣ d.length ∧ t = encode d ++ emptyGroup := by
  constructor
  · intro h
    induction hn : t.length using Nat.strongRecOn generalizing t d with
    | ind n ih =>
      rcases scan_start_eq_some ht h with rfl | rfl | ⟨a, rfl⟩ | ⟨a, b, rfl⟩ | ⟨a, b, c, r, hr, rfl⟩
      · cases h
        exact Or.inl rfl
      · cases h
        exact Or.inr ⟨Nat.dvd_zero 3, rfl⟩
      · rw [scan_encode] at h
        cases h
        exact Or.inl rfl
      · rw [scan_encode] at h
        cases h
        exact Or.inl rfl
      · rw [scan_encode_three] at h
        obtain ⟨d', hrest, rfl⟩ := Option.map_eq_some_iff.mp h
        have hshort : r.length < n := by
          rw [← hn, List.length_append]
          exact Nat.lt_add_of_pos_left (Nat.succ_pos 3)
        rw [encode_three_append a b c d']
        rcases ih r.length hshort hr hrest rfl with rfl | ⟨hd, rfl⟩
        · exact Or.inl rfl
        · refine Or.inr ⟨?_, (List.append_assoc _ _ _).symm⟩
          simp only [List.length_cons]
          omega
  · intro h
    rcases h with rfl | ⟨hd, rfl⟩
    · exact scan_encode d
    · rw [scan_encode_append hd]
      exact congrArg some (List.append_nil d)

end SshCert.Base64
