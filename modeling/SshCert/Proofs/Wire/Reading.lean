import SshCert.Wire.Value

/-
  What the readers take.
  Each reader accepts exactly the bytes that its value is written as, whatever follows them, and
  leaves what follows: `string_eq_some_iff` for strings, `u32_eq_some_iff` and `u64_eq_some_iff`
  for words, `strings_eq_some_iff` and `allStrings_eq_some_iff` for rows of strings. Two readings
  of one byte string are therefore equal, a reading does not depend on the bytes behind it, and
  nothing is read from a part of the bytes of a value (`Exact.take_eq_none`). A string is refused
  exactly where its length is missing, or some of the bytes that it announces (`string_eq_ite`).
-/

namespace SshCert

namespace Bytes

theorem valueCount_four : valueCount 4 = 4294967296 := rfl

theorem valueCount_pos (size : Nat) : 0 < valueCount size := by
  rw [valueCount, Nat.shiftLeft_eq, Nat.one_mul]
  exact Nat.two_pow_pos _

theorem toNat_lt (b : Bytes) : toNat b < valueCount b.length := by
  have h : toNat b = toNat b % valueCount b.length := by
    rw [← toNat_ofNat, ofNat_toNat]
  rw [h]
  exact Nat.mod_lt _ (valueCount_pos _)

theorem length_slice {b : Bytes} {offset count : Nat} (h : count ≤ b.length - offset) :
    (slice b offset count).length = count := by
  rw [slice, List.length_take, List.length_drop]
  omega

@[simp] theorem length_ofUInt32 (w : UInt32) : (ofUInt32 w).length = 4 := length_ofNat 4 _

@[simp] theorem length_ofUInt64 (w : UInt64) : (ofUInt64 w).length = 8 := length_ofNat 8 _

theorem toUInt32_ofUInt32 (w : UInt32) : toUInt32 (ofUInt32 w) = w := by
  rw [toUInt32, ← length_ofUInt32 w, List.take_length, ofUInt32, toNat_ofNat, valueCount_four,
    Nat.mod_eq_of_lt w.toNat_lt]
  exact UInt32.ofNat_toNat

theorem toUInt64_ofUInt64 (w : UInt64) : toUInt64 (ofUInt64 w) = w := by
  have hw : w.toNat < valueCount 8 := w.toNat_lt
  rw [toUInt64, ← length_ofUInt64 w, List.take_length, ofUInt64, toNat_ofNat,
    Nat.mod_eq_of_lt hw]
  exact UInt64.ofNat_toNat

theorem ofUInt32_toUInt32 {b : Bytes} (h : b.length = 4) : ofUInt32 (toUInt32 b) = b := by
  have hlt := toNat_lt b
  rw [h] at hlt
  rw [toUInt32, List.take_of_length_le (by omega), ofUInt32, UInt32.toNat_ofNat_of_lt' hlt, ← h,
    ofNat_toNat]

theorem ofUInt64_toUInt64 {b : Bytes} (h : b.length = 8) : ofUInt64 (toUInt64 b) = b := by
  have hlt := toNat_lt b
  rw [h] at hlt
  rw [toUInt64, List.take_of_length_le (by omega), ofUInt64, UInt64.toNat_ofNat_of_lt' hlt, ← h,
    ofNat_toNat]

end Bytes

namespace Wire

/-! ## Readers in sequence -/

section Sequence

variable {α β : Type} {b : Bytes}

theorem bind_eq_some_iff {x : Reader α} {f : α → Reader β} {p : β × Bytes} :
    (x >>= f) b = some p ↔ ∃ a r, x b = some (a, r) ∧ f a r = some p := by
  constructor
  · intro h
    obtain ⟨⟨a, r⟩, hx, hf⟩ := Option.bind_eq_some_iff.mp h
    exact ⟨a, r, hx, hf⟩
  · intro h
    obtain ⟨a, r, hx, hf⟩ := h
    exact Option.bind_eq_some_iff.mpr ⟨(a, r), hx, hf⟩

theorem pure_eq_some_iff {a : α} {p : α × Bytes} :
    (pure a : Reader α) b = some p ↔ p = (a, b) := by
  constructor
  · intro h
    exact (Option.some.inj h).symm
  · intro h
    rw [h]
    rfl

theorem guard_eq_some_iff {c : Prop} [Decidable c] {p : Unit × Bytes} :
    (guard c : Reader Unit) b = some p ↔ c ∧ p = ((), b) := by
  show (if c then pure () else failure : Reader Unit) b = some p ↔ c ∧ p = ((), b)
  by_cases h : c
  · rw [if_pos h, pure_eq_some_iff, and_iff_right h]
  · rw [if_neg h]
    constructor
    · intro hp
      cases hp
    · intro hp
      exact absurd hp.1 h

end Sequence

/-! ## Readers that name the cause of a failure -/

section Causes

variable {ε α β : Type} {b : Bytes}

theorem bind_eq_ok_iff {x : StateT Bytes (Except ε) α} {f : α → StateT Bytes (Except ε) β}
    {p : β × Bytes} : (x >>= f) b = .ok p ↔ ∃ a r, x b = .ok (a, r) ∧ f a r = .ok p := by
  show (x b >>= fun q => f q.1 q.2) = .ok p ↔ _
  cases hx : x b with
  | error e =>
    constructor
    · intro h
      cases h
    · intro h
      obtain ⟨a, r, ha, -⟩ := h
      cases ha
  | ok q =>
    constructor
    · intro h
      exact ⟨q.1, q.2, rfl, h⟩
    · intro h
      obtain ⟨a, r, ha, hf⟩ := h
      cases ha
      exact hf

theorem bind_eq_error_iff {x : StateT Bytes (Except ε) α} {f : α → StateT Bytes (Except ε) β}
    {e : ε} : (x >>= f) b = .error e ↔
      x b = .error e ∨ ∃ a r, x b = .ok (a, r) ∧ f a r = .error e := by
  show (x b >>= fun q => f q.1 q.2) = .error e ↔ _
  cases hx : x b with
  | error e' =>
    constructor
    · intro h
      cases h
      exact Or.inl rfl
    · intro h
      rcases h with h | ⟨a, r, ha, -⟩
      · cases h
        rfl
      · cases ha
  | ok q =>
    constructor
    · intro h
      exact Or.inr ⟨q.1, q.2, rfl, h⟩
    · intro h
      rcases h with h | ⟨a, r, ha, hf⟩
      · cases h
      · cases ha
        exact hf

theorem pure_eq_ok_iff {a : α} {p : α × Bytes} :
    (pure a : StateT Bytes (Except ε) α) b = .ok p ↔ p = (a, b) := by
  constructor
  · intro h
    exact (Except.ok.inj h).symm
  · intro h
    rw [h]
    rfl

end Causes

/-! ## Readers of what is written -/

/-- The reader takes exactly the bytes that its values are written as, those values being read that
are as `good` says. -/
def Exact {α : Type} (r : Reader α) (good : α → Prop) (encode : α → Bytes) : Prop :=
  ∀ b a rest, r b = some (a, rest) ↔ good a ∧ b = encode a ++ rest

/-- Nothing is read from a part of what a value is written as. -/
theorem Exact.take_eq_none {α : Type} {r : Reader α} {good : α → Prop} {encode : α → Bytes}
    (hr : Exact r good encode) {a : α} (ha : good a) {k : Nat} (hk : k < (encode a).length) :
    r ((encode a).take k) = none := by
  cases hread : r ((encode a).take k) with
  | none => rfl
  | some p =>
    obtain ⟨a', rest⟩ := p
    obtain ⟨ha', htake⟩ := (hr _ _ _).mp hread
    -- the rest of the bytes would be left behind the value that was read too early
    have hlong : encode a = encode a' ++ (rest ++ (encode a).drop k) := by
      rw [← List.append_assoc, ← htake, List.take_append_drop]
    have hearly := (hr (encode a) a' _).mpr ⟨ha', hlong⟩
    have hwhole := (hr (encode a) a []).mpr ⟨ha, (List.append_nil _).symm⟩
    rw [hwhole, Option.some.injEq, Prod.mk.injEq] at hearly
    have hdrop := congrArg List.length hearly.2
    simp only [List.length_nil, List.length_append, List.length_drop] at hdrop
    omega

/-! ## Bytes and words -/

section Words

variable {b rest : Bytes}

theorem take_eq_some_iff {count : Nat} {v : Bytes} :
    take count b = some (v, rest) ↔ v.length = count ∧ b = v ++ rest := by
  unfold take
  constructor
  · intro h
    split at h
    · next hle =>
      cases h
      exact ⟨List.length_take_of_le hle, (List.take_append_drop count b).symm⟩
    · cases h
  · intro h
    obtain ⟨rfl, rfl⟩ := h
    rw [if_pos (by rw [List.length_append]; omega), List.take_left, List.drop_left]

theorem u8_eq_some_iff {x : UInt8} : u8 b = some (x, rest) ↔ b = x :: rest := by
  cases b with
  | nil => exact ⟨nofun, nofun⟩
  | cons y r =>
    constructor
    · intro h
      cases h
      rfl
    · intro h
      cases h
      rfl

theorem bool_eq_some_iff {v : Bool} :
    bool b = some (v, rest) ↔ ∃ x : UInt8, v = (x != 0) ∧ b = x :: rest := by
  unfold bool
  rw [bind_eq_some_iff]
  constructor
  · intro h
    obtain ⟨x, r, hx, hp⟩ := h
    cases pure_eq_some_iff.mp hp
    exact ⟨x, rfl, u8_eq_some_iff.mp hx⟩
  · intro h
    obtain ⟨x, rfl, hb⟩ := h
    exact ⟨x, rest, u8_eq_some_iff.mpr hb, rfl⟩

theorem u32_eq_some_iff {w : UInt32} :
    u32 b = some (w, rest) ↔ b = Bytes.ofUInt32 w ++ rest := by
  unfold u32
  rw [bind_eq_some_iff]
  constructor
  · intro h
    obtain ⟨v, r, hv, hp⟩ := h
    cases pure_eq_some_iff.mp hp
    obtain ⟨hlen, rfl⟩ := take_eq_some_iff.mp hv
    rw [Bytes.ofUInt32_toUInt32 hlen]
  · intro h
    refine ⟨Bytes.ofUInt32 w, rest, take_eq_some_iff.mpr ⟨Bytes.length_ofUInt32 w, h⟩, ?_⟩
    rw [Bytes.toUInt32_ofUInt32]
    rfl

theorem u64_eq_some_iff {w : UInt64} :
    u64 b = some (w, rest) ↔ b = Bytes.ofUInt64 w ++ rest := by
  unfold u64
  rw [bind_eq_some_iff]
  constructor
  · intro h
    obtain ⟨v, r, hv, hp⟩ := h
    cases pure_eq_some_iff.mp hp
    obtain ⟨hlen, rfl⟩ := take_eq_some_iff.mp hv
    rw [Bytes.ofUInt64_toUInt64 hlen]
  · intro h
    refine ⟨Bytes.ofUInt64 w, rest, take_eq_some_iff.mpr ⟨Bytes.length_ofUInt64 w, h⟩, ?_⟩
    rw [Bytes.toUInt64_ofUInt64]
    rfl

theorem exact_u32 : Exact u32 (fun _ => True) Bytes.ofUInt32 := by
  intro b w rest
  simp [u32_eq_some_iff]

theorem exact_u64 : Exact u64 (fun _ => True) Bytes.ofUInt64 := by
  intro b w rest
  simp [u64_eq_some_iff]

end Words

/-! ## Strings -/

/-- Whether the length of the bytes can stand in front of them: it is below 2³². -/
def Fits (b : Bytes) : Prop := b.length < Bytes.valueCount 4

instance (b : Bytes) : Decidable (Fits b) := inferInstanceAs (Decidable (_ < _))

theorem fits_nil : Fits [] := by
  decide

theorem encodeString_eq (b : Bytes) : encodeString b = lengthWord b ++ b := by
  simp [encodeString, Value.encode, Value.pieces]

@[simp] theorem length_encodeString (b : Bytes) : (encodeString b).length = 4 + b.length := by
  rw [encodeString_eq, List.length_append, lengthWord, Bytes.length_ofUInt32]

theorem toNat_length {b : Bytes} (h : Fits b) : (UInt32.ofNat b.length).toNat = b.length :=
  UInt32.toNat_ofNat_of_lt' h

theorem string_eq_some_iff {b v rest : Bytes} :
    string b = some (v, rest) ↔ Fits v ∧ b = encodeString v ++ rest := by
  unfold string
  rw [bind_eq_some_iff]
  constructor
  · intro h
    obtain ⟨w, r, hw, hv⟩ := h
    obtain ⟨hlen, rfl⟩ := take_eq_some_iff.mp hv
    rw [u32_eq_some_iff.mp hw, encodeString_eq, lengthWord, hlen, UInt32.ofNat_toNat,
      List.append_assoc]
    refine ⟨?_, rfl⟩
    rw [Fits, hlen]
    exact w.toNat_lt
  · intro h
    obtain ⟨hfits, rfl⟩ := h
    rw [encodeString_eq, List.append_assoc]
    exact ⟨UInt32.ofNat v.length, v ++ rest, u32_eq_some_iff.mpr rfl,
      take_eq_some_iff.mpr ⟨(toNat_length hfits).symm, rfl⟩⟩

theorem exact_string : Exact string Fits encodeString :=
  fun _ _ _ => string_eq_some_iff

/-- The length that the first four bytes announce. -/
def announced (b : Bytes) : Nat := (Bytes.toUInt32 b).toNat

/-- A string is read exactly if there is a length and as many bytes behind it. -/
theorem string_eq_ite (b : Bytes) :
    string b =
      if 4 ≤ b.length ∧ announced b ≤ b.length - 4 then
        some (Bytes.slice b 4 (announced b), b.drop (4 + announced b))
      else none := by
  have hword : (Bytes.toUInt32 (b.take 4)).toNat = announced b := by
    rw [announced, Bytes.toUInt32, Bytes.toUInt32, List.take_take, Nat.min_self]
  rw [string_eq, u32_eq, take]
  by_cases hfour : 4 ≤ b.length
  · rw [if_pos hfour, Option.bind_some, Option.bind_some, hword, take, List.length_drop,
      List.drop_drop]
    by_cases hbody : announced b ≤ b.length - 4
    · rw [if_pos hbody, if_pos ⟨hfour, hbody⟩]
      rfl
    · rw [if_neg hbody, if_neg (fun h => hbody h.2)]
  · rw [if_neg hfour, if_neg (fun h => hfour h.1)]
    rfl

/-- A string is read back in front of anything. -/
theorem string_encodeString {v : Bytes} (h : Fits v) (rest : Bytes) :
    string (encodeString v ++ rest) = some (v, rest) :=
  string_eq_some_iff.mpr ⟨h, rfl⟩

/-- No written string is the beginning of another one. -/
theorem encodeString_append_inj {v w r s : Bytes} (hv : Fits v) (hw : Fits w)
    (h : encodeString v ++ r = encodeString w ++ s) : v = w ∧ r = s := by
  have hread := string_encodeString hv r
  rw [h, string_encodeString hw] at hread
  cases hread
  exact ⟨rfl, rfl⟩

/-! ## Rows of strings -/

@[simp] theorem encodeStrings_nil : encodeStrings [] = [] := rfl

@[simp] theorem encodeStrings_cons (v : Bytes) (vs : List Bytes) :
    encodeStrings (v :: vs) = encodeString v ++ encodeStrings vs :=
  List.flatMap_cons

/-- A string of a row that can be written as one field can be written itself. -/
theorem fits_of_mem {v : Bytes} {vs : List Bytes} (hv : v ∈ vs) (h : Fits (encodeStrings vs)) :
    Fits v := by
  have hle : (encodeString v).length ≤ (encodeStrings vs).length :=
    (List.sublist_flatten_of_mem (List.mem_map_of_mem hv)).length_le
  rw [length_encodeString] at hle
  unfold Fits at h ⊢
  omega

theorem encodeString_ne_nil (v : Bytes) : encodeString v ≠ [] := by
  intro h
  have hlen := length_encodeString v
  rw [h, List.length_nil] at hlen
  omega

theorem strings_eq_some_iff {count : Nat} {b rest : Bytes} {vs : List Bytes} :
    strings count b = some (vs, rest) ↔
      vs.length = count ∧ (∀ v ∈ vs, Fits v) ∧ b = encodeStrings vs ++ rest := by
  induction count generalizing b vs with
  | zero =>
    rw [strings, pure_eq_some_iff, List.length_eq_zero_iff]
    constructor
    · intro h
      cases h
      exact ⟨rfl, nofun, rfl⟩
    · intro h
      obtain ⟨rfl, -, rfl⟩ := h
      rfl
  | succ count ih =>
    rw [strings, bind_eq_some_iff]
    constructor
    · intro h
      obtain ⟨v, r, hv, h⟩ := h
      obtain ⟨ws, r', hws, hp⟩ := bind_eq_some_iff.mp h
      cases pure_eq_some_iff.mp hp
      obtain ⟨hfits, rfl⟩ := string_eq_some_iff.mp hv
      obtain ⟨hlen, hall, rfl⟩ := ih.mp hws
      refine ⟨congrArg (· + 1) hlen, List.forall_mem_cons.mpr ⟨hfits, hall⟩, ?_⟩
      rw [encodeStrings_cons, List.append_assoc]
    · intro h
      obtain ⟨hlen, hall, rfl⟩ := h
      cases vs with
      | nil => cases hlen
      | cons v ws =>
        obtain ⟨hfits, hall⟩ := List.forall_mem_cons.mp hall
        rw [encodeStrings_cons, List.append_assoc]
        exact ⟨v, encodeStrings ws ++ rest, string_encodeString hfits _,
          bind_eq_some_iff.mpr ⟨ws, rest, ih.mpr ⟨Nat.succ.inj hlen, hall, rfl⟩, rfl⟩⟩

theorem exact_strings (count : Nat) :
    Exact (strings count) (fun vs => vs.length = count ∧ ∀ v ∈ vs, Fits v) encodeStrings :=
  fun _ _ _ => strings_eq_some_iff.trans and_assoc.symm

/-- No written row of strings is the beginning of another one with as many strings. -/
theorem encodeStrings_append_inj {vs ws : List Bytes} {r s : Bytes}
    (hlength : vs.length = ws.length) (hvs : ∀ v ∈ vs, Fits v) (hws : ∀ w ∈ ws, Fits w)
    (h : encodeStrings vs ++ r = encodeStrings ws ++ s) : vs = ws ∧ r = s := by
  have hread : strings vs.length (encodeStrings vs ++ r) = some (vs, r) :=
    strings_eq_some_iff.mpr ⟨rfl, hvs, rfl⟩
  have hread' : strings vs.length (encodeStrings vs ++ r) = some (ws, s) :=
    strings_eq_some_iff.mpr ⟨hlength.symm, hws, h⟩
  rw [hread] at hread'
  cases hread'
  exact ⟨rfl, rfl⟩

theorem allStrings_encodeStrings {vs : List Bytes} (h : ∀ v ∈ vs, Fits v) :
    allStrings (encodeStrings vs) = some vs := by
  induction vs with
  | nil => rw [encodeStrings_nil, allStrings, if_pos rfl]
  | cons v ws ih =>
    obtain ⟨hfits, hall⟩ := List.forall_mem_cons.mp h
    have hne : encodeString v ++ encodeStrings ws ≠ [] :=
      List.append_ne_nil_of_left_ne_nil (encodeString_ne_nil v) _
    rw [encodeStrings_cons, allStrings, if_neg hne]
    split
    · next hs =>
      rw [string_encodeString hfits] at hs
      cases hs
    · next first rest hs =>
      rw [string_encodeString hfits] at hs
      cases hs
      rw [ih hall, Option.map_some]

theorem allStrings_eq_some_iff {b : Bytes} {vs : List Bytes} :
    allStrings b = some vs ↔ (∀ v ∈ vs, Fits v) ∧ b = encodeStrings vs := by
  constructor
  · intro h
    -- along the reading: each string takes its own bytes and leaves a shorter field
    fun_induction allStrings b generalizing vs with
    | case1 =>
      cases h
      exact ⟨nofun, rfl⟩
    | case2 => cases h
    | case3 b _ first rest hs ih =>
      obtain ⟨ws, hws, rfl⟩ := Option.map_eq_some_iff.mp h
      obtain ⟨hfits, rfl⟩ := string_eq_some_iff.mp hs
      obtain ⟨hall, rfl⟩ := ih hws
      exact ⟨List.forall_mem_cons.mpr ⟨hfits, hall⟩, rfl⟩
  · intro h
    obtain ⟨hall, rfl⟩ := h
    exact allStrings_encodeStrings hall

/-! ## Rows of values -/

@[simp] theorem encodeAll_nil : encodeAll [] = [] := rfl

@[simp] theorem encodeAll_cons (v : Value) (vs : List Value) :
    encodeAll (v :: vs) = v.encode ++ encodeAll vs :=
  List.flatMap_cons

@[simp] theorem encode_u8 (x : UInt8) : (Value.u8 x).encode = [x] := rfl

@[simp] theorem encode_u32 (w : UInt32) : (Value.u32 w).encode = Bytes.ofUInt32 w := by
  simp [Value.encode, Value.pieces]

@[simp] theorem encode_u64 (w : UInt64) : (Value.u64 w).encode = Bytes.ofUInt64 w := by
  simp [Value.encode, Value.pieces]

@[simp] theorem encode_bool (v : Bool) : (Value.bool v).encode = [if v then 1 else 0] := rfl

@[simp] theorem encode_string (b : Bytes) : (Value.string b).encode = encodeString b := rfl

@[simp] theorem encode_mpint (i : Mpint) : (Value.mpint i).encode = encodeString i.payload := by
  simp [Value.encode, Value.pieces, encodeString_eq]

@[simp] theorem encode_bytes (b : Bytes) : (Value.bytes b).encode = b := by
  simp [Value.encode, Value.pieces]

end Wire

end SshCert
