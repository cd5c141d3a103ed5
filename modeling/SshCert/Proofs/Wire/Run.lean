import SshCert.Proofs.Wire.Reading
import SshCert.Wire.Cursor

/-
  What a run of read steps can do.
  How many bytes a reader takes depends on the first four of them only, and its value on nothing but
  the bytes that it takes (`Takes`, with `Kind.takes_read` for all kinds). So a step is made if its
  bytes are there and leaves everything as it was if they are not (`Cursor.step_eq`), and the cursor
  never leaves the input (`Cursor.Within.run`). Bytes behind the input change nothing of what has
  been read (`Cursor.run_extend`), and a step that failed may as well be left out
  (`Cursor.run_skip`). `Cursor.run_safe` says this of every place that a run can reach, and that
  comparing in words of 64 bits comes to the same.
-/

namespace SshCert.Wire

/-! ## Readers and their bytes -/

/-- The reader takes as many bytes as `size` says, if they are there, and gives what `value` makes
of exactly these bytes. -/
def Takes {α : Type} (r : Reader α) (size : Bytes → Nat) (value : Bytes → α) : Prop :=
  ∀ b, r b =
    if size b ≤ b.length then some (value (b.take (size b)), b.drop (size b)) else none

section Takes

variable {α β : Type} {r : Reader α} {size : Bytes → Nat} {value : Bytes → α}

theorem Takes.map (h : Takes r size value) (f : α → β) :
    Takes (f <$> r) size fun w => f (value w) := by
  intro b
  show (r b).bind _ = _
  rw [h b]
  split <;> rfl

theorem takes_take (count : Nat) : Takes (take count) (fun _ => count) id :=
  fun _ => rfl

theorem takes_u8 : Takes u8 (fun _ => 1) (List.headD · 0) := by
  intro b
  cases b <;> rfl

theorem takes_u32 : Takes u32 (fun _ => 4) Bytes.toUInt32 := (takes_take 4).map Bytes.toUInt32

theorem takes_u64 : Takes u64 (fun _ => 8) Bytes.toUInt64 := (takes_take 8).map Bytes.toUInt64

theorem takes_bool : Takes bool (fun _ => 1) (List.headD · 0 != 0) := takes_u8.map (· != 0)

theorem takes_string : Takes string (4 + announced ·) (List.drop 4) := by
  intro b
  have hiff : (4 ≤ b.length ∧ announced b ≤ b.length - 4) ↔ 4 + announced b ≤ b.length := by omega
  rw [string_eq_ite, Bytes.slice, List.take_drop]
  simp only [hiff]

theorem takes_mpint :
    Takes Mpint.read (4 + announced ·) fun w => Mpint.ofPayload (w.drop 4) :=
  takes_string.map Mpint.ofPayload

end Takes

/-! ## Kinds -/

namespace Kind

/-- How many bytes a value of the kind takes from the front of the bytes. A string takes its length
and as many bytes as that announces. -/
def size (k : Kind) (b : Bytes) : Nat :=
  match k with
  | .u8 => 1
  | .u32 => 4
  | .u64 => 8
  | .bool => 1
  | .string => 4 + announced b
  | .mpint => 4 + announced b
  | .bytes count => count

/-- The value that exactly these bytes are read as. -/
def value (k : Kind) (w : Bytes) : Value :=
  match k with
  | .u8 => .u8 (w.headD 0)
  | .u32 => .u32 (Bytes.toUInt32 w)
  | .u64 => .u64 (Bytes.toUInt64 w)
  | .bool => .bool (w.headD 0 != 0)
  | .string => .string (w.drop 4)
  | .mpint => .mpint (Mpint.ofPayload (w.drop 4))
  | .bytes _ => .bytes w

theorem takes_read (k : Kind) : Takes k.read k.size k.value := by
  cases k with
  | u8 => exact takes_u8.map Value.u8
  | u32 => exact takes_u32.map Value.u32
  | u64 => exact takes_u64.map Value.u64
  | bool => exact takes_bool.map Value.bool
  | string => exact takes_string.map Value.string
  | mpint => exact takes_mpint.map Value.mpint
  | bytes count => exact (takes_take count).map Value.bytes

variable {k : Kind} {b : Bytes}

/-- No more than the length word decides how many bytes are taken. -/
theorem size_congr (k : Kind) {b b' : Bytes} (h : b.take 4 = b'.take 4) : k.size b = k.size b' := by
  have hannounced : announced b = announced b' := by
    rw [announced, announced, Bytes.toUInt32, Bytes.toUInt32, h]
  cases k <;> simp only [size, hannounced]

theorem size_append (h : k.size b ≤ b.length) (tail : Bytes) : k.size (b ++ tail) = k.size b := by
  cases k with
  | string =>
    refine size_congr .string (List.take_append_of_le_length ?_)
    simp only [size] at h
    omega
  | mpint =>
    refine size_congr .mpint (List.take_append_of_le_length ?_)
    simp only [size] at h
    omega
  | _ => rfl

/-- The bytes of a value know how many they are. -/
theorem size_take (k : Kind) (b : Bytes) : k.size (b.take (k.size b)) = k.size b := by
  cases k with
  | string => exact size_congr .string (by rw [List.take_take, size, Nat.min_eq_left (by omega)])
  | mpint => exact size_congr .mpint (by rw [List.take_take, size, Nat.min_eq_left (by omega)])
  | _ => rfl

end Kind

/-- The bytes of the input that a value shows. A number shows none. -/
def Value.shown : Value → Bytes
  | .string b => b
  | .mpint i => i.data
  | .bytes b => b
  | _ => []

/-- A value shows no bytes but those it was read from. -/
theorem Kind.shown_value_suffix (k : Kind) (w : Bytes) : (k.value w).shown <:+ w := by
  cases k with
  | string => exact List.drop_suffix 4 w
  | mpint =>
    refine List.IsSuffix.trans ?_ (List.drop_suffix 4 w)
    simp only [Kind.value, Value.shown, Mpint.ofPayload]
    split
    · exact List.suffix_refl _
    · exact List.dropWhile_suffix _
  | bytes count => exact List.suffix_refl w
  | _ => exact List.nil_suffix

/-! ## Words -/

/-- Whether a step is refused, by comparing words of 64 bits: what is left with what the kind takes,
and for a string what is left behind the length with the length. -/
def Kind.refused (k : Kind) (left : UInt64) (length : UInt32) : Bool :=
  match k with
  | .u8 => left < 1
  | .u32 => left < 4
  | .u64 => left < 8
  | .bool => left < 1
  | .string => left < 4 || left - 4 < length.toUInt64
  | .mpint => left < 4 || left - 4 < length.toUInt64
  | .bytes count => left < UInt64.ofNat count

theorem ofNat_lt_iff {m n : Nat} (hm : m < Bytes.valueCount 8) (hn : n < Bytes.valueCount 8) :
    UInt64.ofNat m < UInt64.ofNat n ↔ m < n := by
  rw [UInt64.lt_iff_toNat_lt, UInt64.toNat_ofNat_of_lt' hm, UInt64.toNat_ofNat_of_lt' hn]

/-- Four is taken off only where it is left, so the difference does not wrap. -/
theorem string_refused_iff {left : Nat} (hleft : left < Bytes.valueCount 8) (length : UInt32) :
    (UInt64.ofNat left < 4 ∨ UInt64.ofNat left - 4 < length.toUInt64) ↔
      left < 4 + length.toNat := by
  have hfour : UInt64.ofNat left < 4 ↔ left < 4 := ofNat_lt_iff hleft (by decide)
  rw [hfour]
  by_cases hshort : left < 4
  · simp only [hshort, true_or, true_iff]
    omega
  · have hle : 4 ≤ UInt64.ofNat left := by
      rw [← UInt64.not_lt, hfour]
      exact hshort
    rw [UInt64.lt_iff_toNat_lt, UInt64.toNat_sub_of_le _ _ hle, UInt64.toNat_ofNat_of_lt' hleft,
      UInt32.toNat_toUInt64]
    have hnumeral : (4 : UInt64).toNat = 4 := rfl
    omega

theorem Kind.refused_iff {k : Kind} {b : Bytes} (hb : b.length < Bytes.valueCount 8)
    (hcount : ∀ count, k = .bytes count → count < Bytes.valueCount 8) :
    k.refused (UInt64.ofNat b.length) (Bytes.toUInt32 b) = true ↔ b.length < k.size b := by
  cases k with
  | u8 => exact decide_eq_true_iff.trans (ofNat_lt_iff hb (by decide))
  | u32 => exact decide_eq_true_iff.trans (ofNat_lt_iff hb (by decide))
  | u64 => exact decide_eq_true_iff.trans (ofNat_lt_iff hb (by decide))
  | bool => exact decide_eq_true_iff.trans (ofNat_lt_iff hb (by decide))
  | string =>
    rw [refused, Bool.or_eq_true, decide_eq_true_iff, decide_eq_true_iff, string_refused_iff hb]
    rfl
  | mpint =>
    rw [refused, Bool.or_eq_true, decide_eq_true_iff, decide_eq_true_iff, string_refused_iff hb]
    rfl
  | bytes count => exact decide_eq_true_iff.trans (ofNat_lt_iff hb (hcount count rfl))

/-! ## One step -/

namespace Cursor

variable {c : Cursor} {k : Kind} {v : Value}

/-- A step is made if there are as many bytes as the kind takes. -/
theorem step_eq (c : Cursor) (k : Kind) :
    c.step k =
      if k.size c.rest ≤ c.left then
        (some (k.value (c.rest.take (k.size c.rest))),
          ⟨c.used + k.size c.rest, c.rest.drop (k.size c.rest)⟩)
      else (none, c) := by
  unfold step
  rw [k.takes_read, left]
  by_cases h : k.size c.rest ≤ c.rest.length
  · have hmoved : c.rest.length - (c.rest.length - k.size c.rest) = k.size c.rest := by omega
    simp only [if_pos h, List.length_drop, hmoved]
  · simp only [if_neg h]

theorem step_eq_none_iff : (c.step k).1 = none ↔ c.left < k.size c.rest := by
  rw [step_eq]
  split <;> simp <;> omega

/-- A step that is refused does not move. -/
theorem step_of_none (h : (c.step k).1 = none) : c.step k = (none, c) := by
  rw [step_eq, if_neg (Nat.not_le.mpr (step_eq_none_iff.mp h))]

theorem size_le_of_some (h : (c.step k).1 = some v) : k.size c.rest ≤ c.left := by
  refine Nat.le_of_not_lt fun hshort => ?_
  rw [step_eq_none_iff.mpr hshort] at h
  cases h

/-- A step that is made moves over the bytes of its value. -/
theorem step_of_some (h : (c.step k).1 = some v) :
    c.step k = (some v, ⟨c.used + k.size c.rest, c.rest.drop (k.size c.rest)⟩) ∧
      v = k.value (c.rest.take (k.size c.rest)) := by
  have hstep := step_eq c k
  rw [if_pos (size_le_of_some h)] at hstep
  rw [hstep] at h ⊢
  cases h
  exact ⟨rfl, rfl⟩

/-- What a step gives is decided by the bytes that it moves over. -/
theorem step_between (h : (c.step k).1 = some v) (used : Nat) (behind : Bytes) :
    step ⟨used, c.rest.take (k.size c.rest) ++ behind⟩ k =
      (some v, ⟨used + k.size c.rest, behind⟩) := by
  generalize hw : c.rest.take (k.size c.rest) = w
  have hlength : w.length = k.size c.rest := by
    rw [← hw, List.length_take_of_le (size_le_of_some h)]
  have hsize : k.size w = w.length := by rw [← hw, Kind.size_take, hw, hlength]
  have hbehind : k.size (w ++ behind) = w.length := by
    rw [Kind.size_append (Nat.le_of_eq hsize), hsize]
  have hlong : w.length ≤ left ⟨used, w ++ behind⟩ := by
    rw [left, List.length_append]
    omega
  rw [step_eq, hbehind, if_pos hlong, List.take_left, List.drop_left, (step_of_some h).2, hw,
    hlength]

/-! ## The place in the input -/

/-- The cursor stands in the input. -/
def Within (input : Bytes) (c : Cursor) : Prop :=
  c.used ≤ input.length ∧ c.rest = input.drop c.used

section Run

variable {input : Bytes}

theorem within_start (input : Bytes) : Within input (start input) := ⟨Nat.zero_le _, rfl⟩

theorem Within.used_add_left (h : Within input c) : c.used + c.left = input.length := by
  rw [left, h.2, List.length_drop]
  have hle := h.1
  omega

theorem Within.step (h : Within input c) (k : Kind) : Within input (c.step k).2 := by
  have hsize := h.used_add_left
  rw [step_eq]
  split
  · refine ⟨by dsimp only; omega, ?_⟩
    dsimp only
    rw [h.2, List.drop_drop]
  · exact h

theorem Within.run (h : Within input c) (ks : List Kind) : Within input (c.run ks).2 := by
  induction ks generalizing c with
  | nil => exact h
  | cons k ks ih => exact ih (h.step k)

/-! ## Runs -/

theorem run_cons (c : Cursor) (k : Kind) (ks : List Kind) :
    c.run (k :: ks) = ((c.step k).1 :: ((c.step k).2.run ks).1, ((c.step k).2.run ks).2) := rfl

theorem run_append (c : Cursor) (ks later : List Kind) :
    c.run (ks ++ later) =
      ((c.run ks).1 ++ ((c.run ks).2.run later).1, ((c.run ks).2.run later).2) := by
  induction ks generalizing c with
  | nil => rfl
  | cons k ks ih => rw [List.cons_append, run_cons, ih, run_cons, List.cons_append]

theorem length_run (c : Cursor) (ks : List Kind) : (c.run ks).1.length = ks.length := by
  induction ks generalizing c with
  | nil => rfl
  | cons k ks ih => rw [run_cons, List.length_cons, ih, List.length_cons]

/-- Without a step that failed, the other answers and the place at the end are the same. -/
theorem run_skip {ks : List Kind} (h : ((c.run ks).2.step k).1 = none) (later : List Kind) :
    (c.run (ks ++ k :: later)).1.eraseIdx ks.length = (c.run (ks ++ later)).1 ∧
      (c.run (ks ++ k :: later)).2 = (c.run (ks ++ later)).2 := by
  rw [run_append, run_cons, step_of_none h, run_append]
  refine ⟨?_, rfl⟩
  rw [List.eraseIdx_append_of_length_le (Nat.le_of_eq (length_run c ks)), length_run, Nat.sub_self,
    List.eraseIdx_cons_zero]

/-- The place with more bytes behind the input. -/
def extend (tail : Bytes) (c : Cursor) : Cursor := ⟨c.used, c.rest ++ tail⟩

theorem step_extend (h : (c.step k).1 = some v) (tail : Bytes) :
    (c.extend tail).step k = (some v, (c.step k).2.extend tail) := by
  have hle := size_le_of_some h
  have hlong : k.size c.rest ≤ left ⟨c.used, c.rest ++ tail⟩ := by
    rw [left, List.length_append]
    rw [left] at hle
    omega
  obtain ⟨hstep, hv⟩ := step_of_some h
  rw [extend, step_eq, Kind.size_append hle, if_pos hlong, hstep, hv,
    List.take_append_of_le_length hle, List.drop_append_of_le_length hle]
  rfl

/-- A run without a failed step does not see what stands behind the input. -/
theorem run_extend {ks : List Kind} (h : none ∉ (c.run ks).1) (tail : Bytes) :
    (c.extend tail).run ks = ((c.run ks).1, (c.run ks).2.extend tail) := by
  induction ks generalizing c with
  | nil => rfl
  | cons k ks ih =>
    rw [run_cons, List.mem_cons, not_or] at h
    obtain ⟨hfirst, hothers⟩ := h
    obtain ⟨v, hv⟩ := Option.ne_none_iff_exists'.mp (Ne.symm hfirst)
    rw [run_cons, step_extend hv, ih hothers, run_cons, hv]

theorem none_not_mem_take {ks : List Kind} (h : none ∉ (c.run ks).1) (i : Nat) :
    none ∉ (c.run (ks.take i)).1 := by
  rw [← List.take_append_drop i ks, run_append] at h
  exact fun hmem => h (List.mem_append_left _ hmem)

/-! ## Safety -/

/-- Words of 64 bits hold every position in an input whose length they hold. -/
theorem Within.toNat_add (h : Within input c) (hinput : input.length < Bytes.valueCount 8)
    (hmade : (c.step k).1 = some v) :
    (UInt64.ofNat c.used + UInt64.ofNat (k.size c.rest)).toNat = (c.step k).2.used := by
  have hwithin := (h.step k).1
  rw [(step_of_some hmade).1] at hwithin ⊢
  rw [← UInt64.ofNat_add]
  exact UInt64.toNat_ofNat_of_lt' (Nat.lt_of_le_of_lt hwithin hinput)

end Run

/-- A run of read steps over an input, whatever they are. Wherever it has come to, what it has used
and what is left are the input. A step from there fails exactly if it needs more bytes than are
left, and then it stays, and what is read later is as if it had not been tried. A step that is made
moves over as many bytes as it needs, shows no others, and has a value that these bytes decide. As
long as no step has failed, bytes behind the input change neither values nor places. Comparing and
adding in words of 64 bits does not wrap. -/
theorem run_safe (input : Bytes) (ks : List Kind) :
    let c := ((start input).run ks).2
    (c.used + c.left = input.length ∧ c.rest = input.drop c.used) ∧
    (∀ k, (c.step k).1 = none ↔ c.left < k.size c.rest) ∧
    (∀ k, (c.step k).1 = none → (c.step k).2 = c ∧ ∀ later,
      ((start input).run (ks ++ k :: later)).1.eraseIdx ks.length =
          ((start input).run (ks ++ later)).1 ∧
        ((start input).run (ks ++ k :: later)).2 = ((start input).run (ks ++ later)).2) ∧
    (∀ k v, (c.step k).1 = some v →
      (c.step k).2.used = c.used + k.size c.rest ∧
        v.shown <:+ Bytes.slice input c.used (k.size c.rest) ∧
        ∀ used behind, step ⟨used, Bytes.slice input c.used (k.size c.rest) ++ behind⟩ k =
          (some v, ⟨used + k.size c.rest, behind⟩)) ∧
    (none ∉ ((start input).run ks).1 → ∀ tail i,
      (start (input ++ tail)).run (ks.take i) =
        (((start input).run (ks.take i)).1, ((start input).run (ks.take i)).2.extend tail)) ∧
    (input.length < Bytes.valueCount 8 → ∀ k,
      (∀ count, k = .bytes count → count < Bytes.valueCount 8) →
        ((c.step k).1 = none ↔
          k.refused (UInt64.ofNat c.left) (Bytes.toUInt32 c.rest) = true) ∧
        ∀ v, (c.step k).1 = some v →
          (UInt64.ofNat c.used + UInt64.ofNat (k.size c.rest)).toNat = (c.step k).2.used) := by
  intro c
  have hwithin : Within input c := (within_start input).run ks
  refine ⟨⟨hwithin.used_add_left, hwithin.2⟩, fun k => step_eq_none_iff, fun k hnone => ?_,
    fun k v hsome => ?_, fun hmade tail i => ?_, fun hinput k hcount => ⟨?_, fun v hsome => ?_⟩⟩
  · exact ⟨by rw [step_of_none hnone], run_skip hnone⟩
  · obtain ⟨hstep, hv⟩ := step_of_some hsome
    rw [Bytes.slice, ← hwithin.2]
    refine ⟨by rw [hstep], ?_, step_between hsome⟩
    rw [hv]
    exact k.shown_value_suffix _
  · exact run_extend (none_not_mem_take hmade i) tail
  · have hleft : c.rest.length < Bytes.valueCount 8 := by
      have hsum := hwithin.used_add_left
      rw [left] at hsum
      omega
    rw [step_eq_none_iff]
    exact (Kind.refused_iff hleft hcount).symm
  · exact hwithin.toNat_add hinput hsome

namespace Hostile

/-- A length that announces almost 2³² bytes, then an integer of two bytes and one byte more. -/
def bytes : Bytes := [0xff, 0xff, 0xff, 0xff, 0, 0, 0, 2, 0x81, 7, 9]

/-- As many bytes as a word of 64 bits can count. -/
def all : Kind := .bytes 0xffffffffffffffff

end Hostile

open Hostile in
/-- The string and the raw bytes that are not there are refused, also in words, and leave no trace
in what is read around them. -/
theorem run_safe_hostile :
    (start bytes).run [.string, .u32, all, .mpint] =
      ([none, some (.u32 0xffffffff), none, some (.mpint (.signed [0x81, 7]))], ⟨10, [9]⟩) ∧
    (start bytes).run [.u32, all, .mpint] =
      ([some (.u32 0xffffffff), none, some (.mpint (.signed [0x81, 7]))], ⟨10, [9]⟩) ∧
    none ∉ ((start bytes).run [.u32, .mpint]).1 ∧
    (start (bytes ++ [1, 2])).run [.u32, .mpint] =
      ([some (.u32 0xffffffff), some (.mpint (.signed [0x81, 7]))], ⟨10, [9, 1, 2]⟩) ∧
    all.refused (UInt64.ofNat 1) (Bytes.toUInt32 [9]) = true := by
  have hrun : (start bytes).run [.string, .u32, all, .mpint] =
      ([none, some (.u32 0xffffffff), none, some (.mpint (.signed [0x81, 7]))], ⟨10, [9]⟩) := by
    decide
  have hmade : none ∉ ((start bytes).run [.u32, .mpint]).1 := by decide
  obtain ⟨-, -, hskip, -⟩ := run_safe bytes []
  obtain ⟨-, -, -, -, hextend, hwords⟩ := run_safe bytes [.u32, .mpint]
  obtain ⟨-, hlater⟩ := hskip .string (by decide)
  obtain ⟨hanswers, hplace⟩ := hlater [.u32, all, .mpint]
  rw [List.nil_append, List.nil_append, hrun] at hanswers hplace
  obtain ⟨hall, -⟩ := hwords (by decide) all (by rintro count ⟨⟩; decide)
  exact ⟨hrun, Prod.ext hanswers.symm hplace.symm, hmade,
    (hextend hmade [1, 2] 2).trans (by decide), hall.mp (by decide)⟩

end Cursor

end SshCert.Wire
