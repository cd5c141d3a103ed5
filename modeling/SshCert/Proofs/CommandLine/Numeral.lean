import Mathlib.Data.List.TakeDrop
import Mathlib.Data.List.TakeWhile
import Mathlib.Data.Nat.Digits.Defs
import SshCert.Inspector.Command

/-
  Which arguments are numbers.
  An argument has a value exactly if it spells an integer, between white space, that fits
  (`value?_readNumber`). A signed integer fits if it is in range, and is stored as it is
  (`value?_readInteger`). A word is fitted by magnitude alone, so that it takes negative numbers
  too and stores their two's complement (`accept_word_iff`, `accept_word_negative`).
-/

namespace SshCert.CommandLine

variable {α : Type} {arg digits rest : Bytes} {c : UInt8}

/-! ## Spelling an integer -/

/-- What stands in front of the digits of an integer. -/
inductive Sign
  | absent
  | plus
  | minus
  deriving DecidableEq, Repr

namespace Sign

def text : Sign → Bytes
  | absent => []
  | plus => ascii "+"
  | minus => ascii "-"

def isNegative : Sign → Bool
  | minus => true
  | _ => false

end Sign

/-- White space: tab, line feed, vertical tab, form feed, carriage return and space. -/
def spaces : Bytes := [0x09, 0x0a, 0x0b, 0x0c, 0x0d, 0x20]

/-- An integer as it is spelled in an argument: a sign, if any, and decimal digits, between white
space. -/
structure Spelling where
  lead : Bytes
  sign : Sign
  digits : Bytes
  trail : Bytes
  lead_spaces : ∀ c ∈ lead, c ∈ spaces
  digits_ne_nil : digits ≠ []
  all_digits : ∀ c ∈ digits, c ∈ ascii "0123456789"
  trail_spaces : ∀ c ∈ trail, c ∈ spaces

namespace Spelling

def text (n : Spelling) : Bytes := n.lead ++ (n.sign.text ++ (n.digits ++ n.trail))

/-- What the digits stand for. -/
def magnitude (n : Spelling) : Nat :=
  Nat.ofDigits 10 (n.digits.reverse.map fun c => c.toNat - 0x30)

/-- The integer that is spelled. -/
def value (n : Spelling) : Int := if n.sign.isNegative then -(n.magnitude : Int) else n.magnitude

end Spelling

/-! ## Reading one -/

theorem isSpace_iff : isSpace c = true ↔ c ∈ spaces := by
  simp only [isSpace, spaces, Bool.or_eq_true, beq_iff_eq, Bool.and_eq_true, decide_eq_true_eq,
    UInt8.le_iff_toNat_le, ← UInt8.toNat_inj, List.mem_cons, List.not_mem_nil, or_false]
  change c.toNat = 32 ∨ 9 ≤ c.toNat ∧ c.toNat ≤ 13 ↔ c.toNat = 9 ∨ c.toNat = 10 ∨ c.toNat = 11 ∨
    c.toNat = 12 ∨ c.toNat = 13 ∨ c.toNat = 32
  omega

theorem isDigit_iff : isDigit c = true ↔ c ∈ ascii "0123456789" := by
  have hdigits : ascii "0123456789" =
      [0x30, 0x31, 0x32, 0x33, 0x34, 0x35, 0x36, 0x37, 0x38, 0x39] := rfl
  simp only [hdigits, isDigit, Bool.and_eq_true, decide_eq_true_eq, UInt8.le_iff_toNat_le,
    ← UInt8.toNat_inj, List.mem_cons, List.not_mem_nil, or_false]
  change 48 ≤ c.toNat ∧ c.toNat ≤ 57 ↔ c.toNat = 48 ∨ c.toNat = 49 ∨ c.toNat = 50 ∨ c.toNat = 51 ∨
    c.toNat = 52 ∨ c.toNat = 53 ∨ c.toNat = 54 ∨ c.toNat = 55 ∨ c.toNat = 56 ∨ c.toNat = 57
  omega

theorem isDigit_of_isSpace (h : isSpace c = true) : isDigit c = false := by
  simp only [isSpace, isDigit, Bool.or_eq_true, beq_iff_eq, Bool.and_eq_true, decide_eq_true_eq,
    UInt8.le_iff_toNat_le, Bool.and_eq_false_iff, decide_eq_false_iff_not] at h ⊢
  rcases h with rfl | h
  · decide
  · have hlow : (0x0d : UInt8).toNat = 13 := rfl
    have hzero : (0x30 : UInt8).toNat = 48 := rfl
    omega

theorem digitsValue_eq (s : Bytes) :
    digitsValue s = Nat.ofDigits 10 (s.reverse.map fun c => c.toNat - 0x30) := by
  suffices h : ∀ r : Bytes,
      digitsValue r.reverse = Nat.ofDigits 10 (r.map fun c => c.toNat - 0x30) by
    simpa using h s.reverse
  intro r
  induction r with
  | nil => rfl
  | cons c r ih =>
    rw [digitsValue] at ih ⊢
    rw [List.reverse_cons, List.foldl_append, ih, List.map_cons, Nat.ofDigits_cons]
    exact Nat.add_comm _ _

/-- The sign that a text begins with, if any, and the digits behind it. -/
theorem exists_sign (s : Bytes) :
    ∃ sign r, s = Sign.text sign ++ r ∧
      Numeral.ofBytes s = ⟨sign.isNegative, r.takeWhile isDigit, r.dropWhile isDigit⟩ := by
  unfold Numeral.ofBytes
  split
  · next negative r hsign =>
    split at hsign
    · next r =>
      cases hsign
      exact ⟨.minus, _, rfl, rfl⟩
    · cases hsign
      exact ⟨.plus, _, rfl, rfl⟩
    · cases hsign
      exact ⟨.absent, _, rfl, rfl⟩

/-- A run of characters is cut off where it stops. -/
theorem cut_of_stops {p : UInt8 → Bool} {run : Bytes} (hrun : ∀ c ∈ run, p c = true)
    (hstop : ∀ c ∈ rest.head?, p c = false) :
    (run ++ rest).takeWhile p = run ∧ (run ++ rest).dropWhile p = rest := by
  rw [List.takeWhile_append_of_pos hrun, List.dropWhile_append_of_pos hrun]
  cases rest with
  | nil => exact ⟨List.append_nil run, rfl⟩
  | cons c r =>
    have hc : ¬ p c = true := Bool.eq_false_iff.mp (hstop c rfl)
    rw [List.takeWhile_cons_of_neg hc, List.dropWhile_cons_of_neg hc]
    exact ⟨List.append_nil run, rfl⟩

theorem ofBytes_of_isDigit (h : isDigit c = true) (r : Bytes) :
    Numeral.ofBytes (c :: r) = ⟨false, (c :: r).takeWhile isDigit, (c :: r).dropWhile isDigit⟩ := by
  unfold Numeral.ofBytes
  split
  · next negative r' hsign =>
    split at hsign
    · next heq =>
      cases heq
      exact absurd h (by decide)
    · next heq =>
      cases heq
      exact absurd h (by decide)
    · cases hsign
      rfl

theorem ofBytes_sign_append (sign : Sign) (hne : digits ≠ [])
    (hdigits : ∀ c ∈ digits, isDigit c = true) (hrest : ∀ c ∈ rest.head?, isDigit c = false) :
    Numeral.ofBytes (sign.text ++ (digits ++ rest)) = ⟨sign.isNegative, digits, rest⟩ := by
  obtain ⟨htake, hdrop⟩ := cut_of_stops hdigits hrest
  have hparts : Numeral.ofBytes (sign.text ++ (digits ++ rest)) =
      ⟨sign.isNegative, (digits ++ rest).takeWhile isDigit,
        (digits ++ rest).dropWhile isDigit⟩ := by
    cases sign with
    | absent =>
      obtain ⟨d, ds, rfl⟩ := List.exists_cons_of_ne_nil hne
      exact ofBytes_of_isDigit (hdigits d (.head _)) (ds ++ rest)
    | plus => rfl
    | minus => rfl
  rw [hparts, htake, hdrop]

namespace Spelling

/-- Behind the white space in front stands a character that is none. -/
theorem isSpace_head (n : Spelling) :
    ∀ c ∈ (n.sign.text ++ (n.digits ++ n.trail)).head?, isSpace c = false := by
  intro c hc
  cases hsign : n.sign with
  | absent =>
    obtain ⟨d, ds, hdigits⟩ := List.exists_cons_of_ne_nil n.digits_ne_nil
    rw [hsign, hdigits] at hc
    obtain rfl : d = c := Option.some.inj hc
    rw [Bool.eq_false_iff]
    intro hspace
    have hdigit := isDigit_iff.mpr (n.all_digits d (by rw [hdigits]; exact .head _))
    rw [isDigit_of_isSpace hspace] at hdigit
    cases hdigit
  | plus =>
    rw [hsign] at hc
    cases hc
    rfl
  | minus =>
    rw [hsign] at hc
    cases hc
    rfl

/-- An integer is read from its spelling, all of which is taken up. -/
theorem readNumber_text (fit : Bool → Nat → α × Bool) (n : Spelling) :
    readNumber fit n.text =
      ⟨some (fit n.sign.isNegative n.magnitude).1, (fit n.sign.isNegative n.magnitude).2⟩ := by
  have hstripped : n.text.dropWhile isSpace = n.sign.text ++ (n.digits ++ n.trail) :=
    (cut_of_stops (fun c hc => isSpace_iff.mpr (n.lead_spaces c hc)) n.isSpace_head).2
  have htrail : ∀ c ∈ n.trail, isSpace c = true := fun c hc => isSpace_iff.mpr (n.trail_spaces c hc)
  have hsome : (n.sign.text ++ (n.digits ++ n.trail)).isEmpty = false := by
    rw [List.isEmpty_eq_false_iff]
    exact List.append_ne_nil_of_right_ne_nil _ (List.append_ne_nil_of_left_ne_nil n.digits_ne_nil _)
  have hparts : Numeral.ofBytes (n.sign.text ++ (n.digits ++ n.trail)) =
      ⟨n.sign.isNegative, n.digits, n.trail⟩ :=
    ofBytes_sign_append n.sign n.digits_ne_nil (fun c hc => isDigit_iff.mpr (n.all_digits c hc))
      fun c hc => isDigit_of_isSpace (htrail c (List.mem_of_mem_head? hc))
  have hdigits : n.digits.isEmpty = false := List.isEmpty_eq_false_iff.mpr n.digits_ne_nil
  have hall : n.trail.all isSpace = true := List.all_eq_true.mpr htrail
  rw [readNumber, hstripped, hsome, hparts]
  simp [hdigits, hall, digitsValue_eq, magnitude]

end Spelling

/-- What is read completely is the spelling of an integer. -/
theorem exists_spelling {fit : Bool → Nat → α × Bool} (h : (readNumber fit arg).complete = true) :
    ∃ n : Spelling, n.text = arg := by
  unfold readNumber at h
  dsimp only at h
  split at h
  · cases h
  · obtain ⟨sign, r, hr, hparts⟩ := exists_sign (arg.dropWhile isSpace)
    rw [hparts] at h
    simp only [Bool.and_eq_true, Bool.not_eq_true', List.isEmpty_eq_false_iff,
      List.all_eq_true] at h
    obtain ⟨⟨hne, -⟩, htrail⟩ := h
    refine ⟨⟨arg.takeWhile isSpace, sign, r.takeWhile isDigit, r.dropWhile isDigit,
      fun c hc => isSpace_iff.mp (List.mem_takeWhile_imp hc), hne,
      fun c hc => isDigit_iff.mp (List.mem_takeWhile_imp hc),
      fun c hc => isSpace_iff.mp (htrail c hc)⟩, ?_⟩
    rw [Spelling.text, List.takeWhile_append_dropWhile, ← hr, List.takeWhile_append_dropWhile]

/-- What is read completely has been stored. -/
theorem value?_of_complete {fit : Bool → Nat → α × Bool}
    (h : (readNumber fit arg).complete = true) : ∃ v, (readNumber fit arg).value? = some v := by
  obtain ⟨n, rfl⟩ := exists_spelling h
  rw [Reading.value?, if_pos h, n.readNumber_text]
  exact ⟨_, rfl⟩

/-- An argument has a value exactly if it spells an integer that fits. -/
theorem value?_readNumber {fit : Bool → Nat → α × Bool} {v : α} :
    (readNumber fit arg).value? = some v ↔
      ∃ n : Spelling, n.text = arg ∧ fit n.sign.isNegative n.magnitude = (v, true) := by
  constructor
  · intro h
    rw [Reading.value?, Option.ite_none_right_eq_some] at h
    obtain ⟨hcomplete, hstored⟩ := h
    obtain ⟨n, rfl⟩ := exists_spelling hcomplete
    rw [n.readNumber_text] at hcomplete hstored
    exact ⟨n, rfl, Prod.ext (Option.some.inj hstored) hcomplete⟩
  · intro h
    obtain ⟨n, rfl, hfit⟩ := h
    rw [n.readNumber_text, hfit]
    rfl

/-! ## Words -/

@[simp] theorem Spelling.natAbs_value (n : Spelling) : n.value.natAbs = n.magnitude := by
  rw [Spelling.value]
  split
  · exact Int.natAbs_neg _
  · rfl

/-- A magnitude that fits gives the word that is congruent to the integer. -/
theorem fitWord_eq_iff (n : Spelling) {w : UInt64} :
    fitWord n.sign.isNegative n.magnitude = (w, true) ↔
      n.value.natAbs < UInt64.size ∧
        (w.toNat : Int) = if n.value < 0 then n.value + UInt64.size else n.value := by
  have hsize : UInt64.size = 18446744073709551616 := rfl
  rw [n.natAbs_value, fitWord]
  by_cases hfits : n.magnitude < UInt64.size
  · have hword : (UInt64.ofNat n.magnitude).toNat = n.magnitude := UInt64.toNat_ofNat_of_lt' hfits
    rw [if_pos hfits, Prod.mk.injEq, eq_self, and_true, eq_comm, ← UInt64.toNat_inj, Spelling.value]
    cases n.sign.isNegative with
    | true =>
      rw [if_pos rfl, if_pos rfl, UInt64.toNat_neg, hword, hsize]
      omega
    | false =>
      rw [if_neg Bool.false_ne_true, if_neg Bool.false_ne_true, hword, hsize]
      omega
  · rw [if_neg hfits]
    exact iff_of_false (fun h => by cases h) fun h => hfits h.1

theorem value?_readWord {w : UInt64} :
    (readWord arg).value? = some w ↔
      ∃ n : Spelling, n.text = arg ∧ n.value.natAbs < UInt64.size ∧
        (w.toNat : Int) = if n.value < 0 then n.value + UInt64.size else n.value := by
  rw [readWord, value?_readNumber]
  exact exists_congr fun n => and_congr_right fun _ => fitWord_eq_iff n

theorem value?_readWord_eq_none_iff :
    (readWord arg).value? = none ↔
      ¬ ∃ n : Spelling, n.text = arg ∧ n.value.natAbs < UInt64.size := by
  constructor
  · intro h hspelled
    obtain ⟨n, htext, hfits⟩ := hspelled
    rw [n.natAbs_value] at hfits
    have hword : (readWord arg).value? = some _ := value?_readNumber.mpr ⟨n, htext, if_pos hfits⟩
    rw [h] at hword
    cases hword
  · intro h
    cases hvalue : (readWord arg).value? with
    | none => rfl
    | some w =>
      obtain ⟨n, htext, hfits, -⟩ := value?_readWord.mp hvalue
      exact absurd ⟨n, htext, hfits⟩ h

theorem fitInteger_eq_iff (n : Spelling) {v : Int32} :
    fitInteger n.sign.isNegative n.magnitude = (v, true) ↔ v.toInt = n.value := by
  have hlow : Int32.minValue.toInt = -2147483648 := rfl
  have hhigh : Int32.maxValue.toInt = 2147483647 := rfl
  have hv := v.minValue_le_toInt
  have hv' := v.toInt_le
  have hvalue : fitInteger n.sign.isNegative n.magnitude =
      if n.value < Int32.minValue.toInt then (Int32.minValue, false)
      else if Int32.maxValue.toInt < n.value then (Int32.maxValue, false)
      else (Int32.ofInt n.value, true) := rfl
  rw [hvalue]
  split
  · next hbelow => exact iff_of_false (fun h => by cases h) (by omega)
  · split
    · next habove => exact iff_of_false (fun h => by cases h) (by omega)
    · have hexact : (Int32.ofInt n.value).toInt = n.value := by
        apply Int32.toInt_ofInt_of_le
        · omega
        · omega
      rw [Prod.mk.injEq, eq_self, and_true, ← Int32.toInt_inj, hexact, eq_comm]

/-- An integer is only ever stored as it is. -/
theorem value?_readInteger {v : Int32} :
    (readInteger arg).value? = some v ↔ ∃ n : Spelling, n.text = arg ∧ v.toInt = n.value := by
  rw [readInteger, value?_readNumber]
  exact exists_congr fun n => and_congr_right fun _ => fitInteger_eq_iff n

/-! ## Settings of words -/

/-- A setting that holds words. -/
inductive WordSetting
  | single (w : UInt64)
  | optional (w? : Option UInt64)
  | list (ws : List UInt64)

namespace WordSetting

def setting : WordSetting → Setting
  | single w => .single .word w
  | optional w? => .optional .word w?
  | list ws => .list .word ws

/-- A word in place of the old one, or behind those that have been collected. -/
def store : WordSetting → UInt64 → WordSetting
  | single _, w => single w
  | optional _, w => optional (some w)
  | list ws, w => list (ws ++ [w])

theorem accept_of_value? (s : WordSetting) {w : UInt64} (h : (readWord arg).value? = some w) :
    s.setting.accept [arg] = ((s.store w).setting, none) := by
  cases s with
  | single old =>
    rw [Reading.value?, Option.ite_none_right_eq_some] at h
    obtain ⟨hcomplete, hstored⟩ := h
    simp [setting, store, Setting.accept, Kind.read, hcomplete, hstored]
  | optional old => simp [setting, store, Setting.accept, Kind.read, h]
  | list ws => simp [setting, store, Setting.accept, Setting.readAll, Kind.read, h]

theorem accept_of_value?_eq_none (s : WordSetting) (h : (readWord arg).value? = none) :
    (s.setting.accept [arg]).2 = some (.notInterpreted arg) := by
  cases s with
  | single old =>
    have hpart : (readWord arg).complete = false := by
      rw [Bool.eq_false_iff]
      intro hcomplete
      obtain ⟨n, hn⟩ := value?_of_complete hcomplete
      rw [readWord, hn] at h
      cases h
    simp [setting, Setting.accept, Kind.read, hpart]
  | optional old => simp [setting, Setting.accept, Kind.read, h]
  | list ws => simp [setting, Setting.accept, Setting.readAll, Kind.read, h]

theorem accept_eq_iff (s : WordSetting) {s' : Setting} :
    s.setting.accept [arg] = (s', none) ↔
      ∃ w, (readWord arg).value? = some w ∧ s' = (s.store w).setting := by
  cases h : (readWord arg).value? with
  | none =>
    have hrefused := s.accept_of_value?_eq_none h
    refine iff_of_false (fun haccept => ?_) (fun hstored => ?_)
    · rw [haccept] at hrefused
      cases hrefused
    · obtain ⟨w, hw, -⟩ := hstored
      cases hw
  | some w =>
    rw [s.accept_of_value? h]
    constructor
    · intro haccept
      exact ⟨w, rfl, (congrArg Prod.fst haccept).symm⟩
    · intro hstored
      obtain ⟨w', hw', rfl⟩ := hstored
      rw [Option.some.inj hw']

theorem refuses_iff (s : WordSetting) :
    (s.setting.accept [arg]).2 = some (.notInterpreted arg) ↔ (readWord arg).value? = none := by
  refine ⟨fun hrefused => ?_, s.accept_of_value?_eq_none⟩
  cases h : (readWord arg).value? with
  | none => rfl
  | some w =>
    rw [s.accept_of_value? h] at hrefused
    cases hrefused

end WordSetting

/-- A list takes its arguments one at a time. -/
theorem accept_list_cons (k : Kind) (vs : List k.Value) (rest : List Bytes) :
    Setting.accept (.list k vs) (arg :: rest) =
      match Setting.accept (.list k vs) [arg] with
      | (next, none) => next.accept rest
      | failed => failed := by
  simp only [Setting.accept, Setting.readAll]
  cases (k.read arg).value? with
  | none => rfl
  | some v => simp

/-- An argument sets a word exactly if it spells an integer whose magnitude is a word. The integer
itself is stored unless it is negative, and then its two's complement; every other argument is
refused. A list takes its arguments one at a time. -/
theorem accept_word_iff (s : WordSetting) (arg : Bytes) :
    (∀ s', s.setting.accept [arg] = (s', none) ↔
      ∃ (n : Spelling) (w : UInt64), n.text = arg ∧ n.value.natAbs < UInt64.size ∧
        ((w.toNat : Int) = if n.value < 0 then n.value + UInt64.size else n.value) ∧
        s' = (s.store w).setting) ∧
      ((s.setting.accept [arg]).2 = some (.notInterpreted arg) ↔
        ¬ ∃ n : Spelling, n.text = arg ∧ n.value.natAbs < UInt64.size) ∧
      ∀ ws rest, (WordSetting.list ws).setting.accept (arg :: rest) =
        match (WordSetting.list ws).setting.accept [arg] with
        | (next, none) => next.accept rest
        | failed => failed := by
  refine ⟨fun s' => ?_, ?_, fun ws rest => accept_list_cons .word ws rest⟩
  · rw [s.accept_eq_iff]
    simp only [value?_readWord]
    constructor
    · intro h
      obtain ⟨w, ⟨n, htext, hfits, hw⟩, hs'⟩ := h
      exact ⟨n, w, htext, hfits, hw, hs'⟩
    · intro h
      obtain ⟨n, w, htext, hfits, hw, hs'⟩ := h
      exact ⟨w, ⟨n, htext, hfits, hw⟩, hs'⟩
  · rw [s.refuses_iff, value?_readWord_eq_none_iff]

/-- The integer that a text spells is determined. -/
theorem Spelling.value_eq_of_text_eq {m n : Spelling} (h : m.text = n.text) :
    m.value = n.value := by
  have hm := m.readNumber_text fun negative magnitude => ((negative, magnitude), true)
  rw [h, n.readNumber_text] at hm
  simp only [Reading.mk.injEq, Option.some.injEq, Prod.mk.injEq, and_true] at hm
  rw [value, value, hm.1, hm.2]

namespace Sample

/-- The shortest spelling of a negative integer. -/
def negativeOne : Spelling where
  lead := []
  sign := .minus
  digits := ascii "1"
  trail := []
  lead_spaces := nofun
  digits_ne_nil := List.cons_ne_nil _ _
  all_digits c hc := isDigit_iff.mp (List.all_eq_true.mp rfl c hc)
  trail_spaces := nofun

end Sample

/-- The time to validate at may be a negative number, which is taken for the last second of all. -/
theorem accept_word_negative :
    (WordSetting.optional none).setting.accept [ascii "-1"] =
        ((WordSetting.optional (some 0xffffffffffffffff)).setting, none) ∧
      (Inspector.Command.parse [ascii "--now", ascii "-1"]).map (·.now?) =
        .ok (some 0xffffffffffffffff) ∧
      ¬ ∃ n : Spelling, n.text = ascii "-1" ∧ 0 ≤ n.value ∧ n.value < UInt64.size := by
  refine ⟨rfl, rfl, ?_⟩
  intro h
  obtain ⟨n, htext, hvalue, -⟩ := h
  rw [Spelling.value_eq_of_text_eq (n := Sample.negativeOne) htext] at hvalue
  exact absurd hvalue (by decide)

end SshCert.CommandLine
