import SshCert.Proofs.Text.Occurrence
import SshCert.Text.Placeholder

/-
  What stands in a formatted message.
  A message is cut at its placeholders in exactly one way (`cut_iff`), and formatting goes through
  it one cut after the other (`format_eq_interleave`). So the arguments stand between the pieces,
  in order and as they are, and a placeholder in an argument is no placeholder of the message
  (`format_fills`).
-/

namespace SshCert.Text

open Bytes (splitAtFirst)

variable {message first before after : Bytes} {others args : List Bytes}

/-! ## Cutting a message -/

theorem unbordered_placeholder : Bytes.Unbordered placeholder := by decide

theorem placeholder_isPrefixOf_iff {x y : UInt8} {r : Bytes} :
    placeholder.isPrefixOf (x :: y :: r) = true ↔ x = 0x7b ∧ y = 0x7d := by
  have hbytes : placeholder = [0x7b, 0x7d] := rfl
  rw [hbytes]
  simp only [List.isPrefixOf, Bool.and_true, Bool.and_eq_true, beq_iff_eq]
  exact and_congr eq_comm eq_comm

/-- The pieces are cut off one after the other, each at the first placeholder of the rest. -/
theorem pieces_eq_split (message : Bytes) :
    pieces message =
      match splitAtFirst placeholder message with
      | none => (message, [])
      | some (before, after) => (before, (pieces after).1 :: (pieces after).2) := by
  fun_induction pieces message with
  | case1 => rfl
  | case2 x =>
    have hshort : splitAtFirst placeholder [x] = none := by
      rw [splitAtFirst, Bytes.splitAtFirst_nil unbordered_placeholder.1]
      exact if_neg (by simp [placeholder, ascii, List.isPrefixOf])
    rw [hshort]
  | case3 x y r h ih =>
    have hhere : splitAtFirst placeholder (x :: y :: r) = some ([], r) :=
      if_pos (placeholder_isPrefixOf_iff.mpr h)
    rw [hhere]
  | case4 x y r h ih =>
    have hlater : splitAtFirst placeholder (x :: y :: r) =
        (splitAtFirst placeholder (y :: r)).map fun parts => (x :: parts.1, parts.2) :=
      if_neg (mt placeholder_isPrefixOf_iff.mp h)
    rw [hlater, ih]
    cases splitAtFirst placeholder (y :: r) with
    | none => rfl
    | some parts => rfl

/-- The pieces of a message: no placeholder stands in one, and one stands in front of each but the
first. -/
structure Cut (message first : Bytes) (others : List Bytes) : Prop where
  joined : message = first ++ others.flatMap (ascii "{}" ++ ·)
  free : ∀ piece ∈ first :: others, ¬ ascii "{}" <:+: piece

theorem pieces_of_free (h : ¬ placeholder <:+: message) : pieces message = (message, []) := by
  rw [pieces_eq_split, Bytes.splitAtFirst_eq_none_iff.mpr h]

theorem pieces_append (h : ¬ ascii "{}" <:+: before) :
    pieces (before ++ (ascii "{}" ++ after)) =
      (before, (pieces after).1 :: (pieces after).2) := by
  have hsplit : splitAtFirst placeholder (before ++ (ascii "{}" ++ after)) = some (before, after) :=
    (Bytes.splitAtFirst_eq_some_iff unbordered_placeholder).mpr ⟨rfl, h⟩
  rw [pieces_eq_split, hsplit]

theorem Cut.pieces_eq (h : Cut message first others) : pieces message = (first, others) := by
  obtain ⟨rfl, hfree⟩ := h
  induction others generalizing first with
  | nil => rw [List.flatMap_nil, List.append_nil, pieces_of_free (hfree first (.head _))]
  | cons p ps ih =>
    rw [List.flatMap_cons, List.append_assoc, pieces_append (hfree first (.head _)),
      ih fun q hq => hfree q (.tail _ hq)]

theorem cut_pieces (message : Bytes) : Cut message (pieces message).1 (pieces message).2 := by
  induction hsize : message.length using Nat.strongRecOn generalizing message with
  | ind n ih =>
    rw [pieces_eq_split]
    cases hsplit : splitAtFirst placeholder message with
    | none =>
      have hfree := Bytes.splitAtFirst_eq_none_iff.mp hsplit
      exact ⟨(List.append_nil _).symm, fun q hq => by rwa [List.mem_singleton.mp hq]⟩
    | some parts =>
      obtain ⟨before, after⟩ := parts
      obtain ⟨hmessage, hfree⟩ :=
        (Bytes.splitAtFirst_eq_some_iff unbordered_placeholder).mp hsplit
      have hshorter : after.length < n := by
        rw [← hsize, hmessage, List.length_append, List.length_append]
        have htwo : placeholder.length = 2 := rfl
        omega
      have hafter := ih after.length hshorter after rfl
      refine ⟨?_, fun q hq => ?_⟩
      · rw [List.flatMap_cons, List.append_assoc, ← hafter.joined]
        exact hmessage
      · rcases List.mem_cons.mp hq with rfl | hq
        · exact hfree
        · exact hafter.free q hq

/-- There is exactly one way to cut a message. -/
theorem cut_iff : Cut message first others ↔ (first, others) = pieces message := by
  constructor
  · intro h
    exact h.pieces_eq.symm
  · intro h
    have hcut := cut_pieces message
    rwa [← h] at hcut

/-! ## Filling the gaps -/

/-- What stands in place of the placeholders: the arguments, in order, and the placeholders
themselves where the arguments have run out. -/
def fillings (count : Nat) (args : List Bytes) : List Bytes :=
  args.take count ++ List.replicate (count - args.length) (ascii "{}")

@[simp] theorem length_fillings (count : Nat) (args : List Bytes) :
    (fillings count args).length = count := by
  simp only [fillings, List.length_append, List.length_take, List.length_replicate]
  omega

theorem interleave_nil (first : Bytes) (others : List Bytes) :
    interleave first others [] = first ++ others.flatMap (ascii "{}" ++ ·) := by
  induction others generalizing first with
  | nil => rw [interleave, List.flatMap_nil, List.append_nil]
  | cons p ps ih =>
    rw [interleave, ih, placeholder, List.flatMap_cons, List.append_assoc, List.append_assoc]

/-- A filling stands in front of every piece but the first. -/
theorem interleave_eq (first : Bytes) (others args : List Bytes) :
    interleave first others args =
      first ++ (List.zipWith (· ++ ·) (fillings others.length args) others).flatten := by
  fun_induction interleave first others args with
  | case1 => simp
  | case2 first p ps ih =>
    rw [ih, placeholder]
    simp [fillings, List.replicate_succ]
  | case3 first p ps arg args ih =>
    rw [ih]
    simp [fillings]

theorem format_eq_interleave (message : Bytes) (args : List Bytes) :
    format message args = interleave (pieces message).1 (pieces message).2 args := by
  induction args generalizing message with
  | nil => rw [interleave_nil, ← (cut_pieces message).joined, format]
  | cons arg args ih =>
    rw [format, pieces_eq_split]
    cases splitAtFirst placeholder message with
    | none => rfl
    | some parts =>
      dsimp only
      rw [ih, interleave]

/-- A message is cut into its pieces in one way only, and formatting puts the arguments between
them, which is a filling for each piece but the first: as many arguments as there are placeholders,
in order and unread, and then the placeholders that are left. -/
theorem format_fills (message : Bytes) (args : List Bytes) :
    ∃ first others, (∀ f os, Cut message f os ↔ f = first ∧ os = others) ∧
      pieces message = (first, others) ∧ format message args = interleave first others args ∧
      (fillings others.length args).length = others.length ∧
      format message args =
        first ++ (List.zipWith (· ++ ·) (fillings others.length args) others).flatten := by
  refine ⟨(pieces message).1, (pieces message).2, fun f os => ?_, rfl,
    format_eq_interleave message args, length_fillings _ args, ?_⟩
  · rw [cut_iff, Prod.ext_iff]
  · rw [format_eq_interleave, interleave_eq]

/-- The argument that looks like a placeholder is copied. -/
example :
    format (ascii "{{}}{}{ } {}") [ascii "{}", ascii "b"] = ascii "{{}}b{ } {}" := by decide

end SshCert.Text
