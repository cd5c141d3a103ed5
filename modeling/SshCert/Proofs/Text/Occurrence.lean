import SshCert.Bytes

/-
  Where a pattern stands in a text.
  `Bytes.occurs` is the infix relation (`occurs_iff`). A pattern is `Unbordered` if no two of its
  occurrences overlap; for such a pattern a split at its first occurrence is the same as a piece
  in front without the pattern, the pattern, and anything (`splitAtFirst_eq_some_iff`).
-/

namespace SshCert.Bytes

/-! ## Occurrences -/

theorem splitAtFirst_nil {pat : Bytes} (hpat : pat ≠ []) : splitAtFirst pat [] = none := by
  rw [splitAtFirst, if_neg]
  rw [List.isEmpty_iff]
  exact hpat

theorem occurs_iff {pat b : Bytes} : occurs pat b = true ↔ pat <:+: b := by
  unfold occurs
  induction b with
  | nil =>
    rw [List.infix_nil, splitAtFirst]
    by_cases hpat : pat = []
    · rw [if_pos (List.isEmpty_iff.mpr hpat)]
      exact ⟨fun _ => hpat, fun _ => rfl⟩
    · rw [if_neg (fun h => hpat (List.isEmpty_iff.mp h))]
      exact ⟨nofun, fun h => absurd h hpat⟩
  | cons x r ih =>
    rw [List.infix_cons_iff, splitAtFirst]
    by_cases hfirst : pat.isPrefixOf (x :: r) = true
    · rw [if_pos hfirst]
      exact ⟨fun _ => .inl (List.isPrefixOf_iff_prefix.mp hfirst), fun _ => rfl⟩
    · rw [if_neg hfirst, Option.isSome_map, ih]
      constructor
      · intro h
        exact .inr h
      · intro h
        rcases h with hprefix | hinfix
        · exact absurd (List.isPrefixOf_iff_prefix.mpr hprefix) hfirst
        · exact hinfix

theorem splitAtFirst_eq_none_iff {pat b : Bytes} :
    splitAtFirst pat b = none ↔ ¬ pat <:+: b := by
  rw [← occurs_iff, occurs, Bool.not_eq_true, Option.isSome_eq_false_iff, Option.isNone_iff_eq_none]

/-! ## Splitting at a pattern that does not overlap itself -/

/-- No end of the pattern, the whole pattern apart, is also its beginning. -/
def Unbordered (pat : Bytes) : Prop :=
  pat ≠ [] ∧ ∀ k < pat.length, 0 < k → pat.take k ≠ pat.drop (pat.length - k)

instance (pat : Bytes) : Decidable (Unbordered pat) := inferInstanceAs (Decidable (_ ∧ _))

/-- In front of its first occurrence an unbordered pattern cannot begin. -/
theorem Unbordered.not_prefix_append {pat before after : Bytes} (hpat : Unbordered pat)
    (hne : before ≠ []) (hfree : ¬ pat <:+: before) : ¬ pat <+: before ++ (pat ++ after) := by
  intro h
  by_cases hlong : pat.length ≤ before.length
  · exact hfree (List.prefix_of_prefix_length_le h (List.prefix_append _ _) hlong).isInfix
  · -- the pattern would begin inside `before` and end inside itself
    have hbefore : before <+: pat :=
      List.prefix_of_prefix_length_le (List.prefix_append _ _) h (by omega)
    obtain ⟨q, hq⟩ := hbefore
    have hlen : before.length + q.length = pat.length := by
      rw [← hq, List.length_append]
    have hpos : 0 < before.length := List.length_pos_iff.mpr hne
    have htake : pat.take q.length = q := by
      rw [← hq, List.prefix_append_right_inj] at h
      rw [hq] at h
      have hprefix : q <+: pat :=
        List.prefix_of_prefix_length_le h (List.prefix_append _ _) (by omega)
      exact (List.prefix_iff_eq_take.mp hprefix).symm
    have hdrop : pat.drop (pat.length - q.length) = q := by
      have hsize : pat.length - q.length = before.length := by omega
      rw [hsize, ← hq, List.drop_left]
    exact hpat.2 q.length (by omega) (by omega) (htake.trans hdrop.symm)

theorem splitAtFirst_eq_some_iff {pat b before after : Bytes} (hpat : Unbordered pat) :
    splitAtFirst pat b = some (before, after) ↔
      b = before ++ (pat ++ after) ∧ ¬ pat <:+: before := by
  induction b generalizing before with
  | nil =>
    rw [splitAtFirst_nil hpat.1]
    refine ⟨nofun, fun h => absurd h.1.symm ?_⟩
    exact List.append_ne_nil_of_right_ne_nil _ (List.append_ne_nil_of_left_ne_nil hpat.1 _)
  | cons x r ih =>
    rw [splitAtFirst]
    by_cases hfirst : pat.isPrefixOf (x :: r) = true
    · rw [if_pos hfirst]
      obtain ⟨rest, hrest⟩ := List.isPrefixOf_iff_prefix.mp hfirst
      rw [← hrest, List.drop_left]
      constructor
      · intro h
        cases h
        exact ⟨rfl, fun h => hpat.1 (List.infix_nil.mp h)⟩
      · intro h
        obtain ⟨hb, hfree⟩ := h
        cases before with
        | nil => rw [List.append_cancel_left hb]
        | cons y before' =>
          exact absurd ⟨rest, hb⟩ (hpat.not_prefix_append (List.cons_ne_nil _ _) hfree)
    · rw [if_neg hfirst, Option.map_eq_some_iff]
      constructor
      · intro h
        obtain ⟨⟨before', after'⟩, hsplit, hp⟩ := h
        cases hp
        obtain ⟨hb, hfree⟩ := ih.mp hsplit
        refine ⟨by rw [hb]; rfl, fun h => ?_⟩
        rcases List.infix_cons_iff.mp h with hprefix | hinfix
        · refine hfirst (List.isPrefixOf_iff_prefix.mpr ?_)
          rw [hb]
          exact hprefix.trans (List.prefix_append (x :: before') _)
        · exact hfree hinfix
      · intro h
        obtain ⟨hb, hfree⟩ := h
        cases before with
        | nil =>
          refine absurd (List.isPrefixOf_iff_prefix.mpr ?_) hfirst
          exact ⟨after, hb.symm⟩
        | cons y before' =>
          cases hb
          exact ⟨(before', after), ih.mpr ⟨rfl, fun h => hfree (List.infix_cons h)⟩, rfl⟩

end SshCert.Bytes
