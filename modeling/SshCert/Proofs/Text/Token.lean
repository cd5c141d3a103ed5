import Mathlib.Data.List.DropRight
import Mathlib.Data.List.TakeDrop
import SshCert.Text.Token

/-
  Blanks and tokens of a text.
  A text in front of blanks is trimmed like the text itself (`trimEnd_append_blank`), and one that
  does not end in a blank is kept in front of everything (`trimEnd_append_of_self`). So a token is
  found where it stands, between blanks and a separator (`token_append`), and what is found
  stands there (`exists_of_token_eq`). Line feeds and carriage returns are blanks but no separators,
  so a token may hold them, though not at its beginning.
-/

namespace SshCert.Text

variable {s t w : Bytes} {c : UInt8}

/-! ## Blanks and separators -/

/-- The characters that are trimmed: space, tab, line feed and carriage return. -/
def blanks : Bytes := [0x20, 0x09, 0x0a, 0x0d]

/-- The characters that end a token: space and tab. -/
def separators : Bytes := [0x20, 0x09]

theorem isBlank_iff : isBlank c = true ↔ c ∈ blanks := by
  simp [isBlank, blanks, or_assoc]

theorem isBlank_eq_false_iff : isBlank c = false ↔ c ∉ blanks := by
  rw [← isBlank_iff, Bool.not_eq_true]

theorem isSeparator_iff : isSeparator c = true ↔ c ∈ separators := by
  simp [isSeparator, separators]

theorem isSeparator_eq_false_iff : isSeparator c = false ↔ c ∉ separators := by
  rw [← isSeparator_iff, Bool.not_eq_true]

theorem separators_subset_blanks : separators ⊆ blanks :=
  List.subset_append_left separators [0x0a, 0x0d]

/-- Whether all characters are blanks. -/
def Blank (s : Bytes) : Prop := ∀ c ∈ s, c ∈ blanks

theorem blank_iff : Blank s ↔ ∀ c ∈ s, isBlank c = true :=
  forall₂_congr fun _ _ => isBlank_iff.symm

instance : DecidablePred Blank := fun s =>
  decidable_of_iff (s.all isBlank = true) (List.all_eq_true.trans blank_iff.symm)

/-- Whether the text ends a token in front of it: it is empty or begins with a separator. -/
def Separated (s : Bytes) : Prop := ∀ c ∈ s.head?, c ∈ separators

instance : DecidablePred Separated
  | [] => isTrue nofun
  | c :: _ => decidable_of_iff (isSeparator c = true) (by simp [Separated, isSeparator_iff])

/-- A token has characters, does not begin with a blank and holds no separator. -/
structure IsToken (w : Bytes) : Prop where
  ne_nil : w ≠ []
  head : ∀ c ∈ w.head?, c ∉ blanks
  inner : ∀ c ∈ w, c ∉ separators

/-- A text without blanks is a token. -/
theorem isToken_of_unblanked (hne : w ≠ []) (h : ∀ c ∈ w, c ∉ blanks) : IsToken w where
  ne_nil := hne
  head c hc := h c (List.mem_of_mem_head? hc)
  inner c hc hseparator := h c hc (separators_subset_blanks hseparator)

theorem separated_append_iff (h : s ≠ []) : Separated (s ++ t) ↔ Separated s := by
  unfold Separated
  rw [List.head?_append_of_ne_nil _ h]

theorem IsToken.not_separated (h : IsToken w) : ¬ Separated w := by
  intro hseparated
  obtain ⟨c, hc⟩ := Option.ne_none_iff_exists'.mp (mt List.head?_eq_none_iff.mp h.ne_nil)
  exact h.inner c (List.mem_of_mem_head? hc) (hseparated c hc)

theorem Blank.append (hs : Blank s) (ht : Blank t) : Blank (s ++ t) := by
  unfold Blank
  rw [List.forall_mem_append]
  exact ⟨hs, ht⟩

/-! ## Trimming -/

theorem trimEnd_eq_rdropWhile (s : Bytes) : trimEnd s = s.rdropWhile isBlank := rfl

theorem trimEnd_eq_nil_iff : trimEnd s = [] ↔ Blank s :=
  List.rdropWhile_eq_nil_iff.trans blank_iff.symm

@[simp] theorem trimEnd_trimEnd (s : Bytes) : trimEnd (trimEnd s) = trimEnd s :=
  List.rdropWhile_idempotent isBlank s

/-- What is left of the end keeps everything in front of it. -/
theorem trimEnd_append {r : Bytes} (h : trimEnd t = r) (hr : r ≠ []) :
    trimEnd (s ++ t) = s ++ r := by
  have hrest : t.reverse.dropWhile isBlank ≠ [] := by
    intro hnil
    exact hr (by rw [← h, trimEnd, hnil, List.reverse_nil])
  rw [trimEnd, List.reverse_append, List.dropWhile_append, if_neg (by simpa using hrest),
    List.reverse_append, List.reverse_reverse, ← h]
  rfl

theorem trimEnd_append_blank (h : Blank t) : trimEnd (s ++ t) = trimEnd s := by
  have hrest : t.reverse.dropWhile isBlank = [] := by
    rw [List.dropWhile_eq_nil_iff]
    exact fun c hc => blank_iff.mp h c (List.mem_reverse.mp hc)
  rw [trimEnd, List.reverse_append, List.dropWhile_append, hrest]
  rfl

/-- A text that ends in no blank is kept, whatever stands behind it. -/
theorem trimEnd_append_of_self (h : trimEnd s = s) : trimEnd (s ++ t) = s ++ trimEnd t := by
  by_cases hblank : Blank t
  · rw [trimEnd_append_blank hblank, h, trimEnd_eq_nil_iff.mpr hblank, List.append_nil]
  · exact trimEnd_append rfl (mt trimEnd_eq_nil_iff.mp hblank)

theorem trimEnd_of_unblanked (h : ∀ c ∈ s, c ∉ blanks) : trimEnd s = s := by
  rw [trimEnd_eq_rdropWhile, List.rdropWhile_eq_self_iff]
  intro hne hlast
  exact h _ (List.getLast_mem hne) (isBlank_iff.mp hlast)

theorem Separated.trimEnd (h : Separated s) : Separated (Text.trimEnd s) := by
  obtain ⟨r, hr⟩ : Text.trimEnd s <+: s := List.rdropWhile_prefix isBlank s
  intro c hc
  refine h c ?_
  rw [← hr, List.head?_append, hc]
  rfl

/-- Blanks in front of a text that begins with none are all that is trimmed there. -/
theorem trim_append (hblank : Blank s) (hhead : ∀ c ∈ t.head?, c ∉ blanks) :
    trim (s ++ t) = trimEnd t := by
  have hkept : t.dropWhile isBlank = t := by
    cases t with
    | nil => rfl
    | cons c r => exact List.dropWhile_cons_of_neg (mt isBlank_iff.mp (hhead c rfl))
  rw [trim, List.dropWhile_append_of_pos (blank_iff.mp hblank), hkept]

/-- A text is what is left when it is trimmed, between blanks. -/
theorem exists_blank_append_trim (s : Bytes) :
    ∃ lead trail, Blank lead ∧ Blank trail ∧ s = lead ++ (trim s ++ trail) := by
  refine ⟨s.takeWhile isBlank, (s.dropWhile isBlank).rtakeWhile isBlank,
    fun c hc => isBlank_iff.mp (List.mem_takeWhile_imp hc),
    fun c hc => isBlank_iff.mp (List.mem_rtakeWhile_imp hc), ?_⟩
  rw [trim, trimEnd_eq_rdropWhile, List.rdropWhile_append_rtakeWhile,
    List.takeWhile_append_dropWhile]

theorem head_trim (s : Bytes) : ∀ c ∈ (trim s).head?, c ∉ blanks := by
  intro c hc
  obtain ⟨r, hr⟩ : trim s <+: s.dropWhile isBlank := List.rdropWhile_prefix isBlank _
  have hfirst : (s.dropWhile isBlank).head? = some c := by
    rw [← hr, List.head?_append, hc]
    rfl
  have hnot := List.head?_dropWhile_not isBlank s
  rw [hfirst] at hnot
  exact isBlank_eq_false_iff.mp hnot

/-! ## Tokens -/

theorem token_eq (s : Bytes) :
    token s = ((trim s).takeWhile (!isSeparator ·), (trim s).dropWhile (!isSeparator ·)) :=
  List.span_eq_takeWhile_dropWhile _ _

/-- A token behind blanks is found with what follows it, less the blanks at the end. -/
theorem token_append {lead r : Bytes} (hlead : Blank lead) (hw : IsToken w) (hr : Separated r)
    (hend : trimEnd (w ++ t) = w ++ r) : token (lead ++ (w ++ t)) = (w, r) := by
  have htrim : trim (lead ++ (w ++ t)) = w ++ r := by
    rw [trim_append hlead, hend]
    intro c hc
    rw [List.head?_append_of_ne_nil _ hw.ne_nil] at hc
    exact hw.head c hc
  have hinner : ∀ c ∈ w, (!isSeparator c) = true := by
    intro c hc
    rw [Bool.not_eq_true']
    exact isSeparator_eq_false_iff.mpr (hw.inner c hc)
  rw [token_eq, htrim, List.takeWhile_append_of_pos hinner, List.dropWhile_append_of_pos hinner]
  cases r with
  | nil => simp
  | cons c r =>
    have hstop : isSeparator c = true := isSeparator_iff.mpr (hr c rfl)
    simp [hstop]

/-- What is found is a token, and it stands between blanks and a separator. -/
theorem exists_of_token_eq {r : Bytes} (h : token s = (w, r)) (hne : w ≠ []) :
    ∃ lead trail, Blank lead ∧ Blank trail ∧ s = lead ++ (w ++ (r ++ trail)) ∧
      IsToken w ∧ Separated r := by
  obtain ⟨lead, trail, hlead, htrail, hs⟩ := exists_blank_append_trim s
  have hhead := head_trim s
  have hstop := List.head?_dropWhile_not (!isSeparator ·) (trim s)
  rw [token_eq, Prod.mk.injEq] at h
  obtain ⟨hw, hr⟩ := h
  have hparts : trim s = w ++ r := by
    rw [← hw, ← hr, List.takeWhile_append_dropWhile]
  refine ⟨lead, trail, hlead, htrail, ?_, ⟨hne, fun c hc => hhead c ?_, fun c hc => ?_⟩,
    fun c hc => ?_⟩
  · rw [hs, ← List.append_assoc w, ← hparts]
  · rw [hparts, List.head?_append_of_ne_nil _ hne]
    exact hc
  · rw [← hw] at hc
    have hinner := List.mem_takeWhile_imp (p := (!isSeparator ·)) hc
    rw [Bool.not_eq_true'] at hinner
    exact isSeparator_eq_false_iff.mp hinner
  · rw [hr, hc] at hstop
    exact isSeparator_iff.mp (by simpa using hstop)

end SshCert.Text
