import SshCert.Bytes

/-
  The options of a certificate: values by name.
  The entries are kept in strictly ascending bytewise order of their names, so that equal maps
  have equal entries. `get?_insert` says what an insertion does to every name.
-/

namespace SshCert

/-- Values by name, in ascending order of the names. -/
structure OptionMap where
  entries : List (Bytes × Bytes) := []
  ascending : entries.Pairwise (fun a b => a.1 < b.1) := by simp
  deriving DecidableEq, Repr

namespace OptionMap

/-- The map without entries. -/
def empty : OptionMap := {}

instance : Inhabited OptionMap := ⟨empty⟩

/-- The entries with `value` under `name`, in the place that the order gives it. -/
def insertEntry (name value : Bytes) : List (Bytes × Bytes) → List (Bytes × Bytes)
  | [] => [(name, value)]
  | e :: r =>
    if name = e.1 then (name, value) :: r
    else if name < e.1 then (name, value) :: e :: r
    else e :: insertEntry name value r

theorem mem_insertEntry {name value : Bytes} {e : Bytes × Bytes} {l : List (Bytes × Bytes)}
    (h : e ∈ insertEntry name value l) : e = (name, value) ∨ e ∈ l := by
  induction l with
  | nil => simpa [insertEntry] using h
  | cons d r ih =>
    rw [insertEntry] at h
    split at h
    · rcases List.mem_cons.mp h with h | h
      · exact Or.inl h
      · exact Or.inr (List.mem_cons_of_mem d h)
    · split at h
      · exact (List.mem_cons.mp h).elim Or.inl Or.inr
      · rcases List.mem_cons.mp h with h | h
        · exact Or.inr (h ▸ List.mem_cons_self)
        · exact (ih h).imp_right (List.mem_cons_of_mem d)

theorem pairwise_insertEntry (name value : Bytes) {l : List (Bytes × Bytes)}
    (h : l.Pairwise (fun a b => a.1 < b.1)) :
    (insertEntry name value l).Pairwise (fun a b => a.1 < b.1) := by
  induction l with
  | nil => simp [insertEntry]
  | cons d r ih =>
    obtain ⟨hd, hr⟩ := List.pairwise_cons.mp h
    rw [insertEntry]
    split
    · next heq =>
      subst heq
      exact List.pairwise_cons.mpr ⟨hd, hr⟩
    · next hne =>
      split
      · next hlt =>
        refine List.pairwise_cons.mpr ⟨fun e he => ?_, h⟩
        rcases List.mem_cons.mp he with rfl | he
        · exact hlt
        · exact List.lt_trans hlt (hd e he)
      · next hnlt =>
        refine List.pairwise_cons.mpr ⟨fun e he => ?_, ih hr⟩
        rcases mem_insertEntry he with rfl | he
        · exact Std.lt_of_le_of_ne (List.not_lt.mp hnlt) (Ne.symm hne)
        · exact hd e he

/-- The map with `value` under `name`, in place of any value it had. -/
def insert (m : OptionMap) (name value : Bytes) : OptionMap :=
  ⟨insertEntry name value m.entries, pairwise_insertEntry name value m.ascending⟩

/-- The map of the pairs; of two with the same name the later one stands. -/
def ofList (pairs : List (Bytes × Bytes)) : OptionMap :=
  pairs.foldl (fun m p => m.insert p.1 p.2) empty

/-- The value under a name. -/
def get? (m : OptionMap) (name : Bytes) : Option Bytes := m.entries.lookup name

theorem lookup_cons_ne {key name value : Bytes} (h : key ≠ name) (l : List (Bytes × Bytes)) :
    ((name, value) :: l).lookup key = l.lookup key := by
  rw [List.lookup_cons, beq_eq_false_iff_ne.mpr h]

theorem lookup_insertEntry (name value key : Bytes) (l : List (Bytes × Bytes)) :
    (insertEntry name value l).lookup key = if key = name then some value else l.lookup key := by
  by_cases h : key = name
  · subst h
    rw [if_pos rfl]
    induction l with
    | nil => simp [insertEntry]
    | cons d r ih =>
      rw [insertEntry]
      split
      · simp
      · next hne =>
        split
        · simp
        · rw [lookup_cons_ne hne, ih]
  · rw [if_neg h]
    induction l with
    | nil => rw [insertEntry, lookup_cons_ne h]
    | cons d r ih =>
      obtain ⟨dname, dvalue⟩ := d
      rw [insertEntry]
      split
      · next heq => rw [lookup_cons_ne h, lookup_cons_ne (fun hk => h (hk.trans heq.symm))]
      · split
        · rw [lookup_cons_ne h]
        · rw [List.lookup_cons, List.lookup_cons, ih]

theorem get?_insert (m : OptionMap) (name value key : Bytes) :
    (m.insert name value).get? key = if key = name then some value else m.get? key :=
  lookup_insertEntry name value key m.entries

end OptionMap

end SshCert
