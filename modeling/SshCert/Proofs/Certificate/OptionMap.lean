import Mathlib.Data.List.Induction
import SshCert.Certificate.OptionMap

/-
  Option maps and the rows of options that they are made from.
  A map has under every name the value that stands last in the row (`get?_ofList_eq_some_iff`) and
  is known from these values (`ext_get?`). Its entries are the row itself exactly if the names of
  the row ascend (`entries_ofList_eq_iff`); otherwise options were moved or dropped.
-/

namespace SshCert

/-- The names stand in strictly ascending bytewise order. -/
def Ascending (pairs : List (Bytes × Bytes)) : Prop := (pairs.map Prod.fst).Pairwise (· < ·)

instance (pairs : List (Bytes × Bytes)) : Decidable (Ascending pairs) :=
  inferInstanceAs (Decidable (List.Pairwise _ _))

/-- The last option of the name has the value. -/
def StandsLast (pairs : List (Bytes × Bytes)) (name value : Bytes) : Prop :=
  ∃ before after, pairs = before ++ (name, value) :: after ∧ ∀ e ∈ after, e.1 ≠ name

theorem ascending_iff {pairs : List (Bytes × Bytes)} :
    Ascending pairs ↔ pairs.Pairwise (fun a b => a.1 < b.1) :=
  List.pairwise_map

theorem not_standsLast_nil (name value : Bytes) : ¬ StandsLast [] name value := by
  intro h
  obtain ⟨before, after, hnil, -⟩ := h
  simp at hnil

theorem standsLast_append_singleton {pairs : List (Bytes × Bytes)} {e : Bytes × Bytes}
    {name value : Bytes} :
    StandsLast (pairs ++ [e]) name value ↔
      if name = e.1 then value = e.2 else StandsLast pairs name value := by
  constructor
  · intro h
    obtain ⟨before, after, hpairs, hafter⟩ := h
    rcases List.eq_nil_or_concat after with rfl | ⟨after, d, rfl⟩
    · obtain ⟨-, he⟩ := List.append_inj' hpairs rfl
      rw [List.singleton_inj.mp he, if_pos rfl]
    · rw [List.concat_eq_append, ← List.cons_append, ← List.append_assoc] at hpairs
      obtain ⟨hpairs, he⟩ := List.append_inj' hpairs rfl
      have hname : e.1 ≠ name := hafter e (by simp [List.singleton_inj.mp he])
      rw [if_neg hname.symm]
      exact ⟨before, after, hpairs, fun x hx => hafter x (by simp [hx])⟩
  · intro h
    split at h
    · next hname =>
      refine ⟨pairs, [], ?_, by simp⟩
      rw [hname, h]
    · next hname =>
      obtain ⟨before, after, rfl, hafter⟩ := h
      refine ⟨before, after ++ [e], by simp, ?_⟩
      intro x hx
      rcases List.mem_append.mp hx with hx | hx
      · exact hafter x hx
      · rw [List.mem_singleton.mp hx]
        exact Ne.symm hname

namespace OptionMap

/-! ## Values by name -/

theorem entries_insert (m : OptionMap) (name value : Bytes) :
    (m.insert name value).entries = insertEntry name value m.entries := rfl

theorem ofList_append_singleton (pairs : List (Bytes × Bytes)) (e : Bytes × Bytes) :
    ofList (pairs ++ [e]) = (ofList pairs).insert e.1 e.2 := by
  simp [ofList]

/-- Of the options with one name the last one stands, and no other name has a value. -/
theorem get?_ofList_eq_some_iff {pairs : List (Bytes × Bytes)} {name value : Bytes} :
    (ofList pairs).get? name = some value ↔ StandsLast pairs name value := by
  induction pairs using List.reverseRecOn with
  | nil =>
    refine ⟨nofun, fun h => absurd h (not_standsLast_nil name value)⟩
  | append_singleton pairs e ih =>
    rw [ofList_append_singleton, get?_insert, standsLast_append_singleton]
    split
    · rw [Option.some.injEq, eq_comm]
    · exact ih

theorem nodup_names (m : OptionMap) : (m.entries.map Prod.fst).Nodup := by
  have hascending : (m.entries.map Prod.fst).Pairwise (· < ·) := List.pairwise_map.mpr m.ascending
  refine hascending.imp fun {a b} hlt heq => ?_
  rw [heq] at hlt
  exact List.lt_irrefl b hlt

theorem nodup_entries (m : OptionMap) : m.entries.Nodup :=
  List.Pairwise.of_map Prod.fst (fun _ _ hne heq => hne (congrArg Prod.fst heq)) m.nodup_names

theorem get?_eq_some_iff_mem {m : OptionMap} {name value : Bytes} :
    m.get? name = some value ↔ (name, value) ∈ m.entries := by
  have hnodup := m.nodup_names
  rw [get?, List.lookup_eq_some_iff]
  constructor
  · intro h
    obtain ⟨before, after, hentries, -⟩ := h
    simp [hentries]
  · intro h
    obtain ⟨before, after, hentries⟩ := List.append_of_mem h
    refine ⟨before, after, hentries, fun e he => ?_⟩
    rw [hentries, List.map_append, List.nodup_append] at hnodup
    have hne : e.1 ≠ name :=
      hnodup.2.2 e.1 (List.mem_map_of_mem he) name (by simp)
    simpa using hne.symm

theorem eq_of_entries_eq {m n : OptionMap} (h : m.entries = n.entries) : m = n := by
  cases m
  cases n
  cases h
  rfl

/-- Two maps that give the same for every name are one. -/
theorem ext_get? {m n : OptionMap} (h : ∀ name, m.get? name = n.get? name) : m = n := by
  have hmem : ∀ e, e ∈ m.entries ↔ e ∈ n.entries := by
    intro e
    rw [← get?_eq_some_iff_mem, ← get?_eq_some_iff_mem, h]
  have hperm : m.entries.Perm n.entries :=
    (List.perm_ext_iff_of_nodup (nodup_entries m) (nodup_entries n)).mpr hmem
  have hasymm : ∀ a b : Bytes × Bytes, a.1 < b.1 → b.1 < a.1 → a = b :=
    fun a b hab hba => absurd hba (List.lt_asymm hab)
  exact eq_of_entries_eq
    (hperm.eq_of_pairwise (fun a b _ _ => hasymm a b) m.ascending n.ascending)

theorem eq_ofList_iff {m : OptionMap} {pairs : List (Bytes × Bytes)} :
    m = ofList pairs ↔ ∀ name value, m.get? name = some value ↔ StandsLast pairs name value := by
  constructor
  · intro h name value
    rw [h, get?_ofList_eq_some_iff]
  · intro h
    refine ext_get? fun name => Option.ext fun value => ?_
    rw [h, get?_ofList_eq_some_iff]

/-! ## Entries -/

/-- An entry whose name is greater than all others goes to the end. -/
theorem insertEntry_of_forall_lt {name value : Bytes} {l : List (Bytes × Bytes)}
    (h : ∀ e ∈ l, e.1 < name) : insertEntry name value l = l ++ [(name, value)] := by
  induction l with
  | nil => rfl
  | cons d r ih =>
    have hd : d.1 < name := h d (by simp)
    have hne : name ≠ d.1 := fun heq => List.lt_irrefl _ (heq ▸ hd)
    have hr : insertEntry name value r = r ++ [(name, value)] :=
      ih fun e he => h e (List.mem_cons_of_mem d he)
    rw [insertEntry, if_neg hne, if_neg (List.lt_asymm hd), hr, List.cons_append]

theorem entries_ofList_of_ascending {pairs : List (Bytes × Bytes)} (h : Ascending pairs) :
    (ofList pairs).entries = pairs := by
  induction pairs using List.reverseRecOn with
  | nil => rfl
  | append_singleton pairs e ih =>
    rw [ascending_iff, List.pairwise_append] at h
    obtain ⟨hpairs, -, hlast⟩ := h
    rw [ofList_append_singleton, entries_insert, ih (ascending_iff.mpr hpairs)]
    exact insertEntry_of_forall_lt fun d hd => hlast d hd e (by simp)

theorem ofList_entries (m : OptionMap) : ofList m.entries = m :=
  eq_of_entries_eq (entries_ofList_of_ascending (ascending_iff.mpr m.ascending))

/-- A row is kept as it stands exactly if its names ascend. -/
theorem entries_ofList_eq_iff {pairs : List (Bytes × Bytes)} :
    (ofList pairs).entries = pairs ↔ Ascending pairs := by
  constructor
  · intro h
    rw [ascending_iff, ← h]
    exact (ofList pairs).ascending
  · exact entries_ofList_of_ascending

end OptionMap

end SshCert
