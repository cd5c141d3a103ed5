import Mathlib.Data.List.TakeDrop
import Mathlib.Data.List.TakeWhile
import SshCert.CommandLine.Basic

/-
  What the parameters of a command line collect.
  `Given key x args` says that `x` stands behind the option `key` in front of the next option, and
  splitting finds exactly that (`exists_occurrence_iff`). One occurrence sets one parameter and
  leaves the others alone (`settingAt?_give`), so after all of them a parameter holds what its own
  occurrences made of it, in their order (`settingAt?_giveAll`). A list of texts takes whatever it
  is given (`foldl_receive_list`).
-/

namespace SshCert.CommandLine

variable {a x key : Bytes} {args r : List Bytes} {c c' : CommandLine} {o : Occurrence}
  {os : List Occurrence} {i : Nat}

/-! ## Arguments behind an option -/

/-- The argument stands behind the option, with no other option between them. -/
def Given (key x : Bytes) (args : List Bytes) : Prop :=
  ∃ before after, args = before ++ key :: after ∧ x ∈ after.takeWhile (!isOption ·)

theorem not_given_nil : ¬ Given key x [] := by
  intro h
  obtain ⟨before, after, hargs, -⟩ := h
  exact List.append_ne_nil_of_right_ne_nil before (List.cons_ne_nil key after) hargs.symm

/-- The option stands in front, or behind the first argument. -/
theorem given_cons :
    Given key x (a :: r) ↔ (a = key ∧ x ∈ r.takeWhile (!isOption ·)) ∨ Given key x r := by
  constructor
  · intro h
    obtain ⟨before, after, hargs, hx⟩ := h
    cases before with
    | nil =>
      obtain ⟨rfl, rfl⟩ := List.cons.inj hargs
      exact .inl ⟨rfl, hx⟩
    | cons b before => exact .inr ⟨before, after, (List.cons.inj hargs).2, hx⟩
  · intro h
    rcases h with ⟨rfl, hx⟩ | ⟨before, after, rfl, hx⟩
    · exact ⟨[], r, rfl, hx⟩
    · exact ⟨a :: before, after, rfl, hx⟩

theorem split_of_isOption (h : isOption a = true) :
    split (a :: r) = ([], ⟨a, (split r).1⟩ :: (split r).2) := by
  rw [split]
  exact if_pos h

theorem split_of_not_isOption (h : isOption a = false) :
    split (a :: r) = (a :: (split r).1, (split r).2) := by
  rw [split]
  exact if_neg (Bool.eq_false_iff.mp h)

/-- The arguments in front are those up to the first option. -/
theorem split_front (args : List Bytes) : (split args).1 = args.takeWhile (!isOption ·) := by
  induction args with
  | nil => rfl
  | cons a r ih =>
    cases h : isOption a with
    | true => rw [split_of_isOption h, List.takeWhile_cons, h]; rfl
    | false => rw [split_of_not_isOption h, List.takeWhile_cons, h, ih]; rfl

/-- An option is found with exactly the arguments that stand behind it. -/
theorem exists_occurrence_iff (hkey : isOption key = true) (args : List Bytes) :
    (∃ o ∈ (split args).2, o.key = key ∧ x ∈ o.arguments) ↔ Given key x args := by
  induction args with
  | nil => exact iff_of_false (by simp [split]) not_given_nil
  | cons a r ih =>
    rw [given_cons, ← ih]
    cases h : isOption a with
    | true =>
      simp only [split_of_isOption h, split_front, List.mem_cons, exists_eq_or_imp]
    | false =>
      rw [split_of_not_isOption h, or_iff_right]
      rintro ⟨rfl, -⟩
      rw [hkey] at h
      cases h

/-! ## One occurrence -/

namespace Setting

/-- The arguments that the setting takes, of those behind its option. -/
def own (s : Setting) (args : List Bytes) : List Bytes := if s.takesArguments then args else []

/-- The arguments that the setting leaves, of those behind its option. -/
def others (s : Setting) (args : List Bytes) : List Bytes := if s.takesArguments then [] else args

/-- The setting after an occurrence of its option. -/
def receive (s : Setting) (o : Occurrence) : Setting := (s.accept (s.own o.arguments)).1

end Setting

/-- The place of the parameter that an option names. -/
def place? (c : CommandLine) (key : Bytes) : Option Nat := c.parameters.findIdx? (·.isNamed key)

/-- What the parameter in a place is set to. -/
def settingAt? (c : CommandLine) (i : Nat) : Option Setting := c.parameters[i]?.map (·.setting)

/-- The parameters cut at the first one that the option names. -/
structure Cut (c : CommandLine) (key : Bytes) (before : List Parameter) (p : Parameter)
    (after : List Parameter) : Prop where
  parameters : c.parameters = before ++ p :: after
  unnamed : ∀ q ∈ before, q.isNamed key = false
  named : p.isNamed key = true

variable {before after : List Parameter} {p : Parameter}

theorem cut_of_span (h : c.parameters.span (!·.isNamed key) = (before, p :: after)) :
    Cut c key before p after := by
  rw [List.span_eq_takeWhile_dropWhile] at h
  obtain ⟨hbefore, hrest⟩ := Prod.mk.inj h
  refine ⟨?_, fun q hq => ?_, ?_⟩
  · rw [← hbefore, ← hrest, List.takeWhile_append_dropWhile]
  · rw [← hbefore] at hq
    simpa using List.mem_takeWhile_imp hq
  · have hstop := List.head?_dropWhile_not (!·.isNamed key) c.parameters
    rw [hrest] at hstop
    simpa using hstop

theorem Cut.place?_eq (h : Cut c key before p after) : c.place? key = some before.length := by
  have hbefore : before.findIdx? (·.isNamed key) = none := List.findIdx?_eq_none_iff.mpr h.unnamed
  rw [place?, h.parameters, List.findIdx?_append, hbefore, List.findIdx?_cons, if_pos h.named]
  simp

/-- An occurrence that is taken sets the parameter that its option names, and what the parameter
leaves is positional. -/
theorem exists_of_give (h : c.give o = (c', none)) :
    ∃ before p after, Cut c o.key before p after ∧
      c'.parameters = before ++ { p with setting := p.setting.receive o } :: after ∧
      c'.positionals = c.positionals ++ p.setting.others o.arguments := by
  unfold give at h
  split at h
  · cases h
  · next before p after hspan =>
    refine ⟨before, p, after, cut_of_span hspan, ?_⟩
    unfold Setting.receive Setting.own Setting.others
    obtain ⟨hc, -⟩ := Prod.mk.inj h
    cases htakes : p.setting.takesArguments with
    | true =>
      rw [htakes] at hc
      rw [← hc]
      exact ⟨rfl, rfl⟩
    | false =>
      rw [htakes] at hc
      rw [← hc]
      exact ⟨rfl, rfl⟩

/-- An option names the same parameter afterwards. -/
theorem place?_give (h : c.give o = (c', none)) (key : Bytes) : c'.place? key = c.place? key := by
  obtain ⟨before, p, after, hcut, hset, -⟩ := exists_of_give h
  rw [place?, place?, hset, hcut.parameters, List.findIdx?_append, List.findIdx?_append,
    List.findIdx?_cons, List.findIdx?_cons]
  rfl

/-- The parameter that the option names takes the arguments, and all others stay. -/
theorem settingAt?_give (h : c.give o = (c', none)) (i : Nat) :
    c'.settingAt? i =
      (c.settingAt? i).map fun s => if c.place? o.key = some i then s.receive o else s := by
  obtain ⟨before, p, after, hcut, hset, -⟩ := exists_of_give h
  have hparameters : c'.parameters =
      c.parameters.set before.length { p with setting := p.setting.receive o } := by
    rw [hset, hcut.parameters]
    simp
  by_cases hi : before.length = i
  · subst hi
    rw [settingAt?, settingAt?, hset, hcut.parameters, hcut.place?_eq]
    simp
  · have hother : c.place? o.key ≠ some i := by
      rw [hcut.place?_eq]
      exact fun hsame => hi (Option.some.inj hsame)
    rw [settingAt?, hparameters, List.getElem?_set_ne hi]
    simp [hother, settingAt?, Function.comp_def]

/-! ## All occurrences -/

theorem giveAll_cons_eq_iff :
    c.giveAll (o :: os) = (c', none) ↔
      ∃ next, c.give o = (next, none) ∧ next.giveAll os = (c', none) := by
  rw [giveAll]
  constructor
  · intro h
    split at h
    · next next hgive => exact ⟨next, hgive, h⟩
    · next hfailed => exact absurd h (hfailed _)
  · intro h
    obtain ⟨next, hgive, hrest⟩ := h
    rw [hgive]
    exact hrest

theorem place?_giveAll (h : c.giveAll os = (c', none)) (key : Bytes) :
    c'.place? key = c.place? key := by
  induction os generalizing c with
  | nil =>
    obtain ⟨rfl, -⟩ := Prod.mk.inj h
    rfl
  | cons o os ih =>
    obtain ⟨next, hgive, hrest⟩ := giveAll_cons_eq_iff.mp h
    rw [ih hrest, place?_give hgive]

/-- After all occurrences a parameter is set to what its own ones made of it, in their order. -/
theorem settingAt?_giveAll (h : c.giveAll os = (c', none)) (i : Nat) :
    c'.settingAt? i =
      (c.settingAt? i).map fun s =>
        (os.filter fun o => c.place? o.key = some i).foldl Setting.receive s := by
  induction os generalizing c with
  | nil =>
    obtain ⟨rfl, -⟩ := Prod.mk.inj h
    simp
  | cons o os ih =>
    obtain ⟨next, hgive, hrest⟩ := giveAll_cons_eq_iff.mp h
    rw [ih hrest, settingAt?_give hgive, Option.map_map]
    -- the options name the same parameters in the next command line
    simp only [place?_give hgive]
    congr 1
    funext s
    by_cases hplace : c.place? o.key = some i
    · simp [hplace]
    · simp [hplace]

/-- Parsing gives all occurrences to the parameters as they were declared. -/
theorem settingAt?_parse (h : c.parse args = (c', none)) (i : Nat) :
    c'.settingAt? i =
      (c.settingAt? i).map fun s =>
        ((split args).2.filter fun o => c.place? o.key = some i).foldl Setting.receive s :=
  settingAt?_giveAll (c := { c with positionals := c.positionals ++ (split args).1 }) h i

theorem place?_parse (h : c.parse args = (c', none)) (key : Bytes) :
    c'.place? key = c.place? key :=
  place?_giveAll (c := { c with positionals := c.positionals ++ (split args).1 }) h key

/-! ## Lists of texts -/

theorem readAll_text (args : List Bytes) : Setting.readAll .text args = (args, none) := by
  induction args with
  | nil => rfl
  | cons a args ih =>
    unfold Setting.readAll
    rw [ih]
    rfl

theorem accept_list (l args : List Bytes) :
    Setting.accept (.list .text l) args = (.list .text (l ++ args), none) := by
  simp [Setting.accept, readAll_text]

/-- A list of texts takes all arguments of all occurrences. -/
theorem foldl_receive_list (l : List Bytes) (os : List Occurrence) :
    os.foldl Setting.receive (.list .text l) = .list .text (l ++ os.flatMap (·.arguments)) := by
  induction os generalizing l with
  | nil => simp
  | cons o os ih =>
    have hreceived : Setting.receive (.list .text l) o = .list .text (l ++ o.arguments) :=
      congrArg Prod.fst (accept_list l o.arguments)
    rw [List.foldl_cons, hreceived, ih, List.flatMap_cons, List.append_assoc]

/-- A declared list of texts ends as the arguments of the options that name it. -/
theorem texts_parse (h : c.parse args = (c', none)) {name : String} {l : List Bytes}
    (hplace : c.place? (ascii "--" ++ ascii name) = some i)
    (hsetting : c.settingAt? i = some (.list .text l)) :
    c'.texts name =
      l ++ ((split args).2.filter fun o => c.place? o.key = some i).flatMap (·.arguments) := by
  have hfound : c'.setting? name = c'.settingAt? i := by
    have hplace' := (place?_parse h _).trans hplace
    rw [place?] at hplace'
    rw [setting?, parameter?, List.find?_eq_bind_findIdx?_getElem?, hplace']
    rfl
  rw [texts, hfound, settingAt?_parse h, hsetting, Option.map_some, foldl_receive_list]

end SshCert.CommandLine
