import SshCert.Proofs.CommandLine.Numeral
import SshCert.Proofs.CommandLine.Roles

/-
  How parsing uses the arguments of a command line.
  An occurrence of an option sets its parameter and makes positional what it leaves
  (`positionals_give`), so after all of them every argument has been used in its role (`Uses`).
  Arguments that begin with an option can be parsed by themselves, behind the others
  (`parse_append`).
-/

namespace SshCert.CommandLine

variable {key : Bytes} {args : List Bytes} {c c' : CommandLine} {o : Occurrence}
  {os : List Occurrence} {i j : Nat}

/-! ## Positional arguments -/

namespace Setting

theorem takesArguments_accept (s : Setting) (args : List Bytes) :
    (s.accept args).1.takesArguments = s.takesArguments := by
  unfold accept
  split
  · rfl
  · rfl
  · split
    · rfl
    · rfl
  · rfl
  · rfl

@[simp] theorem takesArguments_receive (s : Setting) (o : Occurrence) :
    (s.receive o).takesArguments = s.takesArguments :=
  s.takesArguments_accept _

end Setting

theorem Cut.takes_eq {before after : List Parameter} {p : Parameter}
    (h : Cut c key before p after) : c.takes key = p.setting.takesArguments := by
  rw [takes, h.place?_eq, Option.bind_some, settingAt?, h.parameters]
  simp

/-- Options take arguments afterwards exactly if they did before. -/
theorem takes_give (h : c.give o = (c', none)) (key : Bytes) : c'.takes key = c.takes key := by
  rw [takes, takes, place?_give h]
  cases c.place? key with
  | none => rfl
  | some i =>
    rw [Option.bind_some, Option.bind_some, settingAt?_give h]
    cases c.settingAt? i with
    | none => rfl
    | some s =>
      by_cases hplace : c.place? o.key = some i
      · simp [hplace]
      · simp [hplace]

theorem positionals_give (h : c.give o = (c', none)) :
    c'.positionals = c.positionals ++ c.left o := by
  obtain ⟨before, p, after, hcut, -, hpositionals⟩ := exists_of_give h
  rw [hpositionals, left, hcut.takes_eq, Setting.others]

theorem positionals_giveAll (h : c.giveAll os = (c', none)) :
    c'.positionals = c.positionals ++ os.flatMap c.left := by
  induction os generalizing c with
  | nil =>
    obtain ⟨rfl, -⟩ := Prod.mk.inj h
    simp
  | cons o os ih =>
    obtain ⟨next, hgive, hrest⟩ := giveAll_cons_eq_iff.mp h
    have hleft : next.left = c.left := by
      funext o
      rw [left, left, takes_give hgive]
    rw [ih hrest, positionals_give hgive, hleft, List.flatMap_cons, List.append_assoc]

theorem isSome_place?_of_giveAll (h : c.giveAll os = (c', none)) :
    ∀ o ∈ os, (c.place? o.key).isSome = true := by
  induction os generalizing c with
  | nil => nofun
  | cons o os ih =>
    obtain ⟨next, hgive, hrest⟩ := giveAll_cons_eq_iff.mp h
    obtain ⟨before, p, after, hcut, -⟩ := exists_of_give hgive
    intro o' ho'
    rcases List.mem_cons.mp ho' with rfl | ho'
    · rw [hcut.place?_eq]
      rfl
    · rw [← place?_give hgive]
      exact ih hrest o' ho'

/-! ## One command line after the other -/

theorem giveAll_append (c : CommandLine) (os os' : List Occurrence) :
    c.giveAll (os ++ os') =
      match c.giveAll os with
      | (next, none) => next.giveAll os'
      | failed => failed := by
  induction os generalizing c with
  | nil => rfl
  | cons o os ih =>
    rw [List.cons_append, giveAll, giveAll]
    cases c.give o with
    | mk next error? =>
      cases error? with
      | none => exact ih next
      | some e => rfl

/-- The arguments begin with an option, if there are any. -/
def BeginsAnew (args : List Bytes) : Prop := ∀ x ∈ args.head?, isOption x = true

theorem BeginsAnew.split_front (h : BeginsAnew args) : (split args).1 = [] := by
  cases args with
  | nil => rfl
  | cons a r => rw [split_of_isOption (h a rfl)]

theorem split_append {a b : List Bytes} (hb : BeginsAnew b) :
    split (a ++ b) = ((split a).1, (split a).2 ++ (split b).2) := by
  induction a with
  | nil => exact Prod.ext hb.split_front rfl
  | cons x a ih =>
    rw [List.cons_append]
    cases h : isOption x with
    | true => rw [split_of_isOption h, split_of_isOption h, ih, List.cons_append]
    | false => rw [split_of_not_isOption h, split_of_not_isOption h, ih]

theorem parse_eq (c : CommandLine) (args : List Bytes) :
    c.parse args =
      ({ c with positionals := c.positionals ++ (split args).1 } : CommandLine).giveAll
        (split args).2 := rfl

theorem parse_append (c : CommandLine) {a b : List Bytes} (hb : BeginsAnew b) :
    c.parse (a ++ b) =
      match c.parse a with
      | (next, none) => next.parse b
      | failed => failed := by
  have hnext : ∀ next : CommandLine, next.parse b = next.giveAll (split b).2 := by
    intro next
    rw [parse_eq, hb.split_front, List.append_nil]
  simp only [hnext]
  rw [parse_eq, split_append hb, giveAll_append]
  rfl

/-! ## Options by their places -/

/-- The option in a place with the arguments behind it. -/
def occurrenceAt (args : List Bytes) (j : Nat) : Occurrence := ⟨args.getD j [], run args j⟩

theorem split_eq_map (args : List Bytes) :
    (split args).2 =
      ((List.range args.length).filter (optionAt args)).map (occurrenceAt args) := by
  induction args with
  | nil => rfl
  | cons a r ih =>
    have hlater : ((List.range r.length).map Nat.succ).filter (optionAt (a :: r)) =
        ((List.range r.length).filter (optionAt r)).map Nat.succ := by
      rw [List.filter_map]
      rfl
    have hshift : occurrenceAt (a :: r) ∘ Nat.succ = occurrenceAt r := rfl
    rw [List.length_cons, List.range_succ_eq_map, List.filter_cons, hlater]
    have hfirst : optionAt (a :: r) 0 = isOption a := rfl
    rw [hfirst]
    cases h : isOption a with
    | true =>
      rw [if_pos rfl, List.map_cons, List.map_map, hshift, ← ih, split_of_isOption h,
        occurrenceAt, split_front]
      rfl
    | false =>
      rw [if_neg Bool.false_ne_true, List.map_map, hshift, ← ih, split_of_not_isOption h]

/-- The places of the options that name the parameter in a place. -/
def namings (c : CommandLine) (args : List Bytes) (p : Nat) : List Nat :=
  (List.range args.length).filter fun j => optionAt args j ∧ args[j]?.bind c.place? = some p

theorem filter_split (c : CommandLine) (args : List Bytes) (p : Nat) :
    ((split args).2.filter fun o => c.place? o.key = some p) =
      (c.namings args p).map (occurrenceAt args) := by
  rw [split_eq_map, List.filter_map, List.filter_filter, namings]
  congr 1
  refine List.filter_congr fun j hj => ?_
  have hkey : args[j]? = some (occurrenceAt args j).key := by
    rw [occurrenceAt, List.getD_eq_getElem?_getD, List.getElem?_eq_getElem (List.mem_range.mp hj),
      Option.getD_some]
  rw [hkey, Option.bind_some, Bool.decide_and, Bool.and_comm, Bool.decide_eq_true]
  rfl

theorem mem_namings_iff {p : Nat} :
    j ∈ c.namings args p ↔
      ∃ key, args[j]? = some key ∧ isOption key = true ∧ c.place? key = some p := by
  rw [namings, List.mem_filter, List.mem_range, decide_eq_true_eq]
  constructor
  · rintro ⟨hj, hat, hplace⟩
    rw [optionAt, List.getElem?_eq_getElem hj] at hat
    rw [List.getElem?_eq_getElem hj] at hplace
    exact ⟨args[j], List.getElem?_eq_getElem hj, hat, hplace⟩
  · rintro ⟨key, hkey, hoption, hplace⟩
    rw [optionAt, hkey]
    exact ⟨(List.getElem?_eq_some_iff.mp hkey).1, hoption, hplace⟩

theorem exists_occurrence (hkey : key ∈ args) (hoption : isOption key = true) :
    ∃ o ∈ (split args).2, o.key = key := by
  obtain ⟨j, hj⟩ := List.mem_iff_getElem?.mp hkey
  have hat : optionAt args j = true := by rw [optionAt, hj]; exact hoption
  have hrange : j ∈ List.range args.length :=
    List.mem_range.mpr (List.getElem?_eq_some_iff.mp hj).1
  refine ⟨occurrenceAt args j, ?_, ?_⟩
  · rw [split_eq_map]
    exact List.mem_map_of_mem (List.mem_filter.mpr ⟨hrange, hat⟩)
  · rw [occurrenceAt, List.getD_eq_getElem?_getD, hj, Option.getD_some]

/-- What its options hand to a parameter is what it takes of the arguments behind them. -/
theorem foldl_receive_eq {js : List Nat} {used : Nat → List Bytes} {s : Setting}
    (h : ∀ j ∈ js, used j = s.own (run args j)) :
    js.foldl (fun s j => s.receive (occurrenceAt args j)) s =
      js.foldl (fun s j => (s.accept (used j)).1) s := by
  induction js generalizing s with
  | nil => rfl
  | cons j js ih =>
    have hfirst : s.receive (occurrenceAt args j) = (s.accept (used j)).1 := by
      rw [h j (.head _), Setting.receive, occurrenceAt]
    rw [List.foldl_cons, List.foldl_cons, hfirst]
    refine ih fun k hk => ?_
    rw [h k (.tail _ hk), Setting.own, Setting.own, Setting.takesArguments_accept]

/-! ## All arguments -/

/-- How a command line that is taken uses its arguments. -/
structure Uses (c : CommandLine) (args : List Bytes) (c' : CommandLine) : Prop where
  /-- Every argument has one role. -/
  length_roles : (c.roles args).length = args.length
  name_iff : ∀ i < args.length, (c.roles args)[i]? = some .name ↔ optionAt args i = true
  value_iff : ∀ i < args.length, ∀ j, (c.roles args)[i]? = some (.value j) ↔
    optionAt args i = false ∧ ∃ key, Nearest args j key i ∧ c.takes key = true
  positional_iff : ∀ i < args.length, (c.roles args)[i]? = some .positional ↔
    optionAt args i = false ∧ ∀ j key, Nearest args j key i → c.takes key = false
  declared : ∀ key ∈ args, isOption key = true → (c.place? key).isSome = true
  /-- The values for an option are all arguments up to the next one. -/
  values : ∀ j key, args[j]? = some key → isOption key = true →
    having (.value j) args (c.roles args) = if c.takes key then run args j else []
  /-- A parameter takes the values for its options, one option after the other. -/
  settings : ∀ p, c'.settingAt? p = (c.settingAt? p).map fun s =>
    (c.namings args p).foldl (fun s j => (s.accept (having (.value j) args (c.roles args))).1) s
  positionals : c'.positionals = c.positionals ++ having .positional args (c.roles args)

theorem uses_of_parse (h : c.parse args = (c', none)) : Uses c args c' where
  length_roles := c.length_rolesFrom _ _ _
  name_iff i hi := by
    rw [c.getElem?_roles hi, Option.some.injEq]
    have hrole := (c.roleAfter_take_iff (Nat.le_of_lt hi)).1
    cases optionAt args i with
    | true => simp
    | false => simpa using hrole
  value_iff i hi j := by
    have hrole : Role.value j ≠ .name := nofun
    rw [getElem?_roles_eq_iff hi hrole]
    exact and_congr_right fun _ => (c.roleAfter_take_iff (Nat.le_of_lt hi)).2.1 j
  positional_iff i hi := by
    have hrole : Role.positional ≠ .name := nofun
    rw [getElem?_roles_eq_iff hi hrole]
    exact and_congr_right fun _ => (c.roleAfter_take_iff (Nat.le_of_lt hi)).2.2
  declared key hkey hoption := by
    obtain ⟨o, ho, rfl⟩ := exists_occurrence hkey hoption
    exact isSome_place?_of_giveAll h o ho
  values j key hkey hoption := having_roles hkey hoption
  settings p := by
    rw [settingAt?_parse h]
    cases hs : c.settingAt? p with
    | none => rfl
    | some s =>
      rw [Option.map_some, Option.map_some, filter_split, List.foldl_map]
      refine congrArg some (foldl_receive_eq fun j hj => ?_)
      obtain ⟨key, hkey, hoption, hplace⟩ := mem_namings_iff.mp hj
      have htakes : c.takes key = s.takesArguments := by
        rw [takes, hplace, Option.bind_some, hs]
        rfl
      rw [Setting.own, ← htakes]
      exact having_roles hkey hoption
  positionals := by
    have hrole : Role.positional ≠ .name := nofun
    rw [positionals_giveAll h, List.append_assoc, roles, having_positional hrole, if_pos rfl]
    rfl

theorem isOption_iff {a : Bytes} :
    isOption a = true ↔ ∃ first rest, a = 0x2d :: first :: rest ∧ first ∉ ascii "0123456789" := by
  unfold isOption
  split
  · next first rest =>
    rw [Bool.not_eq_true', ← Bool.not_eq_true, isDigit_iff]
    constructor
    · intro h
      exact ⟨first, rest, rfl, h⟩
    · intro h
      obtain ⟨first', rest', hsame, hdigit⟩ := h
      cases hsame
      exact hdigit
  · next hother =>
    refine iff_of_false Bool.false_ne_true fun h => ?_
    obtain ⟨first, rest, rfl, -⟩ := h
    exact hother first rest rfl

/-- A command line that is taken uses each of its arguments once and as its place tells. Arguments
that begin with an option are parsed behind others as if these had been parsed before, also where
either is refused. An option is a dash and something behind it that begins with no digit. -/
theorem parse_uses_each_once (c : CommandLine) :
    (∀ args c', c.parse args = (c', none) → Uses c args c') ∧
      (∀ a b, BeginsAnew b →
        c.parse (a ++ b) =
          match c.parse a with
          | (next, none) => next.parse b
          | failed => failed) ∧
      ∀ a, isOption a = true ↔
        ∃ first rest, a = 0x2d :: first :: rest ∧ first ∉ ascii "0123456789" :=
  ⟨fun _ _ h => uses_of_parse h, fun _ _ hb => c.parse_append hb, fun _ => isOption_iff⟩

namespace Sample

/-- A flag, a list of integers and a text. -/
def parameters (verbose : Bool) (numbers : List Int32) (file : Bytes) : List Parameter :=
  [⟨ascii "verbose", ascii "v", [], .flag verbose⟩,
   ⟨ascii "number", ascii "n", [], .list .integer numbers⟩,
   ⟨ascii "file", ascii "f", [], .single .text file⟩]

def declared : CommandLine := ⟨parameters false [] [], []⟩

/-- Negative numbers and a single dash are no options. -/
def earlier : List Bytes :=
  [ascii "a", ascii "-n", ascii "-5", ascii "+7", ascii "-v", ascii "-", ascii "-1"]

def later : List Bytes := [ascii "--number", ascii "0", ascii "-v", ascii "-f", ascii "c"]

def parsed : CommandLine :=
  ⟨parameters true [-5, 7, 0] (ascii "c"), [ascii "a", ascii "-", ascii "-1"]⟩

end Sample

theorem parse_uses_each_once_mixed :
    Sample.declared.parse (Sample.earlier ++ Sample.later) = (Sample.parsed, none) ∧
      Uses Sample.declared (Sample.earlier ++ Sample.later) Sample.parsed ∧
      BeginsAnew Sample.later ∧
      Sample.declared.parse (Sample.earlier ++ Sample.later) =
        match Sample.declared.parse Sample.earlier with
        | (next, none) => next.parse Sample.later
        | failed => failed := by
  have hparsed :
      Sample.declared.parse (Sample.earlier ++ Sample.later) = (Sample.parsed, none) := rfl
  have hlater : BeginsAnew Sample.later := by
    intro x hx
    cases hx
    rfl
  obtain ⟨huses, happend, -⟩ := parse_uses_each_once Sample.declared
  exact ⟨hparsed, huses _ _ hparsed, hlater, happend _ _ hlater⟩

example :
    Sample.declared.roles (Sample.earlier ++ Sample.later) =
      [.positional, .name, .value 1, .value 1, .name, .positional, .positional,
        .name, .value 7, .name, .name, .value 10] := by decide

end SshCert.CommandLine
