import SshCert.Proofs.CommandLine.Collecting

/-
  What the arguments of a command line are used for.
  Reading from the left gives every argument one role (`roles`). An option is a name, and any other
  argument has the role that is left to it by the nearest option in front of it
  (`roleAfter_take_iff`). The values for an option are the run of arguments behind it
  (`having_roles`), and the positional arguments are those in front of all options and those behind
  an option that takes none (`having_positional`).
-/

namespace SshCert.CommandLine

variable {a key : Bytes} {args r : List Bytes} {c : CommandLine} {i j n : Nat}

/-! ## Roles -/

/-- Whether the option names a parameter that takes arguments. -/
def takes (c : CommandLine) (key : Bytes) : Bool :=
  ((c.place? key).bind c.settingAt?).any (·.takesArguments)

/-- What an argument is used for. -/
inductive Role
  /-- It names a parameter. -/
  | name
  /-- It is a value for the option in the place. -/
  | value (place : Nat)
  | positional
  deriving DecidableEq, Repr

/-- The role of arguments behind an option in a place. -/
def roleBehind (c : CommandLine) (key : Bytes) (place : Nat) : Role :=
  if c.takes key then .value place else .positional

/-- The roles of arguments from a place on: up to the first option the given one. -/
def rolesFrom (c : CommandLine) (role : Role) (place : Nat) : List Bytes → List Role
  | [] => []
  | a :: r =>
    if isOption a then .name :: c.rolesFrom (c.roleBehind a place) (place + 1) r
    else role :: c.rolesFrom role (place + 1) r

/-- The roles of the arguments, from left to right. -/
def roles (c : CommandLine) (args : List Bytes) : List Role := c.rolesFrom .positional 0 args

@[simp] theorem length_rolesFrom (c : CommandLine) (role : Role) (n : Nat) (args : List Bytes) :
    (c.rolesFrom role n args).length = args.length := by
  induction args generalizing role n with
  | nil => rfl
  | cons a r ih =>
    rw [rolesFrom]
    split
    · simp [ih]
    · simp [ih]

theorem roleBehind_ne_name (c : CommandLine) (key : Bytes) (n : Nat) :
    c.roleBehind key n ≠ .name := by
  unfold roleBehind
  split
  · nofun
  · nofun

theorem roleBehind_eq_value_iff :
    c.roleBehind key n = .value j ↔ c.takes key = true ∧ n = j := by
  unfold roleBehind
  split
  · next h => simp [h]
  · next h => simp [h]

theorem roleBehind_eq_positional_iff :
    c.roleBehind key n = .positional ↔ c.takes key = false := by
  unfold roleBehind
  split
  · next h => simp [h]
  · next h => simp [h]

/-! ## Arguments with a role -/

/-- The arguments that have the role, in their order. -/
def having (role : Role) (args : List Bytes) (roles : List Role) : List Bytes :=
  ((args.zip roles).filter (·.2 = role)).map (·.1)

theorem having_cons (role x : Role) (a : Bytes) (r : List Bytes) (xs : List Role) :
    having role (a :: r) (x :: xs) =
      if x = role then a :: having role r xs else having role r xs := by
  unfold having
  rw [List.zip_cons_cons, List.filter_cons]
  by_cases h : x = role
  · simp [h]
  · simp [h]

/-- The arguments behind a place up to the next option. -/
def run (args : List Bytes) (j : Nat) : List Bytes := (args.drop (j + 1)).takeWhile (!isOption ·)

variable {role : Role}

/-- The values for an option that stands further in front are those up to the next option. -/
theorem having_value_of_lt (hj : j < n) :
    having (.value j) args (c.rolesFrom role n args) =
      if role = .value j then args.takeWhile (!isOption ·) else [] := by
  induction args generalizing role n with
  | nil => simp [rolesFrom, having]
  | cons a r ih =>
    rw [rolesFrom]
    cases h : isOption a with
    | true =>
      have hlater : c.roleBehind a n ≠ .value j := by
        rw [Ne, roleBehind_eq_value_iff]
        omega
      rw [if_pos rfl, having_cons, if_neg nofun, ih (by omega), if_neg hlater]
      simp [h]
    | false =>
      rw [if_neg Bool.false_ne_true, having_cons, ih (by omega)]
      by_cases hrole : role = .value j
      · simp [hrole, h]
      · simp [hrole]

/-- An option with arguments gets those behind it, up to the next option. -/
theorem having_value (hrole : ∀ j, role = .value j → j < n) (hkey : args[i]? = some key)
    (hoption : isOption key = true) :
    having (.value (n + i)) args (c.rolesFrom role n args) =
      if c.takes key then run args i else [] := by
  induction args generalizing role n i with
  | nil => cases hkey
  | cons a r ih =>
    rw [rolesFrom]
    cases i with
    | zero =>
      obtain rfl : a = key := Option.some.inj hkey
      rw [if_pos hoption, having_cons, if_neg nofun, having_value_of_lt (by omega)]
      simp [roleBehind_eq_value_iff, run]
    | succ i =>
      have hrun : run (a :: r) (i + 1) = run r i := rfl
      have hplace : n + (i + 1) = n + 1 + i := by omega
      have hkey' : r[i]? = some key := hkey
      rw [hrun, hplace]
      split
      · -- what stands behind `a` is no value for a later option either
        have hbehind : ∀ j, c.roleBehind a n = .value j → j < n + 1 := by
          intro j hj
          rw [roleBehind_eq_value_iff] at hj
          omega
        rw [having_cons, if_neg nofun, ih hbehind hkey']
      · have hearlier : ∀ j, role = .value j → j < n + 1 := fun j hj => by
          have := hrole j hj
          omega
        have hne : role ≠ .value (n + 1 + i) := fun h => by
          have := hrole _ h
          omega
        rw [having_cons, if_neg hne, ih hearlier hkey']

theorem having_roles (hkey : args[j]? = some key) (hoption : isOption key = true) :
    having (.value j) args (c.roles args) = if c.takes key then run args j else [] := by
  have hfirst : ∀ k, Role.positional = .value k → k < 0 := nofun
  have hvalue := having_value (c := c) hfirst hkey hoption
  rwa [Nat.zero_add] at hvalue

/-- The arguments behind an option that it does not take. -/
def left (c : CommandLine) (o : Occurrence) : List Bytes :=
  if c.takes o.key then [] else o.arguments

/-- What is positional stands in front of all options or is left by one. -/
theorem having_positional (hrole : role ≠ .name) :
    having .positional args (c.rolesFrom role n args) =
      (if role = .positional then (split args).1 else []) ++ (split args).2.flatMap c.left := by
  induction args generalizing role n with
  | nil => simp [rolesFrom, having, split]
  | cons a r ih =>
    rw [rolesFrom]
    cases h : isOption a with
    | true =>
      rw [if_pos rfl, having_cons, if_neg (by decide), ih (c.roleBehind_ne_name a n),
        split_of_isOption h]
      simp only [roleBehind_eq_positional_iff, List.flatMap_cons, left]
      cases c.takes a with
      | true => simp
      | false => simp
    | false =>
      rw [if_neg Bool.false_ne_true, having_cons, ih hrole, split_of_not_isOption h]
      by_cases hpositional : role = .positional
      · simp [hpositional]
      · simp [hpositional]

/-! ## The nearest option -/

/-- An option stands in the place. -/
def optionAt (args : List Bytes) (i : Nat) : Bool := args[i]?.any isOption

/-- The option stands in place `j`, and it is the nearest one in front of place `i`. -/
structure Nearest (args : List Bytes) (j : Nat) (key : Bytes) (i : Nat) : Prop where
  before : j < i
  key_eq : args[j]? = some key
  isOption_key : isOption key = true
  between : ∀ k, j < k → k < i → optionAt args k = false

theorem not_nearest_zero : ¬ Nearest args j key 0 := fun h => Nat.not_lt_zero _ h.before

theorem nearest_succ_of_optionAt (h : args[i]? = some a) (hoption : isOption a = true) :
    Nearest args j key (i + 1) ↔ j = i ∧ key = a := by
  constructor
  · intro hnearest
    have hat : optionAt args i = true := by rw [optionAt, h]; exact hoption
    have hlast : ¬ j < i := by
      intro hj
      rw [hnearest.between i hj (Nat.lt_succ_self i)] at hat
      cases hat
    have hj : j = i := by
      have := hnearest.before
      omega
    subst hj
    refine ⟨rfl, ?_⟩
    have hkey := hnearest.key_eq
    rw [h] at hkey
    exact (Option.some.inj hkey).symm
  · intro heq
    obtain ⟨rfl, rfl⟩ := heq
    exact ⟨Nat.lt_succ_self _, h, hoption, fun k hk hk' => by omega⟩

theorem nearest_succ_of_not_optionAt (h : optionAt args i = false) :
    Nearest args j key (i + 1) ↔ Nearest args j key i := by
  constructor
  · intro hnearest
    refine ⟨?_, hnearest.key_eq, hnearest.isOption_key, fun k hk hk' =>
      hnearest.between k hk (by omega)⟩
    have hne : j ≠ i := by
      rintro rfl
      rw [optionAt, hnearest.key_eq] at h
      exact Bool.eq_false_iff.mp h hnearest.isOption_key
    have := hnearest.before
    omega
  · intro hnearest
    refine ⟨by have := hnearest.before; omega, hnearest.key_eq, hnearest.isOption_key,
      fun k hk hk' => ?_⟩
    by_cases hki : k = i
    · rw [hki, h]
    · exact hnearest.between k hk (by omega)

/-- The role that arguments have behind those from a place on, unless they are options. -/
def roleAfter (c : CommandLine) (role : Role) (place : Nat) : List Bytes → Role
  | [] => role
  | a :: r => c.roleAfter (if isOption a then c.roleBehind a place else role) (place + 1) r

theorem roleAfter_append_singleton (c : CommandLine) (role : Role) (n : Nat) (r : List Bytes)
    (a : Bytes) :
    c.roleAfter role n (r ++ [a]) =
      if isOption a then c.roleBehind a (n + r.length) else c.roleAfter role n r := by
  induction r generalizing role n with
  | nil => rfl
  | cons b r ih =>
    rw [List.cons_append, roleAfter, ih, roleAfter, List.length_cons]
    have hplace : n + 1 + r.length = n + (r.length + 1) := by omega
    rw [hplace]

theorem getElem?_rolesFrom (c : CommandLine) (role : Role) (n : Nat) (args : List Bytes) (i : Nat) :
    (c.rolesFrom role n args)[i]? =
      args[i]?.map fun a => if isOption a then .name else c.roleAfter role n (args.take i) := by
  induction args generalizing role n i with
  | nil => rfl
  | cons a r ih =>
    rw [rolesFrom]
    cases i with
    | zero =>
      split
      · next h => simp [h]
      · next h => simp [h, roleAfter]
    | succ i =>
      split
      · next h => simp [ih, roleAfter, h]
      · next h => simp [ih, roleAfter, h]

/-- The role of arguments in a place is set by the nearest option in front of it. -/
theorem roleAfter_take_iff (c : CommandLine) (hi : i ≤ args.length) :
    c.roleAfter .positional 0 (args.take i) ≠ .name ∧
      (∀ j, c.roleAfter .positional 0 (args.take i) = .value j ↔
        ∃ key, Nearest args j key i ∧ c.takes key = true) ∧
      (c.roleAfter .positional 0 (args.take i) = .positional ↔
        ∀ j key, Nearest args j key i → c.takes key = false) := by
  induction i with
  | zero =>
    refine ⟨nofun, fun j => iff_of_false nofun ?_, iff_of_true rfl ?_⟩
    · rintro ⟨key, hnearest, -⟩
      exact not_nearest_zero hnearest
    · exact fun j key hnearest => absurd hnearest not_nearest_zero
  | succ i ih =>
    obtain ⟨a, ha⟩ : ∃ a, args[i]? = some a := ⟨args[i], List.getElem?_eq_getElem hi⟩
    have hlength : (args.take i).length = i := List.length_take_of_le (by omega)
    rw [List.take_add_one, ha, Option.toList_some, roleAfter_append_singleton, hlength,
      Nat.zero_add]
    cases h : isOption a with
    | true =>
      simp only [if_true, nearest_succ_of_optionAt ha h, roleBehind_eq_value_iff,
        roleBehind_eq_positional_iff]
      refine ⟨c.roleBehind_ne_name a i, fun j => ?_, ?_⟩
      · constructor
        · rintro ⟨htakes, rfl⟩
          exact ⟨a, ⟨rfl, rfl⟩, htakes⟩
        · rintro ⟨key, ⟨rfl, rfl⟩, htakes⟩
          exact ⟨htakes, rfl⟩
      · constructor
        · rintro hflag j key ⟨-, rfl⟩
          exact hflag
        · exact fun hflags => hflags i a ⟨rfl, rfl⟩
    | false =>
      have hat : optionAt args i = false := by rw [optionAt, ha]; exact h
      simp only [Bool.false_eq_true, if_false, nearest_succ_of_not_optionAt hat]
      exact ih (by omega)

theorem getElem?_roles (c : CommandLine) (hi : i < args.length) :
    (c.roles args)[i]? =
      some (if optionAt args i then .name else c.roleAfter .positional 0 (args.take i)) := by
  rw [roles, getElem?_rolesFrom, optionAt, List.getElem?_eq_getElem hi]
  rfl

/-- An argument has another role than to be a name if it is no option. -/
theorem getElem?_roles_eq_iff (hi : i < args.length) (hrole : role ≠ .name) :
    (c.roles args)[i]? = some role ↔
      optionAt args i = false ∧ c.roleAfter .positional 0 (args.take i) = role := by
  rw [c.getElem?_roles hi, Option.some.injEq]
  cases optionAt args i with
  | true => simpa using hrole.symm
  | false => simp

end SshCert.CommandLine
