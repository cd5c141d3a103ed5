import SshCert.Bytes

/-
  Messages with `{}` placeholders.
  `format` replaces placeholders by arguments from the left: an argument is copied as it is,
  placeholders without an argument stay and arguments without a placeholder are dropped.
-/

namespace SshCert.Text

/-- The two characters that an argument replaces. -/
def placeholder : Bytes := ascii "{}"

/-- The message with its leading placeholders replaced by the arguments, in order. -/
def format (message : Bytes) : List Bytes → Bytes
  | [] => message
  | arg :: args =>
    match Bytes.splitAtFirst placeholder message with
    | none => message
    | some (before, after) => before ++ arg ++ format after args

/-- The text before the first placeholder and the pieces behind each placeholder, found from the
left without overlap. -/
def pieces : Bytes → Bytes × List Bytes
  | [] => ([], [])
  | [x] => ([x], [])
  | x :: y :: r =>
    if x = 0x7b ∧ y = 0x7d then ([], (pieces r).1 :: (pieces r).2)
    else (x :: (pieces (y :: r)).1, (pieces (y :: r)).2)

/-- A piece in front of each argument; placeholders again where the arguments have run out. -/
def interleave (first : Bytes) : (others args : List Bytes) → Bytes
  | [], _ => first
  | p :: ps, [] => first ++ placeholder ++ interleave p ps []
  | p :: ps, arg :: args => first ++ arg ++ interleave p ps args

end SshCert.Text
