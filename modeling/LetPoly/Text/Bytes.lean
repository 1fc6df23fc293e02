namespace LetPoly.Text

/-- The character whose bytes start with `b`, and how many of those that follow belong to it. Its
    bytes may not be more than it takes. -/
def firstChar? (b : Nat) (bs : List Nat) : Option (Char × Nat) :=
  let build (more start least : Nat) : Option (Char × Nat) :=
    let tail := bs.take more
    let value := tail.foldl (fun n b => n * 64 + b % 64) start
    if tail.length = more && tail.all (fun b => 0x80 ≤ b && b < 0xc0) && least ≤ value &&
        value.isValidChar then
      some (Char.ofNat value, more)
    else none
  if b < 0x80 then some (Char.ofNat b, 0)
  else if b < 0xc0 then none
  else if b < 0xe0 then build 1 (b % 32) 0x80
  else if b < 0xf0 then build 2 (b % 16) 0x800
  else if b < 0xf8 then build 3 (b % 8) 0x10000
  else none

def ofBytes : List Nat → List Char
  | [] => []
  | b :: bs =>
    match firstChar? b bs with
    | some (c, more) => c :: ofBytes (bs.drop more)
    | none => '\ufffd' :: ofBytes bs
termination_by bs => bs.length
decreasing_by all_goals simp only [List.length_cons, List.length_drop]; omega

end LetPoly.Text
