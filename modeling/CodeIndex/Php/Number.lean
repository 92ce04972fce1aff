/-!
# Numbers as written

A floating-point number needs a fraction or an exponent, and nothing else: a point on its
own is one, and so is `e5`.  Whether such a text is a number or a name is decided where it
stands.  An integer is written in base ten, or after a zero in base eight, sixteen or two.
Bars separate groups of digits.
-/

namespace CodeIndex.Php

/-- The groups of digits in front, each after the first behind a bar. -/
def digitGroups (isDigit : Char → Bool) : List Char → List Char
  | '_' :: c :: rest => if isDigit c then '_' :: c :: digitGroups isDigit rest else []
  | c :: rest => if isDigit c then c :: digitGroups isDigit rest else []
  | [] => []

/-- Is `c` a digit in base two? -/
def isBinaryDigit (c : Char) : Bool := c == '0' || c == '1'

/-- Is `c` a digit in base eight? -/
def isOctalDigit (c : Char) : Bool := '0' ≤ c && c ≤ '7'

/-- Is `c` a digit in base sixteen? -/
def isHexDigit (c : Char) : Bool :=
  c.isDigit || ('a' ≤ c && c ≤ 'f') || ('A' ≤ c && c ≤ 'F')

/-- The exponent in front: a mark, perhaps a sign, and at least one digit. -/
def exponent (cs : List Char) : List Char :=
  match cs with
  | e :: rest =>
    if e = 'e' || e = 'E' then
      let sign := rest.take 1 |>.filter fun c => c = '+' || c = '-'
      let after := rest.drop sign.length
      if (after.head?.map Char.isDigit).getD false then
        e :: sign ++ digitGroups Char.isDigit after
      else []
    else []
  | [] => []

/-- The fraction in front: a point and perhaps digits. -/
def fraction (cs : List Char) : List Char :=
  match cs with
  | '.' :: rest => '.' :: digitGroups Char.isDigit rest
  | _ => []

/-- The floating-point number in front, or nothing. -/
def floatText (cs : List Char) : List Char :=
  let whole := digitGroups Char.isDigit cs
  let part := fraction (cs.drop whole.length)
  let power := exponent (cs.drop (whole.length + part.length))
  if part.isEmpty && power.isEmpty then [] else whole ++ part ++ power

/-- Is all of this a floating-point number? -/
def isFloat (cs : List Char) : Bool := !cs.isEmpty && (floatText cs).length == cs.length

/-- An integer in the base that a letter after the zero stands for, if it has digits there. -/
def prefixedText (base : Char) (rest : List Char) : Option (List Char) :=
  let digits (isDigit : Char → Bool) :=
    if (rest.head?.map isDigit).getD false then some ('0' :: base :: digitGroups isDigit rest)
    else none
  if base = 'x' || base = 'X' then digits isHexDigit
  else if base = 'b' || base = 'B' then digits isBinaryDigit
  else if base = 'o' || base = 'O' then some ('0' :: base :: digitGroups isOctalDigit rest)
  else none

/-- The integer in front. -/
def integerText (cs : List Char) : List Char :=
  match cs with
  | '0' :: base :: rest =>
    (prefixedText base rest).getD ('0' :: digitGroups isOctalDigit (base :: rest))
  | _ => digitGroups Char.isDigit cs

/-- The number in front, which starts with a digit. -/
def numberText (cs : List Char) : List Char :=
  let float := floatText cs
  if float.isEmpty then integerText cs else float

/-- The digits and the exponent that stand directly after a point; the point may join two
texts, and then an integer in another base may follow it. -/
def afterPointText (cs : List Char) : List Char :=
  let digits := digitGroups Char.isDigit cs
  let power := exponent (cs.drop digits.length)
  let integer := integerText cs
  if digits.length + power.length < integer.length then integer else digits ++ power

end CodeIndex.Php
