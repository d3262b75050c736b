import Posta.Js.Number

/-!
# JSON values and their text

**Values** (`Json`). Objects are lists of members in insertion order. An object read by
`JSON.parse` has distinct keys: a repeated key keeps its first place and its last value.

**Writing** (`stringify`). `JSON.stringify` of a value. Strings are written well formed: the
quote, the backslash, control characters and lone surrogates are escaped, every other code unit
stands for itself, U+2028 and U+2029 included.

**Reading** (`parse`). `JSON.parse`, `none` for a `SyntaxError`. The recursive descent carries a
bound on its depth that the length of the text always satisfies.
-/

namespace Js

/-- A JSON value. -/
inductive Json where
  | null
  | bool (b : Bool)
  | num (n : JsNumber)
  | str (s : JsString)
  | arr (elements : List Json)
  | obj (members : List (JsString × Json))

/-! ## Writing -/

/-- A leading (high) surrogate. -/
def isHighSurrogate (c : CodeUnit) : Bool := 0xD800 ≤ c.toNat && c.toNat ≤ 0xDBFF

/-- A trailing (low) surrogate. -/
def isLowSurrogate (c : CodeUnit) : Bool := 0xDC00 ≤ c.toNat && c.toNat ≤ 0xDFFF

/-- A lower-case hexadecimal digit. -/
def hexDigit (d : Nat) : CodeUnit := UInt16.ofNat (if d < 10 then 48 + d else 87 + d)

/-- `\uXXXX`. -/
def unicodeEscape (c : CodeUnit) : JsString :=
  [unit '\\', unit 'u', hexDigit (c.toNat / 4096), hexDigit (c.toNat / 256 % 16),
    hexDigit (c.toNat / 16 % 16), hexDigit (c.toNat % 16)]

/-- One code unit inside a string, outside of a surrogate pair. -/
def escapeUnit (c : CodeUnit) : JsString :=
  if c = unit '"' then [unit '\\', unit '"']
  else if c = unit '\\' then [unit '\\', unit '\\']
  else if c = 8 then [unit '\\', unit 'b']
  else if c = 12 then [unit '\\', unit 'f']
  else if c = 10 then [unit '\\', unit 'n']
  else if c = 13 then [unit '\\', unit 'r']
  else if c = 9 then [unit '\\', unit 't']
  else if c.toNat < 32 ∨ isHighSurrogate c ∨ isLowSurrogate c then unicodeEscape c
  else [c]

/-- The inside of a quoted string. A surrogate pair stands for itself. -/
def escape : JsString → JsString
  | [] => []
  | [c] => escapeUnit c
  | c :: d :: s =>
    if isHighSurrogate c ∧ isLowSurrogate d then c :: d :: escape s
    else escapeUnit c ++ escape (d :: s)

/-- `QuoteJSONString`. -/
def quote (s : JsString) : JsString := unit '"' :: (escape s ++ [unit '"'])

mutual
/-- `JSON.stringify`. -/
def stringify : Json → JsString
  | .null => lit "null"
  | .bool true => lit "true"
  | .bool false => lit "false"
  | .num n => n.text
  | .str s => quote s
  | .arr [] => lit "[]"
  | .arr (x :: xs) => unit '[' :: (stringify x ++ stringifyElements xs)
  | .obj [] => lit "{}"
  | .obj ((k, v) :: ms) =>
    unit '{' :: (quote k ++ unit ':' :: (stringify v ++ stringifyMembers ms))

/-- The elements after the first, and the closing bracket. -/
def stringifyElements : List Json → JsString
  | [] => [unit ']']
  | x :: xs => unit ',' :: (stringify x ++ stringifyElements xs)

/-- The members after the first, and the closing brace. -/
def stringifyMembers : List (JsString × Json) → JsString
  | [] => [unit '}']
  | (k, v) :: ms =>
    unit ',' :: (quote k ++ unit ':' :: (stringify v ++ stringifyMembers ms))
end

/-! ## Reading -/

/-- The whitespace of JSON. -/
def isSpace (c : CodeUnit) : Bool := c == 32 || c == 9 || c == 10 || c == 13

def skipSpace (s : JsString) : JsString := s.dropWhile isSpace

/-- The value of a hexadecimal digit of either case. -/
def hexValue (c : CodeUnit) : Option Nat :=
  let n := c.toNat
  if 48 ≤ n ∧ n ≤ 57 then some (n - 48)
  else if 97 ≤ n ∧ n ≤ 102 then some (n - 87)
  else if 65 ≤ n ∧ n ≤ 70 then some (n - 55)
  else none

/-- The code unit a one-letter escape stands for. -/
def unescape (c : CodeUnit) : Option CodeUnit :=
  if c = unit '"' ∨ c = unit '\\' ∨ c = unit '/' then some c
  else if c = unit 'b' then some 8
  else if c = unit 'f' then some 12
  else if c = unit 'n' then some 10
  else if c = unit 'r' then some 13
  else if c = unit 't' then some 9
  else none

/-- Where the reader stands inside a string literal: between two characters, behind a backslash,
or with `left + 1` hexadecimal digits still to come. -/
inductive StringMode where
  | plain
  | escaped
  | hex (left acc : Nat)

/-- The rest of a string literal. -/
def readString : StringMode → JsString → Option (JsString × JsString)
  | _, [] => none
  | .plain, c :: s =>
    if c = unit '"' then some ([], s)
    else if c = unit '\\' then readString .escaped s
    else if c.toNat < 32 then none
    else (readString .plain s).map fun p => (c :: p.1, p.2)
  | .escaped, c :: s =>
    if c = unit 'u' then readString (.hex 3 0) s
    else match unescape c with
      | some u => (readString .plain s).map fun p => (u :: p.1, p.2)
      | none => none
  | .hex left acc, c :: s =>
    match hexValue c, left with
    | some d, 0 => (readString .plain s).map fun p => (UInt16.ofNat (16 * acc + d) :: p.1, p.2)
    | some d, left + 1 => readString (.hex left (16 * acc + d)) s
    | none, _ => none

/-- The rest of a string literal, its opening quote read. -/
def parseString (s : JsString) : Option (JsString × JsString) := readString .plain s

theorem parseString_cons (c : CodeUnit) (s : JsString) : parseString (c :: s) =
    if c = unit '"' then some ([], s)
    else if c = unit '\\' then readString .escaped s
    else if c.toNat < 32 then none
    else (parseString s).map fun p => (c :: p.1, p.2) := rfl

theorem readString_escaped (c : CodeUnit) (s : JsString) : readString .escaped (c :: s) =
    if c = unit 'u' then readString (.hex 3 0) s
    else match unescape c with
      | some u => (parseString s).map fun p => (u :: p.1, p.2)
      | none => none := rfl

theorem readString_hex (left acc : Nat) (c : CodeUnit) (s : JsString) :
    readString (.hex left acc) (c :: s) = match hexValue c, left with
      | some d, 0 => (parseString s).map fun p => (UInt16.ofNat (16 * acc + d) :: p.1, p.2)
      | some d, left + 1 => readString (.hex left (16 * acc + d)) s
      | none, _ => none := rfl

/-- `expect t s`: what follows `t` at the start of `s`. -/
def expect (t s : JsString) : Option JsString :=
  if t <+: s then some (s.drop t.length) else none

/-- A member as `JSON.parse` adds it: a key seen before gets its new value in place. -/
def setMember {α : Type} (ms : List (JsString × α)) (k : JsString) (v : α) : List (JsString × α) :=
  if k ∈ ms.map Prod.fst then ms.map fun m => if m.1 = k then (k, v) else m
  else ms ++ [(k, v)]

/-- The object of a list of members, in reading order. -/
def objectOf (ms : List (JsString × Json)) : List (JsString × Json) :=
  ms.foldl (fun acc m => setMember acc m.1 m.2) []

mutual
/-- A value, whitespace before it skipped. -/
def parseValue : Nat → JsString → Option (Json × JsString)
  | 0, _ => none
  | fuel + 1, s =>
    match skipSpace s with
    | [] => none
    | c :: s =>
      if c = unit '"' then (parseString s).map fun p => (.str p.1, p.2)
      else if c = unit '[' then
        match skipSpace s with
        | d :: r =>
          if d = unit ']' then some (.arr [], r)
          else (parseElements fuel (d :: r)).map fun p => (.arr p.1, p.2)
        | [] => none
      else if c = unit '{' then
        match skipSpace s with
        | d :: r =>
          if d = unit '}' then some (.obj [], r)
          else (parseMembers fuel (d :: r)).map fun p => (.obj (objectOf p.1), p.2)
        | [] => none
      else if c = unit 'n' then (expect (lit "ull") s).map fun r => (.null, r)
      else if c = unit 't' then (expect (lit "rue") s).map fun r => (.bool true, r)
      else if c = unit 'f' then (expect (lit "alse") s).map fun r => (.bool false, r)
      else (parseNumber (c :: s)).map fun p => (.num p.1, p.2)

/-- One element, then the closing bracket or a comma and the others. -/
def parseElements : Nat → JsString → Option (List Json × JsString)
  | 0, _ => none
  | fuel + 1, s => do
    let (x, s) ← parseValue fuel s
    match skipSpace s with
    | c :: s =>
      if c = unit ']' then some ([x], s)
      else if c = unit ',' then do
        let (xs, s) ← parseElements fuel s
        some (x :: xs, s)
      else none
    | [] => none

/-- One member, then the closing brace or a comma and the others. -/
def parseMembers : Nat → JsString → Option (List (JsString × Json) × JsString)
  | 0, _ => none
  | fuel + 1, s => do
    let s ← expect [unit '"'] (skipSpace s)
    let (k, s) ← parseString s
    let s ← expect [unit ':'] (skipSpace s)
    let (v, s) ← parseValue fuel s
    match skipSpace s with
    | c :: s =>
      if c = unit '}' then some ([(k, v)], s)
      else if c = unit ',' then do
        let (ms, s) ← parseMembers fuel s
        some ((k, v) :: ms, s)
      else none
    | [] => none
end

/-- `JSON.parse`, `none` for a `SyntaxError`. -/
def parse (s : JsString) : Option Json := do
  let (v, r) ← parseValue (2 * s.length + 1) s
  if skipSpace r = [] then some v else none

end Js
