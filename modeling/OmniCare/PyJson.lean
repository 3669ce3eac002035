import OmniCare.PyNumbers

/-! # JSON values, as Python holds them

The arguments of a tool call, a tool's result and a structured reply are JSON: a
Python value built of `None`, `bool`, `int`, `float`, `str`, `list` and `dict`.
This module has the value type with the operations the program uses on it: `bool`,
`str`, `repr`, `dict.get`, `json.dumps` and `json.loads`.

`loads` reads what Python's scanner reads: the number tokens `NaN`, `Infinity` and
`-Infinity` too, the last of several equal keys, and no integer of more than 4300
digits.  All its failures are one (`ValueError`, which every caller catches).  Two
things are not modelled: a lone surrogate escape, which Lean's characters cannot
hold and which becomes the replacement character, and the interpreter's limit on
nesting.
-/
namespace OmniCare

/-- A JSON value. -/
inductive Json
  | null
  | bool (b : Bool)
  | int (n : Int)
  | float (x : PyFloat)
  | str (s : Text)
  | arr (items : List Json)
  /-- A `dict`, in insertion order. -/
  | obj (fields : List (Text × Json))
  deriving Repr

/-- A Python `dict` with text keys, in insertion order. -/
abbrev Dict := List (Text × Json)

namespace Dict

/-- `d.get(key)`. -/
def get? (d : Dict) (key : Text) : Option Json := d.lookup key

/-- `key in d`. -/
def has (d : Dict) (key : Text) : Bool := (d.get? key).isSome

/-- `d[key] = value`: an existing key keeps its place. -/
def set (d : Dict) (key : Text) (value : Json) : Dict :=
  if d.has key then d.map fun (k, v) => if k == key then (k, value) else (k, v)
  else d ++ [(key, value)]

end Dict

namespace Json

/-! ## Equality -/

mutual
/-- Structural equality of values. -/
def beq : Json → Json → Bool
  | .null, .null => true
  | .bool a, .bool b => a == b
  | .int a, .int b => a == b
  | .float a, .float b => a == b
  | .str a, .str b => a == b
  | .arr as, .arr bs => beqItems as bs
  | .obj as, .obj bs => beqFields as bs
  | _, _ => false

/-- Structural equality of lists of values. -/
def beqItems : List Json → List Json → Bool
  | [], [] => true
  | a :: as, b :: bs => beq a b && beqItems as bs
  | _, _ => false

/-- Structural equality of lists of fields. -/
def beqFields : List (Text × Json) → List (Text × Json) → Bool
  | [], [] => true
  | (k, a) :: as, (l, b) :: bs => k == l && beq a b && beqFields as bs
  | _, _ => false
end

mutual
theorem eq_of_beq : ∀ {a b : Json}, beq a b = true → a = b
  | .null, b, h => by cases b <;> simp_all [beq]
  | .bool _, b, h => by cases b <;> simp_all [beq]
  | .int _, b, h => by cases b <;> simp_all [beq]
  | .float _, b, h => by cases b <;> simp_all [beq]
  | .str _, b, h => by cases b <;> simp_all [beq]
  | .arr as, b, h => by
      cases b with
      | arr bs =>
        rw [beq] at h
        rw [eq_of_beqItems h]
      | _ => simp [beq] at h
  | .obj as, b, h => by
      cases b with
      | obj bs =>
        rw [beq] at h
        rw [eq_of_beqFields h]
      | _ => simp [beq] at h

theorem eq_of_beqItems : ∀ {as bs : List Json}, beqItems as bs = true → as = bs
  | [], bs, h => by cases bs <;> simp_all [beqItems]
  | a :: as, bs, h => by
      cases bs with
      | nil => simp [beqItems] at h
      | cons b bs =>
        simp only [beqItems, Bool.and_eq_true] at h
        rw [eq_of_beq h.1, eq_of_beqItems h.2]

theorem eq_of_beqFields : ∀ {as bs : List (Text × Json)}, beqFields as bs = true → as = bs
  | [], bs, h => by cases bs <;> simp_all [beqFields]
  | (k, a) :: as, bs, h => by
      cases bs with
      | nil => simp [beqFields] at h
      | cons b bs =>
        simp only [beqFields, Bool.and_eq_true, beq_iff_eq] at h
        rw [eq_of_beqFields h.2, ← Prod.mk.eta (p := b), ← h.1.1, eq_of_beq h.1.2]
end

mutual
theorem beq_refl : ∀ a : Json, beq a a = true
  | .null => rfl
  | .bool _ => by simp [beq]
  | .int _ => by simp [beq]
  | .float _ => by simp [beq]
  | .str _ => by simp [beq]
  | .arr as => by rw [beq]; exact beqItems_refl as
  | .obj as => by rw [beq]; exact beqFields_refl as

theorem beqItems_refl : ∀ as : List Json, beqItems as as = true
  | [] => rfl
  | a :: as => by rw [beqItems, beq_refl a, beqItems_refl as]; rfl

theorem beqFields_refl : ∀ as : List (Text × Json), beqFields as as = true
  | [] => rfl
  | (k, a) :: as => by rw [beqFields, beq_refl a, beqFields_refl as]; simp
end

instance : DecidableEq Json := fun a b =>
  decidable_of_iff (beq a b = true) ⟨eq_of_beq, fun h => h ▸ beq_refl a⟩

/-! ## `bool` and `str` -/

/-- `bool(v)`. -/
def truthy : Json → Bool
  | .null => false
  | .bool b => b
  | .int n => n != 0
  | .float x => x.truthy
  | .str s => !s.isEmpty
  | .arr items => !items.isEmpty
  | .obj fields => !fields.isEmpty

/-- A hexadecimal digit. -/
def hexDigit (n : Nat) : Char := (Nat.toDigits 16 n).headD '0'

/-- `n` in hexadecimal, padded to `width` digits. -/
def hex (width n : Nat) : Text :=
  let digits := Nat.toDigits 16 n
  List.replicate (width - digits.length) '0' ++ digits

/-- Whether `repr` prints a character as it is. -/
def isPrintable (c : Char) : Bool :=
  if c.toNat < 128 then 32 ≤ c.toNat && c.toNat < 127
  else 0xA1 ≤ c.toNat && c.toNat != 0xAD && !isSpace c

/-- One character of `repr` of a text quoted with `quote`. -/
def reprChar (quote c : Char) : Text :=
  if c == quote || c == '\\' then ['\\', c]
  else if c == '\n' then "\\n"
  else if c == '\r' then "\\r"
  else if c == '\t' then "\\t"
  else if isPrintable c then [c]
  else if c.toNat < 0x100 then "\\x".toList ++ hex 2 c.toNat
  else if c.toNat < 0x10000 then "\\u".toList ++ hex 4 c.toNat
  else "\\U".toList ++ hex 8 c.toNat

/-- `repr(s)` of a text: quoted with `'`, or with `"` when it has a `'` and no `"`. -/
def reprText (s : Text) : Text :=
  let quote := if s.elem '\'' && !s.elem '"' then '"' else '\''
  quote :: s.flatMap (reprChar quote) ++ [quote]

mutual
/-- `repr(v)`. -/
def repr : Json → Text
  | .null => "None"
  | .bool b => if b then "True" else "False"
  | .int n => Text.ofInt n
  | .float x => x.repr
  | .str s => reprText s
  | .arr items => '[' :: reprItems items ++ [']']
  | .obj fields => '{' :: reprFields fields ++ ['}']

/-- The items of `repr` of a list, with `, ` between them. -/
def reprItems : List Json → Text
  | [] => []
  | [v] => repr v
  | v :: vs => repr v ++ ", ".toList ++ reprItems vs

/-- The fields of `repr` of a `dict`, with `, ` between them. -/
def reprFields : List (Text × Json) → Text
  | [] => []
  | [(k, v)] => reprText k ++ ": ".toList ++ repr v
  | (k, v) :: fs => reprText k ++ ": ".toList ++ repr v ++ ", ".toList ++ reprFields fs
end

/-- `str(v)`: a text is itself. -/
def toStr : Json → Text
  | .str s => s
  | v => repr v

/-! ## `json.dumps` -/

/-- One character of a JSON string, with `ensure_ascii`. -/
def dumpsChar (c : Char) : Text :=
  if c == '"' || c == '\\' then ['\\', c]
  else if c == '\n' then "\\n"
  else if c == '\r' then "\\r"
  else if c == '\t' then "\\t"
  else if c.toNat == 8 then "\\b"
  else if c.toNat == 12 then "\\f"
  else if 32 ≤ c.toNat && c.toNat < 127 then [c]
  else if c.toNat < 0x10000 then "\\u".toList ++ hex 4 c.toNat
  else
    let n := c.toNat - 0x10000
    "\\u".toList ++ hex 4 (0xD800 + n / 0x400) ++ "\\u".toList ++ hex 4 (0xDC00 + n % 0x400)

/-- A JSON string. -/
def dumpsText (s : Text) : Text := '"' :: s.flatMap dumpsChar ++ ['"']

mutual
/-- `json.dumps(v)`. -/
def dumps : Json → Text
  | .null => "null"
  | .bool b => if b then "true" else "false"
  | .int n => Text.ofInt n
  | .float .nan => "NaN"
  | .float (.inf negative) => if negative then "-Infinity" else "Infinity"
  | .float x => x.repr
  | .str s => dumpsText s
  | .arr items => '[' :: dumpsItems items ++ [']']
  | .obj fields => '{' :: dumpsFields fields ++ ['}']

/-- The items of a JSON array. -/
def dumpsItems : List Json → Text
  | [] => []
  | [v] => dumps v
  | v :: vs => dumps v ++ ", ".toList ++ dumpsItems vs

/-- The members of a JSON object. -/
def dumpsFields : List (Text × Json) → Text
  | [] => []
  | [(k, v)] => dumpsText k ++ ": ".toList ++ dumps v
  | (k, v) :: fs => dumpsText k ++ ": ".toList ++ dumps v ++ ", ".toList ++ dumpsFields fs
end

/-! ## `json.loads` -/

/-- JSON white space. -/
def isWs (c : Char) : Bool := c == ' ' || c == '\t' || c == '\n' || c == '\r'

/-- What follows the white space a text starts with. -/
def skipWs (s : Text) : Text := s.dropWhile isWs

/-- The value of a hexadecimal digit. -/
def hexValue (c : Char) : Option Nat :=
  if c.isDigit then some (c.toNat - 48)
  else if 'a' ≤ c ∧ c ≤ 'f' then some (c.toNat - 87)
  else if 'A' ≤ c ∧ c ≤ 'F' then some (c.toNat - 55)
  else none

/-- The value of four hexadecimal digits. -/
def hex4 (a b c d : Char) : Option Nat := do
  let a ← hexValue a
  let b ← hexValue b
  let c ← hexValue c
  let d ← hexValue d
  pure (a * 4096 + b * 256 + c * 16 + d)

/-- The rest of a JSON string after its opening quote, as code points and escaped
code units, and what follows the closing quote. -/
def readUnits : Text → Option (List Nat × Text)
  | [] => none
  | '"' :: s => some ([], s)
  | '\\' :: 'u' :: a :: b :: c :: d :: s =>
      match hex4 a b c d, readUnits s with
      | some n, some (units, r) => some (n :: units, r)
      | _, _ => none
  | '\\' :: c :: s =>
      let plain := match c with
        | '"' | '\\' | '/' => some c.toNat
        | 'b' => some 8
        | 'f' => some 12
        | 'n' => some 10
        | 'r' => some 13
        | 't' => some 9
        | _ => none
      match plain, readUnits s with
      | some n, some (units, r) => some (n :: units, r)
      | _, _ => none
  | c :: s =>
      if c.toNat < 32 then none
      else (readUnits s).map fun (units, r) => (c.toNat :: units, r)

/-- The text of a list of code units: a surrogate pair is one character, a lone
surrogate the replacement character.  `high` is a high surrogate still without its
partner. -/
def joinUnits : Option Nat → List Nat → Text
  | none, [] => []
  | some _, [] => [Char.ofNat 0xFFFD]
  | none, n :: units =>
      if 0xD800 ≤ n ∧ n < 0xDC00 then joinUnits (some n) units
      else if 0xDC00 ≤ n ∧ n < 0xE000 then Char.ofNat 0xFFFD :: joinUnits none units
      else Char.ofNat n :: joinUnits none units
  | some high, n :: units =>
      if 0xDC00 ≤ n ∧ n < 0xE000 then
        Char.ofNat (0x10000 + (high - 0xD800) * 0x400 + (n - 0xDC00)) :: joinUnits none units
      else if 0xD800 ≤ n ∧ n < 0xDC00 then Char.ofNat 0xFFFD :: joinUnits (some n) units
      else Char.ofNat 0xFFFD :: Char.ofNat n :: joinUnits none units

/-- The rest of a JSON string after its opening quote: its text and what follows the
closing quote. -/
def readString (s : Text) : Option (Text × Text) :=
  (readUnits s).map fun (units, r) => (joinUnits none units, r)

/-- The ASCII digits a text starts with, and what follows. -/
def readDigits (s : Text) : Text × Text := s.span Char.isDigit

/-- The optional exponent of a number. -/
def readExponent : Text → Option Int × Text
  | c :: s =>
      if c.toLower = 'e' then
        let (negative, r) := readSign s
        match readDigits r with
        | ([], _) => (none, c :: s)
        | (ds, r) => (some (if negative then -(Text.toNat ds : Int) else Text.toNat ds), r)
      else (none, c :: s)
  | [] => (none, [])

/-- The number a text starts with: an `int` without a fraction or an exponent. -/
def readNumber (s : Text) : Option (Json × Text) :=
  let (negative, body) := match s with
    | '-' :: r => (true, r)
    | r => (false, r)
  let whole := match body with
    | '0' :: r => (['0'], r)
    | r => readDigits r
  match whole with
  | ([], _) => none
  | (ds, r) =>
      let fraction := match r with
        | '.' :: r' => if (readDigits r').1.isEmpty then ([], r) else readDigits r'
        | r => ([], r)
      let (power, r') := readExponent fraction.2
      if fraction.1.isEmpty ∧ power.isNone then
        if 4300 < ds.length then none
        else some (.int (if negative then -(Text.toNat ds : Int) else Text.toNat ds), r')
      else
        some (.float (.ofDecimal negative (Text.toNat (ds ++ fraction.1))
          (power.getD 0 - fraction.1.length)), r')

/-- The rest of an array after its first `[` and white space, given the reader of its
items. -/
def readItems (value : Text → Option (Json × Text)) : Nat → List Json → Text →
    Option (Json × Text)
  | 0, _, _ => none
  | fuel + 1, acc, s => do
      let (v, r) ← value s
      match skipWs r with
      | ',' :: r => readItems value fuel (acc ++ [v]) (skipWs r)
      | ']' :: r => some (.arr (acc ++ [v]), r)
      | _ => none

/-- The rest of an object after its first `{` and white space, given the reader of its
values. -/
def readMembers (value : Text → Option (Json × Text)) : Nat → Dict → Text →
    Option (Json × Text)
  | 0, _, _ => none
  | fuel + 1, acc, s => do
      let '"' :: s := s | none
      let (k, r) ← readString s
      let ':' :: r := skipWs r | none
      let (v, r) ← value (skipWs r)
      match skipWs r with
      | ',' :: r => readMembers value fuel (acc.set k v) (skipWs r)
      | '}' :: r => some (.obj (acc.set k v), r)
      | _ => none

/-- The value a text starts with, and what follows it. -/
def readValue : Nat → Text → Option (Json × Text)
  | 0, _ => none
  | fuel + 1, s =>
      match s with
      | '"' :: r => (readString r).map fun (t, r) => (.str t, r)
      | '{' :: r =>
          match skipWs r with
          | '}' :: r => some (.obj [], r)
          | r => readMembers (fun s => readValue fuel s) (fuel + 1) [] r
      | '[' :: r =>
          match skipWs r with
          | ']' :: r => some (.arr [], r)
          | r => readItems (fun s => readValue fuel s) (fuel + 1) [] r
      | s =>
          match Text.dropPrefix? "null" s, Text.dropPrefix? "true" s,
            Text.dropPrefix? "false" s with
          | some r, _, _ => some (.null, r)
          | _, some r, _ => some (.bool true, r)
          | _, _, some r => some (.bool false, r)
          | none, none, none =>
              match Text.dropPrefix? "NaN" s, Text.dropPrefix? "Infinity" s,
                Text.dropPrefix? "-Infinity" s with
              | some r, _, _ => some (.float .nan, r)
              | _, some r, _ => some (.float (.inf false), r)
              | _, _, some r => some (.float (.inf true), r)
              | none, none, none => readNumber s

/-- `json.loads(s)`; `none` is `ValueError`. -/
def loads (s : Text) : Option Json := do
  let (v, r) ← readValue (s.length + 1) (skipWs s)
  if (skipWs r).isEmpty then some v else none

end Json
end OmniCare
