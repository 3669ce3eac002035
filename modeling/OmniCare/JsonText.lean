import OmniCare.PyJson

/-! # What `json.dumps` writes, `json.loads` reads

`json.dumps(v, indent=2)`, and the round trip: **reading a written value gives the value back**
(`loads_indented`), for every value whose numbers are read back by themselves and whose objects
have each key once.  A text is written in ASCII, with a surrogate pair for a character beyond
the basic plane, and is read back for every list of characters.
-/
namespace OmniCare

namespace Json

/-! ## Writing -/

/-- A line break with an indentation of two spaces a level. -/
def newline (level : Nat) : Text := '\n' :: List.replicate (2 * level) ' '

mutual
/-- `json.dumps(v, indent=2)`, inside `level` brackets. -/
def indented (level : Nat) : Json → Text
  | .arr [] => "[]"
  | .arr (v :: vs) =>
      '[' :: newline (level + 1) ++ indentedItems (level + 1) (v :: vs) ++ newline level ++ [']']
  | .obj [] => ['{', '}']
  | .obj (f :: fs) =>
      '{' :: newline (level + 1) ++ indentedFields (level + 1) (f :: fs) ++ newline level ++ ['}']
  | v => dumps v

/-- The items of an array, one a line. -/
def indentedItems (level : Nat) : List Json → Text
  | [] => []
  | [v] => indented level v
  | v :: vs => indented level v ++ ',' :: newline level ++ indentedItems level vs

/-- The members of an object, one a line. -/
def indentedFields (level : Nat) : List (Text × Json) → Text
  | [] => []
  | [(k, v)] => dumpsText k ++ ": ".toList ++ indented level v
  | (k, v) :: fs =>
      dumpsText k ++ ": ".toList ++ indented level v ++ ',' :: newline level ++
        indentedFields level fs
end

/-! ## Strings -/

theorem hexValue_digitChar : ∀ n < 16, hexValue (Nat.digitChar n) = some n := by decide

/-- Four hexadecimal digits are read back. -/
theorem hex4_hex {n : Nat} (h : n < 0x10000) :
    ∃ a b c d, hex 4 n = [a, b, c, d] ∧ hex4 a b c d = some n := by
  refine ⟨Nat.digitChar (n / 4096), Nat.digitChar (n / 256 % 16), Nat.digitChar (n / 16 % 16),
    Nat.digitChar (n % 16), ?_, ?_⟩
  · have hlast : ∀ m, 16 ≤ m →
        Nat.toDigits 16 m = Nat.toDigits 16 (m / 16) ++ [Nat.digitChar (m % 16)] := by
      intro m hm
      rw [Nat.toDigits_of_base_le (by omega) hm]
    have hzero : Nat.digitChar 0 = '0' := rfl
    rw [hex]
    rcases Nat.lt_or_ge n 16 with h₁ | h₁
    · rw [Nat.toDigits_of_lt_base h₁, show n / 4096 = 0 by omega, show n / 256 % 16 = 0 by omega,
        show n / 16 % 16 = 0 by omega, Nat.mod_eq_of_lt h₁, hzero]
      rfl
    rw [hlast n h₁]
    rcases Nat.lt_or_ge (n / 16) 16 with h₂ | h₂
    · rw [Nat.toDigits_of_lt_base h₂, show n / 4096 = 0 by omega, show n / 256 % 16 = 0 by omega,
        Nat.mod_eq_of_lt h₂, hzero]
      rfl
    rw [hlast _ h₂, Nat.div_div_eq_div_mul]
    rcases Nat.lt_or_ge (n / 256) 16 with h₃ | h₃
    · rw [Nat.toDigits_of_lt_base h₃, show n / 4096 = 0 by omega, Nat.mod_eq_of_lt h₃, hzero]
      rfl
    rw [hlast _ h₃, Nat.div_div_eq_div_mul, Nat.toDigits_of_lt_base (by omega)]
    rfl
  · rw [hex4, hexValue_digitChar _ (by omega), hexValue_digitChar _ (by omega),
      hexValue_digitChar _ (by omega), hexValue_digitChar _ (by omega)]
    show some _ = some n
    congr 1
    omega

/-- The code units of a character. -/
def codeUnits (c : Char) : List Nat :=
  if c.toNat < 0x10000 then [c.toNat]
  else [0xD800 + (c.toNat - 0x10000) / 0x400, 0xDC00 + (c.toNat - 0x10000) % 0x400]

/-- An escaped code unit is read as it is. -/
theorem readUnits_hex {n : Nat} (h : n < 0x10000) (s : Text) :
    readUnits ("\\u".toList ++ hex 4 n ++ s) =
      (readUnits s).map fun (units, r) => (n :: units, r) := by
  obtain ⟨a, b, c, d, hhex, hread⟩ := hex4_hex h
  rw [hhex]
  show readUnits ('\\' :: 'u' :: a :: b :: c :: d :: s) = _
  rw [readUnits, hread]
  cases readUnits s <;> rfl

/-- **A written character is read as its code units.** -/
theorem readUnits_dumpsChar (c : Char) (s : Text) :
    readUnits (dumpsChar c ++ s) =
      (readUnits s).map fun (units, r) => (codeUnits c ++ units, r) := by
  have escaped : ∀ {e : Char} {n : Nat}, codeUnits c = [n] →
      (readUnits ('\\' :: e :: s) = (readUnits s).map fun (units, r) => (n :: units, r)) →
      readUnits (['\\', e] ++ s) =
        (readUnits s).map fun (units, r) => (codeUnits c ++ units, r) := by
    intro e n hunits hread
    rw [hunits]
    exact hread
  unfold dumpsChar
  split
  · rename_i hquote
    rcases Bool.or_eq_true_iff.mp hquote with hc | hc <;> obtain rfl := beq_iff_eq.mp hc
    · exact escaped (e := '"') rfl (by simp only [readUnits]; cases readUnits s <;> rfl)
    · exact escaped (e := '\\') rfl (by simp only [readUnits]; cases readUnits s <;> rfl)
  split
  · rename_i hc
    obtain rfl := beq_iff_eq.mp hc
    exact escaped (e := 'n') rfl (by simp only [readUnits]; cases readUnits s <;> rfl)
  split
  · rename_i hc
    obtain rfl := beq_iff_eq.mp hc
    exact escaped (e := 'r') rfl (by simp only [readUnits]; cases readUnits s <;> rfl)
  split
  · rename_i hc
    obtain rfl := beq_iff_eq.mp hc
    exact escaped (e := 't') rfl (by simp only [readUnits]; cases readUnits s <;> rfl)
  split
  · rename_i hc
    have hunits : codeUnits c = [8] := by
      rw [codeUnits, beq_iff_eq.mp hc]
      rfl
    exact escaped (e := 'b') hunits (by simp only [readUnits]; cases readUnits s <;> rfl)
  split
  · rename_i hc
    have hunits : codeUnits c = [12] := by
      rw [codeUnits, beq_iff_eq.mp hc]
      rfl
    exact escaped (e := 'f') hunits (by simp only [readUnits]; cases readUnits s <;> rfl)
  split
  · -- a character that stands for itself
    rename_i hnotQuote _ _ _ _ _ hplain
    have hlow : 32 ≤ c.toNat ∧ c.toNat < 127 := by simpa using hplain
    have hunits : codeUnits c = [c.toNat] := if_pos (by omega)
    have hne : c ≠ '"' ∧ c ≠ '\\' := by simpa using hnotQuote
    rw [hunits, List.singleton_append, readUnits.eq_def]
    split
    · rename_i heq
      cases heq
    · rename_i heq
      exact absurd (List.cons.inj heq).1 hne.1
    · rename_i heq
      exact absurd (List.cons.inj heq).1 hne.2
    · rename_i heq
      exact absurd (List.cons.inj heq).1 hne.2
    · rename_i heq
      obtain ⟨rfl, rfl⟩ := List.cons.inj heq
      rw [if_neg (by omega)]
      rfl
  split
  · rename_i hlow
    rw [codeUnits, if_pos hlow]
    exact readUnits_hex hlow s
  · rename_i hlow
    have hc : c.toNat < 0x110000 := by
      rcases c.valid with hc | hc
      · exact Nat.lt_trans hc (by decide)
      · exact hc.2
    dsimp only
    rw [codeUnits, if_neg hlow, List.append_assoc, List.append_assoc, ← List.append_assoc _ _ s,
      readUnits_hex (by omega), readUnits_hex (by omega)]
    cases readUnits s <;> rfl

theorem joinUnits_codeUnits (c : Char) (units : List Nat) :
    joinUnits none (codeUnits c ++ units) = c :: joinUnits none units := by
  have hvalid := c.valid
  have hofNat : Char.ofNat c.toNat = c := Char.ofNat_toNat c
  unfold codeUnits
  split
  · have hbasic : ¬ (0xD800 ≤ c.toNat ∧ c.toNat < 0xDC00) ∧
        ¬ (0xDC00 ≤ c.toNat ∧ c.toNat < 0xE000) := by
      have : c.toNat < 0xD800 ∨ 0xDFFF < c.toNat := by
        rcases hvalid with hc | hc
        · exact .inl hc
        · exact .inr hc.1
      omega
    rw [List.singleton_append, joinUnits, if_neg hbasic.1, if_neg hbasic.2, hofNat]
  · rename_i hlow
    have hc : c.toNat < 0x110000 := by
      rcases hvalid with hc | hc
      · exact Nat.lt_trans hc (by decide)
      · exact hc.2
    have hpair : 0x10000 + (0xD800 + (c.toNat - 0x10000) / 0x400 - 0xD800) * 0x400 +
        (0xDC00 + (c.toNat - 0x10000) % 0x400 - 0xDC00) = c.toNat := by omega
    rw [List.cons_append, List.singleton_append, joinUnits, if_pos (by omega), joinUnits,
      if_pos (by omega), hpair, hofNat]

/-- **A written text is read back.** -/
theorem readString_dumps (s r : Text) :
    readString (s.flatMap dumpsChar ++ '"' :: r) = some (s, r) := by
  have hjoin : joinUnits none (s.flatMap codeUnits) = s := by
    induction s with
    | nil => rfl
    | cons c s ih => rw [List.flatMap_cons, joinUnits_codeUnits, ih]
  have hunits : readUnits (s.flatMap dumpsChar ++ '"' :: r) = some (s.flatMap codeUnits, r) := by
    clear hjoin
    induction s with
    | nil => simp [readUnits]
    | cons c s ih =>
      rw [List.flatMap_cons, List.append_assoc, readUnits_dumpsChar, ih]
      rfl
  rw [readString, hunits, Option.map_some]
  exact congrArg (fun t => some (t, r)) hjoin

/-! ## Values -/

/-- What can stand after a written value. -/
def Ends (r : Text) : Prop := ∀ c ∈ r.head?, c = ',' ∨ c = '\n'

/-- A text that begins neither with white space nor with a closing bracket. -/
def Begins (s : Text) : Prop := ∃ c r, s = c :: r ∧ isWs c = false ∧ c ≠ ']'

/-- A number that is read back by itself. -/
structure ReadsBack (v : Json) : Prop where
  read : ∀ fuel {r : Text}, Ends r → readValue (fuel + 1) (dumps v ++ r) = some (v, r)
  begins : Begins (dumps v)

mutual
/-- Every number in a value is read back, and every object has its keys once. -/
def Readable : Json → Prop
  | .int n => ReadsBack (.int n)
  | .float x => ReadsBack (.float x)
  | .arr vs => ReadableItems vs
  | .obj fs => (fs.map Prod.fst).Nodup ∧ ReadableFields fs
  | _ => True

/-- `Readable` of every item. -/
def ReadableItems : List Json → Prop
  | [] => True
  | v :: vs => Readable v ∧ ReadableItems vs

/-- `Readable` of every member. -/
def ReadableFields : List (Text × Json) → Prop
  | [] => True
  | (_, v) :: fs => Readable v ∧ ReadableFields fs
end

theorem skipWs_newline (level : Nat) (s : Text) : skipWs (newline level ++ s) = skipWs s := by
  have hspaces : ∀ n, skipWs (List.replicate n ' ' ++ s) = skipWs s := by
    intro n
    induction n with
    | zero => rfl
    | succ n ih =>
      rw [List.replicate_succ, List.cons_append, skipWs, List.dropWhile_cons_of_pos rfl]
      exact ih
  rw [newline, List.cons_append, skipWs, List.dropWhile_cons_of_pos rfl]
  exact hspaces _

theorem skipWs_of_begins {s : Text} (h : Begins s) (r : Text) : skipWs (s ++ r) = s ++ r := by
  obtain ⟨c, t, rfl, hws, -⟩ := h
  rw [List.cons_append, skipWs, List.dropWhile_cons_of_neg (by rw [hws]; decide)]

theorem skipWs_cons {c : Char} (h : isWs c = false) (r : Text) : skipWs (c :: r) = c :: r :=
  List.dropWhile_cons_of_neg (by rw [h]; decide)

theorem begins_indented {v : Json} (h : Readable v) (level : Nat) :
    Begins (indented level v) := by
  cases v with
  | null => exact ⟨'n', _, rfl, rfl, by decide⟩
  | bool b =>
    cases b with
    | true => exact ⟨'t', _, rfl, rfl, by decide⟩
    | false => exact ⟨'f', _, rfl, rfl, by decide⟩
  | int n => exact h.begins
  | float x => exact h.begins
  | str s => exact ⟨'"', _, rfl, rfl, by decide⟩
  | arr vs =>
    cases vs with
    | nil => exact ⟨'[', _, rfl, rfl, by decide⟩
    | cons v vs => exact ⟨'[', _, rfl, rfl, by decide⟩
  | obj fs =>
    cases fs with
    | nil => exact ⟨'{', _, rfl, rfl, by decide⟩
    | cons f fs => exact ⟨'{', _, rfl, rfl, by decide⟩

theorem length_le_indentedItems (level : Nat) (vs : List Json) :
    vs.length ≤ (indentedItems level vs).length + 1 := by
  induction vs with
  | nil => exact Nat.zero_le _
  | cons v vs ih =>
    cases vs with
    | nil => exact Nat.le_add_left ..
    | cons w vs =>
      rw [indentedItems.eq_3 _ _ _ (by simp), List.length_append, List.length_append]
      simp only [List.length_cons] at ih ⊢
      omega

theorem length_le_indentedFields (level : Nat) (fs : List (Text × Json)) :
    fs.length ≤ (indentedFields level fs).length + 1 := by
  induction fs with
  | nil => exact Nat.zero_le _
  | cons f fs ih =>
    cases fs with
    | nil => exact Nat.le_add_left ..
    | cons g fs =>
      rw [indentedFields.eq_3 _ _ _ _ (by simp), List.length_append, List.length_append]
      simp only [List.length_cons] at ih ⊢
      omega

theorem set_of_fresh {d : Dict} {k : Text} (h : k ∉ d.map Prod.fst) (v : Json) :
    d.set k v = d ++ [(k, v)] := by
  have hhas : d.has k = false := by
    rw [Dict.has, Dict.get?, Option.isSome_eq_false_iff, Option.isNone_iff_eq_none,
      List.lookup_eq_none_iff]
    intro f hf
    exact bne_iff_ne.mpr fun heq => h (heq ▸ List.mem_map_of_mem hf)
  rw [Dict.set, hhas, if_neg (by decide)]

theorem begins_indentedItems {v : Json} {vs : List Json} (h : ReadableItems (v :: vs))
    (level : Nat) : Begins (indentedItems level (v :: vs)) := by
  obtain ⟨c, s, hs, hc⟩ := begins_indented h.1 level
  cases vs with
  | nil => exact ⟨c, s, hs, hc⟩
  | cons w vs =>
    rw [indentedItems.eq_3 _ _ _ (by simp), hs]
    exact ⟨c, _, rfl, hc⟩

theorem begins_indentedFields (f : Text × Json) (fs : List (Text × Json)) (level : Nat) :
    ∃ s, indentedFields level (f :: fs) = '"' :: s := by
  cases fs with
  | nil => exact ⟨_, rfl⟩
  | cons g fs => exact ⟨_, rfl⟩

theorem fresh_of_nodup {acc fs : List (Text × Json)} {f : Text × Json}
    (h : ((acc ++ f :: fs).map Prod.fst).Nodup) : f.1 ∉ acc.map Prod.fst := by
  rw [List.map_append, List.map_cons, List.nodup_append] at h
  exact fun hmem => h.2.2 _ hmem _ List.mem_cons_self rfl

/-- A written key is read, and then the value after it. -/
theorem readMembers_head (value : Text → Option (Json × Text)) (k : Nat) (acc : Dict)
    (key r : Text) :
    readMembers value (k + 1) acc (dumpsText key ++ ": ".toList ++ r) =
      (value (skipWs r)).bind fun (v, r) =>
        match skipWs r with
        | ',' :: r => readMembers value k (acc.set key v) (skipWs r)
        | '}' :: r => some (.obj (acc.set key v), r)
        | _ => none := by
  have hkey : dumpsText key ++ ": ".toList ++ r =
      '"' :: (key.flatMap dumpsChar ++ '"' :: ':' :: ' ' :: r) := by
    simp only [dumpsText, List.cons_append, List.append_assoc]
    rfl
  rw [hkey, readMembers, readString_dumps]
  rfl

mutual
/-- **A written value is read back.** -/
theorem readValue_indented : ∀ (v : Json) (level fuel : Nat) (r : Text), Readable v → Ends r →
    (indented level v).length ≤ fuel → readValue fuel (indented level v ++ r) = some (v, r)
  | v, level, 0, r, hv, _, hfuel => by
      obtain ⟨c, s, hs, -⟩ := begins_indented hv level
      rw [hs] at hfuel
      cases hfuel
  | .null, _, fuel + 1, r, _, _, _ => rfl
  | .bool true, _, fuel + 1, r, _, _, _ => rfl
  | .bool false, _, fuel + 1, r, _, _, _ => rfl
  | .int n, _, fuel + 1, r, hv, hr, _ => hv.read fuel hr
  | .float x, _, fuel + 1, r, hv, hr, _ => hv.read fuel hr
  | .str s, _, fuel + 1, r, _, _, _ => by
      show readValue (fuel + 1) ('"' :: (s.flatMap dumpsChar ++ ['"']) ++ r) = _
      rw [List.cons_append, List.append_assoc, readValue]
      rw [show ['"'] ++ r = '"' :: r from rfl, readString_dumps]
      rfl
  | .arr [], _, fuel + 1, r, _, _, _ => rfl
  | .arr (v :: vs), level, fuel + 1, r, hv, _, hfuel => by
      have hlength : (indentedItems (level + 1) (v :: vs)).length ≤ fuel := by
        rw [indented] at hfuel
        simp only [List.length_append, List.length_cons] at hfuel
        omega
      have hcount := length_le_indentedItems (level + 1) (v :: vs)
      have hread := readItems_indented v vs (level + 1) level fuel (fuel + 1) [] r hv hlength
        (by rw [List.length_cons] at hcount; omega)
      obtain ⟨c, s, hs, hws, hc⟩ := begins_indentedItems hv (level + 1)
      rw [hs] at hread
      rw [indented, hs]
      simp only [List.cons_append, List.append_assoc, List.nil_append] at hread ⊢
      rw [readValue, skipWs_newline, skipWs_cons hws]
      split
      · rename_i heq
        exact absurd (List.cons.inj heq).1 hc
      · exact hread
  | .obj [], _, fuel + 1, r, _, _, _ => rfl
  | .obj (f :: fs), level, fuel + 1, r, hv, _, hfuel => by
      have hlength : (indentedFields (level + 1) (f :: fs)).length ≤ fuel := by
        rw [indented] at hfuel
        simp only [List.length_append, List.length_cons] at hfuel
        omega
      have hcount := length_le_indentedFields (level + 1) (f :: fs)
      have hread := readMembers_indented f fs (level + 1) level fuel (fuel + 1) [] r hv.2 hv.1
        hlength (by rw [List.length_cons] at hcount; omega)
      obtain ⟨s, hs⟩ := begins_indentedFields f fs (level + 1)
      rw [hs] at hread
      rw [indented, hs]
      simp only [List.cons_append, List.append_assoc, List.nil_append] at hread ⊢
      rw [readValue, skipWs_newline, skipWs_cons rfl]
      exact hread
termination_by v => sizeOf v

/-- The items of a written array are read back. -/
theorem readItems_indented : ∀ (v : Json) (vs : List Json) (level close fuel k : Nat)
    (acc : List Json) (r : Text), ReadableItems (v :: vs) →
    (indentedItems level (v :: vs)).length ≤ fuel → vs.length < k →
    readItems (fun s => readValue fuel s) k acc
      (indentedItems level (v :: vs) ++ (newline close ++ ']' :: r)) =
        some (.arr (acc ++ v :: vs), r)
  | v, vs, level, close, fuel, 0, acc, r, _, _, hk => absurd hk (Nat.not_lt_zero _)
  | v, [], level, close, fuel, k + 1, acc, r, hv, hfuel, _ => by
      have hread := readValue_indented v level fuel (newline close ++ ']' :: r) hv.1
        (fun c hc => .inr (Option.mem_some.mp hc).symm) hfuel
      rw [readItems]
      show (readValue fuel (indented level v ++ _)).bind _ = _
      rw [hread, Option.bind_some]
      dsimp only
      rw [skipWs_newline, skipWs_cons rfl]
      rfl
  | v, w :: vs, level, close, fuel, k + 1, acc, r, hv, hfuel, hk => by
      rw [indentedItems.eq_3 _ _ _ (by simp)] at hfuel ⊢
      simp only [List.length_append, List.length_cons] at hfuel hk
      have hread := readValue_indented v level fuel
        (',' :: (newline level ++ (indentedItems level (w :: vs) ++ (newline close ++ ']' :: r))))
        hv.1 (fun c hc => .inl (Option.mem_some.mp hc).symm) (by omega)
      have hrest := readItems_indented w vs level close fuel k (acc ++ [v]) r hv.2
        (by omega) (by omega)
      rw [readItems]
      simp only [List.append_assoc, List.cons_append]
      show (readValue fuel (indented level v ++ _)).bind _ = _
      rw [hread, Option.bind_some]
      dsimp only
      rw [skipWs_cons rfl]
      show readItems _ k _ (skipWs _) = _
      rw [skipWs_newline, skipWs_of_begins (begins_indentedItems hv.2 level), hrest,
        List.append_assoc]
      rfl
termination_by v vs => sizeOf (v :: vs)

/-- The members of a written object are read back. -/
theorem readMembers_indented : ∀ (f : Text × Json) (fs : List (Text × Json))
    (level close fuel k : Nat) (acc : Dict) (r : Text), ReadableFields (f :: fs) →
    ((acc ++ f :: fs).map Prod.fst).Nodup →
    (indentedFields level (f :: fs)).length ≤ fuel → fs.length < k →
    readMembers (fun s => readValue fuel s) k acc
      (indentedFields level (f :: fs) ++ (newline close ++ '}' :: r)) =
        some (.obj (acc ++ f :: fs), r)
  | f, fs, level, close, fuel, 0, acc, r, _, _, _, hk => absurd hk (Nat.not_lt_zero _)
  | (key, v), [], level, close, fuel, k + 1, acc, r, hv, hkeys, hfuel, _ => by
      rw [indentedFields] at hfuel ⊢
      simp only [List.length_append] at hfuel
      -- the value of the last member is followed by a line break
      have hread := readValue_indented v level fuel (newline close ++ '}' :: r) hv.1
        (fun c hc => .inr (Option.mem_some.mp hc).symm) (by omega)
      rw [List.append_assoc, readMembers_head, skipWs_of_begins (begins_indented hv.1 level),
        hread, Option.bind_some]
      dsimp only
      rw [skipWs_newline, skipWs_cons rfl, set_of_fresh (fresh_of_nodup hkeys)]
      rfl
  | (key, v), g :: fs, level, close, fuel, k + 1, acc, r, hv, hkeys, hfuel, hk => by
      rw [indentedFields.eq_3 _ _ _ _ (by simp)] at hfuel ⊢
      simp only [List.length_append, List.length_cons] at hfuel hk
      have hread := readValue_indented v level fuel
        (',' :: (newline level ++ (indentedFields level (g :: fs) ++ (newline close ++ '}' :: r))))
        hv.1 (fun c hc => .inl (Option.mem_some.mp hc).symm) (by omega)
      have hrest := readMembers_indented g fs level close fuel k (acc ++ [(key, v)]) r hv.2
        (by rwa [List.append_assoc]) (by omega) (by omega)
      obtain ⟨s, hs⟩ := begins_indentedFields g fs level
      simp only [List.append_assoc, List.cons_append] at hread ⊢
      rw [← List.append_assoc (dumpsText key), readMembers_head,
        skipWs_of_begins (begins_indented hv.1 level), hread, Option.bind_some]
      dsimp only
      rw [skipWs_cons rfl]
      show readMembers _ k _ (skipWs _) = _
      rw [skipWs_newline, set_of_fresh (fresh_of_nodup hkeys), hs, List.cons_append,
        skipWs_cons rfl, ← List.cons_append, ← hs, hrest, List.append_assoc]
      rfl
termination_by f fs => sizeOf (f :: fs)
end

/-- **`json.loads(json.dumps(v, indent=2))` is `v`.** -/
theorem loads_indented {v : Json} (h : Readable v) : loads (indented 0 v) = some v := by
  have hread := readValue_indented v 0 ((indented 0 v).length + 1) [] h
    (fun c hc => by cases hc) (Nat.le_succ _)
  have hskip := skipWs_of_begins (begins_indented h 0) []
  rw [List.append_nil] at hread hskip
  rw [loads, hskip, hread]
  rfl

end Json

end OmniCare
