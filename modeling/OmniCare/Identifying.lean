import OmniCare.Hearing
import OmniCare.Places

/-! # Identifiers said out loud

Somebody says `policy` or `claim` and reads four digits out, with other words before and behind
(`Saying`).  `_canonicalize` prefers a canonical identifier, the letters of the prefix and
`policy number` to the cue, wherever they stand, and takes the first of each kind; and it knows a
number word only with a blank, or one of four punctuation marks, behind it.  `Undisturbed` says of
the texts before and behind that nothing else is taken for the identifier, or something with the
same digits.  **What is said becomes the canonical identifier exactly when it is undisturbed**
(`said_identifier_iff`).
-/
namespace OmniCare

open Numerals

/-! ## What is said -/

namespace IdKind

/-- The word that is said before the digits. -/
def cue : IdKind → Text
  | policy => "policy"
  | claim => "claim"

/-- `policy number` and `claim number`. -/
def numberCue (kind : IdKind) : Text := kind.cue ++ " number".toList

/-- The letters of the prefix one by one. -/
def spelled (kind : IdKind) : Text := Text.join [' '] ((Text.upper kind.pre).map ([·]))

end IdKind

/-- **Somebody says a cue and reads four digits out.** -/
structure Saying (kind : IdKind) where
  before : Text
  cue : Text
  reading : Text
  after : Text
  digits : List Nat
  words : List Text
  /-- The text before has no digit and no number word, and ends where a word may begin. -/
  noDigit : (Text.lower before).any isDigitChar = false
  noNumber : (Text.words (softened before)).any tellsNumber = false
  apart : (Text.lower before).getLast?.any isWord = false
  isCue : Text.lower cue = kind.cue
  /-- The digits are read out, from the first word to the last. -/
  readOut : ReadOut digits words
  said : (Text.words (softened reading)).map bare = words
  starts : (softened reading).head?.any isWord = true
  stops : (softened reading).getLast?.any isWord = true
  /-- The text behind begins where a word may end, and its first word is no number word. -/
  ends : (Text.lower after).head?.any isWord = false
  next : (((Text.words (softened after)).map bare).find? (!·.isEmpty)).any isSpokenNumber = false

/-- The text. -/
def Saying.text {kind : IdKind} (s : Saying kind) : Text :=
  s.before ++ (s.cue ++ (' ' :: (s.reading ++ s.after)))

/-! ## What disturbs it -/

/-- The end of a text that stands directly before what follows. -/
def clingingBefore (before : Text) : Text := (softened before).rtakeWhile (!isSpace ·)

/-- What is heard of a text up to what follows. -/
def heardUpTo (before : Text) : Text :=
  ((Text.words ((softened before).rdropWhile (!isSpace ·))).map lettered).flatMap (· ++ [' ']) ++
    clingingBefore before

/-- The beginning of a text that stands directly behind what comes before. -/
def clingingBehind (after : Text) : Text := (softened after).takeWhile (!isSpace ·)

/-- What is heard of a text behind what comes before. -/
def heardFrom (after : Text) : Text :=
  clingingBehind after ++
    ((Text.words ((softened after).dropWhile (!isSpace ·))).map lettered).flatMap (' ' :: ·)

/-- Nothing but commas, semicolons and colons stands directly behind the last digit. -/
def standsClear (after : Text) : Bool := (clingingBehind after).all (",.;:".toList.elem ·)

/-- **Nothing else is taken for the identifier**, or something with the same digits: in this order,
the first canonical identifier, the first letters of the prefix, the first `policy number`, and the
first `policy`. -/
def Saying.Undisturbed {kind : IdKind} (s : Saying kind) : Prop :=
  match (directPattern kind.pre).search (Text.lower s.text) with
  | some direct => direct.group 1 = digitText s.digits
  | none =>
      (letterwisePattern kind.pre).found (heardUpTo s.before) = false ∧
        match (letterwisePattern kind.pre).search (heardFrom s.after) with
        | some letterwise => readDigits (letterwise.group 1) = digitText s.digits
        | none =>
            Text.contains (heardUpTo s.before) kind.numberCue = false ∧
              match afterFirst kind.numberCue (heardFrom s.after) with
              | some tail => readDigits tail = digitText s.digits
              | none =>
                  Text.contains (heardUpTo s.before) kind.cue = false ∧
                    standsClear s.after = true

/-! ## The cue -/

namespace IdKind

theorem cue_plain (kind : IdKind) : kind.cue.any isSpace = false ∧ kind.cue ≠ [] := by
  cases kind <;> decide

/-- The cue stays at the end of its token. -/
theorem cue_suffix_bare (kind : IdKind) (a : Text) : kind.cue <:+ bare (a ++ kind.cue) := by
  have hends : Text.lower kind.cue = kind.cue ∧
      kind.cue.dropWhile isTokenPunctuation = kind.cue ∧
      ∃ b c, kind.cue = b ++ [c] ∧ ¬ isTokenPunctuation c = true := by
    cases kind
    · exact ⟨by decide, by decide, "polic".toList, 'y', rfl, by decide⟩
    · exact ⟨by decide, by decide, "clai".toList, 'm', rfl, by decide⟩
  obtain ⟨hlower, hfirst, b, c, hcue, hlast⟩ := hends
  have hleft : (Text.lower a ++ kind.cue).dropWhile isTokenPunctuation =
      (Text.lower a).dropWhile isTokenPunctuation ++ kind.cue := by
    rw [List.dropWhile_append, hfirst]
    split
    · rename_i hnil
      rw [List.isEmpty_iff.mp hnil, List.nil_append]
    · rfl
  have hbare : bare (a ++ kind.cue) =
      ((Text.lower a ++ kind.cue).dropWhile isTokenPunctuation).rdropWhile isTokenPunctuation := by
    rw [bare, Text.lower, List.flatMap_append]
    exact congrArg (fun x => Text.stripBy isTokenPunctuation (Text.lower a ++ x)) hlower
  have hright := List.rdropWhile_concat_neg
    (l := (Text.lower a).dropWhile isTokenPunctuation ++ b) isTokenPunctuation c hlast
  rw [List.append_assoc, ← hcue] at hright
  rw [hbare, hleft, hright]
  exact List.suffix_append _ _

variable {kind : IdKind} {word : Text}

/-- A word that ends with the cue is no number word. -/
theorem isSpokenNumber_of_cue (h : kind.cue <:+ word) : isSpokenNumber word = false := by
  have hlookup : ∀ table : List (Text × Nat), (∀ p ∈ table, ¬ kind.cue <:+ p.1) →
      (table.lookup word).isSome = false := by
    intro table htable
    cases hfound : table.lookup word with
    | none => rfl
    | some n => exact absurd h (htable _ (mem_of_lookup hfound))
  have hunits : ∀ p ∈ units, ¬ kind.cue <:+ p.1 := by cases kind <;> decide
  have htens : ∀ p ∈ tens, ¬ kind.cue <:+ p.1 := by cases kind <;> decide
  have hletter : ∃ c ∈ kind.cue, isDigitChar c = false := by
    cases kind
    · exact ⟨'p', by decide, by decide⟩
    · exact ⟨'c', by decide, by decide⟩
  obtain ⟨c, hc, hdigit⟩ := hletter
  have hdigits : word.all isDigitChar = false := by
    rw [List.all_eq_false]
    exact ⟨c, h.mem hc, by rw [hdigit]; decide⟩
  rw [isSpokenNumber, isDigits, hdigits, Bool.and_false, hlookup units hunits, hlookup tens htens]
  rfl

theorem tellsNumber_cue (kind : IdKind) (a : Text) : tellsNumber (a ++ kind.cue) = false :=
  isSpokenNumber_of_cue (kind.cue_suffix_bare a)

/-- A token that ends with the cue is no filler. -/
theorem isFiller_cue (kind : IdKind) (a : Text) : isFiller (a ++ kind.cue) = false := by
  have hfiller : ∀ word ∈ filler, ¬ kind.cue <:+ word := by cases kind <;> decide
  have hnot : filler.elem (bare (a ++ kind.cue)) = false := by
    cases helem : filler.elem (bare (a ++ kind.cue)) with
    | false => rfl
    | true => exact absurd (kind.cue_suffix_bare a) (hfiller _ (List.mem_of_elem_eq_true helem))
  rw [isFiller, hnot, Bool.and_false]

/-- A token that ends with the cue is the name of no letter. -/
theorem lettered_cue (kind : IdKind) (a : Text) : lettered (a ++ kind.cue) = a ++ kind.cue := by
  have hletters : ∀ p ∈ letters, ¬ kind.cue <:+ p.1 := by cases kind <;> decide
  exact (lettered_or _).resolve_right fun hmem =>
    hletters _ hmem (List.suffix_append a kind.cue)

theorem wordly_spelled (kind : IdKind) : Regex.Wordly kind.spelled := by
  have hletters : ∀ a ∈ "PLCM".toList, ∀ c, sameLetter a c = true → isWord c = true := by
    intro a ha c hc
    by_cases hlow : c.toNat < 128
    · exact forall_ascii (P := fun c => ∀ a ∈ "PLCM".toList, sameLetter a c = true →
        isWord c = true) (by decide) hlow a ha hc
    · have hsame : ∀ n, c.toNat = n → isWord (Char.ofNat n) = true → isWord c = true := by
        rintro n rfl hn
        rwa [Char.ofNat_toNat] at hn
      have hself : ∀ a ∈ "PLCM".toList, isWord a = true := by decide
      rw [sameLetter, if_neg hlow] at hc
      split at hc
      · exact hsame _ ‹_› (by decide)
      · exact hsame _ ‹_› (by decide)
      · exact hsame _ ‹_› (by decide)
      · exact hsame _ ‹_› (by decide +kernel)
      · rw [← eq_of_beq hc]
        exact hself a ha
  have hends : kind.spelled ≠ [] ∧ (∀ a ∈ kind.spelled.head?, a ∈ "PLCM".toList) ∧
      ∀ a ∈ kind.spelled.getLast?, a ∈ "PLCM".toList := by
    cases kind <;> decide
  exact ⟨hends.1, fun a ha => hletters a (hends.2.1 a ha), fun a ha => hletters a (hends.2.2 a ha)⟩

end IdKind

/-! ## The digits as they are heard -/

namespace Saying

variable {kind : IdKind} (s : Saying kind)

theorem softened_text : softened s.text =
    softened s.before ++ (kind.cue ++ (' ' :: (softened s.reading ++ softened s.after))) := by
  have hcue : softened s.cue = kind.cue := by
    rw [softened, s.isCue]
    cases kind <;> decide
  have hblank : softened (' ' :: (s.reading ++ s.after)) =
      ' ' :: (softened s.reading ++ softened s.after) := by
    rw [← List.singleton_append, softened_append, softened_append]
    rfl
  rw [text, softened_append, softened_append, hcue, hblank]

/-- The last token of the reading. -/
def lastToken : Text := (softened s.reading).rtakeWhile (!isSpace ·)

/-- The tokens before it. -/
def firstTokens : List Text := Text.words ((softened s.reading).rdropWhile (!isSpace ·))

/-- The last token as it is heard, if something clings to it or not. -/
def lastHeard : Text :=
  if clingingBehind s.after = [] then lettered s.lastToken else s.lastToken

/-- The reading as it is heard. -/
def spoken : Text := (s.firstTokens.map lettered ++ [s.lastHeard]).flatMap (' ' :: ·)

theorem lastToken_ne_nil : s.lastToken ≠ [] := by
  intro hnil
  rw [lastToken, List.rtakeWhile_eq_nil_iff] at hnil
  have hstops := s.stops
  cases hreading : softened s.reading with
  | nil =>
    rw [hreading] at hstops
    cases hstops
  | cons c x =>
    rw [hreading] at hnil hstops
    have hlast := hnil (List.cons_ne_nil c x)
    rw [List.getLast?_eq_some_getLast (List.cons_ne_nil c x), Option.any_some] at hstops
    rw [isSpace_of_isWord hstops] at hlast
    exact hlast rfl

theorem words_reading : Text.words (softened s.reading) = s.firstTokens ++ [s.lastToken] := by
  have haround := words_around (softened s.reading) (k := []) rfl [] (by
    rw [List.takeWhile_nil, List.append_nil, List.append_nil]
    exact s.lastToken_ne_nil)
  rw [List.takeWhile_nil, List.append_nil, List.append_nil, List.append_nil] at haround
  exact haround

/-- What stands behind the reading goes on with its last token. -/
theorem words_behind : Text.words (softened s.reading ++ softened s.after) =
    s.firstTokens ++ (s.lastToken ++ clingingBehind s.after) ::
      Text.words ((softened s.after).dropWhile (!isSpace ·)) := by
  refine words_around (softened s.reading) (k := []) rfl (softened s.after) ?_
  rw [List.nil_append]
  exact List.append_ne_nil_of_left_ne_nil s.lastToken_ne_nil _

/-- What clings to the reading begins with no word character. -/
theorem head_clingingBehind : (clingingBehind s.after).head?.any isWord = false := by
  have hends := s.ends
  rw [← head_softened] at hends
  rw [clingingBehind]
  cases hafter : softened s.after with
  | nil => rfl
  | cons c x =>
    rw [hafter] at hends
    rw [List.takeWhile_cons]
    split
    · exact hends
    · rfl

theorem lettered_lastToken :
    lettered (s.lastToken ++ clingingBehind s.after) = s.lastHeard ++ clingingBehind s.after := by
  rw [lastHeard]
  have hhead := s.head_clingingBehind
  cases hu : clingingBehind s.after with
  | nil => rw [if_pos rfl, List.append_nil, List.append_nil]
  | cons c u =>
    rw [hu] at hhead
    rw [if_neg (List.cons_ne_nil c u)]
    exact lettered_of_not_isWord (List.mem_append_right _ List.mem_cons_self) hhead

/-- **The text as it is heard.** -/
theorem joined_text : joined s.text =
    heardUpTo s.before ++ (kind.cue ++ (s.spoken ++ heardFrom s.after)) := by
  have haround := words_around (softened s.before) kind.cue_plain.1
    (' ' :: (softened s.reading ++ softened s.after))
    (List.append_ne_nil_of_right_ne_nil _ (List.append_ne_nil_of_left_ne_nil kind.cue_plain.2 _))
  have hblank : isSpace ' ' = true := by decide
  have hbehind := Text.words_run (g := [' ']) (by decide) (softened s.reading ++ softened s.after)
  rw [List.singleton_append, s.words_behind] at hbehind
  rw [List.takeWhile_cons_of_neg (by rw [hblank]; decide), List.append_nil,
    List.dropWhile_cons_of_neg (by rw [hblank]; decide), hbehind] at haround
  rw [joined, softened_text, haround, List.map_append, List.map_cons, kind.lettered_cue,
    List.map_append, List.map_cons, s.lettered_lastToken, join_around, heardUpTo, spoken, heardFrom,
    clingingBefore, List.flatMap_append, List.flatMap_append, List.flatMap_cons,
    List.flatMap_singleton]
  simp only [List.append_assoc, List.cons_append]

/-! ## The digits in it -/

/-- The tokens of the reading have the values of the digits. -/
theorem exists_values : ∃ vs v, Values s.firstTokens vs ∧ value s.lastToken = some v ∧
    s.firstTokens ≠ [] ∧ spokenDigits (vs ++ [v]) = digitText s.digits ∧
    spokenDigits vs ≠ digitText s.digits := by
  obtain ⟨vs, hvs, hdigits, hfewer⟩ := exists_values_of_readOut s.readOut
  have hvalues : Values (s.firstTokens ++ [s.lastToken]) vs := by
    rw [← s.words_reading]
    rw [← s.said, WordValues, List.forall₂_map_left_iff] at hvs
    exact hvs
  obtain ⟨us, v, rfl, hus, hv⟩ := hvalues.exists_concat
  have hlength := s.readOut.two_le_length
  rw [← s.said, s.words_reading, List.length_map, List.length_append, List.length_singleton]
    at hlength
  rw [List.dropLast_concat] at hfewer
  refine ⟨us, v, hus, hv, ?_, hdigits, hfewer⟩
  intro hnil
  rw [hnil] at hlength
  exact absurd hlength (by decide)

theorem value_lastHeard {v : Nat} (h : value s.lastToken = some v) :
    value s.lastHeard = some v := by
  rw [lastHeard]
  split
  · rw [value_lettered, h]
  · exact h

/-- The tokens of the reading are in lower case, and have no blank. -/
theorem token_of_mem {token : Text} (h : token ∈ s.firstTokens ++ [s.lastToken]) :
    Text.lower token = token ∧ token ≠ [] ∧ token.any isSpace = false := by
  rw [← s.words_reading] at h
  obtain ⟨hne, hall⟩ := Text.mem_words h
  exact ⟨lower_of_softened fun c hc => (hall c hc).1, hne, any_isSpace_of_mem_words h⟩

/-- A token of the reading as it is heard is one of these, or the letter that it names. -/
theorem exists_token {w : Text} (h : w ∈ s.firstTokens.map lettered ++ [s.lastHeard]) :
    ∃ token ∈ s.firstTokens ++ [s.lastToken], ∃ v, value token = some v ∧
      (w = token ∨ w = lettered token) := by
  obtain ⟨vs, v, hvs, hv, -, -, -⟩ := s.exists_values
  rcases List.mem_append.mp h with h | h
  · obtain ⟨token, htoken, rfl⟩ := List.mem_map.mp h
    obtain ⟨n, -, hn⟩ := exists_of_forall₂ hvs htoken
    exact ⟨token, List.mem_append_left _ htoken, n, hn, .inr rfl⟩
  · refine ⟨s.lastToken, List.mem_append_right _ (List.mem_singleton_self _), v, hv, ?_⟩
    rw [List.mem_singleton.mp h, lastHeard]
    split
    · exact .inr rfl
    · exact .inl rfl

/-- No cue begins in the reading. -/
theorem sameLetter_spoken : ∀ c ∈ s.spoken, ∀ a ∈ cueLetters, sameLetter a c = false := by
  have hblank : ∀ a ∈ cueLetters, sameLetter a ' ' = false := by decide
  intro c hc
  obtain ⟨w, hw, hc⟩ := List.mem_flatMap.mp hc
  rcases List.mem_cons.mp hc with rfl | hc
  · exact hblank
  · obtain ⟨token, htoken, v, hv, hheard⟩ := s.exists_token hw
    have hlower := (s.token_of_mem htoken).1
    rcases hheard with rfl | rfl
    · exact sameLetter_of_value hlower hv c hc
    · exact sameLetter_of_lettered hlower hv c hc

/-- The tokens of the reading as they are heard have no blank. -/
theorem heard_of_mem {w : Text} (h : w ∈ s.firstTokens.map lettered ++ [s.lastHeard]) :
    w ≠ [] ∧ w.any isSpace = false := by
  obtain ⟨token, htoken, -, -, hheard⟩ := s.exists_token h
  obtain ⟨-, hne, hblank⟩ := s.token_of_mem htoken
  rcases hheard with rfl | rfl
  · exact ⟨hne, hblank⟩
  · exact ⟨lettered_ne_nil hne, any_isSpace_lettered hblank⟩

/-- `number` does not follow the cue. -/
theorem dropBy_number (y : Text) :
    dropBy (· == ·) " number".toList (s.spoken ++ y) = none := by
  obtain ⟨vs, v, hvs, hv, hne, -, -⟩ := s.exists_values
  obtain ⟨token, tokens, htokens⟩ := List.exists_cons_of_ne_nil hne
  have hletters := s.sameLetter_spoken
  obtain ⟨u, us, hus⟩ : ∃ u us, tokens.map lettered ++ [s.lastHeard] = u :: us :=
    List.exists_cons_of_ne_nil (by simp)
  have hspoken : s.spoken = ' ' :: (lettered token ++ ' ' :: (u ++ us.flatMap (' ' :: ·))) := by
    rw [spoken, htokens, List.map_cons, List.cons_append, hus]
    rfl
  have hfirst : lettered token ≠ [] := by
    refine (s.heard_of_mem (w := lettered token) ?_).1
    rw [htokens, List.map_cons]
    exact List.mem_cons_self
  have hinside : ∀ a ∈ "umber".toList, (a == ' ') = false := by decide
  rw [hspoken, List.cons_append, List.append_assoc, List.cons_append]
  show dropBy (· == ·) "number".toList (lettered token ++ _) = none
  rw [@dropBy_append (· == ·) ' ' "number".toList _ _ hfirst hinside, Option.map_eq_none_iff]
  cases hdrop : dropBy (· == ·) "number".toList (lettered token) with
  | none => rfl
  | some rest =>
    -- the number word would have an `m`
    obtain ⟨t, ht, hsame⟩ := dropBy_eq_some_iff.mp hdrop
    obtain ⟨c, hc, heq⟩ := exists_of_forall₂ hsame (a := 'm') (by decide)
    obtain rfl := eq_of_beq heq
    have hm : 'm' ∈ s.spoken := by
      rw [hspoken, ht]
      simp [hc]
    have hnot := hletters 'm' hm 'm' (by decide)
    cases hnot

/-- The tokens from the reading on. -/
theorem words_spoken : Text.words (s.spoken ++ heardFrom s.after) =
    s.firstTokens.map lettered ++ (s.lastHeard ++ clingingBehind s.after) ::
      (Text.words ((softened s.after).dropWhile (!isSpace ·))).map lettered := by
  have hspread : s.spoken ++ heardFrom s.after =
      (s.firstTokens.map lettered ++ (s.lastHeard ++ clingingBehind s.after) ::
        (Text.words ((softened s.after).dropWhile (!isSpace ·))).map lettered).flatMap
          (' ' :: ·) := by
    rw [spoken, heardFrom, List.flatMap_append, List.flatMap_append]
    simp only [List.flatMap_cons, List.flatMap_nil, List.append_assoc, List.cons_append,
      List.nil_append]
  rw [hspread]
  refine Text.words_spread (List.forall_mem_append.mpr ⟨fun w hw =>
    s.heard_of_mem (List.mem_append_left _ hw), List.forall_mem_cons.mpr ⟨?_, fun w hw => ?_⟩⟩)
  · obtain ⟨hne, hblank⟩ := s.heard_of_mem (List.mem_append_right _ (List.mem_singleton_self _))
    refine ⟨List.append_ne_nil_of_left_ne_nil hne _, ?_⟩
    rw [List.any_append, hblank, Bool.false_or, List.any_eq_false]
    exact fun c hc => by simpa using List.mem_takeWhile_imp hc
  · exact heard_of_mem_words hw

theorem lower_clingingBehind : Text.lower (clingingBehind s.after) = clingingBehind s.after :=
  lower_of_softened fun _ hc => (List.takeWhile_sublist _).mem hc

/-- The last token, with what clings to it. -/
theorem value_clinging {v : Nat} (h : value s.lastToken = some v) :
    ((clingingBehind s.after).all isTokenPunctuation = true →
        value (s.lastHeard ++ clingingBehind s.after) = some v) ∧
      ((clingingBehind s.after).all isTokenPunctuation = false →
        tellsNumber (s.lastHeard ++ clingingBehind s.after) = false) := by
  rw [lastHeard]
  split
  · rename_i hnil
    rw [hnil, List.append_nil, value_lettered]
    exact ⟨fun _ => h, fun hfalse => by cases hfalse⟩
  · have htoken := s.token_of_mem (List.mem_append_right _ (List.mem_singleton_self s.lastToken))
    have hend : s.lastToken.getLast?.any isWord = true := by
      have hstops := s.stops
      have hsplit : softened s.reading =
          (softened s.reading).rdropWhile (!isSpace ·) ++ s.lastToken :=
        List.rdropWhile_append_rtakeWhile.symm
      rw [hsplit, List.getLast?_append_of_ne_nil _ s.lastToken_ne_nil] at hstops
      exact hstops
    refine OmniCare.value_clinging ?_ htoken.1 h hend s.head_clingingBehind
    rw [Text.lower, List.flatMap_append]
    exact congrArg₂ (· ++ ·) htoken.1 s.lower_clingingBehind

/-- The next token is no number word. -/
theorem next_heard (h : (clingingBehind s.after).all isTokenPunctuation = true) :
    ((Text.words ((softened s.after).dropWhile (!isSpace ·))).map lettered).head?.any tellsNumber =
      false := by
  have hnext := s.next
  have hskip : ((Text.words (softened s.after)).map bare).find? (!·.isEmpty) =
      ((Text.words ((softened s.after).dropWhile (!isSpace ·))).map bare).find? (!·.isEmpty) := by
    by_cases hnil : clingingBehind s.after = []
    · have hself := List.takeWhile_append_dropWhile (p := (!isSpace ·)) (l := softened s.after)
      rw [← clingingBehind, hnil, List.nil_append] at hself
      rw [hself]
    · have haround := words_around [] (k := []) rfl (softened s.after) (by
        rw [List.rtakeWhile_nil, List.nil_append, List.nil_append]
        exact hnil)
      rw [List.rtakeWhile_nil, List.rdropWhile_nil, List.nil_append, List.nil_append,
        List.nil_append] at haround
      have hbare : bare (clingingBehind s.after) = [] := by
        rw [bare_eq s.lower_clingingBehind, Text.stripBy, Text.lstripBy,
          List.dropWhile_eq_nil_iff.mpr (List.all_eq_true.mp h)]
        rfl
      rw [haround]
      show ((bare (clingingBehind s.after) :: _).find? (!·.isEmpty)) = _
      rw [hbare, List.find?_cons_of_neg (by decide)]
  rw [hskip] at hnext
  cases hwords : Text.words ((softened s.after).dropWhile (!isSpace ·)) with
  | nil => rfl
  | cons w ws =>
    rw [hwords, List.map_cons] at hnext
    rw [List.map_cons, List.head?_cons, Option.any_some, tellsNumber_lettered, tellsNumber]
    cases hbare : bare w with
    | nil => decide
    | cons c x =>
      rw [hbare, List.find?_cons_of_pos (by rfl)] at hnext
      exact hnext

/-- **The digits are read, as far as nothing clings to the last of them.** -/
theorem readDigits_spoken :
    readDigits (s.spoken ++ heardFrom s.after) = digitText s.digits ↔
      standsClear s.after = true := by
  obtain ⟨vs, v, hvs, hv, hne, hdigits, hfewer⟩ := s.exists_values
  have hfirst := hvs.lettered
  have hlast := s.value_lastHeard hv
  have hfillers : ([] : List Text).all isFiller = true := rfl
  have htokens := s.words_spoken
  have hclear : standsClear s.after = (clingingBehind s.after).all isTokenPunctuation := rfl
  rw [readDigits, htokens]
  cases hall : (clingingBehind s.after).all isTokenPunctuation with
  | true =>
    have hwhole := (s.value_clinging hv).1 hall
    have hvalues : Values (s.firstTokens.map lettered ++
        [s.lastHeard ++ clingingBehind s.after]) (vs ++ [v]) :=
      List.rel_append hfirst (.cons hwhole .nil)
    rw [hclear, hall, List.append_cons, ← List.nil_append (_ ++ _ ++ _),
      identifierRun_append hfillers (by simp) hvalues.tellsNumber (s.next_heard hall),
      wordsToDigits_of_values hvalues, hdigits]
    exact iff_of_true rfl rfl
  | false =>
    have hstop := (s.value_clinging hv).2 hall
    have hrun : identifierRun (s.firstTokens.map lettered ++
        (s.lastHeard ++ clingingBehind s.after) ::
          (Text.words ((softened s.after).dropWhile (!isSpace ·))).map lettered) =
        (s.firstTokens.map lettered).map bare :=
      identifierRun_append hfillers (by simpa using hne) hfirst.tellsNumber hstop
    rw [hclear, hall, hrun, wordsToDigits_of_values hfirst]
    exact iff_of_false hfewer (by decide)

/-! ## The text before -/

/-- The tokens before the last one that the text before has are no numbers, and have no digits. -/
theorem token_before {token : Text}
    (h : token ∈ Text.words ((softened s.before).rdropWhile (!isSpace ·))) :
    tellsNumber token = false ∧ ∀ c ∈ token, lowerChar c = [c] ∧ isDigitChar c = false := by
  constructor
  · have hnumber := s.noNumber
    rw [← List.rdropWhile_append_rtakeWhile (p := (!isSpace ·)) (l := softened s.before),
      Text.words_blank_append (getLast_rdropWhile _), List.any_append, Bool.or_eq_false_iff]
      at hnumber
    simpa using List.any_eq_false.mp hnumber.1 token h
  · intro c hc
    have hmem : c ∈ softened s.before :=
      (List.rdropWhile_prefix _ _).mem ((Text.mem_words h).2 c hc).1
    refine ⟨lowerChar_of_softened hmem, ?_⟩
    obtain ⟨d, hd, rfl⟩ := List.mem_map.mp hmem
    rw [isDigitChar_of_softened]
    simpa using List.any_eq_false.mp s.noDigit d hd

/-- **No identifier is read from a place in the text before on.** -/
theorem short_before {t z : Text} (ht : t <:+ heardUpTo s.before)
    (hz : z.head?.all isSpace = true) : (readDigits (t ++ (kind.cue ++ z))).length ≤ 2 := by
  have hclinging : (clingingBefore s.before).any isSpace = false :=
    List.any_eq_false.mpr fun c hc => by simpa using List.mem_rtakeWhile_imp hc
  obtain ⟨part, whole, g, hwords, hpart, hparts, hwhole⟩ :=
    words_of_suffix (fun u hu => heard_of_mem_words hu) hclinging kind.cue_plain.1
      kind.cue_plain.2 hz ht
  have hnumbers : ∀ w ∈ whole, tellsNumber w = false := by
    intro w hw
    obtain ⟨token, htoken, rfl⟩ := List.mem_map.mp (hwhole.mem hw)
    rw [tellsNumber_lettered]
    exact (s.token_before htoken).1
  rw [readDigits, hwords]
  rcases @identifierRun_part part whole (Text.words z) _ hpart hnumbers (kind.tellsNumber_cue g)
    (kind.isFiller_cue g) with hrun | ⟨w, hw, hnumber, hrun⟩
  · rw [hrun]
    exact Nat.zero_le 2
  · rw [hrun]
    refine length_wordsToDigits_le hnumber ?_
    obtain ⟨u, hu, hsuffix⟩ := hparts w hw
    obtain ⟨token, htoken, rfl⟩ := List.mem_map.mp hu
    have hletters : ∀ c ∈ lettered token, ∀ d ∈ lowerChar c, isDigitChar d = false := by
      refine forall_lettered (fun c hc d hd => ?_) (by decide)
      obtain ⟨hlower, hdigit⟩ := (s.token_before htoken).2 c hc
      rw [hlower, List.mem_singleton] at hd
      rw [hd, hdigit]
    rw [List.any_eq_false]
    intro d hd
    obtain ⟨c, hc, hd⟩ := List.mem_flatMap.mp hd
    rw [hletters c (hsuffix.mem hc) d hd]
    decide

/-! ## What is found -/

theorem getLast_heardUpTo : (heardUpTo s.before).getLast?.any isWord = false := by
  rw [heardUpTo]
  by_cases hnil : clingingBefore s.before = []
  · rw [hnil, List.append_nil]
    rcases List.eq_nil_or_concat ((Text.words ((softened s.before).rdropWhile
      (!isSpace ·))).map lettered) with hwords | ⟨us, u, hwords⟩
    · rw [hwords]
      rfl
    · rw [hwords, List.concat_eq_append, List.flatMap_append, List.flatMap_singleton,
        ← List.append_assoc, List.getLast?_concat]
      decide
  · have happart := s.apart
    rw [← getLast_softened] at happart
    have hsplit : softened s.before =
        (softened s.before).rdropWhile (!isSpace ·) ++ clingingBefore s.before :=
      List.rdropWhile_append_rtakeWhile.symm
    rw [hsplit, List.getLast?_append_of_ne_nil _ hnil] at happart
    rw [List.getLast?_append_of_ne_nil _ hnil]
    exact happart

/-- What stands behind the text before. -/
def fromCue : Text := kind.cue ++ (s.spoken ++ heardFrom s.after)

/-- **A place is found** in the text before, at the cue, or in the text behind. -/
theorem firstTail_joined {f : Bool → Text → Option Text}
    (hbefore : ∀ a b, heardUpTo s.before = a ++ b → b ≠ [] → ∀ inWord,
      f inWord (b ++ s.fromCue) = (f inWord b).map (· ++ s.fromCue))
    (hcue : ∀ d ∈ kind.cue.tail, ∀ inWord y, f inWord (d :: y) = none)
    (hspoken : ∀ d, (∀ a ∈ cueLetters, sameLetter a d = false) → ∀ inWord y,
      f inWord (d :: y) = none)
    (hafter : ∀ inWord, f inWord (heardFrom s.after) = f false (heardFrom s.after)) :
    firstTail f false (joined s.text) =
      ((firstTail f false (heardUpTo s.before)).map (· ++ s.fromCue)).or
        ((f false s.fromCue).or (firstTail f false (heardFrom s.after))) := by
  obtain ⟨c, k, hk⟩ : ∃ c k, kind.cue = c :: k := by
    cases kind <;> exact ⟨_, _, rfl⟩
  have hfrom : s.fromCue = c :: (k ++ s.spoken ++ heardFrom s.after) := by
    rw [fromCue, hk, List.cons_append, List.append_assoc]
  have hend : endsInWord false (heardUpTo s.before) = false := by
    have hlast := s.getLast_heardUpTo
    rw [endsInWord]
    cases h : (heardUpTo s.before).getLast? with
    | none => rfl
    | some d =>
      rw [h] at hlast
      exact hlast
  rw [hfrom] at hbefore
  rw [s.joined_text, ← fromCue, hfrom, firstTail_between hbefore ?_ hafter, hend]
  intro d hd
  rcases List.mem_append.mp hd with hd | hd
  · rw [hk] at hcue
    exact hcue d hd
  · exact hspoken d (s.sameLetter_spoken d hd)

theorem head_heardFrom : (heardFrom s.after).head?.any isWord = false := by
  rw [heardFrom]
  by_cases hnil : clingingBehind s.after = []
  · rw [hnil, List.nil_append]
    cases (Text.words ((softened s.after).dropWhile (!isSpace ·))).map lettered with
    | nil => rfl
    | cons w ws => exact (by decide : isWord ' ' = false)
  · rw [List.head?_append_of_ne_nil _ hnil]
    exact s.head_clingingBehind

/-- The letters of the prefix are found before the cue or behind the reading. -/
theorem letterwise_joined :
    firstTail (Regex.asWord kind.spelled) false (joined s.text) =
      ((firstTail (Regex.asWord kind.spelled) false (heardUpTo s.before)).map (· ++ s.fromCue)).or
        (firstTail (Regex.asWord kind.spelled) false (heardFrom s.after)) := by
  have hwordly := kind.wordly_spelled
  have hnone : ∀ {a d : Char} {p y : Text} (inWord : Bool), sameLetter a d = false →
      Regex.asWord (a :: p) inWord (d :: y) = none := by
    intro a d p y inWord had
    rw [Regex.asWord, dropBy_of_head had]
    split <;> rfl
  have hhead : ∃ a p, kind.spelled = a :: p ∧ a ∈ cueLetters ∧
      ∀ d ∈ kind.cue.tail, sameLetter a d = false := by
    cases kind
    · exact ⟨'P', " O L".toList, by decide, by decide, by decide⟩
    · exact ⟨'C', " L M".toList, by decide, by decide, by decide⟩
  obtain ⟨a, p, hp, ha, htail⟩ := hhead
  have hat : Regex.asWord kind.spelled false s.fromCue = none := by
    rw [fromCue]
    cases kind <;> rfl
  rw [s.firstTail_joined ?_ ?_ ?_ (fun inWord => ?_), hat, Option.none_or]
  · intro b x hx hne inWord
    have hlast : x.getLast?.any isWord = false := by
      have hall := s.getLast_heardUpTo
      rwa [hx, List.getLast?_append_of_ne_nil _ hne] at hall
    obtain ⟨c, k, hk, hinside⟩ : ∃ c k, kind.cue = c :: k ∧
        ∀ a ∈ kind.spelled.tail, sameLetter a c = false := by
      cases kind <;> exact ⟨_, _, rfl, by decide⟩
    rw [fromCue, hk, List.cons_append]
    exact Regex.asWord_append hwordly hne hlast hinside inWord
  · intro d hd inWord y
    rw [hp]
    exact hnone inWord (htail d hd)
  · intro d hd inWord y
    rw [hp]
    exact hnone inWord (hd a ha)
  · rw [Regex.asWord_of_head hwordly s.head_heardFrom,
      Regex.asWord_of_head hwordly s.head_heardFrom]

/-- The cue, with `number` or without, is found before the cue, at it or behind the reading. -/
theorem literal_joined {sub : Text} (hsub : sub = kind.numberCue ∨ sub = kind.cue) :
    afterFirst sub (joined s.text) =
      ((afterFirst sub (heardUpTo s.before)).map (· ++ s.fromCue)).or
        ((dropBy (· == ·) sub s.fromCue).or (afterFirst sub (heardFrom s.after))) := by
  obtain ⟨c, p, k, rfl, hk, hc, hinside, htail⟩ : ∃ c p k, sub = c :: p ∧ kind.cue = c :: k ∧
      c ∈ cueLetters ∧ (∀ a ∈ p, (a == c) = false) ∧ ∀ d ∈ k, (c == d) = false := by
    rcases hsub with rfl | rfl <;> cases kind <;>
      exact ⟨_, _, _, rfl, rfl, by decide, by decide, by decide⟩
  have hne : c :: p ≠ [] := List.cons_ne_nil c p
  have hnone : ∀ d, (c == d) = false → ∀ y, dropBy (· == ·) (c :: p) (d :: y) = none :=
    fun d hd y => @dropBy_of_head (· == ·) c d p y hd
  rw [afterFirst_eq hne _ false, afterFirst_eq hne _ false, afterFirst_eq hne _ false,
    s.firstTail_joined ?_ ?_ ?_ (fun _ => rfl)]
  · intro a b _ hb _
    rw [fromCue, hk, List.cons_append]
    exact dropBy_append hb hinside
  · intro d hd _ y
    rw [hk] at hd
    exact hnone d (htail d hd) y
  · intro d hd _ y
    refine hnone d ?_ y
    have hself : ∀ a ∈ cueLetters, sameLetter a a = true := by decide
    rw [beq_eq_false_iff_ne]
    rintro rfl
    have hnot := hd c hc
    rw [hself c hc] at hnot
    cases hnot

theorem numberCue_joined :
    afterFirst kind.numberCue (joined s.text) =
      ((afterFirst kind.numberCue (heardUpTo s.before)).map (· ++ s.fromCue)).or
        (afterFirst kind.numberCue (heardFrom s.after)) := by
  have hat : dropBy (· == ·) kind.numberCue s.fromCue = none := by
    rw [fromCue, IdKind.numberCue, dropBy_self fun a _ => beq_self_eq_true a]
    exact s.dropBy_number (heardFrom s.after)
  rw [s.literal_joined (.inl rfl), hat, Option.none_or]

theorem cue_joined :
    afterFirst kind.cue (joined s.text) =
      ((afterFirst kind.cue (heardUpTo s.before)).map (· ++ s.fromCue)).or
        (some (s.spoken ++ heardFrom s.after)) := by
  have hat : dropBy (· == ·) kind.cue s.fromCue = some (s.spoken ++ heardFrom s.after) := by
    have hself := dropBy_self (p := kind.cue) (q := []) (s := s.spoken ++ heardFrom s.after)
      fun a _ => beq_self_eq_true a
    rw [List.append_nil, dropBy_nil] at hself
    exact hself
  rw [s.literal_joined (.inr rfl), hat, Option.some_or]

end Saying

/-! ## What is taken for the identifier -/

/-- The letters of the prefix one by one are preferred to the cues. -/
theorem behindCue_eq_or (kind : IdKind) (text : Text) : behindCue kind text =
    (firstTail (Regex.asWord kind.spelled) false (joined text)).or
      (afterCue (joined text) kind.cues) := by
  rw [behindCue, ← Regex.search_wordThenLine_of_line kind.wordly_spelled
    (newline_not_mem_joined text)]
  show (match (Regex.wordThenLine kind.spelled).search (joined text) with
    | some letterwise => some (letterwise.group 1)
    | none => afterCue (joined text) kind.cues) = _
  cases (Regex.wordThenLine kind.spelled).search (joined text) <;> rfl

/-- What stands behind the short cues: the letters of the prefix in lower case, and the prefix. -/
def behindShortCue (kind : IdKind) (heard : Text) : Option Text :=
  (afterFirst (Text.join [' '] (kind.pre.map ([·]))) heard).or (afterFirst kind.pre heard)

theorem afterCue_eq (kind : IdKind) (heard : Text) : afterCue heard kind.cues =
    (afterFirst kind.numberCue heard).or
      ((afterFirst kind.cue heard).or (behindShortCue kind heard)) := by
  have hcues : kind.cues.insertionSort (fun a b => b.length ≤ a.length) =
      [kind.numberCue, kind.cue, Text.join [' '] (kind.pre.map ([·])), kind.pre] := by
    cases kind <;> rfl
  show List.findSome? (fun cue => afterFirst cue heard) (kind.cues.insertionSort _) = _
  rw [hcues, behindShortCue, List.findSome?_cons, List.findSome?_cons, List.findSome?_cons,
    List.findSome?_cons]
  cases afterFirst kind.numberCue heard with
  | some tail => rfl
  | none =>
    cases afterFirst kind.cue heard with
    | some tail => rfl
    | none =>
      cases afterFirst (Text.join [' '] (kind.pre.map ([·]))) heard with
      | some tail => rfl
      | none => cases afterFirst kind.pre heard <;> rfl

/-- What stands behind the cue that is preferred. -/
theorem behindCue_eq_cues (kind : IdKind) (text : Text) : behindCue kind text =
    (firstTail (Regex.asWord kind.spelled) false (joined text)).or
      ((afterFirst kind.numberCue (joined text)).or
        ((afterFirst kind.cue (joined text)).or (behindShortCue kind (joined text)))) := by
  rw [behindCue_eq_or, afterCue_eq]

theorem letterwisePattern_eq (kind : IdKind) :
    letterwisePattern kind.pre = Regex.wordThenLine kind.spelled := rfl

/-- What is found in a text before, and will not do, is preferred to what is found behind, and that
to the rest. -/
theorem exists_mem_or_iff {P : Text → Prop} {x y z : Option Text} {b : Text}
    (hx : ∀ t, x = some t → ¬ P (t ++ b)) :
    (∃ t ∈ (x.map (· ++ b)).or (y.or z), P t) ↔
      x.isSome = false ∧
        match y with
        | some t => P t
        | none => ∃ t ∈ z, P t := by
  cases x with
  | some t =>
    refine iff_of_false ?_ (by simp)
    rintro ⟨u, hu, hP⟩
    cases hu
    exact hx t rfl hP
  | none =>
    rw [Option.map_none, Option.none_or, Option.isSome_none, eq_self_iff_true, true_and]
    cases y <;> simp

theorem identifier_inj {kind : IdKind} {ds ds' : Text} :
    kind.identifier ds = kind.identifier ds' ↔ ds = ds' := by
  rw [IdKind.identifier, IdKind.identifier, List.append_cancel_left_eq, List.cons.injEq]
  exact and_iff_right rfl

namespace Saying

variable {kind : IdKind} (s : Saying kind)

theorem length_digitText : (digitText s.digits).length = 4 := by
  rw [digitText, List.length_map, s.readOut.length_digits]

/-- With no canonical identifier in the text, the digits behind the cue are read. -/
theorem normalize_of_behindCue
    (hdirect : (directPattern kind.pre).search (Text.lower s.text) = none) :
    kind.normalize s.text = some (kind.identifier (digitText s.digits)) ↔
      ∃ tail ∈ behindCue kind s.text, readDigits tail = digitText s.digits := by
  rw [OmniCare.normalize_eq, hdirect]
  cases behindCue kind s.text with
  | none => simp
  | some tail =>
    have hone : (∃ t ∈ some tail, readDigits t = digitText s.digits) ↔
        readDigits tail = digitText s.digits := by simp
    rw [hone]
    dsimp only
    split
    · rw [Option.some_inj, identifier_inj]
    · rename_i hlength
      refine iff_of_false (by simp) fun heq => hlength ?_
      rw [heq, s.length_digitText]

/-- A cue in the text before is taken for the cue, and no identifier is read. -/
theorem readDigits_of_before {f : Bool → Text → Option Text} {t : Text}
    (hf : ∀ inWord x y, f inWord x = some y → y <:+ x)
    (h : firstTail f false (heardUpTo s.before) = some t) :
    readDigits (t ++ s.fromCue) ≠ digitText s.digits := by
  intro heq
  have hhead : (s.spoken ++ heardFrom s.after).head?.all isSpace = true := by
    obtain ⟨w, ws, hws⟩ := List.exists_cons_of_ne_nil
      (List.concat_ne_nil s.lastHeard (s.firstTokens.map lettered))
    rw [spoken, hws]
    exact (by decide : isSpace ' ' = true)
  have hshort := s.short_before (firstTail_suffix hf h) hhead
  rw [← fromCue, heq, s.length_digitText] at hshort
  exact absurd hshort (by decide)

theorem readDigits_of_literal {sub t : Text} (hsub : sub ≠ [])
    (h : afterFirst sub (heardUpTo s.before) = some t) :
    readDigits (t ++ s.fromCue) ≠ digitText s.digits := by
  rw [afterFirst_eq hsub _ false] at h
  exact s.readDigits_of_before (fun _ _ _ => dropBy_suffix) h

/-- **What is said becomes the canonical identifier exactly when it is undisturbed.** -/
theorem normalize_iff :
    kind.normalize s.text = some (kind.identifier (digitText s.digits)) ↔ s.Undisturbed := by
  have hnumberCue : kind.numberCue ≠ [] := by cases kind <;> decide
  have hline := newline_not_mem_joined s.text
  rw [s.joined_text, List.mem_append, List.mem_append, List.mem_append, not_or, not_or, not_or]
    at hline
  have hbefore := Regex.search_wordThenLine_of_line kind.wordly_spelled hline.1
  have hafter := Regex.search_wordThenLine_of_line kind.wordly_spelled hline.2.2.2
  have hbehind := behindCue_eq_cues kind s.text
  rw [s.letterwise_joined, s.numberCue_joined, s.cue_joined, Option.or_assoc, Option.or_assoc,
    Option.or_assoc] at hbehind
  rw [Undisturbed]
  cases hdirect : (directPattern kind.pre).search (Text.lower s.text) with
  | some direct =>
    rw [OmniCare.normalize_eq, hdirect]
    dsimp only
    rw [Option.some_inj, identifier_inj]
  | none =>
    dsimp only
    rw [s.normalize_of_behindCue hdirect, hbehind, exists_mem_or_iff
      fun t ht => s.readDigits_of_before (fun _ _ _ => Regex.asWord_suffix) ht]
    refine and_congr ?_ ?_
    · rw [← hbefore, Option.isSome_map]
      rfl
    rw [← hafter, letterwisePattern_eq]
    cases (Regex.wordThenLine kind.spelled).search (heardFrom s.after) with
    | some letterwise => exact Iff.rfl
    | none =>
      dsimp only [Option.map_none]
      rw [exists_mem_or_iff fun t ht => s.readDigits_of_literal hnumberCue ht,
        contains_iff_afterFirst]
      refine and_congr_right fun _ => ?_
      cases afterFirst kind.numberCue (heardFrom s.after) with
      | some tail => exact Iff.rfl
      | none =>
        dsimp only
        rw [exists_mem_or_iff fun t ht => s.readDigits_of_literal kind.cue_plain.2 ht,
          contains_iff_afterFirst]
        exact and_congr_right fun _ => s.readDigits_spoken

end Saying

/-- **What is said becomes the canonical identifier if and only if** it is undisturbed. -/
theorem said_identifier_iff (s : Saying .policy) (t : Saying .claim) :
    (normalizePolicyNumber s.text = some ("POL-".toList ++ digitText s.digits) ↔ s.Undisturbed) ∧
      (normalizeClaimId t.text = some ("CLM-".toList ++ digitText t.digits) ↔ t.Undisturbed) :=
  ⟨s.normalize_iff, t.normalize_iff⟩

/-- Somebody who has mentioned the policy before is not understood. -/
theorem earlier_policy_taken : ¬
    ((∀ s : Saying .policy,
        normalizePolicyNumber s.text = some ("POL-".toList ++ digitText s.digits)) ∧
      ∀ s : Saying .claim,
        normalizeClaimId s.text = some ("CLM-".toList ++ digitText s.digits)) := by
  intro h
  have hsome := h.1 {
    before := "My policy covers water damage, "
    cue := "policy"
    reading := "ten ninety two"
    after := []
    digits := [1, 0, 9, 2]
    words := ["ten", "ninety", "two"]
    noDigit := by decide
    noNumber := by decide
    apart := by decide
    isCue := by decide
    readOut := @ReadOut.pairs 10 92 ["ten"] ["ninety", "two"]
      (.whole (.small (by decide)) (by decide))
      (.whole (@TwoDigits.both "ninety" "two" 90 2 (by decide) (by decide) (by decide))
        (by decide))
    said := by decide
    starts := by decide
    stops := by decide
    ends := rfl
    next := by decide }
  have hnone : normalizePolicyNumber "My policy covers water damage, policy ten ninety two" =
      none := by decide
  cases hnone.symm.trans hsome

end OmniCare
