import OmniCare.Blocks
import OmniCare.Readings

/-! # What is heard

`_canonicalize` looks for its cues in the text as it is heard: in lower case, cut into tokens at
blanks, full stops and hyphens, and with the letter for each token that is the name of one.  What
stands directly before or behind a piece of the text is in the same token with it
(`words_around`), and the tokens are joined again with one blank between (`join_around`).
-/
namespace OmniCare

variable {text token x : Text} {c : Char} {v : Nat}

/-! ## Softened texts -/

theorem softened_append (a b : Text) : softened (a ++ b) = softened a ++ softened b := by
  rw [softened, Text.lower, List.flatMap_append, List.map_append]
  rfl

/-- What is softened is no word character. -/
theorem isWord_of_softened : isWord (if c == '.' || c == '-' then ' ' else c) = isWord c := by
  split
  · rename_i h
    rcases Bool.or_eq_true_iff.mp h with h | h <;> rw [eq_of_beq h] <;> decide
  · rfl

theorem head_softened (x : Text) :
    (softened x).head?.any isWord = (Text.lower x).head?.any isWord := by
  rw [softened, List.head?_map, Option.any_map]
  exact congrArg (fun f => Option.any f _) (funext fun c => isWord_of_softened)

theorem getLast_softened (x : Text) :
    (softened x).getLast?.any isWord = (Text.lower x).getLast?.any isWord := by
  rw [softened, List.getLast?_map, Option.any_map]
  exact congrArg (fun f => Option.any f _) (funext fun c => isWord_of_softened)

theorem isDigitChar_of_softened :
    isDigitChar (if c == '.' || c == '-' then ' ' else c) = isDigitChar c := by
  split
  · rename_i h
    rcases Bool.or_eq_true_iff.mp h with h | h <;> rw [eq_of_beq h] <;> decide
  · rfl

/-- A softened text is in lower case. -/
theorem lowerChar_of_softened (h : c ∈ softened text) : lowerChar c = [c] := by
  obtain ⟨d, hd, rfl⟩ := List.mem_map.mp h
  obtain ⟨e, -, he⟩ := List.mem_flatMap.mp hd
  split
  · decide
  · exact lowerChar_of_mem he

/-- A piece of a softened text is in lower case. -/
theorem lower_of_softened (h : ∀ c ∈ x, c ∈ softened text) : Text.lower x = x :=
  Text.lower_eq_self fun c hc => lowerChar_of_softened (h c hc)

/-! ## Tokens -/

/-- A token that is not the name of a letter is heard as it is. -/
theorem lettered_or (token : Text) :
    lettered token = token ∨ (token, lettered token) ∈ letters := by
  unfold lettered
  cases hletter : letters.lookup token with
  | none => exact .inl rfl
  | some letter =>
    obtain ⟨l₁, l₂, heq, -⟩ := List.lookup_eq_some_iff.mp hletter
    exact .inr (heq ▸ List.mem_append_right _ List.mem_cons_self)

/-- A token that holds anything but word characters is heard as it is. -/
theorem lettered_of_not_isWord (hc : c ∈ token) (h : isWord c = false) :
    lettered token = token := by
  have hall : ∀ p ∈ letters, ∀ c ∈ p.1, isWord c = true := by decide
  refine (lettered_or token).resolve_right fun hmem => ?_
  rw [hall _ hmem c hc] at h
  cases h

theorem lettered_ne_nil (h : token ≠ []) : lettered token ≠ [] := by
  have hall : ∀ p ∈ letters, p.2 ≠ [] := by decide
  rcases lettered_or token with heq | hmem
  · rw [heq]
    exact h
  · exact hall _ hmem

/-- What holds of the characters of a token and of the capitals holds of what is heard. -/
theorem forall_lettered {P : Char → Prop} (htoken : ∀ c ∈ token, P c)
    (hcapitals : ∀ c ∈ "POLCM".toList, P c) : ∀ c ∈ lettered token, P c := by
  have hall : ∀ p ∈ letters, ∀ c ∈ p.2, c ∈ "POLCM".toList := by decide
  rcases lettered_or token with heq | hmem
  · rw [heq]
    exact htoken
  · exact fun c hc => hcapitals c (hall _ hmem c hc)

theorem any_isSpace_lettered (h : token.any isSpace = false) :
    (lettered token).any isSpace = false := by
  have hcapitals : ∀ c ∈ "POLCM".toList, ¬ isSpace c = true := by decide
  rw [List.any_eq_false] at h ⊢
  exact forall_lettered h hcapitals

theorem any_isSpace_of_mem_words (h : token ∈ Text.words text) : token.any isSpace = false := by
  rw [List.any_eq_false]
  intro c hc
  rw [((Text.mem_words h).2 c hc).2]
  decide

/-- The tokens of a text as they are heard have no blank. -/
theorem heard_of_mem_words (h : token ∈ (Text.words text).map lettered) :
    token ≠ [] ∧ token.any isSpace = false := by
  obtain ⟨word, hword, rfl⟩ := List.mem_map.mp h
  exact ⟨lettered_ne_nil (Text.mem_words hword).1,
    any_isSpace_lettered (any_isSpace_of_mem_words hword)⟩

theorem tellsNumber_lettered (token : Text) : tellsNumber (lettered token) = tellsNumber token := by
  have hall : ∀ p ∈ letters, tellsNumber p.2 = tellsNumber p.1 := by decide
  rcases lettered_or token with heq | hmem
  · rw [heq]
  · exact hall (token, lettered token) hmem

/-! ## Tokens joined again -/

theorem join_cons (t : Text) (ts : List Text) :
    Text.join [' '] (t :: ts) = t ++ ts.flatMap (' ' :: ·) := by
  induction ts generalizing t with
  | nil => simp [Text.join]
  | cons u us ih =>
    have hstep : Text.join [' '] (t :: u :: us) = t ++ ([' '] ++ Text.join [' '] (u :: us)) := by
      simp [Text.join, List.intercalate]
    rw [hstep, ih, List.flatMap_cons]
    rfl

/-- Words one blank apart, around one of them. -/
theorem join_around (as : List Text) (b : Text) (cs : List Text) :
    Text.join [' '] (as ++ b :: cs) =
      as.flatMap (· ++ [' ']) ++ (b ++ cs.flatMap (' ' :: ·)) := by
  induction as with
  | nil => exact join_cons b cs
  | cons a as ih =>
    rw [List.cons_append, List.flatMap_cons, List.append_assoc, ← ih, join_cons]
    cases as with
    | nil => simp [join_cons]
    | cons d ds => simp [join_cons]

/-- What is heard is one line. -/
theorem newline_not_mem_joined (text : Text) : '\n' ∉ joined text := by
  have hline : ∀ t ∈ (Text.words (softened text)).map lettered, '\n' ∉ t := by
    intro t ht
    obtain ⟨token, htoken, rfl⟩ := List.mem_map.mp ht
    have hall : ∀ c ∈ token, c ≠ '\n' := by
      rintro c hc rfl
      exact absurd ((Text.mem_words htoken).2 _ hc).2 (by decide)
    exact fun hmem => forall_lettered hall (by decide) _ hmem rfl
  rw [joined]
  generalize (Text.words (softened text)).map lettered = ts at hline
  cases ts with
  | nil => exact List.not_mem_nil
  | cons t ts =>
    obtain ⟨ht, hts⟩ := List.forall_mem_cons.mp hline
    rw [join_cons]
    intro hmem
    rcases List.mem_append.mp hmem with hmem | hmem
    · exact ht hmem
    · obtain ⟨u, hu, hmem⟩ := List.mem_flatMap.mp hmem
      rcases List.mem_cons.mp hmem with hblank | hmem
      · exact absurd hblank (by decide)
      · exact hts u hu hmem

/-! ## Pieces of a text -/

theorem getLast_rdropWhile (a : Text) :
    (a.rdropWhile (!isSpace ·)).getLast?.all isSpace = true := by
  by_cases hnil : a.rdropWhile (!isSpace ·) = []
  · rw [hnil]
    rfl
  · rw [List.getLast?_eq_some_getLast hnil]
    simpa using List.rdropWhile_last_not (!isSpace ·) a hnil

/-- **What stands directly before and behind a piece** of a text is in the same token with it. -/
theorem words_around (a : Text) {k : Text} (hk : k.any isSpace = false) (b : Text)
    (hne : a.rtakeWhile (!isSpace ·) ++ (k ++ b.takeWhile (!isSpace ·)) ≠ []) :
    Text.words (a ++ (k ++ b)) =
      Text.words (a.rdropWhile (!isSpace ·)) ++
        (a.rtakeWhile (!isSpace ·) ++ (k ++ b.takeWhile (!isSpace ·))) ::
          Text.words (b.dropWhile (!isSpace ·)) := by
  have hfirst : (b.dropWhile (!isSpace ·)).head?.all isSpace = true := by
    have hhead := List.head?_dropWhile_not (!isSpace ·) b
    cases hb : (b.dropWhile (!isSpace ·)).head? with
    | none => rfl
    | some c =>
      rw [hb] at hhead
      simpa using hhead
  have htoken : (a.rtakeWhile (!isSpace ·) ++ (k ++ b.takeWhile (!isSpace ·))).any isSpace =
      false := by
    rw [List.any_append, List.any_append, hk, Bool.false_or, Bool.or_eq_false_iff,
      List.any_eq_false, List.any_eq_false]
    exact ⟨fun c hc => by simpa using List.mem_rtakeWhile_imp hc,
      fun c hc => by simpa using List.mem_takeWhile_imp hc⟩
  have hsplit : a ++ (k ++ b) = a.rdropWhile (!isSpace ·) ++
      ((a.rtakeWhile (!isSpace ·) ++ (k ++ b.takeWhile (!isSpace ·))) ++
        b.dropWhile (!isSpace ·)) := by
    conv_lhs => rw [← List.rdropWhile_append_rtakeWhile (p := (!isSpace ·)) (l := a),
      ← List.takeWhile_append_dropWhile (p := (!isSpace ·)) (l := b)]
    simp only [List.append_assoc]
  rw [hsplit, Text.words_blank_append (getLast_rdropWhile a), Text.words_append_blank _ hfirst,
    Text.words_of_none htoken, List.filter_cons_of_pos (by simpa using hne)]
  rfl

/-! ## Number words as they are heard -/

/-- The punctuation that `_identifier_run` strips. -/
def isTokenPunctuation (c : Char) : Bool := ",.;:".toList.elem c

theorem bare_eq (h : Text.lower token = token) :
    bare token = Text.stripBy isTokenPunctuation token := by
  rw [bare, h]
  rfl

/-- The letters with which a cue begins, and one that is in `number`. -/
def cueLetters : Text := "PpCcm".toList

/-- No number word has such a letter. -/
theorem sameLetter_of_value (hlower : Text.lower token = token) (h : value token = some v) :
    ∀ c ∈ token, ∀ a ∈ cueLetters, sameLetter a c = false := by
  have hwords : ∀ p ∈ units ++ tens, ∀ c ∈ p.1, ∀ a ∈ cueLetters, sameLetter a c = false := by
    decide
  have hstripped : ∀ c ∈ ",.;:".toList, ∀ a ∈ cueLetters, sameLetter a c = false := by decide
  intro c hc
  rcases Text.mem_or_mem_stripBy (p := isTokenPunctuation) hc with hpunctuation | hc
  · exact hstripped c (List.mem_of_elem_eq_true hpunctuation)
  · rw [← bare_eq hlower] at hc
    rw [value, wordValue, Option.or_eq_some_iff] at h
    rcases h with h | ⟨-, h⟩
    · exact hwords _ (List.mem_append_left _ (mem_of_lookup h)) c hc
    · exact hwords _ (List.mem_append_right _ (mem_of_lookup h)) c hc

/-- Nor has a number word as it is heard. -/
theorem sameLetter_of_lettered (hlower : Text.lower token = token) (h : value token = some v) :
    ∀ c ∈ lettered token, ∀ a ∈ cueLetters, sameLetter a c = false := by
  have hletters : ∀ p ∈ letters, (value p.2).isSome = true → ∀ c ∈ p.2, ∀ a ∈ cueLetters,
      sameLetter a c = false := by decide
  rcases lettered_or token with heq | hmem
  · rw [heq]
    exact sameLetter_of_value hlower h
  · exact hletters _ hmem (by rw [value_lettered, h]; rfl)

/-- **A number word with something clinging to it** is a number word as long as only punctuation
clings to it. -/
theorem value_clinging {u : Text} (hlower : Text.lower (token ++ u) = token ++ u)
    (hlower' : Text.lower token = token) (h : value token = some v)
    (hend : token.getLast?.any isWord = true) (hu : u.head?.any isWord = false) :
    (u.all isTokenPunctuation = true → value (token ++ u) = some v) ∧
      (u.all isTokenPunctuation = false → tellsNumber (token ++ u) = false) := by
  have hkept : ∀ c, isWord c = true → isTokenPunctuation c = false := by
    have hall : ∀ c ∈ ",.;:".toList, isWord c = false := by decide
    intro c hc
    cases hpunctuation : isTokenPunctuation c with
    | false => rfl
    | true =>
      rw [hall c (List.mem_of_elem_eq_true hpunctuation)] at hc
      cases hc
  have hlast : token.getLast?.any (!isTokenPunctuation ·) = true := by
    cases hc : token.getLast? with
    | none =>
      rw [hc] at hend
      cases hend
    | some c =>
      rw [hc, Option.any_some] at hend
      rw [Option.any_some, hkept c hend]
      rfl
  have hbare : bare (token ++ u) = bare token ++ u.rdropWhile isTokenPunctuation := by
    rw [bare_eq hlower, bare_eq hlower', Text.stripBy_append hlast]
    rfl
  constructor
  · intro hall
    have hnil : u.rdropWhile isTokenPunctuation = [] := by
      rw [List.rdropWhile_eq_nil_iff]
      exact List.all_eq_true.mp hall
    rw [value, hbare, hnil, List.append_nil]
    exact h
  · intro hnotAll
    have hne : u.rdropWhile isTokenPunctuation ≠ [] := by
      intro hnil
      rw [List.rdropWhile_eq_nil_iff, ← List.all_eq_true, hnotAll] at hnil
      cases hnil
    -- what clings is not a word character, and stays
    obtain ⟨d, rest, hrest⟩ := List.exists_cons_of_ne_nil hne
    have hd : isWord d = false := by
      obtain ⟨t, ht⟩ := List.rdropWhile_prefix isTokenPunctuation u
      rw [hrest] at ht
      rw [← ht] at hu
      exact hu
    have hsound := valueSound h
    have hnumber : bare token ≠ [] := by
      intro hnil
      rw [value, hnil] at h
      cases h
    rw [tellsNumber, hbare, hrest, isSpokenNumber, Bool.or_eq_false_iff, Bool.or_eq_false_iff]
    have hwords : ∀ p ∈ units ++ tens, ∀ c ∈ p.1, isWord c = true := by decide
    have hlookup : ∀ table : List (Text × Nat), (∀ p ∈ table, p ∈ units ++ tens) →
        (table.lookup (bare token ++ d :: rest)).isSome = false := by
      intro table htable
      cases hfound : table.lookup (bare token ++ d :: rest) with
      | none => rfl
      | some n =>
        have hword := hwords _ (htable _ (mem_of_lookup hfound)) d (by simp)
        rw [hd] at hword
        cases hword
    refine ⟨⟨?_, hlookup units fun p hp => List.mem_append_left _ hp⟩,
      hlookup tens fun p hp => List.mem_append_right _ hp⟩
    have hdigits := hsound.digits
    cases hcase : (bare token).all isDigitChar with
    | true =>
      rw [isDigits, hcase, Bool.and_true, Bool.not_eq_false'] at hdigits
      exact absurd (List.isEmpty_iff.mp hdigits) hnumber
    | false => rw [isDigits, List.all_append, hcase, Bool.false_and, Bool.and_false]

/-! ## From some place on -/

/-- From a place before a piece of the text on there are a part of a token at most, whole tokens,
and the token that ends with the piece. -/
theorem words_of_suffix {us : List Text} {g k z t : Text}
    (hus : ∀ u ∈ us, u ≠ [] ∧ u.any isSpace = false) (hg : g.any isSpace = false)
    (hk : k.any isSpace = false) (hne : k ≠ []) (hz : z.head?.all isSpace = true)
    (ht : t <:+ us.flatMap (· ++ [' ']) ++ g) :
    ∃ part whole g', Text.words (t ++ (k ++ z)) = part ++ (whole ++ (g' ++ k) :: Text.words z) ∧
      part.length ≤ 1 ∧ (∀ w ∈ part, ∃ u ∈ us, w <:+ u) ∧ whole <:+ us := by
  have hlast : ∀ g' : Text, g'.any isSpace = false →
      Text.words (g' ++ (k ++ z)) = (g' ++ k) :: Text.words z := by
    intro g' hg'
    have htoken : (g' ++ k).any isSpace = false := by
      rw [List.any_append, hg', hk]
      rfl
    rw [← List.append_assoc, Text.words_append_blank _ hz, Text.words_of_none htoken,
      List.filter_cons_of_pos (by simp [hne])]
    rfl
  have hall : ∀ us : List Text, (∀ u ∈ us, u ≠ [] ∧ u.any isSpace = false) →
      Text.words (us.flatMap (· ++ [' ']) ++ g ++ (k ++ z)) = us ++ (g ++ k) :: Text.words z := by
    intro us hus
    induction us with
    | nil => exact hlast g hg
    | cons u us ih =>
      obtain ⟨⟨hu, hblank⟩, hus⟩ := List.forall_mem_cons.mp hus
      have hspace : [' '].all isSpace = true := by decide
      have hcut := Text.words_append hblank (List.cons_ne_nil ' ' []) hspace
        (us.flatMap (· ++ [' ']) ++ g ++ (k ++ z))
      rw [ih hus, List.filter_cons_of_pos (by simpa using hu)] at hcut
      rw [List.flatMap_cons, List.append_assoc, List.append_assoc, List.append_assoc,
        ← List.append_assoc _ g]
      exact hcut
  induction us with
  | nil =>
    have htoken : t.any isSpace = false := by
      rw [List.any_eq_false] at hg ⊢
      exact fun c hc => hg c (ht.mem hc)
    exact ⟨[], [], t, hlast t htoken, Nat.zero_le _, by simp, List.suffix_refl _⟩
  | cons u us ih =>
    obtain ⟨⟨hu, hblank⟩, hus⟩ := List.forall_mem_cons.mp hus
    obtain ⟨s, hs⟩ := ht
    rw [List.flatMap_cons, List.append_assoc, List.append_eq_append_iff] at hs
    rcases hs with ⟨a, hua, rfl⟩ | ⟨a, -, ha⟩
    · -- the place is in the first token, or right behind it
      have hrest := hall us hus
      rcases List.eq_nil_or_concat a with rfl | ⟨b, c, rfl⟩
      · exact ⟨[], us, g, hrest, Nat.zero_le _, by simp, List.suffix_cons u us⟩
      · rw [List.concat_eq_append, ← List.append_assoc] at hua
        obtain ⟨hb, hc⟩ := List.append_inj' hua rfl
        have hpart : b.any isSpace = false := by
          rw [hb, List.any_append, Bool.or_eq_false_iff] at hblank
          exact hblank.2
        have hspace : [c].all isSpace = true := by
          rw [← hc]
          decide
        have hcut := Text.words_append hpart (List.cons_ne_nil c []) hspace
          (us.flatMap (· ++ [' ']) ++ g ++ (k ++ z))
        rw [hrest] at hcut
        refine ⟨[b].filter (!·.isEmpty), us, g, ?_, List.length_filter_le _ _, ?_,
          List.suffix_cons u us⟩
        · rw [List.concat_eq_append, List.append_assoc, List.append_assoc]
          exact hcut
        · intro w hw
          obtain rfl := List.mem_singleton.mp (List.mem_filter.mp hw).1
          exact ⟨u, List.mem_cons_self, ⟨s, hb.symm⟩⟩
    · obtain ⟨part, whole, g', hwords, hpart, hparts, hwhole⟩ := ih hus ⟨a, ha.symm⟩
      exact ⟨part, whole, g', hwords, hpart,
        fun w hw => (hparts w hw).imp fun u hu => ⟨List.mem_cons_of_mem _ hu.1, hu.2⟩,
        hwhole.trans (List.suffix_cons u us)⟩

/-- **Nothing but a part of a token may be taken** before a token that is neither a number nor
filler, if no whole token is a number. -/
theorem identifierRun_part {part whole rest : List Text} {stop : Text} (hpart : part.length ≤ 1)
    (hwhole : ∀ w ∈ whole, tellsNumber w = false) (hnumber : tellsNumber stop = false)
    (hfiller : isFiller stop = false) :
    identifierRun (part ++ (whole ++ stop :: rest)) = [] ∨
      ∃ w ∈ part, tellsNumber w = true ∧
        identifierRun (part ++ (whole ++ stop :: rest)) = [bare w] := by
  have hnone : identifierRun (whole ++ stop :: rest) = [] := by
    induction whole with
    | nil => exact identifierRun_stopped hnumber hfiller
    | cons w whole ih =>
      obtain ⟨hw, hwhole⟩ := List.forall_mem_cons.mp hwhole
      cases hpassed : isFiller w with
      | true =>
        have hone : [w].all isFiller = true := by rw [List.all_cons, hpassed]; rfl
        rw [List.cons_append, ← List.singleton_append, identifierRun_filler hone]
        exact ih hwhole
      | false => exact identifierRun_stopped hw hpassed
  rcases part with _ | ⟨w, _ | ⟨_, _⟩⟩
  · exact .inl hnone
  · cases hw : tellsNumber w with
    | true =>
      have hone : [w].all tellsNumber = true := by rw [List.all_cons, hw]; rfl
      have hhead : (whole ++ stop :: rest).head?.any tellsNumber = false := by
        cases whole with
        | nil => exact hnumber
        | cons v whole => exact hwhole v List.mem_cons_self
      have hfillers : ([] : List Text).all isFiller = true := rfl
      exact .inr ⟨w, List.mem_singleton_self w, hw,
        identifierRun_append hfillers (List.cons_ne_nil _ _) hone hhead⟩
    | false =>
      left
      cases hpassed : isFiller w with
      | true =>
        have hone : [w].all isFiller = true := by rw [List.all_cons, hpassed]; rfl
        rw [identifierRun_filler hone, hnone]
      | false => exact identifierRun_stopped hw hpassed
  · rw [List.length_cons, List.length_cons] at hpart
    omega

/-- A part of a token without digits gives two digits at most. -/
theorem length_wordsToDigits_le (hnumber : tellsNumber token = true)
    (hdigits : (Text.lower token).any isDigitChar = false) :
    (wordsToDigits [bare token]).length ≤ 2 := by
  have hvalue : ∃ v, value token = some v := by
    have hnone : isDigits (bare token) = false := by
      rw [isDigits]
      cases hall : (bare token).all isDigitChar with
      | false => rw [Bool.and_false]
      | true =>
        cases hbare : bare token with
        | nil => rfl
        | cons c x =>
          have hc : c ∈ bare token := hbare ▸ List.mem_cons_self
          have hlower : c ∈ Text.lower token :=
            (List.dropWhile_suffix _).mem ((List.rdropWhile_prefix _ _).mem hc)
          exact absurd (List.all_eq_true.mp hall c hc) (List.any_eq_false.mp hdigits c hlower)
    rw [tellsNumber, isSpokenNumber, hnone, Bool.false_or, Bool.or_eq_true] at hnumber
    rcases hnumber with h | h
    · obtain ⟨v, hv⟩ := Option.isSome_iff_exists.mp h
      exact ⟨v, by rw [value, wordValue, hv, Option.some_or]⟩
    · obtain ⟨v, hv⟩ := Option.isSome_iff_exists.mp h
      cases hunit : units.lookup (bare token) with
      | some u => exact ⟨u, by rw [value, wordValue, hunit, Option.some_or]⟩
      | none => exact ⟨v, by rw [value, wordValue, hunit, hv, Option.none_or]⟩
  obtain ⟨v, hv⟩ := hvalue
  have hsmall : ∀ p ∈ units ++ tens, (Text.ofNat p.2).length ≤ 2 := by decide
  have hvalues : Values [token] [v] := .cons hv .nil
  have hdigits := wordsToDigits_of_values hvalues
  rw [List.map_singleton] at hdigits
  rw [hdigits]
  rw [value, wordValue, Option.or_eq_some_iff] at hv
  rcases hv with h | ⟨-, h⟩
  · exact hsmall _ (List.mem_append_left _ (mem_of_lookup h))
  · exact hsmall _ (List.mem_append_right _ (mem_of_lookup h))

end OmniCare
