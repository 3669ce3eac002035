import OmniCare.Blocks
import OmniCare.Numerals
import OmniCare.StatedAmounts

/-! # Amounts said out loud

A text **says** a number when it holds a numeral of English for it, with hyphens and `and` or
without, between words that are no words of a number (`Says`).  `spoken_amounts` adds number words
up in two accumulators, from word to word; `AddsUp` is what it makes of a few of them, and goes
along the grammar of the numerals.  **Every number from a hundred on that a text says is found in
it**, and the gate of `confirm` does not refuse it (`said_amount_found`).
-/
namespace OmniCare

open Regex Numerals

variable {s t u : Spoken} {ws vs : List Text} {n k : Nat}

/-! ## What a text says -/

/-- The text between the letters from a to z, in lower case. -/
def rawWords (text : Text) : List Text :=
  (Regex.plus (.char fun c => !c.isLower)).split (Text.lower text)

/-- The words of a text: its runs of letters from a to z, in lower case. -/
def lettersWords (text : Text) : List Text := (rawWords text).filter (!·.isEmpty)

/-- What may stand before a number: it ends between two words, the last of which is no word of a
number. -/
structure LeadsIn (before : Text) : Prop where
  apart : (Text.lower before).getLast?.all (!·.isLower) = true
  word : (lettersWords before).getLast?.all (!joinsNumber ·) = true

/-- What may stand behind a number: it begins between two words, the first of which is no word of a
number. -/
structure LeadsOut (after : Text) : Prop where
  apart : (Text.lower after).head?.all (!·.isLower) = true
  word : (lettersWords after).head?.all (!joinsNumber ·) = true

/-- **A text says a number** in words. -/
def Says (text : Text) (n : Nat) : Prop :=
  ∃ before spelled after words, text = before ++ (spelled ++ after) ∧ LeadsIn before ∧
    LeadsOut after ∧ Spells n words ∧ Anded words (rawWords spelled)

/-! ## Number words -/

theorem lookup_small {w : Text} (h : (w, n) ∈ small) : units.lookup w = some n := by
  have hall : ∀ p ∈ small, units.lookup p.1 = some p.2 := by decide
  exact hall _ h

theorem lookup_decade {w : Text} (h : (w, n) ∈ decades) :
    units.lookup w = none ∧ tens.lookup w = some n := by
  have hall : ∀ p ∈ decades, units.lookup p.1 = none ∧ tens.lookup p.1 = some p.2 := by decide
  exact hall _ h

/-- The words of a numeral are number words. -/
theorem wordwise_isNumberWord : Wordwise (isNumberWord · = true) :=
  ⟨by decide, by decide, by decide, by decide, by decide⟩

/-- A number word brings nothing to an end. -/
theorem word_of_isNumberWord {w : Text} (h : isNumberWord w = true) (s : Spoken) :
    (s.word w).2 = [] ∧ (s.word w).1.seen = true := by
  unfold isNumberWord at h
  unfold Spoken.word
  cases hunit : units.lookup w with
  | some n => exact ⟨rfl, rfl⟩
  | none =>
    cases hten : tens.lookup w with
    | some n => exact ⟨rfl, rfl⟩
    | none =>
      cases hscale : scales.lookup w with
      | none => simp [hunit, hten, hscale] at h
      | some scale =>
        simp only
        split <;> exact ⟨rfl, rfl⟩

/-- What is no word of a number begins the count anew. -/
theorem word_of_not_joinsNumber {w : Text} (h : joinsNumber w = false) (s : Spoken) :
    s.word w = ({}, s.quantity) := by
  rw [joinsNumber, Bool.or_eq_false_iff, isNumberWord, Bool.or_eq_false_iff,
    Bool.or_eq_false_iff] at h
  obtain ⟨⟨⟨hunit, hten⟩, hscale⟩, hand⟩ := h
  rw [Option.isSome_eq_false_iff, Option.isNone_iff_eq_none] at hunit hten hscale
  rw [Spoken.word, hunit, hten, hscale]
  exact if_neg fun hboth => of_decide_eq_false hand hboth.1

/-- `and` is passed over within a number. -/
theorem word_and {s : Spoken} (h : s.seen = true) : s.word "and".toList = (s, []) := by
  have hlookup : units.lookup "and".toList = none ∧ tens.lookup "and".toList = none ∧
      scales.lookup "and".toList = none := by decide
  rw [Spoken.word, hlookup.1, hlookup.2.1, hlookup.2.2]
  exact if_pos ⟨rfl, h⟩

/-! ## What is made of a numeral -/

/-- A few words take the scan from one state to another, and find nothing. -/
def AddsUp (s : Spoken) (ws : List Text) (t : Spoken) : Prop :=
  ∀ rest, spokenQuantities s (ws ++ rest) = spokenQuantities t rest

theorem AddsUp.nil (s : Spoken) : AddsUp s [] s := fun _ => rfl

theorem AddsUp.append (h : AddsUp s ws t) (h' : AddsUp t vs u) : AddsUp s (ws ++ vs) u := by
  intro rest
  rw [List.append_assoc, h, h']

theorem AddsUp.word {w : Text} (h : s.word w = (t, [])) : AddsUp s [w] t := by
  intro rest
  rw [List.singleton_append, spokenQuantities, h]
  rfl

theorem AddsUp.small {w : Text} (h : (w, n) ∈ Numerals.small) (s : Spoken) :
    AddsUp s [w] { s with current := s.current + n, seen := true } := by
  refine AddsUp.word ?_
  rw [Spoken.word, lookup_small h]

theorem AddsUp.decade {w : Text} (h : (w, n) ∈ decades) (s : Spoken) :
    AddsUp s [w] { s with current := s.current + n, seen := true } := by
  refine AddsUp.word ?_
  rw [Spoken.word, (lookup_decade h).1, (lookup_decade h).2]

theorem AddsUp.twoDigits (h : TwoDigits n ws) (s : Spoken) :
    AddsUp s ws { s with current := s.current + n, seen := true } := by
  cases h with
  | small h => exact AddsUp.small h s
  | decade h => exact AddsUp.decade h s
  | both h h' _ =>
    have hboth := (AddsUp.decade h s).append (AddsUp.small h' _)
    simpa only [List.singleton_append, Nat.add_assoc] using hboth

theorem AddsUp.hundred (s : Spoken) :
    AddsUp s ["hundred".toList] { s with current := orOne s.current * 100, seen := true } :=
  AddsUp.word rfl

/-- The hundreds of a group, which begins where nothing has been counted. -/
theorem AddsUp.hundreds (h : Count TwoDigits n ws) (hs : s.current = 0) :
    AddsUp s (ws ++ ["hundred".toList]) { s with current := n * 100, seen := true } := by
  cases h with
  | article =>
    have hread := AddsUp.hundred s
    rw [hs] at hread
    exact hread
  | said h =>
    have hread := (AddsUp.twoDigits h s).append (AddsUp.hundred _)
    have hcount : orOne (s.current + n) = n := by
      rw [hs, Nat.zero_add, orOne, if_neg (Nat.pos_iff_ne_zero.mp h.pos)]
    simp only [hcount] at hread
    exact hread

theorem AddsUp.group (h : Group n ws) (hs : s.current = 0) :
    AddsUp s ws { s with current := n, seen := true } := by
  cases h with
  | below h =>
    have hread := AddsUp.twoDigits h s
    rw [hs, Nat.zero_add] at hread
    exact hread
  | hundreds h => exact AddsUp.hundreds h hs
  | more h h' =>
    have hread := (AddsUp.hundreds h hs).append (AddsUp.twoDigits h' _)
    rw [List.append_assoc] at hread
    exact hread

/-- The millions or the thousands go to the total. -/
theorem AddsUp.scaled {scale : Text} {value : Nat} (h : Scaled scale value n ws)
    (hscale : ∀ s : Spoken, s.word scale = (⟨s.total + orOne s.current * value, 0, true⟩, []))
    (hs : s.current = 0) :
    ∃ seen, (n ≠ 0 → seen = true) ∧ (s.seen = true → seen = true) ∧
      AddsUp s ws ⟨s.total + n, 0, seen⟩ := by
  cases h with
  | none =>
    refine ⟨s.seen, fun hne => absurd rfl hne, id, ?_⟩
    obtain ⟨total, current, seen⟩ := s
    obtain rfl : current = 0 := hs
    exact AddsUp.nil _
  | some h =>
    refine ⟨true, fun _ => rfl, fun _ => rfl, ?_⟩
    cases h with
    | article =>
      have hread := AddsUp.word (hscale s)
      rw [hs] at hread
      exact hread
    | said h =>
      have hread := (AddsUp.group h hs).append (AddsUp.word (hscale _))
      have hcount : orOne _ = _ := if_neg (Nat.pos_iff_ne_zero.mp h.pos)
      simp only [hcount] at hread
      exact hread

/-- **A numeral adds up to its number.** -/
theorem AddsUp.spells (h : Spells n ws) (hpos : 0 < n) :
    ∃ t, AddsUp {} ws t ∧ t.seen = true ∧ t.total + t.current = n := by
  obtain ⟨hmillions, hthousands, hrest⟩ := h
  obtain ⟨seen, hseen, -, hread⟩ := AddsUp.scaled (s := {}) hmillions (fun _ => rfl) rfl
  obtain ⟨seen', hseen', hkept, hread'⟩ := AddsUp.scaled hthousands (fun _ => rfl)
    (s := ⟨_, 0, seen⟩) rfl
  cases hrest with
  | none =>
    refine ⟨_, hread.append (hread'.append (AddsUp.nil _)), ?_, by simp⟩
    by_contra hunseen
    have hthousand := mt hseen' hunseen
    have hmillion := mt hseen (mt hkept hunseen)
    omega
  | some h =>
    refine ⟨_, hread.append (hread'.append (AddsUp.group h rfl)), rfl, by simp⟩

/-- Among the words of a number, `and` makes no difference. -/
theorem spokenQuantities_filter_and {ands : List Text} (hands : ∀ w ∈ ands, joinsNumber w = true)
    (hs : s.seen = true) (rest : List Text) :
    spokenQuantities s (ands ++ rest) =
      spokenQuantities s (ands.filter (· ≠ "and".toList) ++ rest) := by
  induction ands generalizing s with
  | nil => rfl
  | cons w ands ih =>
    obtain ⟨hw, hrest⟩ := List.forall_mem_cons.mp hands
    by_cases hand : w = "and".toList
    · subst hand
      rw [List.cons_append, spokenQuantities, word_and hs, List.nil_append,
        List.filter_cons_of_neg (by simp)]
      exact ih hrest hs
    · rw [joinsNumber, Bool.or_eq_true, decide_eq_true_eq] at hw
      have hnumber : isNumberWord w = true := hw.resolve_right hand
      obtain ⟨hquiet, hseen⟩ := word_of_isNumberWord hnumber s
      rw [List.cons_append, spokenQuantities, hquiet, List.filter_cons_of_pos (by simpa using hand),
        List.cons_append, spokenQuantities, hquiet]
      exact congrArg ([] ++ ·) (ih hrest hseen)

/-- **A numeral adds up to its number, with `and` or without.** -/
theorem AddsUp.anded {words ands : List Text} (h : Spells n words) (hpos : 0 < n)
    (hands : Anded words ands) :
    ∃ t, AddsUp {} ands t ∧ t.seen = true ∧ t.total + t.current = n := by
  obtain ⟨t, hread, hseen, hsum⟩ := AddsUp.spells h hpos
  obtain ⟨rfl, hfirst⟩ := hands
  refine ⟨t, ?_, hseen, hsum⟩
  cases ands with
  | nil => exact hread
  | cons w ands =>
    have hw : w ≠ "and".toList := by
      rintro rfl
      exact hfirst rfl
    have hkept := List.filter_cons_of_pos (p := (· ≠ "and".toList)) (l := ands) (by simpa using hw)
    rw [hkept] at hread h
    obtain ⟨hnumber, hwords⟩ := List.forall_mem_cons.mp (wordwise_isNumberWord.spells h)
    have hjoins : ∀ v ∈ ands, joinsNumber v = true := by
      intro v hv
      rw [joinsNumber, Bool.or_eq_true, decide_eq_true_eq]
      by_cases hand : v = "and".toList
      · exact .inr hand
      · exact .inl (hwords v (List.mem_filter.mpr ⟨hv, by simpa using hand⟩))
    obtain ⟨hquiet, hfound⟩ := word_of_isNumberWord hnumber {}
    intro rest
    rw [← hread rest, List.cons_append, spokenQuantities, hquiet, List.cons_append,
      spokenQuantities, hquiet, spokenQuantities_filter_and hjoins hfound]

/-! ## Between other words -/

/-- Behind a word that is no word of a number the count begins anew. -/
theorem exists_append_of_fresh {before : List Text}
    (h : before.getLast?.all (!joinsNumber ·) = true) (rest : List Text) :
    ∃ found, spokenQuantities {} (before ++ rest) = found ++ spokenQuantities {} rest := by
  have hfresh : ∀ (s : Spoken) (before : List Text), before ≠ [] →
      before.getLast?.all (!joinsNumber ·) = true →
      ∃ found, spokenQuantities s (before ++ rest) = found ++ spokenQuantities {} rest := by
    intro s before hne hlast
    induction before generalizing s with
    | nil => exact absurd rfl hne
    | cons w before ih =>
      cases before with
      | nil =>
        have hw : joinsNumber w = false := by simpa using hlast
        refine ⟨s.quantity, ?_⟩
        rw [List.singleton_append, spokenQuantities, word_of_not_joinsNumber hw]
      | cons v before =>
        obtain ⟨found, hfound⟩ := ih (s.word w).1 (List.cons_ne_nil _ _)
          (by rwa [List.getLast?_cons_cons] at hlast)
        refine ⟨(s.word w).2 ++ found, ?_⟩
        rw [List.cons_append, spokenQuantities, hfound, List.append_assoc]
  cases before with
  | nil => exact ⟨[], rfl⟩
  | cons w before => exact hfresh {} _ (List.cons_ne_nil _ _) h

/-- Before a word that is no word of a number the quantity counted is found. -/
theorem mem_spokenQuantities_of_quantity {after : List Text}
    (h : after.head?.all (!joinsNumber ·) = true) (hn : n ∈ s.quantity) :
    n ∈ spokenQuantities s after := by
  cases after with
  | nil => exact hn
  | cons w after =>
    have hw : joinsNumber w = false := by simpa using h
    rw [spokenQuantities, word_of_not_joinsNumber hw]
    exact List.mem_append_left _ hn

/-- The word at the end, if it is not empty, is the last of the words. -/
theorem all_getLast_of_filter {words : List Text}
    (h : (words.filter (!·.isEmpty)).getLast?.all (!joinsNumber ·) = true) :
    words.getLast?.all (!joinsNumber ·) = true := by
  cases hlast : words.getLast? with
  | none => rfl
  | some w =>
    obtain ⟨init, rfl⟩ : ∃ init, words = init ++ [w] :=
      ⟨_, (List.dropLast_append_getLast? w hlast).symm⟩
    cases w with
    | nil => rfl
    | cons c w =>
      rw [List.filter_append, List.filter_cons_of_pos rfl, List.filter_nil,
        List.getLast?_append_of_ne_nil _ (List.cons_ne_nil _ _)] at h
      exact h

theorem all_head_of_filter {words : List Text}
    (h : (words.filter (!·.isEmpty)).head?.all (!joinsNumber ·) = true) :
    words.head?.all (!joinsNumber ·) = true := by
  cases words with
  | nil => rfl
  | cons w words =>
    cases w with
    | nil => rfl
    | cons c w => exact h

theorem lower_append (a b : Text) : Text.lower (a ++ b) = Text.lower a ++ Text.lower b :=
  List.flatMap_append

/-- **The words of a text that says a number**: those before it, its own, and those behind it. -/
theorem rawWords_said {before spelled after : Text} (hbefore : LeadsIn before)
    (hafter : LeadsOut after)
    (hspelled : ∀ w ∈ rawWords spelled, joinsNumber w = true) :
    rawWords (before ++ (spelled ++ after)) =
      (rawWords before).dropLast ++ (rawWords spelled ++ (rawWords after).tail) := by
  have hwords : [] ∉ rawWords spelled := fun hempty => absurd (hspelled [] hempty) (by decide)
  obtain ⟨hne, hhead, hlast⟩ := ends_of_split hwords
  have hhead' : (Text.lower spelled ++ Text.lower after).head?.any (!·.isLower) = false := by
    rw [List.head?_append_of_ne_nil _ hne]
    exact hhead
  rw [rawWords, lower_append, lower_append, split_behind hbefore.apart hhead',
    split_before hlast hafter.apart]
  rfl

/-- The words before the number end in one that is no word of a number. -/
theorem LeadsIn.fresh {before : Text} (h : LeadsIn before) :
    (rawWords before).dropLast.getLast?.all (!joinsNumber ·) = true := by
  refine all_getLast_of_filter ?_
  -- the last of the raw words is empty
  have hlast : rawWords before = (rawWords before).dropLast ++ [[]] := by
    have hsplit := split_behind (p := fun c => !c.isLower) (y := []) h.apart rfl
    rw [List.append_nil, split_of_none (w := []) rfl] at hsplit
    exact hsplit
  have hword := h.word
  rw [lettersWords, hlast, List.filter_append, List.filter_cons_of_neg (by decide),
    List.filter_nil, List.append_nil] at hword
  exact hword

/-- The words behind the number begin with one that is no word of a number. -/
theorem LeadsOut.fresh {after : Text} (h : LeadsOut after) :
    (rawWords after).tail.head?.all (!joinsNumber ·) = true := by
  refine all_head_of_filter ?_
  have hfirst : rawWords after = [] :: (rawWords after).tail := by
    have hsplit := split_before (p := fun c => !c.isLower) (x := []) rfl h.apart
    rw [List.nil_append, split_of_none (w := []) rfl] at hsplit
    exact hsplit
  have hword := h.word
  rw [lettersWords, hfirst, List.filter_cons_of_neg (by decide)] at hword
  exact hword

/-- **A number that a text says is found in it.** -/
theorem Says.found {text : Text} (h : Says text n) (hn : spokenFloor ≤ n) :
    n ∈ spokenAmounts text := by
  obtain ⟨before, spelled, after, words, rfl, hbefore, hafter, hspells, hands⟩ := h
  have hpos : 0 < n := Nat.lt_of_lt_of_le (by decide) hn
  obtain ⟨t, hadds, hseen, hsum⟩ := AddsUp.anded hspells hpos hands
  have hjoins : ∀ w ∈ rawWords spelled, joinsNumber w = true := by
    intro w hw
    rw [joinsNumber, Bool.or_eq_true, decide_eq_true_eq]
    by_cases hand : w = "and".toList
    · exact .inr hand
    · refine .inl (wordwise_isNumberWord.spells hspells w ?_)
      rw [← hands.1]
      exact List.mem_filter.mpr ⟨hw, by simpa using hand⟩
  obtain ⟨found, hfound⟩ := exists_append_of_fresh hbefore.fresh
    (rawWords spelled ++ (rawWords after).tail)
  refine List.mem_append_right _ ?_
  show n ∈ spokenQuantities {} (rawWords (before ++ (spelled ++ after)))
  rw [rawWords_said hbefore hafter hjoins, hfound, hadds]
  refine List.mem_append_right _ (mem_spokenQuantities_of_quantity hafter.fresh ?_)
  rw [Spoken.quantity, if_pos ⟨hseen, by rw [hsum]; exact hn⟩, hsum]
  exact List.mem_singleton_self n

/-! ## At the gate -/

/-- An amount that a message says is not refused as one that nobody gave. -/
theorem gate_of_said {s : AgentState} {text : Text} (htext : text ∈ humanTexts s.messages)
    {amount : Json} (hamount : s.pending.get? "amount" = some amount)
    (hwhole : wholeDollars amount = .ok (some (n : Int))) (hn : n ∈ spokenAmounts text)
    (requireConfirmation : Bool) : gate requireConfirmation s ≠ .ok (.refused amountNeeded) := by
  have hstated : amountWasStated amount s.messages = .ok true := by
    unfold amountWasStated
    rw [hwhole]
    refine congrArg Except.ok (List.any_eq_true.mpr ⟨text, htext, ?_⟩)
    exact List.any_eq_true.mpr ⟨n, hn, decide_eq_true rfl⟩
  have hmissing : amountMissing s.pending s.messages = .ok false := by
    unfold amountMissing
    rw [hamount]
    cases amount with
    | null => rfl
    | _ => exact congrArg (Except.map (!·)) hstated
  unfold gate
  rw [hmissing]
  intro hrefused
  split at hrefused
  · cases hrefused
  · split at hrefused
    · exact absurd hrefused (by decide)
    · cases hrefused

/-- **Every number from a hundred on that a text says is found in it**, and an amount of as many
dollars is not refused at the gate. -/
theorem said_amount_found {text : Text} {n : Nat} (hlow : 100 ≤ n) (hsaid : Says text n) :
    n ∈ spokenAmounts text ∧
      ∀ (s : AgentState) (amount : Json), text ∈ humanTexts s.messages →
        s.pending.get? "amount" = some amount → wholeDollars amount = .ok (some (n : Int)) →
        ∀ requireConfirmation, gate requireConfirmation s ≠ .ok (.refused amountNeeded) := by
  have hfound := hsaid.found hlow
  exact ⟨hfound, fun s amount htext hamount hwhole => gate_of_said htext hamount hwhole hfound⟩

/-- A message with an amount in words. -/
def saidMessage : Text := "I'm claiming Twelve hundred and fifty-five dollars, please."

theorem says_saidMessage : Says saidMessage 1255 := by
  refine ⟨"I'm claiming ", "Twelve hundred and fifty-five", " dollars, please.",
    ["twelve", "hundred", "fifty", "five"], by decide +kernel,
    ⟨by decide +kernel, by decide +kernel⟩, ⟨by decide +kernel, by decide +kernel⟩, ?_,
    by decide +kernel, by decide +kernel⟩
  exact .mk .none .none (.some (.more (.said (.small (n := 12) (by decide)))
    (.both (n := 50) (k := 5) (by decide) (by decide) (by decide))))

/-- With a hyphen and an `and`, and a capital letter. -/
theorem said_1255_found :
    1255 ∈ spokenAmounts saidMessage ∧
      gate true { messages := [.human saidMessage], pendingWrite := some [("amount", .int 1255)] } ≠
        .ok (.refused amountNeeded) := by
  obtain ⟨hfound, hgate⟩ := said_amount_found (by decide) says_saidMessage
  exact ⟨hfound, hgate _ (.int 1255) List.mem_cons_self rfl (by decide +kernel) true⟩

end OmniCare
