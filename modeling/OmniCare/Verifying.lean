import OmniCare.Amounts
import OmniCare.Openings

/-! # Identifiers that are verified by ear

A policyholder who says a claim or policy number on the telephone is to hear it again, or to be
asked.  `guard` gives such a turn the first tier, and `readback` spells the identifier out in front
of the reply of a turn of that tier.

But a turn whose speech was understood badly is given the second tier, which nothing looks at; and a
write that is refused, or let through without arguments, leads past `readback`.
-/
namespace OmniCare

open Regex

variable {E W : Type}

/-! ## The identifier -/

/-- `normalize_claim_id(message) or normalize_policy_number(message)`. -/
def identifierIn (message : Text) : Option Text :=
  (normalizeClaimId message).or (normalizePolicyNumber message)

theorem all_isDigitChar {s : Text} (h : s.all isDigit = true) : s.all isDigitChar = true := by
  rw [List.all_eq_true] at h ⊢
  exact fun c hc => isDigitChar_of_isDigit (h c hc)

theorem wordsToDigits_digits (tokens : List Text) :
    (wordsToDigits tokens).all isDigitChar = true := by
  have number : ∀ n, (Text.ofNat n).all isDigitChar = true := fun n =>
    all_isDigitChar (all_isDigit_of_ascii (all_isDigit_ofNat n))
  have behind : ∀ n {rest : Text}, rest.all isDigitChar = true →
      (Text.ofNat n ++ rest).all isDigitChar = true := by
    intro n rest hrest
    rw [List.all_append, number, hrest]
    rfl
  fun_induction wordsToDigits tokens with
  | case1 => rfl
  | case2 token rest t hdigits ih =>
    rw [isDigits, Bool.and_eq_true] at hdigits
    rw [List.all_append, hdigits.2, ih]
    rfl
  | case3 | case4 | case5 | case7 => exact behind _ ‹_›
  | case6 => exact number _
  | case8 => assumption

theorem directPattern_captures (pre : Text) :
    (directPattern pre).Captures 1 fun digits => digits.all isDigit = true := by
  refine .second <| .second <| .second <| .second <| .second <| .first (.group ?_) rfl
  intro w v t hv ht
  obtain ⟨t', ht', ⟨hpasses, -⟩, -⟩ := mem_run_rep_char.mp hv
  obtain rfl : t = t' := List.append_cancel_right (ht.1.symm.trans hpasses)
  exact ht'.all

/-- An identifier has its prefix, a hyphen and digits. -/
theorem canonicalize_form {text pre identifier : Text} {cues : List Text}
    (h : canonicalize text pre cues = some identifier) :
    ∃ digits, identifier = Text.upper pre ++ '-' :: digits ∧ digits.all isDigitChar = true := by
  unfold canonicalize at h
  dsimp only at h
  split at h
  · rename_i direct hdirect
    cases h
    exact ⟨_, rfl, all_isDigitChar ((directPattern_captures pre).of_search hdirect)⟩
  · split at h
    · cases h
    · split at h
      · cases h
        exact ⟨_, rfl, wordsToDigits_digits _⟩
      · cases h

/-- The sentence that `readback` puts in front of a reply. -/
def readbackSentence (identifier : Text) : Text :=
  "Looking up ".toList ++ (if Text.startsWith identifier "CLM" then "claim" else "policy" : Text) ++
    ' ' :: phoneticReadback identifier ++ ['.']

theorem readbackText_eq {message content spoken : Text}
    (h : readbackText message content = some spoken) :
    ∃ identifier, identifierIn message = some identifier ∧
      spoken = readbackSentence identifier ++ ' ' :: content := by
  unfold readbackText at h
  split at h
  · cases h
  · rename_i identifier hidentifier
    dsimp only at h
    split at h
    · cases h
    · refine ⟨identifier, hidentifier, (Option.some.inj h).symm.trans ?_⟩
      unfold readbackSentence
      generalize phoneticReadback identifier = spoken
      simp only [List.append_assoc, List.cons_append, List.nil_append]
      rfl

/-! ## How the sentence is written -/

/-- A word of the sentence with a space or the full stop behind it. -/
theorem apart_append {word rest : Text} (hword : word.IsChain MayFollow) (hspace : ' ' ∉ word)
    (hhead : ∀ x ∈ rest.head?, x = ' ' ∨ x = '.') (hrest : rest.IsChain MayFollow) :
    (word ++ rest).IsChain MayFollow := by
  refine hword.append hrest fun x hx y hy => ?_
  have hx : x ≠ ' ' := fun heq => hspace (heq ▸ List.mem_of_getLast? hx)
  have hy : isFigureChar y = false := by
    rcases hhead y hy with rfl | rfl <;> decide
  exact ⟨fun h => hx h.1, fun h => Bool.false_ne_true (hy.symm.trans h.2)⟩

/-- The word for a digit. -/
theorem digitWord_written {d : Char} (hd : isDigitChar d = true) :
    (digitWord d).IsChain MayFollow ∧ ' ' ∉ digitWord d ∧ digitWord d ≠ [] ∧
      (digitWord d).all isSpokenChar = true := by
  unfold digitWord
  split
  all_goals try decide
  refine ⟨.singleton _, ?_, List.cons_ne_nil _ _, ?_⟩
  · rw [List.mem_singleton]
    rintro rfl
    exact absurd hd (by decide)
  · rw [List.all_cons, isSpokenChar, hd]
    rfl

/-- The digits of the sentence, up to its full stop. -/
theorem digitWords_written {digits : Text} (h : digits.all isDigitChar = true) :
    (Text.join [' '] (digits.map digitWord) ++ ['.']).IsChain MayFollow ∧
      (Text.join [' '] (digits.map digitWord) ++ ['.']).head? ≠ some ' ' ∧
      (Text.join [' '] (digits.map digitWord)).all isSpokenChar = true := by
  induction digits with
  | nil => decide
  | cons d digits ih =>
    rw [List.all_cons, Bool.and_eq_true] at h
    obtain ⟨hchain, hspace, hne, hall⟩ := digitWord_written h.1
    have hhead : ∀ rest : Text, (digitWord d ++ rest).head? ≠ some ' ' := by
      intro rest heq
      rw [List.head?_append_of_ne_nil _ hne] at heq
      exact hspace (List.mem_of_head? heq)
    cases digits with
    | nil =>
      rw [List.map_singleton, Text.join, List.intercalate_singleton]
      exact ⟨apart_append hchain hspace (by simp) (.singleton _), hhead _, hall⟩
    | cons e digits =>
      obtain ⟨hchain', hhead', hall'⟩ := ih h.2
      have hjoin : Text.join [' '] ((d :: e :: digits).map digitWord) =
          digitWord d ++ ' ' :: Text.join [' '] ((e :: digits).map digitWord) := by
        rw [List.map_cons, List.map_cons, Text.join, List.intercalate_cons_cons,
          List.append_assoc]
        rfl
      rw [hjoin, List.append_assoc, List.cons_append]
      refine ⟨apart_append hchain hspace (by simp) ?_, hhead _, ?_⟩
      · -- one space, and the next word behind it
        refine List.isChain_cons.mpr ⟨fun y hy => ⟨fun hspaces => ?_, fun hdigit =>
          absurd hdigit.1 (by decide)⟩, hchain'⟩
        exact hhead' (hspaces.2 ▸ hy)
      · rw [List.all_append, List.all_cons, hall, hall']
        rfl

/-- **The sentence that `readback` puts in front is an opening.** -/
theorem readbackSentence_opening {message identifier : Text}
    (h : identifierIn message = some identifier) : Opening (readbackSentence identifier) := by
  have written : ∀ (front : Text) {digits : Text}, front.head? = some 'L' →
      front.all isSpokenChar = true → front.IsChain MayFollow → front.getLast? = some ' ' →
      digits.all isDigitChar = true →
      Opening (front ++ Text.join [' '] (digits.map digitWord) ++ ['.']) := by
    intro front digits hhead hall hchain hlast hdigits
    obtain ⟨hchain', hhead', hall'⟩ := digitWords_written hdigits
    refine ⟨?_, ⟨_, rfl, ?_⟩, ?_⟩
    · rw [List.append_assoc, List.head?_append, hhead]
      rfl
    · rw [List.all_append, hall, hall']
      rfl
    · rw [List.append_assoc]
      refine hchain.append hchain' fun x hx y hy => ?_
      rw [hlast] at hx
      cases hx
      exact ⟨fun hspaces => hhead' (hspaces.2 ▸ hy), fun hdigit => absurd hdigit.1 (by decide)⟩
  have claim : ∀ digits : Text, readbackSentence ("CLM".toList ++ '-' :: digits) =
      "Looking up claim C-L-M, ".toList ++ Text.join [' '] (digits.map digitWord) ++ ['.'] :=
    fun _ => rfl
  have policy : ∀ digits : Text, readbackSentence ("POL".toList ++ '-' :: digits) =
      "Looking up policy P-O-L, ".toList ++ Text.join [' '] (digits.map digitWord) ++ ['.'] :=
    fun _ => rfl
  rcases Option.or_eq_some_iff.mp h with hclaim | ⟨-, hpolicy⟩
  · obtain ⟨digits, rfl, hdigits⟩ := canonicalize_form hclaim
    have hopening := written "Looking up claim C-L-M, " rfl (by decide) (by decide) rfl
      hdigits
    rw [← claim] at hopening
    exact hopening
  · obtain ⟨digits, rfl, hdigits⟩ := canonicalize_form hpolicy
    have hopening := written "Looking up policy P-O-L, " rfl (by decide) (by decide) rfl
      hdigits
    rw [← policy] at hopening
    exact hopening

/-! ## What the policyholder hears -/

/-- **The policyholder hears the identifier**, from the final answer that `readback` is given.

With the sentence of `readback` in front of it, `ground` must demand nothing of the answer.
Without, the answer itself must say the identifier, and go on saying it when `ground` and `format`
have taken out of it what they do. -/
def AgentState.readsAloud (s : AgentState) (content : Text) : Bool :=
  if s.readsBack content then (s.demandFor (Text.strip (s.replyRead content))).isNone
  else
    match parseAnswer content with
    | .error _ => true
    | .ok answer =>
        (s.demandFor (parsedText answer)).isNone &&
          (identifierIn (lastHuman s.messages)).all fun identifier =>
            Text.contains (normalizeResponse (s.kept (parsedText answer)) s.channel)
              (phoneticReadback identifier)

theorem groundedText_of_no_demand {s : AgentState} {text : Text}
    (h : (s.demandFor text).isNone = true) : s.groundedText text = s.kept text := by
  unfold AgentState.demandFor at h
  unfold AgentState.groundedText
  split at h
  · cases h
  · rename_i hnumber
    rw [if_neg hnumber]
    split at h
    · cases h
    · rename_i hamount
      rw [if_neg hamount]

theorem contains_readbackSentence (identifier rest : Text) :
    Text.contains (readbackSentence identifier ++ rest) (phoneticReadback identifier) = true := by
  have heq : readbackSentence identifier ++ rest = ("Looking up ".toList ++
      (if Text.startsWith identifier "CLM" then "claim" else "policy" : Text) ++ [' ']) ++
        phoneticReadback identifier ++ '.' :: rest := by
    unfold readbackSentence
    generalize phoneticReadback identifier = spoken
    simp only [List.append_assoc, List.cons_append, List.nil_append]
  rw [heq]
  exact contains_append _ _ _

/-- **The sentence is heard.** -/
theorem heard_of_readsBack {s : AgentState} {content identifier : Text} {answer : Answer}
    (hidentifier : identifierIn (lastHuman s.messages) = some identifier)
    (hback : s.readsBack content = true)
    (hanswer : parseAnswer (s.replyRead content) = .ok answer)
    (hdemand : (s.demandFor (Text.strip (s.replyRead content))).isNone = true) :
    Text.contains (normalizeResponse (s.groundedText (parsedText answer)) s.channel)
      (phoneticReadback identifier) = true := by
  have hread := hback
  unfold AgentState.readsBack at hread
  simp only [Bool.and_eq_true, beq_iff_eq] at hread
  obtain ⟨⟨hvoice, -⟩, hspoken⟩ := hread
  obtain ⟨spoken, hspoken⟩ := Option.isSome_iff_exists.mp hspoken
  rw [AgentState.replyRead, if_pos hback, hspoken, Option.getD_some] at hanswer hdemand
  -- `parse` takes it for prose
  rw [parseAnswer_readback hspoken] at hanswer
  cases hanswer
  obtain ⟨identifier', hsame, rfl⟩ := readbackText_eq hspoken
  rw [hidentifier] at hsame
  cases hsame
  have hopening := readbackSentence_opening hidentifier
  obtain ⟨rest, hstrip, hprefix⟩ := hopening.strip (' ' :: content)
  have hrest : rest.head?.all (· == ' ') = true := by
    obtain ⟨tail, htail⟩ := hprefix
    cases rest with
    | nil => rfl
    | cons c rest =>
      cases htail
      rfl
  rw [hstrip] at hdemand
  obtain ⟨rest₁, h₁⟩ := hopening.groundedText hrest (Option.isNone_iff_eq_none.mp hdemand)
  obtain ⟨rest₂, h₂⟩ := hopening.normalizeResponse rest₁
  show Text.contains (normalizeResponse (s.groundedText (Text.strip _)) s.channel) _ = true
  rw [hstrip, h₁, hvoice, h₂]
  exact contains_readbackSentence identifier rest₂

theorem heard_of_endsAs {s : AgentState} {c : Config W} {i : Nat} {content identifier : Text}
    (final : finalAnswer s.messages = some (i, content))
    (hidentifier : identifierIn (lastHuman s.messages) = some identifier)
    (haloud : s.readsAloud content = true) (h : EndsAs s c) :
    Text.contains c.state.finalText (phoneticReadback identifier) = true := by
  obtain ⟨answer, hanswer, hsaid⟩ := said_of_endsAs final h
  rw [hsaid]
  unfold AgentState.readsAloud at haloud
  by_cases hback : s.readsBack content = true
  · rw [if_pos hback] at haloud
    exact heard_of_readsBack hidentifier hback hanswer haloud
  · rw [if_neg hback] at haloud
    rw [AgentState.replyRead, if_neg hback] at hanswer
    rw [hanswer, hidentifier] at haloud
    obtain ⟨hdemand, hheard⟩ := Bool.and_eq_true_iff.mp haloud
    rw [groundedText_of_no_demand hdemand]
    exact hheard

/-! ## Every turn -/

/-- The turn has been verified: it pauses for a confirmation, or the policyholder hears the
identifier. -/
def Verified (identifier : Text) (c : Config W) (es : List (Event E)) : Prop :=
  .ended .paused ∈ es ∨ Text.contains c.state.finalText (phoneticReadback identifier) = true

/-- A step on the way to a verification: `confirm` asks, or lets a write with arguments through,
and behind `readback` the policyholder hears the identifier. -/
def verifies (g : Graph E W) (c : Config W) (a : Action E) : Bool :=
  match c.next, a with
  | .at .confirm, .go =>
      match gate g.requireConfirmation c.state with
      | .ok .off => !c.state.pending.isEmpty
      | .ok (.refused _) => false
      | .ok (.ask _) | .error _ => true
  | .at .readback, .go =>
      (finalAnswer c.state.messages).all fun answer => c.state.readsAloud answer.2
  | _, _ => true

/-- The turn of a job is on its way to `readback`. -/
structure OnTheWay (j : Job) (c : Config W) : Prop where
  human : lastHuman c.state.messages = j.message
  fresh : c.resume = none
  at_node : ∀ n, c.next = .at n →
    n = .guard ∨ n = .agent ∨ n = .capture ∨ n = .confirm ∨ n = .tools ∨ n = .readback
  answered : c.next = .at .readback → (finalAnswer c.state.messages).isSome

/-- The answer at `readback` says the identifier. -/
structure ReadAloud (identifier : Text) (s : AgentState) : Prop where
  carries : identifierIn (lastHuman s.messages) = some identifier
  aloud : ∃ i content, finalAnswer s.messages = some (i, content) ∧ s.readsAloud content = true

theorem onTheWay_step {g : Graph E W} {j : Job} {c c' : Config W} {a : Action E}
    {fs : List (Event E)} (allowed : (screen j.message).allowed = true)
    (hc : OnTheWay j c) (hs : Step g c a c' fs) (ha : goesOn c a = true)
    (hv : verifies g c a = true) :
    OnTheWay j c' ∨ (c.At .readback ∧ a = .go ∧ c' = c.goto .parse (readbackNode c.state)) ∨
      (c'.running = none ∧ .ended .finished ∉ fs) := by
  have human : lastHuman c'.state.messages = j.message := by
    rw [← hc.human, lastHuman, lastHuman, hs.humanTexts_eq ha]
  have elsewhere : ∀ {n : Node}, c.At n → n = .parse ∨ n = .ground ∨ n = .format → False := by
    intro n here hn
    rcases hc.at_node n here.2 with rfl | rfl | rfl | rfl | rfl | rfl <;> simp at hn
  have quiet : .ended .finished ∉ fs := fun hend =>
    elsewhere (hs.finished hend).1 (.inr (.inr rfl))
  -- to a node on the way that is not `readback`
  have on : ∀ {n : Node}, c'.resume = none → c'.next = .at n → n = .agent ∨ n = .capture ∨
      n = .confirm ∨ n = .tools → OnTheWay j c' := by
    intro n hresume hnext hn
    refine ⟨human, hresume, fun m hm => ?_, fun hback => ?_⟩
    · cases Next.at.inj (hnext.symm.trans hm)
      exact .inr (by tauto)
    · cases Next.at.inj (hnext.symm.trans hback)
      simp at hn
  cases hs with
  | expired | resume | turn => cases ha
  | guard here =>
    have hagent : routeAfterGuard (guardNode c.state) = .agent := by
      have hopen := (guardNode_allowed (s := c.state) (by rw [hc.human]; exact allowed)).2.1
      rw [routeAfterGuard, hopen]
      rfl
    exact .inl (on hc.fresh (congrArg Next.at hagent) (.inl rfl))
  | stop here =>
    refine .inl ⟨human, hc.fresh, fun n hn => ?_, fun _ => ?_⟩
    · cases hn
      simp
    · show (finalAnswer (c.state.messages ++ [.ai iterationStop []])).isSome
      rw [finalAnswer_append_answer]
      rfl
  | @reply r here =>
    refine .inl ?_
    by_cases hback : routeAfterAgent (agentNode c.state r) = .readback
    · refine ⟨human, hc.fresh, fun n hn => ?_, fun _ => ?_⟩
      · cases hn
        rw [hback]
        simp
      · have hcalls : r.toolCalls = [] := by
          have hlast : lastCalls (agentNode c.state r).messages = r.toolCalls :=
            lastCalls_append_singleton _ _
          unfold routeAfterAgent at hback
          dsimp only at hback
          rw [hlast] at hback
          split at hback
          · exact List.isEmpty_iff.mp ‹_›
          · split at hback <;> cases hback
        show (finalAnswer (c.state.messages ++ [.ai r.content r.toolCalls])).isSome
        rw [hcalls, finalAnswer_append_answer]
        rfl
    · refine on (n := routeAfterAgent (agentNode c.state r)) hc.fresh rfl ?_
      unfold routeAfterAgent at hback ⊢
      dsimp only at hback ⊢
      split at hback
      · exact absurd rfl hback
      · rename_i hcalls
        rw [if_neg hcalls]
        split <;> simp
  | capture => exact .inl (on hc.fresh rfl (.inr (.inr (.inl rfl))))
  | gateOff here off =>
    have hpending : c.state.pending.isEmpty = false := by
      unfold verifies gate at hv
      rw [here.2, off] at hv
      simpa using hv
    refine .inl (on (n := .tools) hc.fresh ?_ (.inr (.inr (.inr rfl))))
    have hroute : routeAfterConfirm c.state.passGate = .tools := by
      have hsame : c.state.passGate.pending = c.state.pending := rfl
      rw [routeAfterConfirm, hsame, hpending]
      rfl
    exact congrArg Next.at hroute
  | refused here hgate =>
    unfold verifies at hv
    rw [here.2, hgate] at hv
    cases hv
  | approved here hgate given | declined here hgate given =>
    rw [hc.fresh] at given
    cases given
  | tools => exact .inl (on hc.fresh rfl (.inl rfl))
  | asked | toolsFailed | crash => exact .inr (.inr ⟨rfl, quiet⟩)
  | readback here => exact .inr (.inl ⟨here, rfl, rfl⟩)
  | parse here => exact (elsewhere here (.inl rfl)).elim
  | ground here => exact (elsewhere here (.inr (.inl rfl))).elim
  | format here => exact (elsewhere here (.inr (.inr rfl))).elim

/-- How far the turn of a job has come: on its way to `readback`, behind it with an answer that says
the identifier, or at its end. -/
inductive Progress (j : Job) (identifier : Text) (c : Config W) (es : List (Event E)) : Prop
  | coming (way : OnTheWay j c) (quiet : .ended .finished ∉ es)
  | past {s : AgentState} (aloud : ReadAloud identifier s) (past : PastReadback s c)
      (quiet : .ended .finished ∉ es)
  | ended (stopped : c.running = none)
      (heard : .ended .finished ∈ es → ∃ s, ReadAloud identifier s ∧ EndsAs s c)

theorem progress_step {g : Graph E W} {j : Job} {identifier : Text} {c c' : Config W}
    {a : Action E} {es fs : List (Event E)} (allowed : (screen j.message).allowed = true)
    (carries : identifierIn j.message = some identifier) (h : Progress j identifier c es)
    (hs : Step g c a c' fs) (ha : goesOn c a = true) (hv : verifies g c a = true) :
    Progress j identifier c' (es ++ fs) := by
  have still : .ended .finished ∉ es → .ended .finished ∉ fs → .ended .finished ∉ es ++ fs :=
    fun hes hfs hend => (List.mem_append.mp hend).elim hes hfs
  cases h with
  | coming way quiet =>
    have quiet' : .ended .finished ∉ fs := by
      intro hend
      have hformat := way.at_node _ (hs.finished hend).1.2
      simp at hformat
    rcases onTheWay_step allowed way hs ha hv with way' | ⟨here, rfl, rfl⟩ | ⟨stopped, -⟩
    · exact .coming way' (still quiet quiet')
    · obtain ⟨⟨i, content⟩, final⟩ := Option.isSome_iff_exists.mp (way.answered here.2)
      unfold verifies at hv
      rw [here.2, final] at hv
      exact .past ⟨by rw [way.human]; exact carries, i, content, final, hv⟩
        (.parse ⟨here.1, rfl⟩ rfl) (still quiet quiet')
    · exact .ended stopped fun hend => absurd hend (still quiet quiet')
  | past aloud hpast quiet =>
    rcases pastReadback_step hpast hs ha with ⟨hpast', quiet'⟩ | ⟨stopped, hends⟩
    · exact .past aloud hpast' (still quiet quiet')
    · exact .ended stopped fun hend =>
        ⟨_, aloud, hends ((List.mem_append.mp hend).resolve_left quiet)⟩
  | ended stopped =>
    have hrunning := hs.running ha
    rw [stopped] at hrunning
    cases hrunning

/-- The status of a claim is asked for on the telephone. -/
def askedAloud (confidence : ℚ) : Job :=
  { runId := "r1", message := "Is claim CLM-8821 approved?", channel := .voice
    sttConfidence := some confidence }

/-- A turn that answers it. -/
def answeredAloud : List (Action Unit) := [.go, .reply ⟨"It is approved.", []⟩, .go, .go, .go, .go]

/-- A turn that was understood well goes through, and the identifier is heard. -/
theorem clear_speech_heard :
    ∃ c es, bareGraph.RunsWhere (fun c a => goesOn c a && verifies bareGraph c a)
        ((newThread ()).startTurn (askedAloud (9 / 10))) answeredAloud c es ∧
      .ended .finished ∈ es ∧
        Text.contains c.state.finalText (phoneticReadback "CLM-8821") = true := by
  obtain ⟨c, es, h, hp⟩ := exists_run_of_play
    (restrict (fun c a => goesOn c a && verifies bareGraph c a) bareGraph.step)
    ((newThread ()).startTurn (askedAloud (9 / 10))) answeredAloud
    (fun c es => finishes es ∧
      Text.contains c.state.finalText (phoneticReadback "CLM-8821") = true)
    (by decide +kernel)
  obtain ⟨hend, hheard⟩ := of_decide_eq_true hp
  exact ⟨c, es, h, mem_of_finishes hend, hheard⟩

theorem askedAloud_allowed (confidence : ℚ) :
    (screen (askedAloud confidence).message).allowed = true := by
  have hallowed : (screen "Is claim CLM-8821 approved?").allowed = true := by decide
  exact hallowed

theorem askedAloud_carries (confidence : ℚ) :
    identifierIn (askedAloud confidence).message = some "CLM-8821".toList := by
  have hcarries : identifierIn "Is claim CLM-8821 approved?" = some "CLM-8821".toList := by
    decide
  exact hcarries

/-- Whether a run has paused. -/
def pauses (es : List (Event E)) : Bool :=
  es.any fun | .ended .paused => true | _ => false

theorem not_mem_of_pauses {es : List (Event E)} (h : pauses es = false) : .ended .paused ∉ es :=
  fun hmem => Bool.false_ne_true (h.symm.trans (List.any_eq_true.mpr ⟨_, hmem, rfl⟩))

end OmniCare
