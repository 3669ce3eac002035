import OmniCare.Steps

/-! # Whether a turn says anything

The worker publishes the answer of a finished turn as one token, if any text is left of it.
`parse`, `ground` and `format` each shorten that text: `parse` to the value of a key when the
reply is a JSON object, `ground` by what it can disprove, `format` to the body of a fence or
to what can be spoken.  `Config.speaks` says from the answer at hand, at each of the three
nodes, whether something is left at the end.
-/
namespace OmniCare

variable {E W : Type}

/-! ## Blank text -/

/-- The class that a blank text has no character of. -/
def isInk (c : Char) : Bool := !isSpace c

theorem any_isInk (s : Text) : s.any isInk = !Text.isBlank s := by
  rw [Text.isBlank, List.all_eq_not_any_not, Bool.not_not]
  rfl

theorem no_ink {s : Text} (h : Text.isBlank s = true) : s.any isInk = false := by
  rw [any_isInk, h]
  rfl

theorem isInk_of_sameLetter {c d : Char} (hc : isInk c = true) (h : sameLetter c d = true) :
    isInk d = true := by
  cases hd : isSpace d with
  | false => rw [isInk, hd]; rfl
  | true =>
    rw [isInk, eq_of_sameLetter_isSpace h hd, hd] at hc
    cases hc

section Patterns
open Regex

theorem needs_ink_litI {s : Text} (hs : s ≠ []) (h : s.all isInk = true) :
    (litI s).Needs isInk :=
  needs_litI hs fun c hc _ => isInk_of_sameLetter (List.all_eq_true.mp h c hc)

theorem fencePattern_needs_ink : fencePattern.Needs isInk :=
  (needs_lit (by decide) (by decide)).first.second.second

theorem citationHead_needs_ink : citationHead.Needs isInk :=
  (needs_lit (by decide) (by decide)).first.second

theorem policyPattern_needs_ink : policyPattern.Needs isInk :=
  (needs_ink_litI (by decide) (by decide)).first

/-- "I will use $…", "$… (estimated)", "estimated amount of $…", "$… as an estimate". -/
theorem estimatedAmount_needs {p : Char → Bool} (h : dollarFigure.Needs p) :
    estimatedAmount.Needs p :=
  .either h.second.second.second.second <|
    .either h.first <|
      .either h.second.second.second.second.second.second h.first

theorem estimatedAmount_needs_ink : estimatedAmount.Needs isInk :=
  estimatedAmount_needs (needs_lit (by decide) (by decide)).first

end Patterns

/-- A blank text is not a fence. -/
theorem unfence_of_isBlank {text : Text} (h : Text.isBlank text = true) :
    unfence text = ([], text) := by
  rw [unfence, fencePattern_needs_ink.matchStart_eq_none (no_ink h)]

/-! ## format -/

/-- The answer is a fence, of no language or a prose one, around nothing. -/
def emptyFence (text : Text) : Bool :=
  proseLanguages.elem (unfence text).1 && Text.isBlank (unfence text).2

/-- The channel has something of the answer to present: as text, anything but an empty fence;
spoken, what is left when Markdown is taken away. -/
def presentable (channel : Channel) (text : Text) : Bool :=
  !Text.isBlank text &&
    match channel with
    | .text => !emptyFence text
    | .voice => !Text.isBlank (stripMarkdown (unwrapJson text))

example : presentable .voice "It is covered." = true := by decide +kernel

/-- Unwrapping leaves nothing of a blank text. -/
theorem unwrapJson_of_isBlank {text : Text} (h : Text.isBlank text = true) :
    unwrapJson text = [] := by
  have hstrip : Text.strip text = [] := (Text.strip_eq_nil_iff text).mpr h
  rw [unwrapJson, unfence_of_isBlank h]
  simp only [hstrip]
  rfl

/-- Unwrapping leaves nothing of an empty fence, and something of everything else. -/
theorem isBlank_unwrapJson {text : Text} (h : Text.isBlank text = false) :
    Text.isBlank (unwrapJson text) = emptyFence text := by
  unfold unwrapJson emptyFence
  generalize unfence text = fence
  obtain ⟨language, body⟩ := fence
  dsimp only
  split
  · split
    · rename_i hprose
      rw [hprose, Text.isBlank_strip, Bool.true_and]
    · rename_i hprose
      rw [Bool.not_eq_true] at hprose
      rw [hprose, h, Bool.false_and]
  · rename_i hbrace
    have hbody : Text.isBlank body = false := by
      rw [Bool.eq_false_iff]
      intro hblank
      rw [(Text.strip_eq_nil_iff body).mpr hblank] at hbrace
      exact hbrace nofun
    rw [hbody, Bool.and_false]
    split
    · split
      · rename_i value hvalue
        obtain ⟨key, -, hkey⟩ := List.exists_of_findSome?_eq_some hvalue
        split at hkey
        · split at hkey
          · rename_i hok
            cases hkey
            rw [Text.isBlank_strip]
            simpa using hok
          · cases hkey
        · cases hkey
      · exact h
    · exact h

/-- **What `format` leaves is blank exactly if there was nothing to present.** -/
theorem isBlank_normalizeResponse (text : Text) (channel : Channel) :
    Text.isBlank (normalizeResponse text channel) = !presentable channel text := by
  unfold normalizeResponse presentable
  cases hblank : Text.isBlank text with
  | true =>
    rw [unwrapJson_of_isBlank hblank]
    split
    · rw [hblank]
      rfl
    · rw [Bool.not_true, Bool.false_and]
      cases channel <;> decide +kernel
  | false =>
    have hne : text.isEmpty = false := by
      cases text with
      | nil => cases hblank
      | cons => rfl
    rw [hne]
    cases channel with
    | text => simp [isBlank_unwrapJson hblank]
    | voice => simp

/-! ## ground -/

/-- What is left of an answer without invented citations and sentences that their own
figures disprove. -/
def AgentState.remaining (s : AgentState) (text : Text) : Text :=
  dropFalseComparisons (withoutInvented text (citationSpans text s.validCitations))

/-- There is nothing to take out of an answer: no citation is invented, no sentence is
disproved. -/
def AgentState.sound (s : AgentState) (text : Text) : Bool :=
  (citationSpans text s.validCitations).all (·.real) &&
    s.remaining text == withoutInvented text (citationSpans text s.validCitations)

/-- What `ground` keeps of an answer. -/
def AgentState.kept (s : AgentState) (text : Text) : Text :=
  if s.sound text then text else s.remaining text

/-- `ground` demands a policy number or an amount instead of the answer. -/
def AgentState.demands (s : AgentState) (text : Text) : Bool :=
  inventsPolicyNumber s (s.remaining text) || assertsAnEstimatedAmount (s.remaining text)

/-- The text that `ground` gives an answer. -/
def AgentState.groundedText (s : AgentState) (text : Text) : Text :=
  if inventsPolicyNumber s (s.remaining text) then policyNumberDemand
  else if assertsAnEstimatedAmount (s.remaining text) then amountDemand
  else s.kept text

theorem groundNode_messages {s : AgentState} {i : Nat} {text : Text}
    (final : finalAnswer s.messages = some (i, text)) :
    (groundNode s).messages =
      if !(citationSpans text s.validCitations).all (·.real) ||
          (correctedText s (withoutInvented text (citationSpans text s.validCitations))).2 then
        s.messages.set i (.ai (correctedText s
          (withoutInvented text (citationSpans text s.validCitations))).1 [])
      else s.messages := by
  have hinvented : (citationSpans text s.validCitations).any (fun span => !span.real) =
      !(citationSpans text s.validCitations).all (·.real) := by
    rw [List.all_eq_not_any_not, Bool.not_not]
  unfold groundNode
  rw [final]
  dsimp only
  rw [hinvented]
  split <;> rfl

/-- The answer is replaced by a demand, or kept as far as it is sound. -/
theorem groundNode_finalAnswer {s : AgentState} {i : Nat} {text : Text}
    (final : finalAnswer s.messages = some (i, text)) :
    finalAnswer (groundNode s).messages = some (i, s.groundedText text) := by
  rw [groundNode_messages final, correctedText, ← AgentState.remaining, AgentState.groundedText]
  generalize policyNumberDemand = numberDemand
  generalize amountDemand = amountDemand
  cases inventsPolicyNumber s (s.remaining text) with
  | true =>
    simp only [if_true, Bool.or_true]
    exact finalAnswer_set final _
  | false =>
    cases assertsAnEstimatedAmount (s.remaining text) with
    | true =>
      simp only [if_true, Bool.false_eq_true, if_false, Bool.or_true]
      exact finalAnswer_set final _
    | false =>
      simp only [Bool.false_eq_true, if_false, AgentState.kept, AgentState.sound]
      by_cases hreal : (citationSpans text s.validCitations).all (·.real) = true
      · by_cases hsame : s.remaining text =
            withoutInvented text (citationSpans text s.validCitations)
        · simp only [hreal, hsame, Bool.not_true, Bool.false_or, ne_eq, not_true, decide_false,
            Bool.false_eq_true, if_false, beq_self_eq_true, Bool.and_true, if_true]
          exact final
        · simp only [hreal, hsame, ne_eq, not_false_iff, decide_true, Bool.or_true, if_true,
            beq_eq_false_iff_ne.mpr hsame, Bool.and_false, Bool.false_eq_true, if_false]
          exact finalAnswer_set final _
      · simp only [hreal, Bool.not_false, Bool.true_or, if_true, Bool.false_and,
          Bool.false_eq_true, if_false]
        exact finalAnswer_set final _

/-- Something is left of an answer after `ground` and `format`: it is replaced by a demand, or
what is kept of it can be presented. -/
def AgentState.speaks (s : AgentState) (text : Text) : Bool :=
  s.demands text || presentable s.channel (s.kept text)

theorem presentable_of_both {text : Text}
    (h : (presentable .text text && presentable .voice text) = true) (channel : Channel) :
    presentable channel text = true := by
  rw [Bool.and_eq_true] at h
  cases channel with
  | text => exact h.1
  | voice => exact h.2

theorem presentable_policyNumberDemand (channel : Channel) :
    presentable channel policyNumberDemand = true :=
  presentable_of_both (by decide +kernel) channel

theorem presentable_amountDemand (channel : Channel) :
    presentable channel amountDemand = true :=
  presentable_of_both (by decide +kernel) channel

theorem presentable_groundedText (s : AgentState) (text : Text) :
    presentable s.channel (s.groundedText text) = s.speaks text := by
  rw [AgentState.groundedText, AgentState.speaks, AgentState.demands]
  cases inventsPolicyNumber s (s.remaining text) with
  | true =>
    rw [if_pos rfl]
    exact presentable_policyNumberDemand _
  | false =>
    rw [if_neg Bool.false_ne_true]
    cases assertsAnEstimatedAmount (s.remaining text) with
    | true =>
      rw [if_pos rfl]
      exact presentable_amountDemand _
    | false =>
      rw [if_neg Bool.false_ne_true]
      rfl

/-- What holds of every character of a text holds of every character of what is left of it without
the sentences that their own figures disprove. -/
theorem all_dropFalseComparisons {p : Char → Bool} {text : Text} (h : text.all p = true) :
    (dropFalseComparisons text).all p = true := by
  unfold dropFalseComparisons
  dsimp only
  split
  · exact h
  · refine Text.all_strip (List.all_flatten ▸ List.all_eq_true.mpr fun sentence hsentence => ?_)
    exact Regex.all_findall h (List.mem_filter.mp hsentence).1

/-- The same for a text in which no citation is invented. -/
theorem all_withoutInvented {p : Char → Bool} (hp : p ' ' = true) {text : Text}
    (h : text.all p = true) : (withoutInvented text []).all p = true := by
  have hparens : (Text.replace (Text.replace text "()" []) "[]" []).all p = true :=
    Text.all_replaceFrom rfl _ (Text.all_replaceFrom rfl _ h)
  have hruns := Regex.all_sub (r := blankRun) (f := fun _ => [' ']) hparens
    fun _ => by rw [List.all_cons, hp]; rfl
  exact Text.all_rstrip (Regex.all_sub (Text.all_strip hruns) fun _ => rfl)

/-- Taking things out of a blank text leaves it blank. -/
theorem isBlank_remaining (s : AgentState) {text : Text} (h : Text.isBlank text = true) :
    Text.isBlank (s.remaining text) = true := by
  have hspans : citationSpans text s.validCitations = [] := by
    rw [citationSpans, citationHead_needs_ink.finditer_eq_nil (no_ink h), List.map_nil]
  rw [AgentState.remaining, hspans]
  exact all_dropFalseComparisons (all_withoutInvented (by decide) h)

/-- Nothing is left of a blank answer. -/
theorem speaks_of_isBlank (s : AgentState) {text : Text} (h : Text.isBlank text = true) :
    s.speaks text = false := by
  have hremaining := isBlank_remaining s h
  have hkept : Text.isBlank (s.kept text) = true := by
    unfold AgentState.kept
    split
    · exact h
    · exact hremaining
  have hnumber : inventsPolicyNumber s (s.remaining text) = false := by
    rw [inventsPolicyNumber, policyNumbersIn, Regex.findall,
      policyPattern_needs_ink.finditer_eq_nil (no_ink hremaining)]
    rfl
  have hamount : assertsAnEstimatedAmount (s.remaining text) = false :=
    estimatedAmount_needs_ink.found_eq_false (no_ink hremaining)
  rw [AgentState.speaks, AgentState.demands, hnumber, hamount]
  unfold presentable
  rw [hkept]
  rfl

/-! ## parse -/

/-- The reply is one JSON object, by itself or in a fence, whose answer is blank. -/
def blankEnvelope (text : Text) : Bool :=
  let candidate := Text.strip (unfence text).2
  candidate.head? == some '{' &&
    match Json.loads candidate with
    | some (.obj parsed) => (firstText answerKeys (fun _ => true) parsed).any Text.isBlank
    | _ => false

/-- An object without any of the keys has no text under them. -/
theorem firstText_eq_none {keys : List Text} {ok : Text → Bool} {parsed : Dict}
    (h : keys.any parsed.has = false) : firstText keys ok parsed = none := by
  rw [firstText, List.findSome?_eq_none_iff]
  intro key hkey
  have hhas : parsed.has key = false := by
    simpa using List.any_eq_false.mp h key hkey
  have hget : parsed.get? key = none := by
    simpa [Dict.has] using hhas
  rw [hget]

/-- **What `parse` makes of a reply is blank exactly if the reply or its envelope is.** -/
theorem isBlank_parsedText {content : Text} {answer : Answer}
    (h : parseAnswer content = .ok answer) :
    Text.isBlank (parsedText answer) = (Text.isBlank content || blankEnvelope content) := by
  unfold parseAnswer at h
  split at h
  · rename_i hblank
    cases h
    rw [hblank]
    exact hblank
  · rename_i hblank
    rw [Bool.not_eq_true] at hblank
    have plain : ∀ a : Answer, a = { text := Text.strip content } →
        Text.isBlank (parsedText a) = false := by
      rintro a rfl
      exact (Text.isBlank_strip _).trans hblank
    rw [hblank, Bool.false_or, blankEnvelope]
    dsimp only at h ⊢
    split at h
    · rename_i hbrace
      cases h
      rw [plain _ rfl, beq_eq_false_iff_ne.mpr hbrace, Bool.false_and]
    · rename_i hbrace
      rw [beq_iff_eq.mpr (not_not.mp hbrace), Bool.true_and]
      -- whatever the body of the fence is, other than an object, is taken as it stands
      generalize Json.loads (Text.strip (unfence content).2) = loaded at h ⊢
      cases loaded with
      | none =>
        obtain rfl := Except.ok.inj h
        exact plain _ rfl
      | some json =>
        cases json with
        | obj parsed =>
          change parseObject content parsed = .ok answer at h
          change _ = (firstText answerKeys (fun _ => true) parsed).any Text.isBlank
          unfold parseObject at h
          split at h
          · rename_i hcall
            cases h
            have hnone : answerKeys.any (Dict.has parsed) = false := by
              simpa using (Bool.and_eq_true_iff.mp hcall).2
            rw [firstText_eq_none hnone]
            decide
          · split at h
            · rename_i hnone
              cases h
              rw [hnone]
              exact plain _ rfl
            · rename_i text hsome
              rw [hsome]
              obtain ⟨citations, -, h⟩ := exists_ok_of_bind h
              obtain ⟨confidence, -, h⟩ := exists_ok_of_bind h
              cases h
              exact Text.isBlank_strip text
        | _ =>
          obtain rfl := Except.ok.inj h
          exact plain _ rfl

/-- Something is left of a reply after all three nodes: there is something in it, also inside
its envelope, and `ground` and `format` leave something of what `parse` makes of it. -/
def AgentState.speaksFrom (s : AgentState) (content : Text) : Bool :=
  !Text.isBlank content && !blankEnvelope content &&
    match parseAnswer content with
    | .ok answer => s.speaks (parsedText answer)
    | .error _ => false

theorem speaksFrom_of_parsed {s : AgentState} {content : Text} {answer : Answer}
    (h : parseAnswer content = .ok answer) :
    s.speaksFrom content = s.speaks (parsedText answer) := by
  have hblank := isBlank_parsedText h
  rw [AgentState.speaksFrom, h, ← Bool.not_or, ← hblank]
  cases hparsed : Text.isBlank (parsedText answer) with
  | true => rw [speaks_of_isBlank s hparsed, Bool.not_true, Bool.false_and]
  | false => rw [Bool.not_false, Bool.true_and]

/-! ## The tail of the graph -/

/-- The worker publishes an answer with something in it, if the run at one of the last three
nodes comes to its end. -/
def Config.speaks (c : Config W) : Bool :=
  match finalAnswer c.state.messages with
  | none => false
  | some (_, text) =>
      match c.next with
      | .at .parse => c.state.speaksFrom text
      | .at .ground => c.state.speaks text
      | .at .format => presentable c.state.channel text
      | _ => false

/-- What `ground` makes of an answer depends on what `parse` leaves alone. -/
theorem speaks_congr {s s' : AgentState} (hchannel : s'.channel = s.channel)
    (hretrieved : s'.retrieved = s.retrieved)
    (hinvocations : s'.toolInvocations = s.toolInvocations)
    (hhuman : humanTexts s'.messages = humanTexts s.messages) (text : Text) :
    s'.speaks text = s.speaks text := by
  have hremaining : s'.remaining text = s.remaining text := by
    simp only [AgentState.remaining, AgentState.validCitations, hretrieved]
  have hsound : s'.sound text = s.sound text := by
    simp only [AgentState.sound, AgentState.validCitations, hremaining, hretrieved]
  have hkept : s'.kept text = s.kept text := by
    rw [AgentState.kept, hsound, hremaining, AgentState.kept]
  have hdemands : s'.demands text = s.demands text := by
    simp only [AgentState.demands, inventsPolicyNumber, policyNumbersStated, hremaining, hhuman,
      hinvocations]
  rw [AgentState.speaks, hdemands, hkept, hchannel, AgentState.speaks]

/-- `parse` puts the text of the unpacked answer in the place of the reply. -/
theorem parseNode_finalAnswer {s s' : AgentState} {i : Nat} {content : Text}
    (final : finalAnswer s.messages = some (i, content)) (h : parseNode s = .ok s') :
    ∃ answer, parseAnswer content = .ok answer ∧
      finalAnswer s'.messages = some (i, parsedText answer) := by
  unfold parseNode at h
  rw [final] at h
  cases hanswer : parseAnswer content with
  | error e => simp [hanswer, Except.map] at h
  | ok answer =>
    simp only [hanswer, Except.map, Except.ok.injEq] at h
    refine ⟨answer, rfl, ?_⟩
    rw [← h]
    split
    · rename_i hsame
      rw [hsame]
      exact final
    · exact finalAnswer_set final _

theorem parseNode_frame {s s' : AgentState} (h : parseNode s = .ok s') :
    s'.channel = s.channel ∧ s'.retrieved = s.retrieved ∧
      s'.toolInvocations = s.toolInvocations := by
  obtain ⟨_, _, _, rfl⟩ := parseNode_changes h
  exact ⟨rfl, rfl, rfl⟩

theorem speaks_parse {c : Config W} {s : AgentState} (here : c.next = .at .parse)
    (parsed : parseNode c.state = .ok s) : (c.goto .ground s).speaks = c.speaks := by
  have hreworded := parseNode_reworded parsed
  have hmessages : (c.goto .ground s).state.messages = s.messages := rfl
  unfold Config.speaks
  cases final : finalAnswer c.state.messages with
  | none =>
    have hnone : finalAnswer s.messages = none := by
      have := hreworded.finalAnswer_isSome
      rw [final] at this
      simpa using this
    rw [hmessages, hnone]
  | some found =>
    obtain ⟨i, content⟩ := found
    obtain ⟨answer, hanswer, hfinal⟩ := parseNode_finalAnswer final parsed
    obtain ⟨hchannel, hretrieved, hinvocations⟩ := parseNode_frame parsed
    rw [hmessages, hfinal, here]
    show s.speaks (parsedText answer) = c.state.speaksFrom content
    rw [speaksFrom_of_parsed hanswer]
    exact speaks_congr hchannel hretrieved hinvocations hreworded.humanTexts _

theorem groundNode_channel (s : AgentState) : (groundNode s).channel = s.channel := by
  obtain ⟨_, _, _, _, h⟩ := groundNode_changes s
  rw [h]

theorem speaks_ground {c : Config W} (here : c.next = .at .ground) :
    (c.goto .format (groundNode c.state)).speaks = c.speaks := by
  have hmessages : (c.goto .format (groundNode c.state)).state.messages =
      (groundNode c.state).messages := rfl
  unfold Config.speaks
  cases final : finalAnswer c.state.messages with
  | none =>
    have hnone : finalAnswer (groundNode c.state).messages = none := by
      have := (groundNode_reworded c.state).finalAnswer_isSome
      rw [final] at this
      simpa using this
    rw [hmessages, hnone]
  | some found =>
    obtain ⟨i, text⟩ := found
    rw [hmessages, groundNode_finalAnswer final, here]
    show presentable (groundNode c.state).channel (c.state.groundedText text) = _
    rw [groundNode_channel]
    exact presentable_groundedText _ _

/-! ## The answer of a run -/

/-- The text of an event that the gateway collects: tokens and prompts. -/
def RunEvent.collected? : RunEvent → Option Text
  | .token text => some text
  | .confirm _ readback => some readback
  | _ => none

def Event.collected? : Event E → Option Text
  | .published _ _ e => e.collected?
  | _ => none

/-- `_collect`: the REST answer of a run. -/
def restAnswer (es : List (Event E)) : Text := Text.strip (es.filterMap Event.collected?).flatten

/-- A token with something in it is published. -/
def SaysSomething (es : List (Event E)) : Prop :=
  ∃ runId seq text, .published runId seq (.token text) ∈ es ∧ Text.isBlank text = false

theorem collected_publish (runId : Text) (seq : Nat) (es : List RunEvent) :
    (publish runId seq es : List (Event E)).filterMap Event.collected? =
      es.filterMap RunEvent.collected? := by
  induction es generalizing seq with
  | nil => rfl
  | cons e es ih =>
    rw [publish, List.filterMap_cons, List.filterMap_cons, ih]
    rfl

/-- Where nothing is collected, nothing is said. -/
theorem not_saysSomething {es : List (Event E)} (h : es.filterMap Event.collected? = []) :
    ¬ SaysSomething es := by
  rintro ⟨runId, seq, text, hmem, -⟩
  have := List.filterMap_eq_nil_iff.mp h _ hmem
  cases this

/-- Events of which nothing is collected make no difference. -/
theorem saysSomething_append {es fs : List (Event E)} (h : es.filterMap Event.collected? = []) :
    SaysSomething (es ++ fs) ↔ SaysSomething fs := by
  constructor
  · rintro ⟨runId, seq, text, hmem, htext⟩
    rcases List.mem_append.mp hmem with hmem | hmem
    · exact (not_saysSomething h ⟨runId, seq, text, hmem, htext⟩).elim
    · exact ⟨runId, seq, text, hmem, htext⟩
  · rintro ⟨runId, seq, text, hmem, htext⟩
    exact ⟨runId, seq, text, List.mem_append_right _ hmem, htext⟩

theorem restAnswer_append {es fs : List (Event E)} (h : es.filterMap Event.collected? = []) :
    restAnswer (es ++ fs) = restAnswer fs := by
  rw [restAnswer, List.filterMap_append, h, List.nil_append, restAnswer]

/-- What is published at the end of a run, besides its tools and sources. -/
def AgentState.finalText (s : AgentState) : Text := ((finalAnswer s.messages).map (·.2)).getD []

theorem collected_finishedEvents (s : AgentState) :
    (finishedEvents s).filterMap RunEvent.collected? =
      if s.finalText.isEmpty then [] else [s.finalText] := by
  have htools : (s.toolInvocations.map RunEvent.toolEnd).filterMap RunEvent.collected? = [] := by
    rw [List.filterMap_map, List.filterMap_eq_nil_iff]
    exact fun _ _ => rfl
  unfold finishedEvents AgentState.finalText
  rw [List.filterMap_append, List.filterMap_append, htools]
  split <;> rfl

/-- At the end of a run, the text left is what is said and what the gateway answers. -/
theorem finished_said (s : AgentState) (runId : Text) :
    let fs : List (Event E) := publish runId 1 (finishedEvents s) ++ [.ended .finished]
    (SaysSomething fs ↔ Text.isBlank s.finalText = false) ∧
      (restAnswer fs ≠ [] ↔ Text.isBlank s.finalText = false) := by
  intro fs
  have hcollected : fs.filterMap Event.collected? =
      if s.finalText.isEmpty then [] else [s.finalText] := by
    rw [List.filterMap_append, collected_publish, collected_finishedEvents]
    exact List.append_nil _
  cases hempty : s.finalText.isEmpty with
  | true =>
    rw [hempty, if_pos rfl] at hcollected
    have hblank : Text.isBlank s.finalText = true := by
      rw [List.isEmpty_iff.mp hempty]
      rfl
    rw [restAnswer, hcollected, hblank]
    exact ⟨iff_of_false (not_saysSomething hcollected) nofun, iff_of_false (fun h => h rfl) nofun⟩
  | false =>
    rw [hempty, if_neg Bool.false_ne_true] at hcollected
    constructor
    · constructor
      · rintro ⟨id, seq, text, hmem, htext⟩
        have hin : text ∈ fs.filterMap Event.collected? :=
          List.mem_filterMap.mpr ⟨_, hmem, rfl⟩
        rw [hcollected, List.mem_singleton] at hin
        rwa [← hin]
      · intro htext
        have htoken : RunEvent.token s.finalText ∈ finishedEvents s := by
          unfold finishedEvents AgentState.finalText at *
          simp [hempty]
        obtain ⟨i, hi⟩ := publish_of_mem (E := E) runId 1 htoken
        exact ⟨runId, i, _, List.mem_append_left _ hi, htext⟩
    · rw [restAnswer, hcollected, List.flatten_singleton, Ne, Text.strip_eq_nil_iff,
        Bool.not_eq_true]

/-! ## Runs that finish -/

/-- An action that is not a job: the job being handled goes on. -/
def goesOn (_ : Config W) : Action E → Bool
  | .job .. => false
  | _ => true

/-- One of the last three nodes is about to run. -/
def Config.InTail (c : Config W) : Prop := c.At .parse ∨ c.At .ground ∨ c.At .format

theorem formatNode_finalText (s : AgentState) :
    Text.isBlank (formatNode s).finalText =
      !match finalAnswer s.messages with
        | none => false
        | some (_, text) => presentable s.channel text := by
  unfold formatNode AgentState.finalText
  cases final : finalAnswer s.messages with
  | none =>
    dsimp only
    rw [final]
    rfl
  | some found =>
    obtain ⟨i, text⟩ := found
    dsimp only
    rw [← isBlank_normalizeResponse]
    split
    · rename_i hsame
      rw [hsame, final]
      rfl
    · rw [AgentState.messages_rewrite, finalAnswer_set final]
      rfl

/-- What has been said, once a run from the tail has ended. -/
structure TailEnd (d : Config W) (es : List (Event E)) : Prop where
  said : SaysSomething es ↔ d.speaks = true
  rest : restAnswer es ≠ [] ↔ d.speaks = true

/-- **A step of the tail goes on in the tail or ends the run**, and keeps what the end will be. -/
theorem tail_step {g : Graph E W} {d c c' : Config W} {a : Action E} {fs : List (Event E)}
    (hc : c.InTail) (hd : c.speaks = d.speaks) (hs : Step g c a c' fs) (ha : goesOn c a = true) :
    (c'.InTail ∧ c'.speaks = d.speaks ∧ fs = []) ∨
      (c'.running = none ∧ (.ended .finished ∈ fs → TailEnd d fs)) := by
  have elsewhere : ∀ {n : Node}, c.At n → n ≠ .parse → n ≠ .ground → n ≠ .format → False := by
    intro n here hparse hground hformat
    rcases hc with hc | hc | hc
    · exact hparse (Next.at.inj (here.2.symm.trans hc.2))
    · exact hground (Next.at.inj (here.2.symm.trans hc.2))
    · exact hformat (Next.at.inj (here.2.symm.trans hc.2))
  cases hs with
  | expired | resume | turn => cases ha
  | guard here | stop here | reply here | capture here | gateOff here | refused here | asked here
  | approved here | declined here | tools here | toolsFailed here | readback here =>
    exact (elsewhere here nofun nofun nofun).elim
  | parse here parsed =>
    exact .inl ⟨.inr (.inl ⟨here.1, rfl⟩), (speaks_parse here.2 parsed).trans hd, rfl⟩
  | ground here =>
    exact .inl ⟨.inr (.inr ⟨here.1, rfl⟩), (speaks_ground here.2).trans hd, rfl⟩
  | format here =>
    refine .inr ⟨rfl, fun _ => ?_⟩
    have hblank : Text.isBlank (formatNode c.state).finalText = !d.speaks := by
      rw [formatNode_finalText, ← hd, Config.speaks, here.2]
    obtain ⟨hsaid, hrest⟩ := finished_said (E := E) (formatNode c.state) c.runId
    rw [hblank, Bool.not_eq_false'] at hsaid hrest
    exact ⟨hsaid, hrest⟩
  | crash =>
    refine .inr ⟨rfl, fun hend => ?_⟩
    simp at hend

/-- Without a job, a thread that is not running stands still. -/
theorem Step.running {g : Graph E W} {c c' : Config W} {a : Action E} {fs : List (Event E)}
    (hs : Step g c a c' fs) (ha : goesOn c a = true) : c.running.isSome := by
  cases hs with
  | expired | resume | turn => cases ha
  | guard here | stop here | reply here | capture here | gateOff here | refused here | asked here
  | approved here | declined here | tools here | toolsFailed here | readback here | parse here
  | ground here | format here | crash here => exact here.1

/-- What is collected is published when the run stops. -/
theorem Step.collected {g : Graph E W} {c c' : Config W} {a : Action E} {fs : List (Event E)}
    (hs : Step g c a c' fs) (ha : goesOn c a = true) (hrun : c'.running.isSome) :
    fs.filterMap Event.collected? = [] := by
  have passing : (c.state.passing : List (Event E)).filterMap Event.collected? = [] := by
    unfold AgentState.passing
    split <;> rfl
  cases hs with
  | expired | resume | turn => cases ha
  | asked | toolsFailed | format | crash => cases hrun
  | gateOff => exact passing
  | approved => exact passing
  | tools =>
    rw [List.filterMap_map, List.filterMap_eq_nil_iff]
    exact fun _ _ => rfl
  | guard | stop | reply | capture | refused | declined | readback | parse | ground => rfl

/-- A run ends as finished only out of `format`. -/
theorem Step.finished {g : Graph E W} {c c' : Config W} {a : Action E} {fs : List (Event E)}
    (hs : Step g c a c' fs) (hend : .ended .finished ∈ fs) :
    c.At .format ∧ c'.running = none := by
  cases hs with
  | format here => exact ⟨here, rfl⟩
  | gateOff | approved =>
    simp only [AgentState.passing, List.mem_cons] at hend
    split at hend <;> simp at hend
  | expired | resume | turn | crash | asked | tools | toolsFailed => simp at hend
  | guard | stop | reply | capture | refused | declined | readback | parse | ground =>
    simp at hend

/-- A run without jobs comes to `d`, which is in the tail, and goes on from there. -/
structure ThroughTail (g : Graph E W) (c : Config W) (as : List (Action E)) (c' : Config W)
    (es : List (Event E)) (d : Config W) : Prop where
  tail : d.InTail
  split : ∃ before after es₁ es₂, as = before ++ after ∧ es = es₁ ++ es₂ ∧
    g.RunsWhere goesOn c before d es₁ ∧ g.RunsWhere goesOn d after c' es₂

theorem exists_throughTail {g : Graph E W} {c c' : Config W} {as : List (Action E)}
    {es : List (Event E)} (h : g.RunsWhere goesOn c as c' es) (hend : .ended .finished ∈ es) :
    ∃ d, ThroughTail g c as c' es d := by
  induction h with
  | initial => cases hend
  | @step as a t u es fs h hs ih =>
    rcases List.mem_append.mp hend with hend | hend
    · obtain ⟨d, htail, before, after, es₁, es₂, rfl, rfl, hbefore, hafter⟩ := ih hend
      exact ⟨d, htail, before, after ++ [a], es₁, es₂ ++ fs, List.append_assoc ..,
        List.append_assoc .., hbefore, .step hafter hs⟩
    · have here := (Graph.step_cases (restrict_eq_some.mp hs).2).finished hend |>.1
      exact ⟨t, .inr (.inr here), as, [a], es, fs, rfl, rfl, h, .single hs⟩

/-- While the thread is running, nothing has been collected. -/
theorem collected_of_running {g : Graph E W} {c c' : Config W} {as : List (Action E)}
    {es : List (Event E)} (h : g.RunsWhere goesOn c as c' es) (hrun : c'.running.isSome) :
    es.filterMap Event.collected? = [] := by
  refine h.invariant_restrict
    (I := fun c es => c.running.isSome → es.filterMap Event.collected? = []) (fun _ => rfl)
    (fun hI hs ha hrun => ?_) hrun
  have hs := Graph.step_cases hs
  rw [List.filterMap_append, hI (hs.running ha), hs.collected ha hrun]
  rfl

/-- A run that has finished has stopped. -/
theorem stopped_of_finished {g : Graph E W} {c c' : Config W} {as : List (Action E)}
    {es : List (Event E)} (h : g.RunsWhere goesOn c as c' es) (hend : .ended .finished ∈ es) :
    c'.running = none := by
  refine h.invariant_restrict (I := fun c es => .ended .finished ∈ es → c.running = none) nofun
    (fun hI hs ha hend => ?_) hend
  have hs := Graph.step_cases hs
  rcases List.mem_append.mp hend with hend | hend
  · have := hs.running ha
    rw [hI hend] at this
    cases this
  · exact (hs.finished hend).2

/-- A run from the tail that finishes leaves what its beginning leaves. -/
theorem tailEnd_of_runs {g : Graph E W} {d c' : Config W} {as : List (Action E)}
    {es : List (Event E)} (hd : d.InTail) (h : g.RunsWhere goesOn d as c' es)
    (hend : .ended .finished ∈ es) : TailEnd d es := by
  have hinv : (c'.InTail ∧ c'.speaks = d.speaks ∧ es = []) ∨
      (c'.running = none ∧ (.ended .finished ∈ es → TailEnd d es)) := by
    refine h.invariant_restrict (I := fun c es => (c.InTail ∧ c.speaks = d.speaks ∧ es = []) ∨
      (c.running = none ∧ (.ended .finished ∈ es → TailEnd d es))) (.inl ⟨hd, rfl, rfl⟩) ?_
    intro t es a u fs hI hs ha
    have hs := Graph.step_cases hs
    rcases hI with ⟨htail, hspeaks, rfl⟩ | ⟨hstopped, -⟩
    · rw [List.nil_append]
      exact tail_step htail hspeaks hs ha
    · have := hs.running ha
      rw [hstopped] at this
      cases this
  rcases hinv with ⟨-, -, rfl⟩ | ⟨-, hI⟩
  · cases hend
  · exact hI hend

/-- Whether a run has finished. -/
def finishes (es : List (Event E)) : Bool :=
  es.any fun | .ended .finished => true | _ => false

theorem mem_of_finishes {es : List (Event E)} (h : finishes es = true) : .ended .finished ∈ es := by
  obtain ⟨e, he, hfinished⟩ := List.any_eq_true.mp h
  split at hfinished
  · exact he
  · cases hfinished

end OmniCare
