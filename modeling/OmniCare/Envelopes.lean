import OmniCare.Scanning
import OmniCare.Speaking

/-! # Answers inside an envelope

A reply may be a JSON object, by itself or in a code fence, with the answer under a key.  `parse`
takes the answer out under the keys of `_ANSWER_KEYS`, `format` under those of `_TEXT_KEYS`; before
them `readback` may put a sentence in front of the reply, and between them `ground` takes things out
of it.  `envelope_opened` says when what is published is made from the answer, and what `ground`
reads instead where it is not.
-/
namespace OmniCare

variable {E W : Type}

/-! ## Envelopes -/

/-- The object that is the whole reply, by itself or in one code fence. -/
def envelope (text : Text) : Option Dict :=
  let candidate := Text.strip (unfence text).2
  if candidate.head? ≠ some '{' then none
  else
    match Json.loads candidate with
    | some (.obj parsed) => some parsed
    | _ => none

example : envelope "It is covered." = none := by decide +kernel

/-- The answers in an object: the texts that are not blank, under the keys that `parse_answer` or
`unwrap_json` knows. -/
def answersIn (parsed : Dict) : List Text :=
  (answerKeys ++ textKeys).filterMap fun key =>
    firstText [key] (fun value => !Text.isBlank value) parsed

theorem mem_answersIn {keys : List Text} {ok : Text → Bool} {parsed : Dict} {value : Text}
    (hkeys : ∀ key ∈ keys, key ∈ answerKeys ++ textKeys) (h : firstText keys ok parsed = some value)
    (hvalue : Text.isBlank value = false) : value ∈ answersIn parsed := by
  obtain ⟨key, hkey, hfound⟩ := List.exists_of_findSome?_eq_some h
  refine List.mem_filterMap.mpr ⟨key, hkeys key hkey, ?_⟩
  rw [firstText, List.findSome?_singleton]
  split at hfound
  · split at hfound
    · cases hfound
      rw [if_pos (by rw [hvalue]; rfl)]
    · cases hfound
  · cases hfound

/-- What a channel presents of a text. -/
def Channel.present (channel : Channel) (text : Text) : Text :=
  match channel with
  | .voice => Text.strip (stripMarkdown text)
  | .text => Text.strip text

theorem normalizeResponse_eq (text : Text) (channel : Channel) :
    normalizeResponse text channel = channel.present (unwrapJson text) := by
  unfold normalizeResponse
  split
  · rename_i hempty
    rw [List.isEmpty_iff.mp hempty, unwrapJson_of_isBlank rfl]
    cases channel <;> decide +kernel
  · cases channel <;> rfl

/-- A text is made from an answer: `ground` leaves of the answer what it leaves of any, and the
channel presents that, or what is in it if it is an envelope once more. -/
def AgentState.MadeFrom (s : AgentState) (answer said : Text) : Prop :=
  let kept := s.groundedText (Text.strip answer)
  said = s.channel.present kept ∨ said = s.channel.present (unwrapJson kept)

instance (s : AgentState) (answer said : Text) : Decidable (s.MadeFrom answer said) :=
  inferInstanceAs (Decidable (_ ∨ _))

/-! ## Where the envelope comes off -/

/-- `readback` puts the read-back in front of the reply. -/
def AgentState.readsBack (s : AgentState) (content : Text) : Bool :=
  (s.channel == .voice && s.confirmationTier == 1) &&
    (readbackText (lastHuman s.messages) content).isSome

/-- A tool call written out as text, for `parse`. -/
def toolCallShaped (parsed : Dict) : Bool :=
  parsed.has "name" && parsed.has "arguments" && !answerKeys.any parsed.has

/-- `parse` takes the answer out: the first text under a key that it knows is not blank, and the
citations and the confidence can be read. -/
def parseOpens (parsed : Dict) : Bool :=
  ((firstText answerKeys (fun _ => true) parsed).any (!Text.isBlank ·)) &&
    ((citationTexts (rawCitations parsed)).isOk && (asConfidence (parsed.get? "confidence")).isOk)

/-- What `ground` demands instead of an answer. -/
def AgentState.demandFor (s : AgentState) (text : Text) : Option Text :=
  if inventsPolicyNumber s (s.remaining text) then some policyNumberDemand
  else if assertsAnEstimatedAmount (s.remaining text) then some amountDemand
  else none

/-- `ground` leaves an answer as it is. -/
def AgentState.leaves (s : AgentState) (text : Text) : Bool :=
  s.sound text && (s.demandFor text).isNone

/-- `format` takes the answer out, under a key that `parse` does not know: `ground` leaves the
trimmed reply and the answer as they are, or demands the same instead of either. -/
def AgentState.formatOpens (s : AgentState) (content : Text) (parsed : Dict) : Bool :=
  ((firstText answerKeys (fun _ => true) parsed).isNone && !toolCallShaped parsed) &&
    (firstText textKeys (fun value => !Text.isBlank value) parsed).any fun answer =>
      ((s.leaves (Text.strip content) && s.leaves (Text.strip answer)) &&
          envelope (Text.strip content) == some parsed) ||
        ((s.demandFor (Text.strip content)).isSome &&
          s.demandFor (Text.strip content) == s.demandFor (Text.strip answer))

/-- One of the two parsers takes the answer out of its envelope. -/
def AgentState.opens (s : AgentState) (content : Text) (parsed : Dict) : Bool :=
  !s.readsBack content && (parseOpens parsed || s.formatOpens content parsed)

/-! ## parse -/

theorem parseAnswer_of_envelope {content : Text} {parsed : Dict}
    (h : envelope content = some parsed) : parseAnswer content = parseObject content parsed := by
  unfold envelope at h
  dsimp only at h
  split at h
  · cases h
  · rename_i hbrace
    split at h
    · rename_i hloads
      cases h
      have hblank : Text.isBlank content = false := by
        rw [Bool.eq_false_iff]
        intro hblank
        rw [unfence_of_isBlank hblank, (Text.strip_eq_nil_iff content).mpr hblank] at hbrace
        exact hbrace nofun
      unfold parseAnswer
      rw [hblank, if_neg Bool.false_ne_true]
      dsimp only
      rw [if_neg hbrace, hloads]
    · cases h

theorem unwrapJson_of_envelope {text answer : Text} {parsed : Dict}
    (h : envelope text = some parsed)
    (hanswer : firstText textKeys (fun value => !Text.isBlank value) parsed = some answer) :
    unwrapJson text = Text.strip answer := by
  unfold envelope at h
  unfold unwrapJson
  generalize unfence text = fence at h ⊢
  obtain ⟨language, body⟩ := fence
  dsimp only at h ⊢
  split at h
  · cases h
  · rename_i hbrace
    have hloads : Json.loads (Text.strip body) = some (.obj parsed) := by
      split at h
      · rename_i hloads
        cases h
        exact hloads
      · cases h
    rw [if_neg hbrace, hloads]
    dsimp only
    rw [hanswer]

/-- What `parse` gives to `ground` of an object: the first text under its keys, the line about a
failed lookup, or the trimmed reply. -/
theorem parsedText_parseObject {content : Text} {parsed : Dict} {answer : Answer}
    (h : parseObject content parsed = .ok answer) :
    parsedText answer =
      if toolCallShaped parsed then lookupFailed
      else
        match firstText answerKeys (fun _ => true) parsed with
        | some value => Text.strip value
        | none => Text.strip content := by
  unfold parseObject at h
  unfold toolCallShaped
  split at h
  · rename_i hcall
    cases h
    rw [if_pos hcall]
    rfl
  · rename_i hcall
    rw [if_neg hcall]
    split at h
    · rename_i hnone
      cases h
      rw [hnone]
      rfl
    · rename_i value hvalue
      obtain ⟨citations, -, h⟩ := exists_ok_of_bind h
      obtain ⟨confidence, -, h⟩ := exists_ok_of_bind h
      cases h
      rw [hvalue]
      rfl

theorem exists_ok_of_isOk {ε α : Type} {x : Except ε α} (h : x.isOk = true) : ∃ a, x = .ok a := by
  cases x with
  | error e => cases h
  | ok a => exact ⟨a, rfl⟩

/-- An object whose answer `parse` takes out. -/
theorem parseObject_of_opens {parsed : Dict} (h : parseOpens parsed = true) (content : Text) :
    ∃ value answer, firstText answerKeys (fun _ => true) parsed = some value ∧
      Text.isBlank value = false ∧ parseObject content parsed = .ok answer ∧
      parsedText answer = Text.strip value := by
  unfold parseOpens at h
  simp only [Bool.and_eq_true] at h
  obtain ⟨hvalue, hcitations, hconfidence⟩ := h
  obtain ⟨value, hvalue, hblank⟩ := (Option.any_eq_true _ _).mp hvalue
  -- an answer key is there, so this is no tool call
  have hcall : (parsed.has "name" && parsed.has "arguments" && !answerKeys.any parsed.has) =
      false := by
    rw [Bool.and_eq_false_iff]
    right
    rw [Bool.not_eq_false', ← Bool.not_eq_false]
    intro hnone
    rw [firstText_eq_none hnone] at hvalue
    cases hvalue
  obtain ⟨citations, hcitations⟩ := exists_ok_of_isOk hcitations
  obtain ⟨confidence, hconfidence⟩ := exists_ok_of_isOk hconfidence
  have hparse : ∃ answer, parseObject content parsed = .ok answer := by
    unfold parseObject
    rw [hcall, if_neg Bool.false_ne_true, hvalue]
    dsimp only
    rw [hcitations, hconfidence]
    exact ⟨_, rfl⟩
  obtain ⟨answer, hanswer⟩ := hparse
  refine ⟨value, answer, hvalue, by simpa using hblank, hanswer, ?_⟩
  rw [parsedText_parseObject hanswer, toolCallShaped, hcall, if_neg Bool.false_ne_true, hvalue]

/-- Where `parse` reads an object without taking an answer out, the text it takes out is blank. -/
theorem isBlank_of_not_opens {content value : Text} {parsed : Dict} {answer : Answer}
    (hopens : parseOpens parsed = false) (hcall : toolCallShaped parsed = false)
    (hvalue : firstText answerKeys (fun _ => true) parsed = some value)
    (h : parseObject content parsed = .ok answer) : Text.isBlank value = true := by
  unfold toolCallShaped at hcall
  unfold parseObject at h
  rw [hcall, if_neg Bool.false_ne_true, hvalue] at h
  obtain ⟨citations, hcitations, h⟩ := exists_ok_of_bind h
  obtain ⟨confidence, hconfidence, h⟩ := exists_ok_of_bind h
  unfold parseOpens at hopens
  rw [hvalue, hcitations, hconfidence] at hopens
  simpa [Except.isOk, Except.toBool] using hopens

/-! ## readback -/

/-- A text that begins with neither a space nor a backtick is no fence. -/
theorem unfence_of_head {c : Char} {text : Text} (hspace : isSpace c = false) (htick : c ≠ '`') :
    unfence (c :: text) = ([], c :: text) := by
  have hnone : fencePattern.matchStart (c :: text) = none := by
    rw [Regex.matchStart, Regex.matchAt, Option.map_eq_none_iff, List.head?_eq_none_iff,
      List.eq_nil_iff_forall_not_mem]
    intro w hw
    obtain ⟨u, hu, hw⟩ := Regex.mem_run_seq.mp hw
    obtain ⟨v, hv, hw⟩ := Regex.mem_run_seq.mp hw
    obtain ⟨x, hx, -⟩ := Regex.mem_run_seq.mp hw
    obtain ⟨y, hy, -⟩ := Regex.mem_run_seq.mp hx
    have hstart : u = ⟨.start (c :: text), []⟩ := by
      unfold Regex.atStart Regex.run at hu
      split at hu
      · exact List.mem_singleton.mp hu
      · cases hu
    obtain ⟨blanks, hblanks, ⟨hpasses, -⟩, -⟩ := Regex.mem_run_rep_char.mp hv
    obtain ⟨tick, htick', ⟨hticks, -⟩, -⟩ := Regex.mem_run_char.mp hy
    have hafter : c :: text = blanks ++ v.cursor.after := by rwa [hstart] at hpasses
    cases blanks with
    | nil =>
      -- the backtick would be the first character
      rw [List.nil_append, hticks] at hafter
      cases hafter
      exact htick (eq_of_beq htick')
    | cons b blanks =>
      cases hafter
      have hall := hblanks.all
      rw [List.all_cons, hspace] at hall
      cases hall
  rw [unfence, hnone]

/-- A text that begins with no space begins the same when it is trimmed. -/
theorem strip_head {c : Char} (hspace : isSpace c = false) (text : Text) :
    ∃ rest, Text.strip (c :: text) = c :: rest := by
  have hleft : Text.lstripBy isSpace (c :: text) = c :: text := by
    rw [Text.lstripBy, List.dropWhile_cons_of_neg (by rw [hspace]; exact Bool.false_ne_true)]
  have hlast : [c].dropWhile isSpace = [c] :=
    List.dropWhile_cons_of_neg (by rw [hspace]; exact Bool.false_ne_true)
  unfold Text.strip Text.stripBy Text.rstripBy
  rw [hleft, List.reverse_cons, List.dropWhile_append, hlast]
  split
  · exact ⟨[], rfl⟩
  · exact ⟨_, by rw [List.reverse_append]; rfl⟩

/-- With the read-back in front of it, a reply is prose for `parse`. -/
theorem parseAnswer_readback {message content spoken : Text}
    (h : readbackText message content = some spoken) :
    parseAnswer spoken = .ok { text := Text.strip spoken } := by
  have hL : ∃ rest, spoken = 'L' :: rest := by
    unfold readbackText at h
    split at h
    · cases h
    · dsimp only at h
      split at h
      · cases h
      · cases h
        exact ⟨_, rfl⟩
  obtain ⟨rest, rfl⟩ := hL
  obtain ⟨tail, htail⟩ := strip_head (c := 'L') (by decide) rest
  have hblank : Text.isBlank ('L' :: rest) = false := rfl
  unfold parseAnswer
  rw [hblank, if_neg Bool.false_ne_true, unfence_of_head (by decide) (by decide)]
  dsimp only
  rw [htail, if_pos (by rw [List.head?_cons]; decide)]

/-- Where `readback` has nothing to say, it leaves the state alone. -/
theorem readbackNode_of_silent {s : AgentState} {i : Nat} {content : Text}
    (final : finalAnswer s.messages = some (i, content)) (h : s.readsBack content = false) :
    readbackNode s = s := by
  unfold readbackNode
  split
  · rfl
  · rename_i hvoice
    rw [final]
    dsimp only
    split
    · rfl
    · rename_i spoken hspoken
      unfold AgentState.readsBack at h
      rw [not_or, not_not, not_not] at hvoice
      simp [hvoice, hspoken] at h

/-- Where it has, its sentence stands in front of the reply. -/
theorem readbackNode_of_readsBack {s : AgentState} {i : Nat} {content : Text}
    (final : finalAnswer s.messages = some (i, content)) (h : s.readsBack content = true) :
    ∃ spoken, readbackText (lastHuman s.messages) content = some spoken ∧
      readbackNode s = s.rewrite i spoken := by
  unfold AgentState.readsBack at h
  simp only [Bool.and_eq_true, beq_iff_eq] at h
  obtain ⟨⟨hvoice, htier⟩, hspoken⟩ := h
  obtain ⟨spoken, hspoken⟩ := Option.isSome_iff_exists.mp hspoken
  refine ⟨spoken, hspoken, ?_⟩
  unfold readbackNode
  rw [if_neg (by simp [hvoice, htier]), final]
  dsimp only
  rw [hspoken]

/-! ## ground -/

/-- What `ground` makes of an answer depends on what the nodes before it leave alone. -/
theorem groundedText_congr {s s' : AgentState} (hretrieved : s'.retrieved = s.retrieved)
    (hinvocations : s'.toolInvocations = s.toolInvocations)
    (hhuman : humanTexts s'.messages = humanTexts s.messages) (text : Text) :
    s'.groundedText text = s.groundedText text := by
  have hremaining : s'.remaining text = s.remaining text := by
    simp only [AgentState.remaining, AgentState.validCitations, hretrieved]
  have hsound : s'.sound text = s.sound text := by
    simp only [AgentState.sound, AgentState.validCitations, hremaining, hretrieved]
  have hnumber : inventsPolicyNumber s' (s'.remaining text) =
      inventsPolicyNumber s (s.remaining text) := by
    simp only [inventsPolicyNumber, policyNumbersStated, hremaining, hhuman, hinvocations]
  unfold AgentState.groundedText AgentState.kept
  rw [hnumber, hsound, hremaining]

theorem groundedText_of_leaves {s : AgentState} {text : Text} (h : s.leaves text = true) :
    s.groundedText text = text := by
  unfold AgentState.leaves AgentState.demandFor at h
  rw [Bool.and_eq_true] at h
  obtain ⟨hsound, hdemand⟩ := h
  unfold AgentState.groundedText AgentState.kept
  rw [hsound, if_pos rfl]
  split at hdemand
  · cases hdemand
  · rename_i hnumber
    rw [if_neg hnumber]
    split at hdemand
    · cases hdemand
    · rename_i hamount
      rw [if_neg hamount]

theorem groundedText_of_demand {s : AgentState} {text demand : Text}
    (h : s.demandFor text = some demand) : s.groundedText text = demand := by
  unfold AgentState.demandFor at h
  unfold AgentState.groundedText
  split at h
  · rename_i hnumber
    rw [if_pos hnumber]
    exact Option.some.inj h
  · rename_i hnumber
    rw [if_neg hnumber]
    split at h
    · rename_i hamount
      rw [if_pos hamount]
      exact Option.some.inj h
    · cases h

/-! ## The end of a turn -/

theorem formatNode_said {s : AgentState} {i : Nat} {text : Text}
    (final : finalAnswer s.messages = some (i, text)) :
    (formatNode s).finalText = normalizeResponse text s.channel := by
  unfold formatNode AgentState.finalText
  rw [final]
  dsimp only
  split
  · rename_i hsame
    rw [final, hsame]
    rfl
  · rw [AgentState.messages_rewrite, finalAnswer_set final]
    rfl

/-- **What the turn ends with**, from the answer that `parse` reads: what `ground` makes of it, in
the form of the channel. -/
theorem said_of_parsed {s s' : AgentState} {i : Nat} {content : Text} {answer : Answer}
    (final : finalAnswer s.messages = some (i, content))
    (hanswer : parseAnswer content = .ok answer) (parsed : parseNode s = .ok s') :
    (formatNode (groundNode s')).finalText =
      normalizeResponse (s.groundedText (parsedText answer)) s.channel := by
  obtain ⟨hchannel, hretrieved, hinvocations⟩ := parseNode_frame parsed
  obtain ⟨answer', hanswer', hfinal⟩ := parseNode_finalAnswer final parsed
  rw [hanswer] at hanswer'
  cases hanswer'
  rw [formatNode_said (groundNode_finalAnswer hfinal), groundNode_channel, hchannel,
    groundedText_congr hretrieved hinvocations (parseNode_reworded parsed).humanTexts]

/-- Where the nodes behind `readback` are, in a run from there. -/
inductive PastReadback (s : AgentState) : Config W → Prop
  | readback {c : Config W} (here : c.At .readback) (same : c.state = s) : PastReadback s c
  | parse {c : Config W} (here : c.At .parse) (read : c.state = readbackNode s) : PastReadback s c
  | ground {c : Config W} (here : c.At .ground)
      (parsed : parseNode (readbackNode s) = .ok c.state) : PastReadback s c
  | format {c : Config W} {s' : AgentState} (here : c.At .format)
      (parsed : parseNode (readbackNode s) = .ok s') (grounded : c.state = groundNode s') :
      PastReadback s c

/-- The state at the end of a run from `readback` that has finished. -/
def EndsAs (s : AgentState) (c : Config W) : Prop :=
  ∃ s', parseNode (readbackNode s) = .ok s' ∧ c.state = formatNode (groundNode s')

theorem pastReadback_step {g : Graph E W} {s : AgentState} {c c' : Config W} {a : Action E}
    {fs : List (Event E)} (hc : PastReadback s c) (hs : Step g c a c' fs) (ha : goesOn c a = true) :
    (PastReadback s c' ∧ .ended .finished ∉ fs) ∨
      (c'.running = none ∧ (.ended .finished ∈ fs → EndsAs s c')) := by
  have only : ∀ {n m : Node}, c.At n → c.At m → n = m :=
    fun hn hm => Next.at.inj (hn.2.symm.trans hm.2)
  cases hs with
  | expired | resume | turn => cases ha
  | crash =>
    refine .inr ⟨rfl, fun hend => ?_⟩
    simp at hend
  | readback here =>
    cases hc with
    | readback _ same => exact .inl ⟨.parse ⟨here.1, rfl⟩ (congrArg readbackNode same), nofun⟩
    | parse there | ground there | format there => cases only here there
  | parse here parsed =>
    cases hc with
    | parse _ read => exact .inl ⟨.ground ⟨here.1, rfl⟩ (read ▸ parsed), nofun⟩
    | readback there | ground there | format there => cases only here there
  | ground here =>
    cases hc with
    | ground _ parsed => exact .inl ⟨.format ⟨here.1, rfl⟩ parsed rfl, nofun⟩
    | readback there | parse there | format there => cases only here there
  | format here =>
    cases hc with
    | format _ parsed grounded =>
      exact .inr ⟨rfl, fun _ => ⟨_, parsed, congrArg formatNode grounded⟩⟩
    | readback there | parse there | ground there => cases only here there
  | guard here | stop here | reply here | capture here | gateOff here | refused here | asked here
  | approved here | declined here | tools here | toolsFailed here =>
    cases hc with
    | readback there | parse there | ground there | format there => cases only here there

theorem endsAs_of_runs {g : Graph E W} {c c' : Config W} {as : List (Action E)}
    {es : List (Event E)} (here : c.At .readback) (h : g.RunsWhere goesOn c as c' es)
    (hend : .ended .finished ∈ es) : EndsAs c.state c' := by
  have hinv : (PastReadback c.state c' ∧ .ended .finished ∉ es) ∨
      (c'.running = none ∧ (.ended .finished ∈ es → EndsAs c.state c')) := by
    refine h.invariant_restrict
      (I := fun c' es => (PastReadback c.state c' ∧ .ended .finished ∉ es) ∨
        (c'.running = none ∧ (.ended .finished ∈ es → EndsAs c.state c')))
      (.inl ⟨.readback here rfl, nofun⟩) ?_
    intro t es a u fs hI hs ha
    have hs := Graph.step_cases hs
    rcases hI with ⟨hpast, hquiet⟩ | ⟨hstopped, -⟩
    · rcases pastReadback_step hpast hs ha with ⟨hpast, hquiet'⟩ | ⟨hstopped, hends⟩
      · exact .inl ⟨hpast, fun h => (List.mem_append.mp h).elim hquiet hquiet'⟩
      · exact .inr ⟨hstopped, fun h => hends ((List.mem_append.mp h).resolve_left hquiet)⟩
    · have := hs.running ha
      rw [hstopped] at this
      cases this
  rcases hinv with ⟨-, hquiet⟩ | ⟨-, hends⟩
  · exact absurd hend hquiet
  · exact hends hend

theorem go_at {g : Graph E W} {c : Config W} {n : Node} (here : c.At n) :
    restrict goesOn g.step c .go = g.node c n .go := by
  obtain ⟨state, next, running, resume, world⟩ := c
  obtain ⟨hrun, rfl⟩ := here
  cases running with
  | none => cases hrun
  | some runId => rfl

theorem go_goto {g : Graph E W} {c : Config W} {n m : Node} (here : c.At m) (s : AgentState) :
    restrict goesOn g.step (c.goto n s) .go = g.node (c.goto n s) n .go := go_at ⟨here.1, rfl⟩

/-- Where `parse` succeeds, the run goes through to its end. -/
theorem exists_finished_run (g : Graph E W) {c : Config W} {s' : AgentState}
    (here : c.At .readback) (parsed : parseNode (readbackNode c.state) = .ok s') :
    ∃ c' es, g.RunsWhere goesOn c [.go, .go, .go, .go] c' es ∧ .ended .finished ∈ es := by
  have hparse : g.node (c.goto .parse (readbackNode c.state)) .parse .go =
      some (c.goto .ground s', []) := by
    have hstate : parseNode (c.goto .parse (readbackNode c.state)).state = .ok s' := parsed
    rw [Graph.node, hstate]
    rfl
  have first : g.RunsWhere goesOn c [.go] (c.goto .parse (readbackNode c.state)) [] :=
    .single (go_at here)
  have second : g.RunsWhere goesOn (c.goto .parse (readbackNode c.state)) [.go]
      (c.goto .ground s') [] := .single ((go_goto here _).trans hparse)
  have third : g.RunsWhere goesOn (c.goto .ground s') [.go] (c.goto .format (groundNode s')) [] :=
    .single (go_goto here _)
  have last : g.RunsWhere goesOn (c.goto .format (groundNode s')) [.go]
      ((c.goto .format (groundNode s')).finish (E := E) (formatNode (groundNode s'))).1
      ((c.goto .format (groundNode s')).finish (formatNode (groundNode s'))).2 :=
    .single (go_goto here _)
  exact ⟨_, _, ((first.trans second).trans third).trans last, by simp [Config.finish]⟩

/-! ## When the envelope comes off -/

/-- The reply as `parse` reads it. -/
def AgentState.replyRead (s : AgentState) (content : Text) : Text :=
  if s.readsBack content then (readbackText (lastHuman s.messages) content).getD content
  else content

theorem readbackNode_finalAnswer {s : AgentState} {i : Nat} {content : Text}
    (final : finalAnswer s.messages = some (i, content)) :
    finalAnswer (readbackNode s).messages = some (i, s.replyRead content) := by
  unfold AgentState.replyRead
  cases hback : s.readsBack content with
  | false =>
    rw [readbackNode_of_silent final hback]
    exact final
  | true =>
    obtain ⟨spoken, hspoken, hnode⟩ := readbackNode_of_readsBack final hback
    rw [hnode, hspoken]
    exact finalAnswer_set final _

/-- **What the turn ends with**, from the answer at `readback`. -/
theorem said_of_endsAs {s : AgentState} {c : Config W} {i : Nat} {content : Text}
    (final : finalAnswer s.messages = some (i, content)) (h : EndsAs s c) :
    ∃ answer, parseAnswer (s.replyRead content) = .ok answer ∧
      c.state.finalText = normalizeResponse (s.groundedText (parsedText answer)) s.channel := by
  obtain ⟨s', parsed, hstate⟩ := h
  have hfinal := readbackNode_finalAnswer final
  obtain ⟨answer, hanswer, -⟩ := parseNode_finalAnswer hfinal parsed
  have hframe : (readbackNode s).channel = s.channel ∧
      (readbackNode s).retrieved = s.retrieved ∧
      (readbackNode s).toolInvocations = s.toolInvocations := by
    obtain ⟨_, h⟩ := readbackNode_changes s
    rw [h]
    exact ⟨rfl, rfl, rfl⟩
  obtain ⟨hchannel, hretrieved, hinvocations⟩ := hframe
  refine ⟨answer, hanswer, ?_⟩
  rw [hstate, said_of_parsed hfinal hanswer parsed, hchannel,
    groundedText_congr hretrieved hinvocations (readbackNode_reworded _).humanTexts]

theorem said_of_runs {g : Graph E W} {c c' : Config W} {i : Nat} {content : Text}
    {as : List (Action E)} {es : List (Event E)} (here : c.At .readback)
    (final : finalAnswer c.state.messages = some (i, content))
    (h : g.RunsWhere goesOn c as c' es) (hend : .ended .finished ∈ es) :
    ∃ answer, parseAnswer (c.state.replyRead content) = .ok answer ∧
      c'.state.finalText =
        normalizeResponse (c.state.groundedText (parsedText answer)) c.state.channel :=
  said_of_endsAs final (endsAs_of_runs here h hend)

/-- What `parse` makes of a reply that one of the parsers opens. -/
theorem parsed_of_opens {s : AgentState} {content : Text} {parsed : Dict}
    (henvelope : envelope content = some parsed) (h : s.opens content parsed = true) :
    ∃ answer, parseAnswer (s.replyRead content) = .ok answer ∧
      ∃ value ∈ answersIn parsed,
        s.MadeFrom value (normalizeResponse (s.groundedText (parsedText answer)) s.channel) := by
  unfold AgentState.opens at h
  rw [Bool.and_eq_true, Bool.not_eq_true', Bool.or_eq_true] at h
  obtain ⟨hsilent, hopens⟩ := h
  rw [AgentState.replyRead, if_neg (by rw [hsilent]; exact Bool.false_ne_true),
    parseAnswer_of_envelope henvelope]
  rcases hopens with hopens | hopens
  · -- `parse` takes the answer out
    obtain ⟨value, answer, hvalue, hblank, hanswer, htext⟩ := parseObject_of_opens hopens content
    refine ⟨answer, hanswer, value, mem_answersIn ?_ hvalue hblank, .inr ?_⟩
    · exact fun key hkey => List.mem_append_left _ hkey
    · rw [htext, normalizeResponse_eq]
  · -- `format` does
    unfold AgentState.formatOpens at hopens
    simp only [Bool.and_eq_true, Bool.not_eq_true', Option.isNone_iff_eq_none] at hopens
    obtain ⟨⟨hnone, hcall⟩, hopens⟩ := hopens
    obtain ⟨value, hvalue, hopens⟩ := (Option.any_eq_true _ _).mp hopens
    have hblank : Text.isBlank value = false := by
      obtain ⟨key, -, hfound⟩ := List.exists_of_findSome?_eq_some hvalue
      split at hfound
      · split at hfound
        · rename_i hok
          cases hfound
          simpa using hok
        · cases hfound
      · cases hfound
    have hanswer : parseObject content parsed = .ok { text := Text.strip content } := by
      unfold parseObject
      unfold toolCallShaped at hcall
      rw [hcall, if_neg Bool.false_ne_true, hnone]
    refine ⟨_, hanswer, value, mem_answersIn ?_ hvalue hblank, ?_⟩
    · exact fun key hkey => List.mem_append_right _ hkey
    · show s.MadeFrom value (normalizeResponse (s.groundedText (Text.strip content)) s.channel)
      rw [normalizeResponse_eq]
      rw [Bool.or_eq_true] at hopens
      rcases hopens with hleaves | hdemands
      · simp only [Bool.and_eq_true, beq_iff_eq] at hleaves
        obtain ⟨⟨hreply, hkept⟩, hagain⟩ := hleaves
        left
        rw [groundedText_of_leaves hreply, groundedText_of_leaves hkept,
          unwrapJson_of_envelope hagain hvalue]
      · simp only [Bool.and_eq_true, beq_iff_eq] at hdemands
        obtain ⟨hsome, hsame⟩ := hdemands
        obtain ⟨demand, hdemand⟩ := Option.isSome_iff_exists.mp hsome
        right
        rw [groundedText_of_demand hdemand, groundedText_of_demand (hsame ▸ hdemand)]

/-- **What `ground` reads of a reply in an envelope** that is not opened: the read-back with the
whole reply behind it, the line about a failed lookup, nothing, or the whole reply. -/
def AgentState.unopened (s : AgentState) (content : Text) : List Text :=
  (readbackText (lastHuman s.messages) content).toList.map Text.strip ++
    [lookupFailed, [], Text.strip content]

/-- What `parse` makes of a reply that neither of the parsers opens. -/
theorem parsed_of_not_opens {s : AgentState} {content : Text} {parsed : Dict} {answer : Answer}
    (henvelope : envelope content = some parsed) (h : s.opens content parsed = false)
    (hanswer : parseAnswer (s.replyRead content) = .ok answer) :
    parsedText answer ∈ s.unopened content := by
  unfold AgentState.unopened
  unfold AgentState.replyRead at hanswer
  rw [List.mem_append]
  cases hback : s.readsBack content with
  | true =>
    left
    have hspoken := hback
    unfold AgentState.readsBack at hspoken
    rw [Bool.and_eq_true] at hspoken
    obtain ⟨spoken, hspoken⟩ := Option.isSome_iff_exists.mp hspoken.2
    rw [hback, if_pos rfl, hspoken, Option.getD_some, parseAnswer_readback hspoken] at hanswer
    cases hanswer
    rw [hspoken]
    exact List.mem_singleton_self _
  | false =>
    right
    rw [hback, if_neg Bool.false_ne_true, parseAnswer_of_envelope henvelope] at hanswer
    have hparse : parseOpens parsed = false := by
      unfold AgentState.opens at h
      rw [hback, Bool.not_false, Bool.true_and, Bool.or_eq_false_iff] at h
      exact h.1
    rw [parsedText_parseObject hanswer]
    split
    · exact List.mem_cons_self
    · rename_i hcall
      rw [Bool.not_eq_true] at hcall
      cases hvalue : firstText answerKeys (fun _ => true) parsed with
      | none => simp
      | some value =>
        have hblank := isBlank_of_not_opens hparse hcall hvalue hanswer
        dsimp only
        rw [(Text.strip_eq_nil_iff value).mpr hblank]
        simp

/-- A reply in an envelope. -/
def envelopedReply : Text := "\x7b\"answer\": \"It is approved.\"\x7d"

/-- What is in it. -/
def envelopedAnswer : Dict := [("answer", .str "It is approved.")]

/-- A question about a claim, and the reply. -/
def askedAbout (channel : Channel) : List (Action Unit) :=
  [.job { runId := "r1", message := "Is claim CLM-8821 approved?", channel } 0 true, .go,
    .reply ⟨envelopedReply, []⟩]

end OmniCare
