import Mathlib.Data.List.Induction
import OmniCare.Steps

/-! # Whose answer is rewritten

`parse`, `ground`, `format` and the worker all take the last assistant message without tool
calls for the answer of the turn.  It is one exactly if the turn has added such a message
(`answered`).  Every way into `parse` adds one, but for a confirmed write without arguments:
its empty `pending_write` is false, so the confirm node leads past the tools and says
nothing.
-/
namespace OmniCare

variable {E W : Type}

/-! ## The answer of the turn -/

/-- The final answer is there, and stands after every human message. -/
def AnswersThisTurn (messages : List Message) : Prop :=
  ∃ i content, finalAnswer messages = some (i, content) ∧
    ∀ k text, messages[k]? = some (.human text) → k < i

/-- Whether an answer follows the last human message. -/
def answered (messages : List Message) : Bool :=
  (messages.reverse.find? fun m => m.isHuman || m.isAnswer).any Message.isAnswer

theorem answered_append (messages : List Message) (m : Message) :
    answered (messages ++ [m]) =
      if m.isHuman || m.isAnswer then m.isAnswer else answered messages := by
  rw [answered, List.reverse_append, List.reverse_singleton, List.singleton_append,
    List.find?_cons]
  split
  · rename_i h
    rw [if_pos h]
    rfl
  · rename_i h
    rw [if_neg (by simpa using h), answered]

/-- Messages that are neither human nor answers change nothing. -/
theorem answered_append_other (messages : List Message) {new : List Message}
    (hnew : ∀ m ∈ new, m.isHuman = false ∧ m.isAnswer = false) :
    answered (messages ++ new) = answered messages := by
  induction new generalizing messages with
  | nil => rw [List.append_nil]
  | cons m new ih =>
    obtain ⟨hhuman, hanswer⟩ := hnew m List.mem_cons_self
    rw [← List.singleton_append, ← List.append_assoc,
      ih _ fun m hm => hnew m (List.mem_cons_of_mem _ hm), answered_append, hhuman, hanswer]
    rfl

/-- Where a human message stands in a history that has grown by one message. -/
theorem human_getElem?_append {messages : List Message} {m : Message} {k : Nat} {text : Text}
    (h : (messages ++ [m])[k]? = some (.human text)) :
    messages[k]? = some (.human text) ∨ k = messages.length ∧ m = .human text := by
  rcases Nat.lt_or_ge k messages.length with hk | hk
  · rw [List.getElem?_append_left hk] at h
    exact .inl h
  · rw [List.getElem?_append_right hk] at h
    obtain ⟨hlt, hget⟩ := List.getElem?_eq_some_iff.mp h
    have hk' : k = messages.length := by
      simp at hlt
      omega
    subst hk'
    exact .inr ⟨rfl, by simpa using hget⟩

theorem answersThisTurn_append_other {messages : List Message} {m : Message}
    (hhuman : m.isHuman = false) (hanswer : m.isAnswer = false) :
    AnswersThisTurn (messages ++ [m]) ↔ AnswersThisTurn messages := by
  unfold AnswersThisTurn
  rw [finalAnswer_append_other _ hanswer]
  refine exists_congr fun i => exists_congr fun content => and_congr_right fun _ => ?_
  constructor
  · intro h k text hk
    refine h k text ?_
    rw [List.getElem?_append_left (List.getElem?_eq_some_iff.mp hk).1, hk]
  · intro h k text hk
    rcases human_getElem?_append hk with hk | ⟨-, rfl⟩
    · exact h k text hk
    · cases hhuman

/-- **An answer follows the last human message exactly if it is the final one.** -/
theorem answered_iff (messages : List Message) :
    answered messages = true ↔ AnswersThisTurn messages := by
  induction messages using List.reverseRecOn with
  | nil => simp [answered, AnswersThisTurn, finalAnswer]
  | append_singleton messages m ih =>
    rw [answered_append]
    cases hanswer : m.isAnswer with
    | true =>
      obtain ⟨content, hcontent⟩ := Option.isSome_iff_exists.mp hanswer
      obtain rfl := Message.answer?_eq_some hcontent
      refine iff_of_true rfl ⟨_, _, finalAnswer_append_answer .., fun k text hk => ?_⟩
      rcases human_getElem?_append hk with hk | ⟨-, hm⟩
      · exact (List.getElem?_eq_some_iff.mp hk).1
      · cases hm
    | false =>
      cases hhuman : m.isHuman with
      | false =>
        rw [answersThisTurn_append_other hhuman hanswer]
        exact ih
      | true =>
        refine iff_of_false Bool.false_ne_true ?_
        rintro ⟨i, content, hfinal, hhumans⟩
        rw [finalAnswer_append_other _ hanswer] at hfinal
        have hlt := (List.getElem?_eq_some_iff.mp (finalAnswer_get hfinal)).1
        obtain ⟨text, rfl⟩ : ∃ text, m = .human text := by
          cases m with
          | human text => exact ⟨text, rfl⟩
          | _ => cases hhuman
        have := hhumans messages.length text List.getElem?_concat_length
        omega

theorem skeleton_isHuman (m : Message) : m.skeleton.isHuman = m.isHuman := by cases m <;> rfl

theorem skeleton_isAnswer (m : Message) : m.skeleton.isAnswer = m.isAnswer := by
  cases m with
  | ai content calls => cases calls <;> rfl
  | _ => rfl

theorem answered_skeleton (messages : List Message) :
    answered (messages.map Message.skeleton) = answered messages := by
  rw [answered, answered, ← List.map_reverse, List.find?_map, Option.any_map]
  simp only [Function.comp_def, skeleton_isHuman, skeleton_isAnswer]

/-- Rewording answers nothing and unanswers nothing. -/
theorem Reworded.answered {messages messages' : List Message} (h : Reworded messages messages') :
    OmniCare.answered messages' = OmniCare.answered messages := by
  rw [← answered_skeleton messages', h.skeleton, answered_skeleton]

/-! ## Ways into `parse` -/

/-- A write is let through without arguments. -/
def Event.lapses : Event E → Bool
  | .gateClosed none => true
  | _ => false

/-- The turn has let a write through without arguments. -/
def lapsed (es : List (Event E)) : Bool := (thisTurn es).any Event.lapses

theorem lapses_publish (runId : Text) (seq : Nat) (es : List RunEvent) :
    (publish runId seq es : List (Event E)).any Event.lapses = false := by
  rw [List.any_eq_false]
  intro x hx
  obtain ⟨i, e, -, rfl⟩ := mem_publish hx
  exact nofun

theorem lapses_passing (s : AgentState) :
    (s.passing : List (Event E)).any Event.lapses = s.pending.isEmpty := by
  unfold AgentState.passing
  cases s.pending.isEmpty <;> rfl

/-- What the history of the turn holds before a node. -/
def TurnAnswered (messages : List Message) (lapsed : Bool) : Next → Prop
  | .done => True
  | .at .readback => answered messages = true ∧ lapsed = false
  | .at .parse | .at .ground | .at .format => answered messages = !lapsed
  | _ => answered messages = false ∧ lapsed = false

/-- The write goes to the tools, or past them without an answer. -/
theorem turnAnswered_pass {s : AgentState} {lapse : Bool}
    (h : answered s.messages = false ∧ lapse = false) :
    TurnAnswered s.messages (lapse || s.pending.isEmpty) (.at (routeAfterConfirm s.passGate)) := by
  obtain ⟨hanswered, rfl⟩ := h
  have hpending : s.passGate.pending = s.pending := rfl
  rw [routeAfterConfirm, hpending]
  cases hempty : s.pending.isEmpty with
  | true => exact hanswered
  | false => exact ⟨hanswered, rfl⟩

/-- A reply is an answer, or goes on to its calls. -/
theorem turnAnswered_reply {s : AgentState} {lapse : Bool}
    (h : answered s.messages = false ∧ lapse = false) (r : Reply) :
    TurnAnswered (agentNode s r).messages lapse (.at (routeAfterAgent (agentNode s r))) := by
  obtain ⟨hanswered, rfl⟩ := h
  have hcalls : lastCalls (agentNode s r).messages = r.toolCalls := lastCalls_append_singleton _ _
  have hmessages : answered (agentNode s r).messages = r.toolCalls.isEmpty := by
    show answered (s.messages ++ [_]) = _
    rw [answered_append, hanswered]
    cases r.toolCalls <;> rfl
  rw [routeAfterAgent, hcalls]
  split
  · rename_i hnone
    exact ⟨hmessages.trans hnone, rfl⟩
  · rename_i hsome
    have hmessages := hmessages.trans (Bool.eq_false_iff.mpr hsome)
    split <;> exact ⟨hmessages, rfl⟩

/-- **Every way into `parse` has an answer, but for the lapse**, step by step. -/
theorem turnAnswered_step {g : Graph E W} {c c' : Config W} {a : Action E} {es fs : List (Event E)}
    (hc : TurnAnswered c.state.messages (lapsed es) c.next) (hs : Step g c a c' fs) :
    TurnAnswered c'.state.messages (lapsed (es ++ fs)) c'.next := by
  rcases hs.thisTurn es with ⟨j, now, ok, -, rfl, hturn⟩ | hturn
  · refine ⟨answered_append .., ?_⟩
    rw [lapsed, hturn]
    rfl
  have hlapsed : lapsed (es ++ fs) = (lapsed es || fs.any Event.lapses) := by
    rw [lapsed, hturn, List.any_append, lapsed]
  rw [hlapsed]
  cases hs with
  | expired =>
    rw [lapses_publish, Bool.or_false]
    exact hc
  | resume =>
    rw [List.any_append, lapses_publish]
    show TurnAnswered c.state.messages (lapsed es || false) c.next.continued
    rw [Bool.or_false]
    cases hnext : c.next <;> rw [hnext] at hc <;> exact hc
  | turn =>
    rw [← List.append_assoc, thisTurn_turnStarted] at hturn
    simp at hturn
  | guard here =>
    rw [here.2] at hc
    obtain ⟨hanswered, hnone⟩ := hc
    show TurnAnswered (guardNode c.state).messages (lapsed es || false) (.at (routeAfterGuard _))
    rw [routeAfterGuard, hnone]
    cases hscreen : (screen (lastHuman c.state.messages)).allowed with
    | true =>
      rw [(guardNode_allowed hscreen).1, (guardNode_allowed hscreen).2.1]
      exact ⟨hanswered, rfl⟩
    | false =>
      rw [(guardNode_blocked hscreen).1, (guardNode_blocked hscreen).2]
      exact answered_append ..
  | stop here =>
    rw [here.2] at hc
    exact ⟨answered_append .., by rw [hc.2]; rfl⟩
  | @reply r here =>
    rw [here.2] at hc
    show TurnAnswered (agentNode c.state r).messages (lapsed es || false) _
    rw [Bool.or_false]
    exact turnAnswered_reply hc r
  | capture here =>
    rw [here.2] at hc
    show answered (captureNode _ c.state).messages = false ∧ (lapsed es || false) = false
    rw [captureNode_messages, Bool.or_false]
    exact hc
  | gateOff here =>
    rw [here.2] at hc
    rw [lapses_passing]
    exact turnAnswered_pass hc
  | refused here =>
    rw [here.2] at hc
    show answered (_ ++ [_]) = !(lapsed es || false)
    rw [answered_append, hc.2]
    rfl
  | asked here =>
    rw [here.2] at hc
    show answered c.state.messages = false ∧ (lapsed es || (false || List.any (_ ++ _) _)) = false
    rw [List.any_append, lapses_publish, hc.2]
    exact ⟨hc.1, rfl⟩
  | approved here =>
    rw [here.2] at hc
    show TurnAnswered c.state.messages (lapsed es || (false || List.any _ _)) _
    rw [lapses_passing]
    exact turnAnswered_pass hc
  | declined here =>
    rw [here.2] at hc
    show answered (_ ++ [_]) = !(lapsed es || false)
    rw [answered_append, hc.2]
    rfl
  | @tools answers t w xs here ran =>
    rw [here.2] at hc
    obtain ⟨ms, houtputs, hms⟩ := runCalls_outputs ran
    have hother : ∀ m ∈ ms, m.isHuman = false ∧ m.isAnswer = false := by
      intro m hm
      obtain ⟨call, -, content, rfl⟩ := exists_answered hms hm
      exact ⟨rfl, rfl⟩
    have hquiet : (xs.map .executed : List (Event E)).any Event.lapses = false := by
      simp [Event.lapses]
    show answered (c.state.messages ++ t.outputs) = false ∧ _
    rw [houtputs, List.nil_append, answered_append_other _ hother, hquiet, Bool.or_false]
    exact hc
  | @toolsFailed answers failure w xs here ran =>
    have hquiet : (xs.map .executed : List (Event E)).any Event.lapses = false := by
      simp [Event.lapses]
    rw [List.any_append, List.any_append, hquiet, lapses_publish]
    show TurnAnswered c.state.messages (lapsed es || false) c.next
    rw [Bool.or_false]
    exact hc
  | readback here =>
    rw [here.2] at hc
    show answered (readbackNode c.state).messages = !(lapsed es || false)
    rw [(readbackNode_reworded _).answered, hc.1, hc.2]
    rfl
  | @parse s here parsed =>
    rw [here.2] at hc
    show answered s.messages = !(lapsed es || false)
    rw [(parseNode_reworded parsed).answered, Bool.or_false]
    exact hc
  | ground here =>
    rw [here.2] at hc
    show answered (groundNode c.state).messages = !(lapsed es || false)
    rw [(groundNode_reworded _).answered, Bool.or_false]
    exact hc
  | format here => trivial
  | crash =>
    rw [List.any_append, lapses_publish]
    show TurnAnswered c.state.messages (lapsed es || false) c.next
    rw [Bool.or_false]
    exact hc

/-- **When `parse` is reached, the final answer is one of this turn exactly if the turn has
let no write through without arguments.** -/
theorem parse_answers_this_turn_iff {g : Graph E W} {w : W} {as : List (Action E)} {c : Config W}
    {es : List (Event E)} (h : g.Runs (newThread w) as c es) (here : c.next = .at .parse) :
    AnswersThisTurn c.state.messages ↔ lapsed es = false := by
  have hinit : TurnAnswered (newThread w).state.messages (lapsed ([] : List (Event E)))
      (newThread w).next := trivial
  have hc := h.invariant (I := fun c es => TurnAnswered c.state.messages (lapsed es) c.next)
    hinit turnAnswered_step
  rw [here] at hc
  have hanswered : answered c.state.messages = !lapsed es := hc
  rw [← answered_iff, hanswered]
  simp

/-- The first turn of a thread reaches `parse` with the model's reply as its answer. -/
theorem first_answer_of_this_turn :
    ∃ c es, bareGraph.Runs (newThread ())
        [.job { runId := "r1", message := "Hello" } 0 true, .go, .reply ⟨"Hi.", []⟩, .go] c es ∧
      c.next = .at .parse ∧ AnswersThisTurn c.state.messages := by
  obtain ⟨c, es, h, hp⟩ := exists_run_of_play bareGraph.step (newThread ())
    [.job { runId := "r1", message := "Hello" } 0 true, .go, .reply ⟨"Hi.", []⟩, .go]
    (fun c es => c.next = .at .parse ∧ lapsed es = false) (by decide +kernel)
  obtain ⟨here, hlapsed⟩ := of_decide_eq_true hp
  exact ⟨c, es, h, here, (parse_answers_this_turn_iff h here).mpr hlapsed⟩

/-- A confirmed write without arguments leads to `parse` with the answer of the turn before. -/
theorem answer_of_earlier_turn :
    ∃ c es, (filingGraph true).Runs (newThread 0)
        [.job { runId := "r1", message := "Hello" } 0 true, .go, .reply ⟨"Hi.", []⟩, .go, .go,
          .go, .go,
          .job { runId := "r2", message := "File my claim" } 0 true, .go,
          .reply ⟨[], [⟨"submit_claim", [], "a"⟩]⟩, .settle (), .go,
          .job { runId := "r3", message := "yes" } 0 true, .go] c es ∧
      c.next = .at .parse ∧ finalAnswer c.state.messages = some (1, ("Hi." : Text)) ∧
      ¬ AnswersThisTurn c.state.messages := by
  obtain ⟨c, es, h, hp⟩ := exists_run_of_play (filingGraph true).step (newThread 0)
    [.job { runId := "r1", message := "Hello" } 0 true, .go, .reply ⟨"Hi.", []⟩, .go, .go,
      .go, .go,
      .job { runId := "r2", message := "File my claim" } 0 true, .go,
      .reply ⟨[], [⟨"submit_claim", [], "a"⟩]⟩, .settle (), .go,
      .job { runId := "r3", message := "yes" } 0 true, .go]
    (fun c es => c.next = .at .parse ∧ finalAnswer c.state.messages = some (1, ("Hi." : Text)) ∧
      answered c.state.messages = false) (by decide +kernel)
  obtain ⟨here, hfinal, hanswered⟩ := of_decide_eq_true hp
  refine ⟨c, es, h, here, hfinal, ?_⟩
  rw [← answered_iff, hanswered]
  exact nofun

end OmniCare
