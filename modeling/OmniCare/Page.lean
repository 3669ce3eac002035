import OmniCare.Collecting
import OmniCare.Rendering

/-! # The page

The thread of messages in the browser and what `frontend/src/app.js` writes into it: `handleEvent`
for the events of the WebSocket, and the end of `send` for a reply over REST.  The handlers keep a
reference to the bubble that they are writing into; here a bubble has a number, which is never given
to another one.
-/
namespace OmniCare.Browser

/-! ## Bubbles -/

/-- The body of a bubble: a text that is rendered, or one that stands as it is. -/
inductive Body
  | rendered (raw : Text)
  | plain (text : Text)
  deriving DecidableEq

/-- `!textContent.trim()`.  An entity stands for a character that is not blank. -/
def Body.isBlank : Body → Bool
  | .rendered raw =>
      (Markup.trim (deleteAll Markup.emittedTags (Markup.renderText raw))).isEmpty
  | .plain text => (Markup.trim text).isEmpty

example : (Body.plain " ").isBlank = true := by decide +kernel

/-- A chip of `renderToolCalls`. -/
structure Chip where
  name : Text
  arguments : Dict
  status : CallStatus
  deriving DecidableEq

/-- A message of the thread: its text, and what is attached to it. -/
structure Bubble where
  role : Role
  body : Body
  /-- The value and the reason that `renderConfidence` is given. -/
  confidence : Option (PyFloat × Option Text) := none
  tools : List Chip := []
  /-- The blocks of `renderSources`. -/
  sources : List (List Text) := []
  /-- Whether the text is still being transcribed. -/
  pending : Bool := false
  deriving DecidableEq

/-- The messages on the page, with their numbers, which only grow. -/
structure Thread where
  nodes : List (Nat × Bubble) := []
  fresh : Nat := 0
  ordered : nodes.Pairwise (·.1 < ·.1) := by simp
  bounded : ∀ n ∈ nodes, n.1 < fresh := by simp

namespace Thread

/-- What is to be seen. -/
def bubbles (t : Thread) : List Bubble := t.nodes.map (·.2)

/-- `el.thread.appendChild`. -/
def add (t : Thread) (b : Bubble) : Thread where
  nodes := t.nodes ++ [(t.fresh, b)]
  fresh := t.fresh + 1
  ordered := by
    refine List.pairwise_append.mpr ⟨t.ordered, List.pairwise_singleton .., fun n hn m hm => ?_⟩
    rw [List.mem_singleton.mp hm]
    exact t.bounded n hn
  bounded := by
    intro n hn
    rcases List.mem_append.mp hn with hn | hn
    · exact Nat.lt_succ_of_lt (t.bounded n hn)
    · rw [List.mem_singleton.mp hn]
      exact Nat.lt_succ_self _

/-- A bubble is written into. -/
def edit (t : Thread) (id : Nat) (f : Bubble → Bubble) : Thread where
  nodes := t.nodes.map fun n => (n.1, if n.1 = id then f n.2 else n.2)
  fresh := t.fresh
  ordered := List.pairwise_map.mpr t.ordered
  bounded := by
    intro n hn
    obtain ⟨m, hm, rfl⟩ := List.mem_map.mp hn
    exact t.bounded m hm

/-- `msg.remove()`. -/
def remove (t : Thread) (id : Nat) : Thread where
  nodes := t.nodes.filter (·.1 ≠ id)
  fresh := t.fresh
  ordered := t.ordered.filter _
  bounded := fun n hn => t.bounded n (List.mem_of_mem_filter hn)

/-- The bubble with a number. -/
def find? (t : Thread) (id : Nat) : Option Bubble := (t.nodes.find? (·.1 = id)).map (·.2)

variable (t : Thread) (b : Bubble)

theorem bubbles_add : (t.add b).bubbles = t.bubbles ++ [b] := List.map_append

/-- No other bubble has the number of the last one. -/
theorem ne_fresh : ∀ n ∈ t.nodes, n.1 ≠ t.fresh := fun n hn => Nat.ne_of_lt (t.bounded n hn)

/-- No two bubbles have one number. -/
theorem find?_of_mem {t : Thread} {n : Nat × Bubble} (h : n ∈ t.nodes) :
    t.find? n.1 = some n.2 := by
  obtain ⟨before, after, heq⟩ := List.append_of_mem h
  have hordered := t.ordered
  rw [heq] at hordered
  have hnone : before.find? (·.1 = n.1) = none :=
    List.find?_eq_none.mpr fun m hm => by
      simpa using ((List.pairwise_append.mp hordered).2.2 m hm n List.mem_cons_self).ne
  rw [find?, heq, List.find?_append, hnone, Option.none_or, List.find?_cons_of_pos (by simp)]
  rfl

theorem find?_add : (t.add b).find? t.fresh = some b :=
  find?_of_mem (t := t.add b) (List.mem_append_right _ (List.mem_singleton_self _))

theorem edit_add (f : Bubble → Bubble) : (t.add b).edit t.fresh f = t.add (f b) := by
  have hmap : (t.nodes.map fun n => (n.1, if n.1 = t.fresh then f n.2 else n.2)) = t.nodes := by
    conv_rhs => rw [← List.map_id t.nodes]
    refine List.map_congr_left fun n hn => ?_
    rw [if_neg (t.ne_fresh n hn)]
    rfl
  unfold edit add
  dsimp only
  simp only [List.map_append, hmap, List.map_cons, List.map_nil, if_true]

theorem bubbles_remove_add : ((t.add b).remove t.fresh).bubbles = t.bubbles := by
  have hkept : t.nodes.filter (·.1 ≠ t.fresh) = t.nodes :=
    List.filter_eq_self.mpr fun n hn => by simpa using t.ne_fresh n hn
  unfold remove add bubbles
  dsimp only
  rw [List.filter_append, hkept, List.filter_cons_of_neg (by simp), List.filter_nil,
    List.append_nil]

end Thread

/-! ## The handlers of the chat -/

/-- The bubble that is being written into, with its `dataset.raw`. -/
structure Writing where
  id : Nat
  raw : Text := []

/-- A pill. -/
inductive PillKind
  | ok
  | warn
  | busy
  | bad
  | idle

/-- What `app.js` keeps. -/
structure Page where
  thread : Thread := {}
  /-- `streamingBubble`. -/
  streaming : Option Writing := none
  /-- Whether there is a socket. -/
  connected : Bool := true
  status : Text × PillKind := ("connecting", .idle)
  /-- The text of the confirmation panel. -/
  question : Text := []
  /-- Whether the panel is shown. -/
  asking : Bool := false

/-- An event of the socket: the position in the queue, or an event of the run. -/
inductive SocketEvent
  | queued (position : Nat)
  | run (e : RunEvent)

/-- `confirmQuestion`: the last line, if it is a question. -/
def confirmQuestion (readback : Text) : Text :=
  let lines := ((Text.splitOn '\n' readback).map Markup.trim).filter (!·.isEmpty)
  let last := lines.getLast?.getD []
  if last.getLast? = some '?' then last else "File this claim?"

/-- A chip of an invocation. -/
def chipOf (call : Invocation) : Chip := ⟨call.name, call.arguments, call.record.status⟩

namespace Page

/-- `addMessage`. -/
def addMessage (p : Page) (b : Bubble) : Page := { p with thread := p.thread.add b }

/-- `streamingBubble = addMessage("assistant", "")`. -/
def openBubble (p : Page) : Page :=
  { p with
    thread := p.thread.add ⟨.assistant, .rendered [], none, [], [], false⟩
    streaming := some ⟨p.thread.fresh, []⟩ }

/-- What is attached to the bubble that is being written into. -/
def attach (p : Page) (f : Bubble → Bubble) : Page :=
  match p.streaming with
  | some w => { p with thread := p.thread.edit w.id f }
  | none => p

/-- Whether the bubble that is being written into has no text. -/
def streamsBlank (p : Page) : Bool :=
  p.streaming.any fun w => ((p.thread.find? w.id).map (·.body.isBlank)).getD true

/-- `discardEmptyBubble`. -/
def discardEmptyBubble (p : Page) : Page :=
  match p.streaming with
  | some w =>
      { p with
        thread := if p.streamsBlank then p.thread.remove w.id else p.thread
        streaming := none }
  | none => p

/-- `showConfirmation`. -/
def showConfirmation (p : Page) (readback : Text) : Page :=
  let readback : Text :=
    if readback.isEmpty then "Please confirm before I file this claim.".toList else readback
  let p :=
    if p.streamsBlank then
      { p.attach (fun b => { b with body := .rendered readback }) with streaming := none }
    else p.discardEmptyBubble.addMessage ⟨.assistant, .rendered readback, none, [], [], false⟩
  { p with question := confirmQuestion readback, asking := true }

/-- The case `token`. -/
def write (p : Page) (text : Text) : Page :=
  let p := if p.streaming.isNone then p.openBubble else p
  match p.streaming with
  | some w =>
      { p with
        thread := p.thread.edit w.id fun b => { b with body := .rendered (w.raw ++ text) }
        streaming := some { w with raw := w.raw ++ text } }
  | none => p

/-- `handleEvent`. -/
def handleEvent (p : Page) : SocketEvent → Page
  | .queued position =>
      if 0 < position then
        { p with status := ("queued · ".toList ++ Text.ofNat position ++ " ahead".toList, .warn) }
      else p
  | .run .started => { p with status := ("thinking", .busy) }.openBubble
  | .run (.toolEnd call) => p.attach fun b => { b with tools := b.tools ++ [chipOf call] }
  | .run (.token text) => p.write text
  | .run (.sources sources) =>
      if sources.isEmpty then p
      else p.attach fun b => { b with sources := b.sources ++ [sources] }
  | .run (.confirm _ readback) => p.showConfirmation readback
  | .run (.done report) =>
      let p :=
        match report.bind (·.confidence) with
        | some value => p.attach fun b =>
            { b with confidence := some (value, report.bind (·.confidenceReason)) }
        | none => p
      { p.discardEmptyBubble with
        status := if p.connected then ("connected", .ok) else ("REST mode", .warn) }
  | .run (.error message _) =>
      { p.discardEmptyBubble.addMessage ⟨.system,
          .rendered (if message.isEmpty then "Something went wrong.".toList else message), none, [],
          [], false⟩ with
        status := ("error", .bad) }

/-- The end of `send`: a reply over REST. -/
def showReply (p : Page) (c : Collected) : Page :=
  let p := p.addMessage
    { role := .assistant
      body := .rendered c.answer
      confidence := (c.report.bind (·.confidence)).map fun value =>
        (value, c.report.bind (·.confidenceReason))
      tools := c.toolCalls.map fun call => ⟨call.name, call.arguments, call.status⟩
      sources := if c.sources.isEmpty then [] else [c.sources] }
  let p :=
    if c.toolCalls.any (·.status = .awaitingConfirmation) then p.showConfirmation c.answer else p
  { p with status := ("REST mode", .warn) }

/-- The end of `send`, over REST: the reply, or the error of the gateway. -/
def showOutcome (p : Page) : Except HttpError Collected → Page
  | .ok c => p.showReply c
  | .error e =>
      { p.addMessage ⟨.system,
          .rendered (if e.detail.isEmpty then "The assistant is unavailable.".toList else e.detail),
          none, [], [], false⟩ with
        status := ("error", .bad) }

end Page

end OmniCare.Browser
