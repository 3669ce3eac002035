import OmniCare.Calls

/-! # The thread of a call

`frontend/src/voice.js` writes a call into the thread of the chat: what is heard, and the messages
that the voice worker passes on about the runs.  Spoken and shown are to be the same.
`call_written` says what a call leaves behind, however its transcripts come between the messages,
and when that is what the caller has heard: **exactly when every turn has an answer that can be
seen**.  An apology is said and not shown.
-/
namespace OmniCare.Browser

variable {E W : Type}

/-! ## The page of a call -/

/-- A message over the data channel. -/
inductive CallMessage
  | transcriptPartial (text : Text)
  | transcriptFinal (text : Text)
  | run (m : BrowserMessage)

/-- What `voice.js` keeps, with the thread of the chat and the confirmation panel. -/
structure CallPage where
  thread : Thread := {}
  /-- `transcriptBubble`. -/
  transcript : Option Nat := none
  /-- `answerBubble`. -/
  answer : Option Writing := none
  question : Text := []
  asking : Bool := false

/-- A chip without arguments. -/
def chipNamed (name : Text) (status : CallStatus) : Chip := ⟨name, [], status⟩

/-- Nothing is in the bubble: no text, no chips and no sources. -/
def Bubble.bare (b : Bubble) : Bool := b.body.isBlank && b.tools.isEmpty && b.sources.isEmpty

namespace CallPage

/-- The bubble of the answer, which is opened where there is none. -/
def withAnswer (p : CallPage) (f : Writing → CallPage → CallPage) : CallPage :=
  match p.answer with
  | some w => f w p
  | none =>
      let w : Writing := ⟨p.thread.fresh, []⟩
      f w { p with thread := p.thread.add emptyBubble, answer := some w }

/-- `appendAnswer`. -/
def appendAnswer (p : CallPage) (text : Text) : CallPage :=
  p.withAnswer fun w p =>
    { p with
      thread := p.thread.edit w.id fun b => { b with body := .rendered (w.raw ++ text) }
      answer := some { w with raw := w.raw ++ text } }

/-- `decorate`. -/
def decorate (p : CallPage) (f : Bubble → Bubble) : CallPage :=
  p.withAnswer fun w p => { p with thread := p.thread.edit w.id f }

/-- The bubble of the answer. -/
def answerBubble? (p : CallPage) : Option Bubble := p.answer.bind fun w => p.thread.find? w.id

/-- `endTurn`. -/
def endTurn (p : CallPage) : CallPage :=
  match p.answer with
  | some w =>
      { p with
        thread := if p.answerBubble?.any (·.bare) then p.thread.remove w.id else p.thread
        answer := none }
  | none => p

/-- `handleData`, of a message about a run. -/
def handleRun (p : CallPage) : BrowserMessage → CallPage
  | .answerDelta text => p.appendAnswer text
  | .sources cited => p.decorate fun b => { b with sources := b.sources ++ [cited] }
  | .tool name status => p.decorate fun b => { b with tools := b.tools ++ [chipNamed name status] }
  | .confirm readback _ =>
      let p := if p.answerBubble?.all (·.body.isBlank) then p.appendAnswer readback else p
      { p.endTurn with question := readback, asking := true }
  | .listening => p.endTurn

/-- `handleData`. -/
def handleData (p : CallPage) : CallMessage → CallPage
  | .transcriptPartial text =>
      match p.transcript with
      | some id => { p with thread := p.thread.edit id fun b => { b with body := .plain text } }
      | none =>
          { p with
            thread := p.thread.add ⟨.user, .rendered text, none, [], [], true⟩
            transcript := some p.thread.fresh }
  | .transcriptFinal text =>
      match p.transcript with
      | some id =>
          { p with
            thread := p.thread.edit id fun b => { b with body := .plain text, pending := false }
            transcript := none }
      | none =>
          if text.isEmpty then p
          else { p with thread := p.thread.add ⟨.user, .rendered text, none, [], [], false⟩ }
  | .run m => p.handleRun m

end CallPage

/-! ## What the assistant has said in a thread -/

/-- The bubbles of the assistant. -/
def Thread.said (t : Thread) : List (Nat × Bubble) := t.nodes.filter (·.2.role = .assistant)

section
variable (t : Thread) {b : Bubble} {id : Nat} {f : Bubble → Bubble}

theorem Thread.said_add_user (h : b.role = .user) : (t.add b).said = t.said := by
  unfold said add
  dsimp only
  rw [List.filter_append, List.filter_cons_of_neg (by simp [h]), List.filter_nil, List.append_nil]

theorem Thread.said_add_assistant (h : b.role = .assistant) :
    (t.add b).said = t.said ++ [(t.fresh, b)] := by
  unfold said add
  dsimp only
  rw [List.filter_append, List.filter_cons_of_pos (by simp [h]), List.filter_nil]

theorem Thread.said_edit (hf : ∀ b, (f b).role = b.role) :
    (t.edit id f).said = t.said.map fun n => (n.1, if n.1 = id then f n.2 else n.2) := by
  have hrole : ∀ n : Nat × Bubble, (if n.1 = id then f n.2 else n.2).role = n.2.role := by
    intro n
    split
    · exact hf n.2
    · rfl
  unfold said edit
  dsimp only
  rw [List.filter_map]
  congr 1
  refine List.filter_congr fun n _ => ?_
  show decide ((if n.1 = id then f n.2 else n.2).role = .assistant) = _
  rw [hrole]

theorem Thread.said_remove : (t.remove id).said = t.said.filter (·.1 ≠ id) := by
  unfold said remove
  dsimp only
  rw [List.filter_filter, List.filter_filter]
  exact List.filter_congr fun n _ => Bool.and_comm _ _

end

/-! ## A call without its transcripts -/

/-- The bubbles that the assistant has finished, and the one that it is at. -/
structure Saying where
  shown : List Bubble
  draft : Bubble := emptyBubble
  raw : Text := []

namespace Saying

def append (a : Saying) (text : Text) : Saying :=
  { a with draft := { a.draft with body := .rendered (a.raw ++ text) }, raw := a.raw ++ text }

def finish (a : Saying) : Saying where
  shown := a.shown ++ if a.draft.bare then [] else [a.draft]

def handle (a : Saying) : BrowserMessage → Saying
  | .answerDelta text => a.append text
  | .sources cited =>
      { a with draft := { a.draft with sources := a.draft.sources ++ [cited] } }
  | .tool name status =>
      { a with draft := { a.draft with tools := a.draft.tools ++ [chipNamed name status] } }
  | .confirm readback _ => (if a.draft.body.isBlank then a.append readback else a).finish
  | .listening => a.finish

end Saying

/-- **A page shows what the assistant says.** -/
inductive Shows (p : CallPage) : Saying → Prop
  | resting {shown : List Bubble} (hanswer : p.answer = none)
      (hsaid : p.thread.said.map (·.2) = shown) : Shows p { shown }
  | writing {before : List (Nat × Bubble)} {w : Writing} {b : Bubble} (hanswer : p.answer = some w)
      (hsaid : p.thread.said = before ++ [(w.id, b)]) :
      Shows p { shown := before.map (·.2), draft := b, raw := w.raw }

/-- The transcript is not among the bubbles of the assistant. -/
def CallPage.Apart (p : CallPage) : Prop :=
  ∀ id ∈ p.transcript, id < p.thread.fresh ∧ ∀ n ∈ p.thread.said, n.1 ≠ id

theorem Thread.mem_nodes_of_mem_said {t : Thread} {n : Nat × Bubble} (h : n ∈ t.said) :
    n ∈ t.nodes := List.mem_of_mem_filter h

theorem Thread.said_edit_of_ne {t : Thread} {id : Nat} {f : Bubble → Bubble}
    (hf : ∀ b, (f b).role = b.role) (h : ∀ n ∈ t.said, n.1 ≠ id) : (t.edit id f).said = t.said := by
  rw [t.said_edit hf]
  conv_rhs => rw [← List.map_id t.said]
  refine List.map_congr_left fun n hn => ?_
  rw [if_neg (h n hn)]
  rfl

/-- The numbers of the bubbles before the last one are others. -/
theorem Thread.ne_of_said {t : Thread} {before : List (Nat × Bubble)} {n : Nat × Bubble}
    (h : t.said = before ++ [n]) : ∀ m ∈ before, m.1 ≠ n.1 := by
  have hordered : t.said.Pairwise (·.1 < ·.1) := t.ordered.filter _
  rw [h] at hordered
  exact fun m hm =>
    ((List.pairwise_append.mp hordered).2.2 m hm n (List.mem_singleton_self _)).ne

/-- The bubble of the answer is edited. -/
theorem Thread.said_edit_last {t : Thread} {before : List (Nat × Bubble)} {id : Nat} {b : Bubble}
    {f : Bubble → Bubble} (hf : ∀ b, (f b).role = b.role) (h : t.said = before ++ [(id, b)]) :
    (t.edit id f).said = before ++ [(id, f b)] := by
  rw [t.said_edit hf, h, List.map_append, List.map_singleton, if_pos rfl]
  congr 1
  conv_rhs => rw [← List.map_id before]
  refine List.map_congr_left fun m hm => ?_
  rw [if_neg (Thread.ne_of_said h m hm)]
  rfl

theorem Thread.said_remove_last {t : Thread} {before : List (Nat × Bubble)} {id : Nat} {b : Bubble}
    (h : t.said = before ++ [(id, b)]) : (t.remove id).said = before := by
  rw [t.said_remove, h, List.filter_append, List.filter_cons_of_neg (by simp), List.filter_nil,
    List.append_nil]
  exact List.filter_eq_self.mpr fun m hm => by simpa using Thread.ne_of_said h m hm

/-- Nothing has come in between that would be the transcript. -/
theorem CallPage.Apart.of_said {p q : CallPage} (h : p.Apart)
    (htranscript : q.transcript = p.transcript) (hfresh : p.thread.fresh ≤ q.thread.fresh)
    (hsaid : ∀ n ∈ q.thread.said, p.thread.fresh ≤ n.1 ∨ ∃ m ∈ p.thread.said, m.1 = n.1) :
    q.Apart := by
  intro id hid
  obtain ⟨hlt, hne⟩ := h id (htranscript ▸ hid)
  refine ⟨hlt.trans_le hfresh, fun n hn => ?_⟩
  rcases hsaid n hn with hnew | ⟨m, hm, heq⟩
  · exact (hlt.trans_le hnew).ne'
  · exact heq ▸ hne m hm

/-- A page that writes into the last bubble of the assistant. -/
structure Writes (p : CallPage) (a : Saying) (w : Writing) : Prop where
  answer : p.answer = some w
  said : ∃ before, p.thread.said = before ++ [(w.id, a.draft)] ∧ before.map (·.2) = a.shown
  raw : w.raw = a.raw
  apart : p.Apart

theorem Writes.shows {p : CallPage} {a : Saying} {w : Writing} (h : Writes p a w) : Shows p a := by
  obtain ⟨before, hsaid, hshown⟩ := h.said
  have := Shows.writing h.answer hsaid
  rw [hshown, h.raw] at this
  exact this

/-- The answer of the page is opened where there is none. -/
theorem Shows.withAnswer {p : CallPage} {a : Saying} (h : Shows p a) (hp : p.Apart)
    (f : Writing → CallPage → CallPage) : ∃ q w, p.withAnswer f = f w q ∧ Writes q a w := by
  cases h with
  | resting hanswer hsaid =>
    refine ⟨_, ⟨p.thread.fresh, []⟩, by rw [CallPage.withAnswer, hanswer], rfl, ?_, rfl, ?_⟩
    · exact ⟨p.thread.said, p.thread.said_add_assistant rfl, hsaid⟩
    · refine hp.of_said rfl (Nat.le_succ _) fun n hn => ?_
      rw [show Thread.said _ = _ from p.thread.said_add_assistant (b := emptyBubble) rfl] at hn
      rcases List.mem_append.mp hn with hn | hn
      · exact .inr ⟨n, hn, rfl⟩
      · rw [List.mem_singleton.mp hn]
        exact .inl (Nat.le_refl _)
  | @writing before w b hanswer hsaid =>
    exact ⟨p, w, by rw [CallPage.withAnswer, hanswer], hanswer, ⟨before, hsaid, rfl⟩, rfl, hp⟩

/-- The bubble of the answer is written into. -/
theorem Writes.edit {p : CallPage} {a : Saying} {w : Writing} (h : Writes p a w)
    {f : Bubble → Bubble} (hf : ∀ b, (f b).role = b.role) (raw : Text) :
    Writes { p with thread := p.thread.edit w.id f, answer := some { w with raw } }
      { a with draft := f a.draft, raw } { w with raw } := by
  obtain ⟨before, hsaid, hshown⟩ := h.said
  have hedited := Thread.said_edit_last hf hsaid
  refine ⟨rfl, ⟨before, hedited, hshown⟩, rfl, h.apart.of_said rfl (Nat.le_refl _) fun n hn => ?_⟩
  rw [show Thread.said _ = _ from hedited] at hn
  rcases List.mem_append.mp hn with hn | hn
  · exact .inr ⟨n, hsaid ▸ List.mem_append_left _ hn, rfl⟩
  · rw [List.mem_singleton.mp hn]
    exact .inr ⟨(w.id, a.draft),
      hsaid ▸ List.mem_append_right _ (List.mem_singleton_self _), rfl⟩

theorem Shows.appendAnswer {p : CallPage} {a : Saying} (h : Shows p a) (hp : p.Apart)
    (text : Text) : ∃ w, Writes (p.appendAnswer text) (a.append text) w := by
  obtain ⟨q, w, hq, hwrites⟩ := h.withAnswer hp _
  refine ⟨{ w with raw := w.raw ++ text }, ?_⟩
  rw [CallPage.appendAnswer, hq, Saying.append, ← hwrites.raw]
  exact hwrites.edit (f := fun b => { b with body := .rendered (w.raw ++ text) })
    (fun _ => rfl) _

theorem Shows.decorate {p : CallPage} {a : Saying} (h : Shows p a) (hp : p.Apart)
    {f : Bubble → Bubble} (hf : ∀ b, (f b).role = b.role) :
    ∃ w, Writes (p.decorate f) { a with draft := f a.draft } w := by
  obtain ⟨q, w, hq, hwrites⟩ := h.withAnswer hp _
  refine ⟨w, ?_⟩
  rw [CallPage.decorate, hq]
  have hedited := hwrites.edit hf a.raw
  rw [← hwrites.raw] at hedited ⊢
  convert hedited using 2
  exact hwrites.answer

/-- The bubble that a page is writing into. -/
theorem Shows.answerBubble? {p : CallPage} {a : Saying} (h : Shows p a) :
    p.answerBubble? = some a.draft ∨
      p.answerBubble? = none ∧ p.answer = none ∧ a.draft = emptyBubble := by
  cases h with
  | resting hanswer => exact .inr ⟨by rw [CallPage.answerBubble?, hanswer]; rfl, hanswer, rfl⟩
  | @writing before w b hanswer hsaid =>
    refine .inl ?_
    rw [CallPage.answerBubble?, hanswer, Option.bind_some]
    exact Thread.find?_of_mem (n := (w.id, b)) (Thread.mem_nodes_of_mem_said
      (hsaid ▸ List.mem_append_right _ (List.mem_singleton_self _)))

/-- Only what the assistant says counts. -/
theorem Shows.of_said {p q : CallPage} {a : Saying} (h : Shows p a) (hanswer : q.answer = p.answer)
    (hsaid : q.thread.said = p.thread.said) : Shows q a := by
  cases h with
  | resting hnone hshown => exact .resting (hanswer.trans hnone) (by rw [hsaid, hshown])
  | writing hsome hshown => exact .writing (hanswer.trans hsome) (hsaid.trans hshown)

theorem bare_emptyBubble : emptyBubble.bare = true := by decide +kernel

/-- A turn ends, and leaves a bubble behind if there is something in it. -/
theorem Shows.endTurn {p : CallPage} {a : Saying} (h : Shows p a) (hp : p.Apart) :
    Shows p.endTurn a.finish ∧ p.endTurn.Apart := by
  have hbubble := h.answerBubble?
  cases h with
  | @resting shown hanswer hsaid =>
    have hend : p.endTurn = p := by rw [CallPage.endTurn, hanswer]
    have hfinish : ({ shown } : Saying).finish = { shown } := by
      rw [Saying.finish, if_pos bare_emptyBubble, List.append_nil]
    rw [hend, hfinish]
    exact ⟨.resting hanswer hsaid, hp⟩
  | @writing before w b hanswer hsaid =>
    rcases hbubble with hbubble | ⟨-, hnone, -⟩
    · have hend : p.endTurn =
          { p with
            thread := if b.bare then p.thread.remove w.id else p.thread
            answer := none } := by
        rw [CallPage.endTurn, hanswer]
        dsimp only
        rw [hbubble]
        rfl
      rw [hend]
      cases hbare : b.bare with
      | true =>
        have hremoved := Thread.said_remove_last hsaid
        refine ⟨.resting rfl ?_, hp.of_said rfl (Nat.le_refl _) fun n hn => ?_⟩
        · show List.map _ (p.thread.remove w.id).said = _
          rw [hremoved]
          dsimp only
          rw [if_pos hbare, List.append_nil]
        · exact .inr ⟨n, hsaid ▸ List.mem_append_left _ (hremoved ▸ hn), rfl⟩
      | false =>
        refine ⟨.resting rfl ?_, hp⟩
        show List.map _ p.thread.said = _
        rw [hsaid, List.map_append]
        dsimp only
        rw [hbare]
        rfl
    · rw [hanswer] at hnone
      cases hnone

/-- **A message about a run changes what the page shows as it changes what is said.** -/
theorem Shows.handleRun {p : CallPage} {a : Saying} (h : Shows p a) (hp : p.Apart)
    (m : BrowserMessage) : Shows (p.handleRun m) (a.handle m) ∧ (p.handleRun m).Apart := by
  cases m with
  | answerDelta text =>
    obtain ⟨w, hwrites⟩ := h.appendAnswer hp text
    exact ⟨hwrites.shows, hwrites.apart⟩
  | sources cited =>
    obtain ⟨w, hwrites⟩ := h.decorate hp
      (f := fun b => { b with sources := b.sources ++ [cited] }) fun _ => rfl
    exact ⟨hwrites.shows, hwrites.apart⟩
  | tool name status =>
    obtain ⟨w, hwrites⟩ := h.decorate hp
      (f := fun b => { b with tools := b.tools ++ [chipNamed name status] }) fun _ => rfl
    exact ⟨hwrites.shows, hwrites.apart⟩
  | confirm readback args =>
    have hblank : p.answerBubble?.all (·.body.isBlank) = a.draft.body.isBlank := by
      rcases h.answerBubble? with hbubble | ⟨hbubble, -, hempty⟩
      · rw [hbubble]
        rfl
      · rw [hbubble, hempty]
        exact isBlank_nil.symm
    obtain ⟨hshows, hapart⟩ : Shows (if a.draft.body.isBlank then p.appendAnswer readback else p)
        (if a.draft.body.isBlank then a.append readback else a) ∧
          (if a.draft.body.isBlank then p.appendAnswer readback else p).Apart := by
      split
      · obtain ⟨w, hwrites⟩ := h.appendAnswer hp readback
        exact ⟨hwrites.shows, hwrites.apart⟩
      · exact ⟨h, hp⟩
    obtain ⟨hended, hapart'⟩ := hshows.endTurn hapart
    have hpage : p.handleRun (.confirm readback args) =
        { (if a.draft.body.isBlank then p.appendAnswer readback else p).endTurn with
          question := readback, asking := true } := by
      rw [← hblank]
      rfl
    rw [hpage]
    exact ⟨hended.of_said rfl rfl, hapart'⟩
  | listening => exact h.endTurn hp

/-- A transcript changes nothing in what is said. -/
def Saying.receive (a : Saying) : CallMessage → Saying
  | .run m => a.handle m
  | .transcriptPartial _ | .transcriptFinal _ => a

theorem Shows.handleData {p : CallPage} {a : Saying} (h : Shows p a) (hp : p.Apart)
    (m : CallMessage) : Shows (p.handleData m) (a.receive m) ∧ (p.handleData m).Apart := by
  have edited : ∀ {id : Nat} (f : Bubble → Bubble), p.transcript = some id →
      (∀ b, (f b).role = b.role) → (p.thread.edit id f).said = p.thread.said :=
    fun f hid hf => Thread.said_edit_of_ne hf (hp _ hid).2
  cases m with
  | run m => exact h.handleRun hp m
  | transcriptPartial text =>
    cases hid : p.transcript with
    | some id =>
      have hsaid := edited (fun b => { b with body := .plain text }) hid fun _ => rfl
      unfold CallPage.handleData
      dsimp only
      rw [hid]
      exact ⟨h.of_said rfl hsaid,
        hp.of_said hid.symm (Nat.le_refl _) fun n hn => .inr ⟨n, hsaid ▸ hn, rfl⟩⟩
    | none =>
      have hsaid : (p.thread.add ⟨.user, .rendered text, none, [], [], true⟩).said =
          p.thread.said := p.thread.said_add_user rfl
      unfold CallPage.handleData
      dsimp only
      rw [hid]
      refine ⟨h.of_said rfl hsaid, ?_⟩
      rintro id ⟨rfl⟩
      exact ⟨Nat.lt_succ_self _, fun n hn =>
        p.thread.ne_fresh n (Thread.mem_nodes_of_mem_said (hsaid ▸ hn))⟩
  | transcriptFinal text =>
    cases hid : p.transcript with
    | some id =>
      have hsaid :=
        edited (fun b => { b with body := .plain text, pending := false }) hid fun _ => rfl
      unfold CallPage.handleData
      dsimp only
      rw [hid]
      exact ⟨h.of_said rfl hsaid, fun id hid => by cases hid⟩
    | none =>
      unfold CallPage.handleData
      dsimp only
      rw [hid]
      dsimp only
      split
      · exact ⟨h, hp⟩
      · refine ⟨h.of_said rfl (p.thread.said_add_user rfl), fun id hmem => ?_⟩
        cases hmem

/-- **A page shows what is said, in whatever order the transcripts come.** -/
theorem Shows.foldl {p : CallPage} {a : Saying} (h : Shows p a) (hp : p.Apart)
    (ms : List CallMessage) :
    Shows (ms.foldl CallPage.handleData p) (ms.foldl Saying.receive a) ∧
      (ms.foldl CallPage.handleData p).Apart := by
  induction ms generalizing p a with
  | nil => exact ⟨h, hp⟩
  | cons m ms ih =>
    obtain ⟨hshows, hapart⟩ := h.handleData hp m
    exact ih hshows hapart

/-! ## What a turn leaves behind -/

/-- The text of a bubble, if it can be seen. -/
def Bubble.visible? (b : Bubble) : Option Text :=
  if b.body.isBlank then none
  else some (match b.body with
    | .rendered raw => raw
    | .plain text => text)

example : emptyBubble.visible? = none := by decide +kernel

/-- What the assistant has written, as far as it can be seen. -/
def Thread.written (t : Thread) : List Text := t.said.filterMap (·.2.visible?)

/-- What a turn leaves behind that would have been answered so over REST. -/
def writtenOf : Except HttpError Collected → List Text
  | .ok c => if (Body.rendered c.answer).isBlank then [] else [c.answer]
  | .error _ => []

/-- What a bubble leaves behind at the end of its turn. -/
theorem visible_finish (b : Bubble) :
    (if b.bare then [] else [b] : List Bubble).filterMap Bubble.visible? = b.visible?.toList := by
  cases hbare : b.bare with
  | false =>
    rw [if_neg Bool.false_ne_true]
    cases hvisible : b.visible? <;> simp [hvisible]
  | true =>
    have hblank : b.body.isBlank = true :=
      (Bool.and_eq_true_iff.mp (Bool.and_eq_true_iff.mp hbare).1).1
    rw [Bubble.visible?, if_pos hblank]
    rfl

/-- An event of a run, as far as the browser is told of it. -/
def Saying.hear (a : Saying) (e : RunEvent) : Saying :=
  match e.browserMessage with
  | some m => a.handle m
  | none => a

/-- The chips of the tools that have been called. -/
def Saying.withTools (a : Saying) (tools : List Chip) : Saying :=
  { a with draft := { a.draft with tools := a.draft.tools ++ tools } }

theorem hear_toolEnds (calls : List Invocation) (a : Saying) :
    (calls.map RunEvent.toolEnd).foldl Saying.hear a =
      a.withTools (calls.map fun call => chipNamed call.name call.record.status) := by
  induction calls generalizing a with
  | nil =>
    unfold Saying.withTools
    rw [List.map_nil, List.map_nil, List.append_nil]
    rfl
  | cons call calls ih =>
    rw [List.map_cons, List.foldl_cons, ih, List.map_cons]
    show (a.withTools [chipNamed call.name call.record.status]).withTools _ = _
    unfold Saying.withTools
    dsimp only
    rw [List.append_assoc, List.singleton_append]

/-- The chips of a state. -/
def chipsOf (s : AgentState) : List Chip :=
  s.toolInvocations.map fun call => chipNamed call.name call.record.status

/-- The bubble of an answer. -/
def spokenBubble (s : AgentState) : Bubble where
  role := .assistant
  body := .rendered s.finalText
  tools := chipsOf s
  sources := if s.sources.isEmpty then [] else [s.sources]

theorem hear_sources (a : Saying) (cited : List Text) (report : Option Report) :
    [RunEvent.sources cited, .done report].foldl Saying.hear a =
      Saying.finish { a with draft := { a.draft with
        sources := a.draft.sources ++ if cited.isEmpty then [] else [cited] } } := by
  show ((a.hear (.sources cited)).hear (.done report)) = _
  unfold Saying.hear RunEvent.browserMessage
  dsimp only
  cases cited with
  | nil =>
    dsimp only [List.isEmpty_nil]
    rw [if_pos rfl, if_pos rfl, List.append_nil]
    rfl
  | cons source cited => rfl

/-- **A turn that is answered** leaves the bubble of its answer behind, if there is something in
it. -/
theorem hear_finished (s : AgentState) (shown : List Bubble) :
    (RunEvent.started :: finishedEvents s).foldl Saying.hear { shown } =
      { shown := shown ++ if (spokenBubble s).bare then [] else [spokenBubble s] } := by
  have htools : ((RunEvent.started :: s.toolInvocations.map RunEvent.toolEnd).foldl Saying.hear
      { shown }) = ({ shown } : Saying).withTools (chipsOf s) := hear_toolEnds _ _
  rw [finishedEvents, ← AgentState.finalText, List.append_assoc, ← List.cons_append,
    List.foldl_append, htools, List.foldl_append]
  cases htext : s.finalText with
  | nil =>
    dsimp only [List.isEmpty_nil]
    rw [if_pos rfl, List.foldl_nil, hear_sources, spokenBubble, htext]
    rfl
  | cons c text =>
    dsimp only [List.isEmpty_cons]
    rw [if_neg Bool.false_ne_true, hear_sources, spokenBubble, htext]
    rfl

/-- **A turn that asks** leaves its question behind, and the sources in a bubble of their own. -/
theorem hear_paused (s : AgentState) (q : Prompt) (shown : List Bubble) :
    ∃ b b' : Bubble, b.body = .rendered q.readback ∧ b'.body = .rendered [] ∧
      (RunEvent.started :: pausedEvents s q).foldl Saying.hear { shown } =
        { shown := (shown ++ if b.bare then [] else [b]) ++ if b'.bare then [] else [b'] } := by
  have htools : ((RunEvent.started :: s.toolInvocations.map RunEvent.toolEnd).foldl Saying.hear
      { shown }) = ({ shown } : Saying).withTools (chipsOf s) := hear_toolEnds _ _
  rw [pausedEvents, ← List.cons_append, List.foldl_append, htools, List.foldl_cons, hear_sources]
  have hconfirm : (({ shown } : Saying).withTools (chipsOf s)).hear (.confirm q.args q.readback) =
      ((({ shown } : Saying).withTools (chipsOf s)).append q.readback).finish := by
    show Saying.finish (if (Body.rendered []).isBlank then _ else _) = _
    rw [if_pos isBlank_nil]
  rw [hconfirm]
  exact ⟨_, _, rfl, rfl, rfl⟩

variable {g : Graph E W}

theorem visible_of_rendered {b : Bubble} {raw : Text} (h : b.body = .rendered raw) :
    b.visible?.toList = if (Body.rendered raw).isBlank then [] else [raw] := by
  rw [Bubble.visible?, h]
  split <;> rfl

theorem writtenOf_ok {c : Collected} {answer : Text} (h : c.answer = answer) :
    writtenOf (.ok c) = if (Body.rendered answer).isBlank then [] else [answer] := by
  rw [writtenOf, h]

/-- A turn leaves its answer behind, if that can be seen. -/
theorem hear_events (x : HandledJob g) (shown : List Bubble) :
    ∃ bs, x.events.foldl Saying.hear { shown } = { shown := shown ++ bs } ∧
      bs.filterMap Bubble.visible? = writtenOf (collect x.events) := by
  rcases x.cases_events with hlate | ⟨ts, hts, ending, hstrip⟩
  · refine ⟨[], ?_, ?_⟩
    · rw [hlate, List.append_nil]
      rfl
    · rw [hlate]
      rfl
  · rw [hts]
    cases ending with
    | finished next =>
      refine ⟨_, hear_finished _ _, ?_⟩
      obtain ⟨c, hc, hanswer⟩ : ∃ c, collect (.started :: finishedEvents x.after.state) = .ok c ∧
          c.answer = x.after.state.finalText :=
        ⟨_, collect_finishedEvents _, Body.rendered.inj (congrArg Bubble.body
          (replyBubble_finished (hstrip next) (collect_finishedEvents _)).2)⟩
      rw [visible_finish, hc, visible_of_rendered rfl, writtenOf_ok hanswer]
    | @paused q _ asked =>
      obtain ⟨b, b', hb, hb', hheard⟩ := hear_paused x.after.state q shown
      refine ⟨_, hheard.trans (by rw [List.append_assoc]), ?_⟩
      obtain ⟨c, hc, hanswer⟩ : ∃ c, collect (.started :: pausedEvents x.after.state q) = .ok c ∧
          c.answer = q.readback := by
        refine ⟨_, collect_pausedEvents _ _, ?_⟩
        rw [Collected.answer, List.flatten_singleton, asked]
        exact strip_readbackOf _ _
      rw [List.filterMap_append, visible_finish, visible_finish, hc, visible_of_rendered hb,
        visible_of_rendered hb', isBlank_nil, if_pos rfl, List.append_nil, writtenOf_ok hanswer]
    | failed failure =>
      refine ⟨[], ?_, ?_⟩
      · rw [List.append_nil]
        cases failure <;> rfl
      · cases failure <;> rfl

/-- The messages about the runs. -/
def runMessages (ms : List CallMessage) : List BrowserMessage :=
  ms.filterMap fun
    | .run m => some m
    | .transcriptPartial _ | .transcriptFinal _ => none

theorem foldl_receive (a : Saying) (ms : List CallMessage) :
    ms.foldl Saying.receive a = (runMessages ms).foldl Saying.handle a := by
  rw [runMessages, List.foldl_filterMap]
  congr 1
  funext a m
  cases m <;> rfl

theorem foldl_hear (a : Saying) (ts : List RunEvent) :
    (ts.filterMap RunEvent.browserMessage).foldl Saying.handle a = ts.foldl Saying.hear a := by
  rw [List.foldl_filterMap]
  congr 1
  funext a e
  unfold Saying.hear
  cases e.browserMessage <;> rfl

/-- What the turns of a call leave behind. -/
theorem hear_turns (xs : List (HandledJob g)) (shown : List Bubble) :
    ∃ bs, (xs.flatMap fun x => x.events.filterMap RunEvent.browserMessage).foldl Saying.handle
        { shown } = { shown := shown ++ bs } ∧
      bs.filterMap Bubble.visible? = xs.flatMap fun x => writtenOf (collect x.events) := by
  induction xs generalizing shown with
  | nil => exact ⟨[], by rw [List.append_nil]; rfl, rfl⟩
  | cons x xs ih =>
    obtain ⟨bs, hbs, hwritten⟩ := hear_events x shown
    obtain ⟨cs, hcs, hwritten'⟩ := ih (shown ++ bs)
    refine ⟨bs ++ cs, ?_, ?_⟩
    · rw [List.flatMap_cons, List.foldl_append, foldl_hear, hbs, hcs, List.append_assoc]
    · rw [List.filterMap_append, hwritten, hwritten', List.flatMap_cons]

/-- The answer of a turn can be seen. -/
def HandledJob.Seen (x : HandledJob g) : Prop :=
  ∃ c, collect x.events = .ok c ∧ (Body.rendered c.answer).isBlank = false

/-- A turn leaves behind what the caller has heard, or nothing. -/
theorem writtenOf_cases (x : HandledJob g) :
    x.Seen ∧ writtenOf (collect x.events) = [utterance (collect x.events)] ∨
      ¬ x.Seen ∧ writtenOf (collect x.events) = [] := by
  cases hc : collect x.events with
  | error e =>
    refine .inr ⟨?_, rfl⟩
    rintro ⟨c, hok, -⟩
    rw [hc] at hok
    cases hok
  | ok c =>
    rw [writtenOf_ok rfl]
    cases hblank : (Body.rendered c.answer).isBlank with
    | true =>
      refine .inr ⟨?_, rfl⟩
      rintro ⟨d, hok, hseen⟩
      cases hc.symm.trans hok
      rw [hblank] at hseen
      cases hseen
    | false =>
      refine .inl ⟨⟨c, hc, hblank⟩, ?_⟩
      have hanswer : c.answer ≠ [] := by
        intro hempty
        rw [hempty, isBlank_nil] at hblank
        cases hblank
      show [c.answer] = [if c.answer.isEmpty then notCompleted else c.answer]
      rw [List.isEmpty_eq_false_iff.mpr hanswer]
      rfl

/-- What is left behind is what has been heard exactly if every answer can be seen. -/
theorem flatMap_writtenOf_iff (xs : List (HandledJob g)) :
    (xs.flatMap fun x => writtenOf (collect x.events)) =
        (xs.map fun x => utterance (collect x.events)) ↔ ∀ x ∈ xs, x.Seen := by
  have hshort : ∀ xs : List (HandledJob g),
      (xs.flatMap fun x => writtenOf (collect x.events)).length ≤ xs.length := by
    intro xs
    induction xs with
    | nil => exact Nat.le_refl _
    | cons x xs ih =>
      rw [List.flatMap_cons, List.length_append, List.length_cons]
      rcases writtenOf_cases x with ⟨-, hone⟩ | ⟨-, hnone⟩
      · rw [hone, List.length_singleton]
        omega
      · rw [hnone, List.length_nil]
        omega
  induction xs with
  | nil => exact iff_of_true rfl (List.forall_mem_nil _)
  | cons x xs ih =>
    rw [List.flatMap_cons, List.map_cons, List.forall_mem_cons]
    rcases writtenOf_cases x with ⟨hseen, hone⟩ | ⟨hunseen, hnone⟩
    · rw [hone, List.singleton_append, List.cons.injEq]
      exact and_congr (iff_of_true rfl hseen) ih
    · refine iff_of_false (fun hsame => ?_) fun hall => hunseen hall.1
      have hlength := congrArg List.length hsame
      rw [hnone, List.nil_append, List.length_cons, List.length_map] at hlength
      have := hshort xs
      omega

/-- **What a call leaves behind in the thread**, however its transcripts come between the messages
about its runs: the answers that can be seen.  That is what the caller has heard exactly if every
turn has such an answer. -/
theorem call_written (xs : List (HandledJob g)) {ms : List CallMessage}
    (hms : runMessages ms = xs.flatMap fun x => x.events.filterMap RunEvent.browserMessage)
    {p : CallPage} (hanswer : p.answer = none) (hapart : p.Apart) :
    (ms.foldl CallPage.handleData p).thread.written =
        p.thread.written ++ xs.flatMap (fun x => writtenOf (collect x.events)) ∧
      ((ms.foldl CallPage.handleData p).thread.written =
          p.thread.written ++ xs.map (fun x => utterance (collect x.events)) ↔
        ∀ x ∈ xs, x.Seen) := by
  have hwritten : (ms.foldl CallPage.handleData p).thread.written =
      p.thread.written ++ xs.flatMap (fun x => writtenOf (collect x.events)) := by
    obtain ⟨hshows, -⟩ := (Shows.resting hanswer rfl).foldl hapart ms
    obtain ⟨bs, hbs, hleft⟩ := hear_turns xs (p.thread.said.map (·.2))
    rw [foldl_receive, hms, hbs] at hshows
    have hof : ∀ t : Thread, t.written = (t.said.map (·.2)).filterMap Bubble.visible? :=
      fun t => by
        rw [Thread.written, List.filterMap_map]
        rfl
    generalize ms.foldl CallPage.handleData p = q at hshows
    generalize hsaying : ({ shown := p.thread.said.map (·.2) ++ bs } : Saying) = a at hshows
    cases hshows with
    | resting _ hsaid =>
      cases hsaying
      rw [hof, hof, hsaid, List.filterMap_append, hleft]
    | @writing before w b _ hsaid =>
      obtain ⟨hshown, hdraft, -⟩ := Saying.mk.inj hsaying
      have hnone : b.visible? = none := by
        rw [← hdraft]
        exact if_pos isBlank_nil
      rw [hof, hof, hsaid, List.map_append, ← hshown, List.filterMap_append, List.filterMap_append,
        hleft, List.map_singleton, List.filterMap_cons_none hnone, List.filterMap_nil,
        List.append_nil]
  refine ⟨hwritten, ?_⟩
  rw [hwritten, List.append_cancel_left_eq]
  exact flatMap_writtenOf_iff xs

/-- A greeting, heard piece by piece, and its answer. -/
theorem greeting_written : ∃ x : HandledJob bareGraph,
    ((.transcriptPartial "Hell" :: .transcriptFinal "Hello" ::
        (x.events.filterMap RunEvent.browserMessage).map CallMessage.run).foldl
      CallPage.handleData {}).thread.written = writtenOf (collect x.events) := by
  obtain ⟨x, -⟩ := exists_greeting
  have hms : runMessages (.transcriptPartial "Hell" :: .transcriptFinal "Hello" ::
      (x.events.filterMap RunEvent.browserMessage).map CallMessage.run) =
        [x].flatMap fun x => x.events.filterMap RunEvent.browserMessage := by
    show ((x.events.filterMap RunEvent.browserMessage).map CallMessage.run).filterMap _ = _
    rw [List.filterMap_map, List.flatMap_singleton]
    exact List.filterMap_some
  exact ⟨x, ((call_written [x] hms rfl fun id hid => by cases hid).1).trans
    (List.flatMap_singleton ..)⟩

end OmniCare.Browser
