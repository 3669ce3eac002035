import OmniCare.Backtracking
import OmniCare.Injection
import OmniCare.Markers
import OmniCare.Ways

/-! # Tool output unwrapped

`strip_data_markers` takes off what `as_data` puts around a payload.  The payload may hold the same
tags and the same preface.  The pattern is matched from the start of the text, and its closing tag
must end the text; so whichever way the pattern takes, what it captures is the preface, the payload
and blanks (`captured_of_takes`), and **the payload comes out as it went in, but for blanks at its
ends** (`stripDataMarkers_asData`).
-/
namespace OmniCare

open Regex

/-! ## Taking the markers off -/

/-- The tags with the text between them: `<(policy_document|tool_result)>\s*(.*?)\s*</\1>`, up to
the end. -/
def dataPattern : Regex :=
  .cat [.star .space, .lit "<", .group 1 (.oneOf [.lit policyMarker, .lit toolMarker]), .lit ">",
    .star .space, .group 2 (.rep false 0 none (.char fun _ => true)), .star .space, .lit "</",
    .backref 1, .lit ">", .star .space, .atEnd]

/-- `strip_data_markers`: the payload inside `as_data`, or the text unchanged. -/
def stripDataMarkers (payload : Text) : Text :=
  match dataPattern.matchStart payload with
  | none => payload
  | some m =>
      let body := m.group 2
      if Text.startsWith body dataPreface then Text.strip (body.drop dataPreface.length) else body

example : stripDataMarkers "just text" = "just text" := by decide +kernel

/-! ## The pattern from the content on -/

/-- The pattern behind the opening tag and its blanks. -/
def contentPattern : Regex :=
  .cat [.group 2 (.rep false 0 none (.char fun _ => true)), .star .space, .lit "</", .backref 1,
    .lit ">", .star .space, .atEnd]

theorem closingTag_eq (marker : Text) : closingTag marker = "</".toList ++ marker ++ ['>'] := rfl

variable {content marker before : Text} {v : Way}

/-- One way takes the whole content. -/
theorem contentPattern_takes (content marker before : Text) :
    ∃ v, contentPattern.Takes ⟨⟨before, content ++ closingTag marker⟩, [(1, marker)]⟩ v := by
  let bare : List (Nat × Text) := [(2, content), (1, marker)]
  let behind : Text := content.reverse ++ before
  have hgap : ∀ w : Way, (star space).Takes w w :=
    fun w => takes_rep_char_iff.mpr ⟨[], ⟨Nat.zero_le _, by simp, rfl⟩, .refl _, rfl⟩
  have hbody : (Regex.group 2 (.rep false 0 none (.char fun _ => true))).Takes
      ⟨⟨before, content ++ closingTag marker⟩, [(1, marker)]⟩
      ⟨⟨behind, closingTag marker⟩, bare⟩ := by
    have hpasses : (⟨before, content ++ closingTag marker⟩ : Cursor).Passes
        ⟨behind, closingTag marker⟩ content := ⟨rfl, rfl⟩
    have hall : (Regex.rep false 0 none (.char fun _ => true)).Takes
        ⟨⟨before, content ++ closingTag marker⟩, [(1, marker)]⟩
        ⟨⟨behind, closingTag marker⟩, [(1, marker)]⟩ :=
      takes_rep_char_iff.mpr ⟨content, ⟨Nat.zero_le _, by simp, by simp⟩, hpasses, rfl⟩
    have hgroup := Takes.group (i := 2) hall
    rwa [hpasses.upTo] at hgroup
  have hopen : (lit "</").Takes ⟨⟨behind, closingTag marker⟩, bare⟩
      ⟨⟨"</".toList.reverse ++ behind, marker ++ ['>']⟩, bare⟩ :=
    takes_lit_iff.mpr ⟨⟨rfl, rfl⟩, rfl⟩
  have hmarker : (Regex.backref 1).Takes
      ⟨⟨"</".toList.reverse ++ behind, marker ++ ['>']⟩, bare⟩
      ⟨⟨marker.reverse ++ ("</".toList.reverse ++ behind), ['>']⟩, bare⟩ := .backref rfl
  have hclose : (lit ">").Takes ⟨⟨marker.reverse ++ ("</".toList.reverse ++ behind), ['>']⟩, bare⟩
      ⟨⟨'>' :: (marker.reverse ++ ("</".toList.reverse ++ behind)), []⟩, bare⟩ :=
    takes_lit_iff.mpr ⟨⟨rfl, rfl⟩, rfl⟩
  exact ⟨_, hbody.seq ((hgap _).seq (hopen.seq (hmarker.seq (hclose.seq ((hgap _).seq
    (.assert rfl))))))⟩

/-- Blanks and a closing tag at the end of a text are not those before its last character. -/
theorem content_of_closed {s g z : Text} (hz : Text.isBlank z = true)
    (h : content ++ closingTag marker = s ++ (g ++ (closingTag marker ++ z))) :
    content = s ++ g := by
  rcases List.eq_nil_or_concat z with rfl | ⟨z, c, rfl⟩
  · rw [List.append_nil, ← List.append_assoc] at h
    exact List.append_cancel_right h
  · have hlast := congrArg List.getLast? h
    rw [List.concat_eq_append] at hlast hz
    rw [closingTag_eq, ← List.append_assoc, List.getLast?_concat, ← List.append_assoc,
      ← List.append_assoc, ← List.append_assoc, List.getLast?_concat] at hlast
    obtain rfl : '>' = c := Option.some.inj hlast
    rw [Text.isBlank_append] at hz
    exact absurd (Bool.and_eq_true_iff.mp hz).2 (by decide)

/-- **Every way captures the content but for blanks at its end.** -/
theorem captured_of_takes
    (h : contentPattern.Takes ⟨⟨before, content ++ closingTag marker⟩, [(1, marker)]⟩ v) :
    ∃ blanks, content = v.group 2 ++ blanks ∧ Text.isBlank blanks = true := by
  change (Regex.seq (.group 2 (.rep false 0 none (.char fun _ => true))) (.seq (.star .space)
    (.seq (.lit "</") (.seq (.backref 1) (.seq (.lit ">") (.seq (.star .space) .atEnd)))))).Takes
      _ v at h
  cases h with
  | seq hbody h =>
  cases hbody with
  | @group _ _ _ u hbody =>
  obtain ⟨s, -, hs, hsame⟩ := takes_rep_char_iff.mp hbody
  rw [hs.upTo, hsame] at h
  cases h with
  | @seq _ _ _ u₁ _ hgap h =>
  obtain ⟨g, hg, hgap, hsame⟩ := takes_rep_char_iff.mp hgap
  cases h with
  | @seq _ _ _ u₂ _ hopen h =>
  obtain ⟨hopen, hkept⟩ := takes_lit_iff.mp hopen
  rw [hsame] at hkept
  cases h with
  | seq hmarker h =>
  cases hmarker with
  | @backref _ _ rest ahead =>
  rw [Way.group, hkept] at ahead h
  cases h with
  | @seq _ _ _ u₃ _ hclose h =>
  obtain ⟨hclose, hsame⟩ := takes_lit_iff.mp hclose
  cases h with
  | seq hblanks h =>
  obtain ⟨z, hz, hblanks, hgroups⟩ := takes_rep_char_iff.mp hblanks
  cases h with
  | assert hend =>
  have hcaptured : v.group 2 = s := by
    rw [Way.group, hgroups, hsame]
    rfl
  have hend : Text.isBlank v.cursor.after = true := by
    rcases Bool.or_eq_true_iff.mp hend with hnil | hbreak
    · rw [List.isEmpty_iff.mp hnil]
      rfl
    · rw [eq_of_beq hbreak]
      rfl
  have hblank : Text.isBlank (z ++ v.cursor.after) = true := by
    rw [Text.isBlank_append, hend, Bool.and_true]
    exact hz.all
  -- what was passed, part by part
  have hafter : u.cursor.after = g ++ (closingTag marker ++ (z ++ v.cursor.after)) := by
    have hgap : u.cursor.after = g ++ u₁.cursor.after := hgap.1
    have hmarker : u₂.cursor.after = marker ++ rest := ahead
    have hclose : rest = ">".toList ++ u₃.cursor.after := hclose.1
    rw [hgap, hopen.1, hmarker, hclose, hblanks.1, closingTag_eq]
    simp only [List.append_assoc]
    rfl
  refine ⟨g, ?_, hg.all⟩
  rw [hcaptured]
  exact content_of_closed hblank (hs.1.trans (congrArg (s ++ ·) hafter))

/-! ## The round trip -/

/-- Blanks at the ends of a text do not count. -/
theorem strip_between_blanks {blanks blanks' : Text} (hbefore : Text.isBlank blanks = true)
    (hbehind : Text.isBlank blanks' = true) (s : Text) :
    Text.strip (blanks ++ (s ++ blanks')) = Text.strip s := by
  have hright : ∀ t, Text.rstripBy isSpace (t ++ blanks') = Text.rstripBy isSpace t := by
    intro t
    have hall : ∀ c ∈ blanks'.reverse, isSpace c = true :=
      fun c hc => List.all_eq_true.mp hbehind c (List.mem_reverse.mp hc)
    rw [Text.rstripBy, List.reverse_append, List.dropWhile_append_of_pos hall, Text.rstripBy]
  have hnone : blanks'.dropWhile isSpace = [] := (Text.dropWhile_eq_nil_iff_isBlank _).mpr hbehind
  unfold Text.strip Text.stripBy Text.lstripBy
  rw [List.dropWhile_append_of_pos (List.all_eq_true.mp hbefore), List.dropWhile_append]
  split
  · rename_i hempty
    rw [hnone, List.isEmpty_iff.mp hempty]
  · exact hright _

/-- Behind the preface, what is captured is the payload and blanks. -/
theorem captured_eq {payload captured blanks : Text} (hblanks : Text.isBlank blanks = true)
    (h : dataPreface ++ ("\n\n".toList ++ payload ++ ['\n']) = captured ++ blanks) :
    ∃ body, captured = dataPreface ++ body ∧
      "\n\n".toList ++ payload ++ ['\n'] = body ++ blanks := by
  rcases List.append_eq_append_iff.mp h with ⟨z, hz, hrest⟩ | ⟨z, hz, hrest⟩
  · exact ⟨z, hz, hrest⟩
  · rcases List.eq_nil_or_concat z with rfl | ⟨z, c, rfl⟩
    · exact ⟨[], by rw [hz]; simp, by simpa using hrest.symm⟩
    · -- the preface does not end in a blank
      have hlast : dataPreface.getLast? = some '.' := by decide +kernel
      rw [hz, List.concat_eq_append, ← List.append_assoc, List.getLast?_concat] at hlast
      rw [hrest, List.concat_eq_append, Text.isBlank_append, Text.isBlank_append,
        Option.some.inj hlast, Bool.and_eq_true, Bool.and_eq_true] at hblanks
      exact absurd hblanks.1.2 (by decide)

/-- The opening tag is taken first of all, up to the preface. -/
theorem dataPattern_opens {marker content : Text} {v : Way}
    (hmarker : marker = policyMarker ∨ marker = toolMarker)
    (hcontent : content.head?.any isSpace = false)
    (hv : (contentPattern.run ⟨⟨'\n' :: '>' :: (marker.reverse ++ ['<']), content⟩,
      [(1, marker)]⟩).head? = some v) :
    (dataPattern.run ⟨⟨[], '<' :: (marker ++ '>' :: '\n' :: content)⟩, []⟩).head? = some v := by
  have hblanks : (star space).Prefers [] ('<' :: (marker ++ '>' :: '\n' :: content)) [] :=
    .star rfl rfl
  have hopen := Prefers.lit "<" (marker ++ '>' :: '\n' :: content)
  have hname : (Regex.group 1 (.oneOf [.lit policyMarker, .lit toolMarker])).Prefers marker
      ('>' :: '\n' :: content) [(1, marker)] := by
    refine .group 1 ?_
    rcases hmarker with rfl | rfl
    · exact .altFirst (.lit _ _)
    · refine .altSecond (fun before groups => ?_) (.lit _ _)
      rw [List.eq_nil_iff_forall_not_mem]
      intro u hu
      have hpasses := (takes_lit_iff.mp (mem_run_iff.mp hu)).1
      cases hpasses.1
  have hclose := Prefers.lit ">" ('\n' :: content)
  have hbreak : (star space).Prefers ['\n'] content [] := .star rfl hcontent
  exact hblanks.andThen (hopen.andThen (hname.andThen (hclose.andThen (hbreak.andThen hv))))

theorem stripDataMarkers_of_marker {marker : Text}
    (hmarker : marker = policyMarker ∨ marker = toolMarker) (payload : Text) :
    stripDataMarkers (asData payload marker) = Text.strip payload := by
  let content := dataPreface ++ ("\n\n".toList ++ payload ++ ['\n'])
  have hwrapped : asData payload marker =
      '<' :: (marker ++ '>' :: '\n' :: (content ++ closingTag marker)) := by
    simp only [asData, content, closingTag, List.append_assoc, List.cons_append]
    rfl
  -- some way is the first
  obtain ⟨v₀, hsome⟩ :=
    contentPattern_takes content marker ('\n' :: '>' :: (marker.reverse ++ ['<']))
  obtain ⟨v, hv⟩ : ∃ v, (contentPattern.run ⟨⟨'\n' :: '>' :: (marker.reverse ++ ['<']),
      content ++ closingTag marker⟩, [(1, marker)]⟩).head? = some v :=
    Option.isSome_iff_exists.mp (by
      rw [List.isSome_head?]
      exact List.ne_nil_of_mem (mem_run_iff.mpr hsome))
  obtain ⟨blanks, hcaptured, hblanks⟩ := captured_of_takes (mem_run_iff.mp (List.mem_of_head? hv))
  obtain ⟨body, hbody, hpayload⟩ := captured_eq hblanks hcaptured
  have hmatch : dataPattern.matchStart (asData payload marker) =
      some ⟨.start (asData payload marker), v⟩ := by
    have hopens := @dataPattern_opens marker (content ++ closingTag marker) v hmarker rfl hv
    rw [← hwrapped] at hopens
    rw [matchStart, matchAt, Cursor.start, hopens]
    rfl
  have hstarts : Text.startsWith (dataPreface ++ body) dataPreface = true := by
    rw [Text.startsWith, Text.dropPrefix?_append]
    rfl
  have hinside : Text.strip body = Text.strip payload := by
    have hbehind := @strip_between_blanks [] blanks rfl hblanks body
    have hbetween := @strip_between_blanks "\n\n" ['\n'] rfl rfl payload
    rw [List.nil_append, ← hpayload, List.append_assoc, hbetween] at hbehind
    exact hbehind.symm
  unfold stripDataMarkers
  rw [hmatch]
  show (if Text.startsWith (v.group 2) dataPreface then
    Text.strip ((v.group 2).drop dataPreface.length) else v.group 2) = _
  rw [hbody, if_pos hstarts, List.drop_left, hinside]

/-- **A payload comes out as it went in**, but for the blanks at its ends, whatever it holds. -/
theorem stripDataMarkers_asData (payload : Text) :
    stripDataMarkers (asData payload policyMarker) = Text.strip payload ∧
      stripDataMarkers (asData payload toolMarker) = Text.strip payload :=
  ⟨stripDataMarkers_of_marker (.inl rfl) payload, stripDataMarkers_of_marker (.inr rfl) payload⟩

end OmniCare
