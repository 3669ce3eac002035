import OmniCare.Backtracking
import OmniCare.Fronts

/-! # The terms of a text

`analyze` of `retrieval/app/hybrid.py`: the tokens of a text, without the words that say nothing,
and stemmed.  An identifier or a figure goes through as it stands (`mem_analyze_of_exact`), and so a
query and a text in which it stands share a term, **unless a comma comes behind a figure**: the
comma is taken for a part of it.
-/
namespace OmniCare

/-- `[a-z0-9]`. -/
def isTermChar (c : Char) : Bool := c.isLower || ('0' ≤ c && c ≤ '9')

/-- `\$?\d[\d,]*(?:\.\d+)?`. -/
def figureTerm : Regex :=
  .cat [.opt (.lit "$"), .digit, .star (.char fun c => isDigit c || c == ','),
    .opt (.cat [.lit ".", .plus .digit])]

/-- `[a-z][a-z0-9]*(?:-[a-z0-9]+)*`. -/
def wordTerm : Regex :=
  .cat [.char Char.isLower, .star (.char isTermChar),
    .star (.cat [.lit "-", .plus (.char isTermChar)])]

/-- `_TOKEN_RE`. -/
def tokenPattern : Regex := .alt figureTerm wordTerm

/-- `STOPWORDS`. -/
def stopwords : List Text :=
  ["a", "an", "the", "and", "or", "but", "if", "then", "than", "that", "this", "these", "those",
   "there", "here", "i", "me", "my", "we", "our", "you", "your", "he", "she", "it", "its", "they",
   "them", "their", "is", "am", "are", "was", "were", "be", "been", "being", "do", "does", "did",
   "doing", "done", "have", "has", "had", "having", "can", "could", "will", "would", "shall",
   "should", "may", "might", "must", "of", "in", "on", "at", "to", "for", "from", "by", "with",
   "about", "into", "over", "under", "up", "down", "out", "off", "as", "no", "not", "so", "such",
   "only", "own", "same", "too", "very", "just", "what", "which", "who", "whom", "when", "where",
   "why", "how", "me", "my", "mine", "i'd", "i'm", "need", "want", "like", "get", "got", "tell",
   "show", "me", "please"]

/-- `tokenize`. -/
def tokenize (text : Text) : List Text := tokenPattern.findall (Text.lower text)

/-- A token without its last characters. -/
def chopped (token : Text) (n : Nat) : Text := token.take (token.length - n)

/-- `_stem`, of a plural. -/
def singular (token : Text) : Text :=
  if Text.endsWith token "ies" && 4 < token.length then chopped token 3 ++ ['y']
  else if Text.endsWith token "sses" then chopped token 2
  else if Text.endsWith token "s" && !(Text.endsWith token "ss" || Text.endsWith token "us") then
    chopped token 1
  else token

/-- `_stem`, of a form in `-ing` or `-ed`. -/
def unconjugated (token : Text) : Text :=
  if Text.endsWith token "ing" && 5 < token.length then chopped token 3
  else if Text.endsWith token "ed" && !Text.endsWith token "eed" && 4 < token.length then
    chopped token 2
  else token

/-- `_stem`: a token is a text of ASCII letters, or it is no word. -/
def stem (token : Text) : Text :=
  if !token.all Char.isAlpha || token.length ≤ 3 then token
  else
    let token := unconjugated (singular token)
    if Text.endsWith token "e" && 3 < token.length then chopped token 1 else token

/-- `analyze`. -/
def analyze (text : Text) : List Text :=
  let tokens := tokenize text
  let kept := tokens.filter fun t => !stopwords.contains t
  (if kept.isEmpty then tokens else kept).map stem

/-- A query and a text have a term in common. -/
def SharesTerm (query text : Text) : Prop := ∃ t ∈ analyze query, t ∈ analyze text

instance (query text : Text) : Decidable (SharesTerm query text) :=
  inferInstanceAs (Decidable (∃ t ∈ analyze query, t ∈ analyze text))

/-! ## Repeated parts -/

/-- A repetition takes part after part, each of which is preferred where it stands. -/
theorem Regex.Prefers.starEach {r : Regex} {rest : Text} (hstop : r.Fails rest) {ts : List Text}
    (hts : ∀ us t vs, ts = us ++ t :: vs → t ≠ [] ∧ r.Prefers t (vs.flatten ++ rest) []) :
    (Regex.star r).Prefers ts.flatten rest [] := by
  have hrun : ∀ fuel before groups, (ts.flatten ++ rest).length ≤ fuel →
      (repeatRun (fun v => r.run v) true fuel 0 none ⟨⟨before, ts.flatten ++ rest⟩, groups⟩).head? =
        some ⟨⟨ts.flatten.reverse ++ before, rest⟩, groups⟩ := by
    induction ts with
    | nil =>
      intro fuel before groups _
      cases fuel with
      | zero => rfl
      | succ fuel =>
        rw [repeatRun]
        simp [hstop before groups]
    | cons t ts ih =>
      obtain ⟨hne, hprefers⟩ := hts [] t ts rfl
      intro fuel before groups hfuel
      have hpos := List.length_pos_iff.mpr hne
      have htext : (t ++ (ts.flatten ++ rest)).length = t.length + (ts.flatten ++ rest).length :=
        List.length_append
      rw [List.flatten_cons, List.append_assoc, htext] at hfuel
      obtain ⟨fuel, rfl⟩ : ∃ k, fuel = k + 1 := Nat.exists_eq_succ_of_ne_zero (by omega)
      obtain ⟨ws, hways⟩ := List.head?_eq_some_iff.mp (hprefers before groups)
      have hrest := ih (fun us u vs heq => hts (t :: us) u vs (heq ▸ rfl)) fuel
        (t.reverse ++ before) groups (by omega)
      have hshorter : (ts.flatten ++ rest).length < (t ++ (ts.flatten ++ rest)).length := by omega
      rw [List.flatten_cons, List.append_assoc, repeatRun, hways, List.flatMap_cons]
      simp only [Nat.lt_irrefl, false_or, hshorter, if_true, Nat.zero_sub, Option.map_none,
        List.nil_append, if_false, reduceCtorEq]
      rw [List.append_assoc, List.head?_append, hrest, Option.some_or, List.reverse_append,
        List.append_assoc]
  exact fun before groups => hrun _ before groups (Nat.le_add_left _ _)

/-! ## Exact terms -/

/-- A term that goes through as it stands, with what comes behind it. -/
inductive Exact : Text → Text → Prop
  /-- An identifier: not all of it is letters. -/
  | identifier {x : Char} {t : Text} {parts : List Text} {rest : Text} (hx : x.isLower = true)
      (ht : t.all isTermChar = true) (hparts : ∀ p ∈ parts, p ≠ [] ∧ p.all isTermChar = true)
      (hexact : t.all Char.isAlpha = false ∨ parts ≠ [])
      (hrest : rest.head?.any (fun c => isTermChar c || c == '-') = false) :
      Exact (x :: t ++ (parts.map ('-' :: ·)).flatten) rest
  /-- A figure: no comma comes behind it, and no period with a digit. -/
  | figure {dollar : Text} {x : Char} {t rest : Text} (hdollar : dollar = [] ∨ dollar = ['$'])
      (hx : isDigit x = true) (ht : t.all (fun c => isDigit c || c == ',') = true)
      (hrest : rest.head?.any (fun c => isDigit c || c == ',') = false)
      (hwhole : ¬ ∃ d rest', rest = '.' :: d :: rest' ∧ isDigit d = true) :
      Exact (dollar ++ x :: t) rest
  /-- A figure with decimals. -/
  | decimal {dollar : Text} {x : Char} {t ds rest : Text}
      (hdollar : dollar = [] ∨ dollar = ['$']) (hx : isDigit x = true)
      (ht : t.all (fun c => isDigit c || c == ',') = true) (hne : ds ≠ [])
      (hds : ds.all isDigit = true) (hrest : rest.head?.any isDigit = false) :
      Exact (dollar ++ x :: (t ++ '.' :: ds)) rest

/-- A character that is in no term. -/
def endsTerm (c : Char) : Bool :=
  !(isTermChar c || isDigit c || c == '$' || c == ',' || c == '.' || c == '-')

/-- The term stands in the text, behind a separator or first of all. -/
def StandsIn (w text : Text) : Prop :=
  ∃ a b, Text.lower text = a ++ (w ++ b) ∧ a.getLast?.all endsTerm = true ∧ Exact w b

theorem ascii_of_isLower {c : Char} (h : c.isLower = true) : c.toNat < 128 := by
  have hle : c.val ≤ 'z'.val := of_decide_eq_true (Bool.and_eq_true_iff.mp h).2
  exact Nat.lt_of_le_of_lt (UInt32.le_iff_toNat_le.mp hle) (by decide)

theorem ascii_of_isAlpha {c : Char} (h : c.isAlpha = true) : c.toNat < 128 := by
  rcases Bool.or_eq_true_iff.mp h with hupper | hlower
  · have hle : c.val ≤ 'Z'.val := (of_decide_eq_true hupper).2
    exact Nat.lt_of_le_of_lt (UInt32.le_iff_toNat_le.mp hle) (by decide)
  · exact ascii_of_isLower hlower

namespace Regex

/-- The part of a figure in front of its decimals. -/
theorem prefers_figure {dollar : Text} {x : Char} {t rest : Text}
    (hdollar : dollar = [] ∨ dollar = ['$']) (hx : isDigit x = true)
    (ht : t.all (fun c => isDigit c || c == ',') = true) {u : Text}
    (hu : (u ++ rest).head?.any (fun c => isDigit c || c == ',') = false)
    (hdecimals : (opt (.cat [.lit ".", .plus .digit])).Prefers u rest []) :
    figureTerm.Prefers (dollar ++ ([x] ++ (t ++ u))) rest [] := by
  have hx' : x ≠ '$' := by
    rintro rfl
    revert hx
    decide
  have hopt : (opt (lit "$")).Prefers dollar (([x] ++ (t ++ u)) ++ rest) [] := by
    rcases hdollar with rfl | rfl
    · refine Prefers.optStay fun before groups => ?_
      show (Regex.char (· == '$')).run ⟨⟨before, x :: _⟩, groups⟩ = []
      simp [run, hx']
    · exact Prefers.optTake (Prefers.lit "$" _) (by decide)
  have hdigit : digit.Prefers [x] ((t ++ u) ++ rest) [] := Prefers.char hx
  have hstar : (star (.char fun c => isDigit c || c == ',')).Prefers t (u ++ rest) [] :=
    Prefers.star ht hu
  exact hopt.seq (hdigit.seq (hstar.seq hdecimals))

theorem fails_figureTerm {x : Char} (hx : isDigit x = false) (hne : x ≠ '$') (s : Text) :
    figureTerm.Fails (x :: s) := by
  intro before groups
  refine List.eq_nil_iff_forall_not_mem.mpr fun v hv => ?_
  obtain ⟨u, hu, hv⟩ := mem_run_seq.mp hv
  rcases mem_run_opt.mp hu with rfl | ⟨hu, -⟩
  · obtain ⟨w, hw, -⟩ := mem_run_seq.mp hv
    obtain ⟨y, hy, hpasses, -⟩ := mem_run_char.mp hw
    obtain rfl := (List.cons.inj hpasses.1).1
    rw [hx] at hy
    cases hy
  · obtain ⟨y, hy, hpasses, -⟩ := mem_run_char.mp hu
    obtain rfl := (List.cons.inj hpasses.1).1
    exact hne (eq_of_beq hy)

/-- Behind a part of an identifier stands no character that belongs to it. -/
theorem head_parts {rest : Text}
    (hrest : rest.head?.any (fun c => isTermChar c || c == '-') = false) (parts : List Text) :
    ((parts.map ('-' :: ·)).flatten ++ rest).head?.any isTermChar = false := by
  cases parts with
  | nil =>
    cases rest with
    | nil => rfl
    | cons c rest => exact (Bool.or_eq_false_iff.mp hrest).1
  | cons p parts => rfl

theorem prefers_parts {parts : List Text} {rest : Text}
    (hparts : ∀ p ∈ parts, p ≠ [] ∧ p.all isTermChar = true)
    (hrest : rest.head?.any (fun c => isTermChar c || c == '-') = false) :
    (star (.cat [.lit "-", .plus (.char isTermChar)])).Prefers (parts.map ('-' :: ·)).flatten rest
      [] := by
  refine Prefers.starEach (fun before groups => ?_) fun us t vs heq => ?_
  · refine List.eq_nil_iff_forall_not_mem.mpr fun v hv => ?_
    obtain ⟨u, hu, -⟩ := mem_run_seq.mp hv
    obtain ⟨y, hy, hpasses, -⟩ := mem_run_char.mp hu
    have hafter : rest = y :: u.cursor.after := hpasses.1
    rw [hafter] at hrest
    have hhyphen := (Bool.or_eq_false_iff.mp hrest).2
    rw [eq_of_beq hy] at hhyphen
    cases hhyphen
  · obtain ⟨ps, qs, rfl, hps, hqs⟩ := List.map_eq_append_iff.mp heq
    obtain ⟨p, qs, rfl, rfl, rfl⟩ := List.map_eq_cons_iff.mp hqs
    obtain ⟨hne, hall⟩ := hparts p (List.mem_append_right _ List.mem_cons_self)
    exact ⟨List.cons_ne_nil _ _,
      (Prefers.lit "-" _).seq (Prefers.plus hne hall (head_parts hrest qs))⟩

theorem isDigit_of_isLower {c : Char} (h : c.isLower = true) : isDigit c = false :=
  forall_ascii (P := fun c => c.isLower = true → isDigit c = false) (by decide)
    (ascii_of_isLower h) h

/-- **An exact term is taken as it stands.** -/
theorem prefers_exact {w rest : Text} (h : Exact w rest) : tokenPattern.Prefers w rest [] := by
  cases h with
  | @identifier x t parts _ hx ht hparts _ hrest =>
    have hdollar : x ≠ '$' := by
      rintro rfl
      revert hx
      decide
    have hchar : (Regex.char Char.isLower).Prefers [x]
        ((t ++ (parts.map ('-' :: ·)).flatten) ++ rest) [] := Prefers.char hx
    have hword := hchar.seq ((Prefers.star ht (head_parts hrest parts)).seq
      (prefers_parts hparts hrest))
    exact Prefers.altSecond (fails_figureTerm (isDigit_of_isLower hx) hdollar _) hword
  | figure hdollar hx ht hrest hwhole =>
    have hstay : (opt (.cat [.lit ".", .plus .digit])).Prefers [] rest [] := by
      refine Prefers.optStay fun before groups => List.eq_nil_iff_forall_not_mem.mpr fun v hv => ?_
      obtain ⟨u, hu, hv⟩ := mem_run_seq.mp hv
      obtain ⟨y, hy, hpasses, -⟩ := mem_run_char.mp hu
      obtain ⟨ds, hds, hpasses', -⟩ := mem_run_rep_char.mp hv
      obtain ⟨d, ds, rfl⟩ := List.exists_cons_of_length_pos (Nat.lt_of_succ_le hds.atLeast)
      refine hwhole ⟨d, ds ++ v.cursor.after, ?_, (Bool.and_eq_true_iff.mp hds.all).1⟩
      have hafter : rest = y :: u.cursor.after := hpasses.1
      rw [hafter, eq_of_beq hy, hpasses'.1]
      rfl
    have hfigure := prefers_figure (u := []) hdollar hx ht hrest hstay
    exact (hfigure.cast (by simp) rfl).altFirst
  | @decimal _ _ _ ds _ hdollar hx ht hne hds hrest =>
    have htake : (opt (.cat [.lit ".", .plus .digit])).Prefers ('.' :: ds) rest [] :=
      Prefers.optTake ((Prefers.lit "." _).seq (Prefers.plus hne hds hrest)) nofun
    exact ((prefers_figure hdollar hx ht rfl htake).cast (by simp) rfl).altFirst

theorem solid_tokenPattern : tokenPattern.Solid :=
  .alt (.second _ (.seq (.char _) _)) (.seq (.char _) _)

/-- No token has a separator. -/
theorem avoids_tokenPattern {s : Char} (hs : endsTerm s = true) : tokenPattern.Avoids s := by
  simp only [endsTerm, Bool.not_eq_true', Bool.or_eq_false_iff] at hs
  obtain ⟨⟨⟨⟨⟨hterm, hdigit⟩, hdollar⟩, hcomma⟩, hperiod⟩, hhyphen⟩ := hs
  have hlower : s.isLower = false := (Bool.or_eq_false_iff.mp hterm).1
  have hgroup : (isDigit s || s == ',') = false := Bool.or_eq_false_iff.mpr ⟨hdigit, hcomma⟩
  exact .alt
    (.seq (.rep (.char hdollar)) (.seq (.char hdigit) (.seq (.rep (.char hgroup))
      (.rep (.seq (.char hperiod) (.rep (.char hdigit)))))))
    (.seq (.char hlower) (.seq (.rep (.char hterm))
      (.rep (.seq (.char hhyphen) (.rep (.char hterm))))))

end Regex

/-! ## Exact terms go through -/

/-- No token runs across a separator. -/
theorem uncrossed_behind {a b : Text} (ha : a.getLast?.all endsTerm = true) :
    Regex.Solid.Uncrossed tokenPattern (.start (a ++ b)) ⟨a.reverse, b⟩ := by
  intro c m u v hu hv hne hm
  have hpasses := Regex.matchAt_passes hm
  by_contra hlonger
  obtain ⟨w, htext, -⟩ := hv.split hpasses (Nat.le_of_lt (not_le.mp hlonger))
  -- The character in front of the position is in the match.
  obtain ⟨v, s, rfl⟩ : ∃ v' s, v = v' ++ [s] :=
    ⟨v.dropLast, v.getLast hne, (List.dropLast_append_getLast hne).symm⟩
  have hfront : a = u ++ (v ++ [s]) := by
    have hbefore : a.reverse = (v ++ [s]).reverse ++ c.before := hv.2
    rw [hu.text_eq.2] at hbefore
    have hreverse := congrArg List.reverse hbefore
    simpa using hreverse
  have hs : endsTerm s = true := by
    rw [hfront] at ha
    simpa using ha
  obtain ⟨t, ht, hnot⟩ := Regex.avoids_tokenPattern hs _ _ (Regex.matchAt_mem hm)
  rw [← ht.upTo, hpasses.upTo, htext] at hnot
  exact hnot (by simp)

theorem mem_tokenize_of_exact {w text : Text} (h : StandsIn w text) : w ∈ tokenize text := by
  obtain ⟨a, b, htext, ha, hexact⟩ := h
  have hmatch := (Regex.prefers_exact hexact).matchAt a.reverse
  unfold tokenize Regex.findall
  rw [htext]
  refine List.mem_map.mpr ⟨_, Regex.solid_tokenPattern.mem_finditer_of_uncrossed
    (Cursor.start_passes a (w ++ b)) (uncrossed_behind ha) hmatch, ?_⟩
  exact Cursor.Passes.upTo ⟨rfl, rfl⟩

/-- An exact term has a character that is no letter and no apostrophe. -/
theorem exists_of_exact {w rest : Text} (h : Exact w rest) :
    ∃ c ∈ w, c.isAlpha = false ∧ c ≠ '\'' := by
  have hdigit : ∀ {c : Char}, isDigit c = true → c.isAlpha = false ∧ c ≠ '\'' := by
    intro c hc
    constructor
    · by_contra halpha
      rw [Bool.not_eq_false] at halpha
      have hnone := forall_ascii (P := fun c => c.isAlpha = true → isDigit c = false) (by decide)
        (ascii_of_isAlpha halpha) halpha
      rw [hc] at hnone
      cases hnone
    · rintro rfl
      revert hc
      decide
  cases h with
  | @identifier x t parts _ _ ht _ hexact _ =>
    rcases hexact with hexact | hne
    · obtain ⟨c, hc, halpha⟩ := List.all_eq_false.mp hexact
      refine ⟨c, by simp [hc], by simpa using halpha, ?_⟩
      rintro rfl
      exact absurd (List.all_eq_true.mp ht _ hc) (by decide)
    · obtain ⟨p, parts, rfl⟩ := List.exists_cons_of_ne_nil hne
      exact ⟨'-', by simp, by decide, by decide⟩
  | @figure _ x _ _ _ hx => exact ⟨x, by simp, hdigit hx⟩
  | @decimal _ x _ _ _ _ hx => exact ⟨x, by simp, hdigit hx⟩

theorem stem_of_exact {w rest : Text} (h : Exact w rest) : stem w = w := by
  obtain ⟨c, hc, halpha, -⟩ := exists_of_exact h
  have hnot : w.all Char.isAlpha = false := by
    rw [List.all_eq_false]
    exact ⟨c, hc, by simp [halpha]⟩
  unfold stem
  rw [hnot]
  rfl

theorem not_mem_stopwords_of_exact {w rest : Text} (h : Exact w rest) : w ∉ stopwords := by
  have hletters : ∀ s ∈ stopwords, s.all (fun c => c.isAlpha || c == '\'') = true := by
    decide +kernel
  obtain ⟨c, hc, halpha, hne⟩ := exists_of_exact h
  intro hmem
  have hletter := List.all_eq_true.mp (hletters w hmem) c hc
  simp [halpha, hne] at hletter

/-- **An exact term is one of the terms of a text in which it stands.** -/
theorem mem_analyze_of_exact {w text : Text} (h : StandsIn w text) : w ∈ analyze text := by
  have htoken := mem_tokenize_of_exact h
  obtain ⟨a, b, -, -, hexact⟩ := h
  have hkept : w ∈ (tokenize text).filter fun t => !stopwords.contains t := by
    simpa [htoken] using not_mem_stopwords_of_exact hexact
  unfold analyze
  dsimp only
  rw [if_neg (by simpa using List.ne_nil_of_mem hkept)]
  exact List.mem_map.mpr ⟨w, hkept, stem_of_exact hexact⟩

/-- A query and a text in which one exact term stands share a term. -/
theorem sharesTerm_of_exact {w query text : Text} (hquery : StandsIn w query)
    (htext : StandsIn w text) : SharesTerm query text :=
  ⟨w, mem_analyze_of_exact hquery, mem_analyze_of_exact htext⟩

/-- A comma behind a figure is taken for a part of it. -/
example : ¬ SharesTerm "Is $25,000 covered?" "Up to $25,000, whichever is less." := by
  decide +kernel

end OmniCare
