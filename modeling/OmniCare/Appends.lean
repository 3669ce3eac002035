import OmniCare.Volume

/-! # Appends keep the claims file

What the callers of `JsonFileClaimsRepo` see of a claims volume.  From a file that holds claims
with distinct ids, **the file always holds them and the claims filed since, with distinct ids;
what an append returns is among these, and an append that fails has put nothing there**
(`file_kept`).  A read sees the file as it was at some moment.
-/
namespace OmniCare

/-- The append that an event is about. -/
def VolumeEvent.append? : VolumeEvent → Option Nat
  | .replaced k _ | .returned k _ | .failed k => some k
  | .observed _ => none

namespace Volume

variable {v w : Volume} {seed : Text} {es fs : List VolumeEvent} {base claims : List Claim}

/-! ## What the appends have reported -/

/-- Nothing has been heard of an append. -/
def Silent (es : List VolumeEvent) (k : Nat) : Prop := ∀ e ∈ es, e.append? ≠ some k

theorem Silent.append {k : Nat} (h : Silent es k) (h' : Silent fs k) : Silent (es ++ fs) k := by
  intro e he
  rcases List.mem_append.mp he with he | he
  · exact h e he
  · exact h' e he

/-- What has been heard of an append, by where it stands. -/
def Reports (es : List VolumeEvent) (k : Nat) : Appending → Prop
  | .leaving (some claim) | .finished (some claim) => .replaced k claim ∈ es ∧ .failed k ∉ es
  | .closed => .failed k ∈ es → ∀ claim, .replaced k claim ∉ es
  | _ => Silent es k

/-- What is heard of others does not matter. -/
theorem Reports.append {k : Nat} {phase : Appending} (h : Reports es k phase)
    (hfs : Silent fs k) : Reports (es ++ fs) k phase := by
  have old : ∀ {e : VolumeEvent}, e.append? = some k → e ∈ es ++ fs → e ∈ es := by
    intro e hk he
    rcases List.mem_append.mp he with he | he
    · exact he
    · exact absurd hk (hfs e he)
  cases phase with
  | leaving result | finished result =>
    cases result with
    | none => exact Silent.append h hfs
    | some claim => exact ⟨List.mem_append_left _ h.1, fun hfailed => h.2 (old rfl hfailed)⟩
  | closed => exact fun hfailed claim hreplaced => h (old rfl hfailed) claim (old rfl hreplaced)
  | _ => exact Silent.append h hfs

/-- Whatever an append was doing, it can be over. -/
theorem Reports.close {k : Nat} {phase : Appending} (h : Reports es k phase) :
    Reports es k .closed := by
  intro hfailed claim hreplaced
  cases phase with
  | leaving result | finished result =>
    cases result with
    | none => exact h _ hfailed rfl
    | some claim => exact h.2 hfailed
  | closed => exact h hfailed claim hreplaced
  | _ => exact h _ hfailed rfl

/-- Every append has reported what it has done. -/
structure Honest (v : Volume) (es : List VolumeEvent) : Prop where
  calls : ∀ {k : Nat} {c : AppendCall}, v.appends[k]? = some c → Reports es k c.phase
  new : ∀ {k : Nat}, v.appends.length ≤ k → Silent es k
  returned : ∀ {k : Nat} {claim : Claim}, .returned k claim ∈ es → .replaced k claim ∈ es

/-- An append goes on. -/
theorem Honest.advance (hh : Honest v es) {k : Nat} {c c' : AppendCall}
    (here : v.appends[k]? = some c) (hcalls : w.appends = v.appends.set k c')
    (habout : ∀ e ∈ fs, e.append? = some k) (hreports : Reports (es ++ fs) k c'.phase)
    (hreturned : ∀ claim, .returned k claim ∈ fs → .replaced k claim ∈ es) :
    Honest w (es ++ fs) := by
  have others : ∀ {j : Nat}, j ≠ k → Silent fs j := by
    intro j hj e he heq
    rw [habout e he] at heq
    exact hj (Option.some.inj heq).symm
  refine ⟨fun {j d} hd => ?_, fun {j} hj => ?_, fun {j claim} hmem => ?_⟩
  · rw [hcalls] at hd
    rcases get_set hd with ⟨rfl, rfl⟩ | ⟨hj, hd⟩
    · exact hreports
    · exact (hh.calls hd).append (others hj)
  · rw [hcalls, List.length_set] at hj
    have hk : k < v.appends.length := (List.getElem?_eq_some_iff.mp here).1
    exact (hh.new hj).append (others (by omega))
  · rcases List.mem_append.mp hmem with hmem | hmem
    · exact List.mem_append_left _ (hh.returned hmem)
    · have hj : some j = some k := habout _ hmem
      obtain rfl := Option.some.inj hj
      exact List.mem_append_left _ (hreturned claim hmem)

/-- A step of which nothing is heard. -/
theorem Honest.quiet (hh : Honest v es) {k : Nat} {c c' : AppendCall}
    (here : v.appends[k]? = some c) (hcalls : w.appends = v.appends.set k c')
    (hreports : Reports es k c'.phase) : Honest w (es ++ []) :=
  hh.advance here hcalls nofun (by rwa [List.append_nil]) nofun

/-- A replica or a read goes on. -/
theorem Honest.aside (hh : Honest v es) (hcalls : w.appends = v.appends)
    (habout : ∀ e ∈ fs, e.append? = none) : Honest w (es ++ fs) := by
  have silent : ∀ k, Silent fs k := by
    intro k e he heq
    rw [habout e he] at heq
    cases heq
  refine ⟨fun hd => ?_, fun hk => ?_, fun {k claim} hmem => ?_⟩
  · rw [hcalls] at hd
    exact (hh.calls hd).append (silent _)
  · rw [hcalls] at hk
    exact (hh.new hk).append (silent _)
  · rcases List.mem_append.mp hmem with hmem | hmem
    · exact List.mem_append_left _ (hh.returned hmem)
    · cases habout _ hmem

/-- An append that has not come out of the file lock has reported nothing. -/
theorem silent_of_inside {k : Nat} {phase : Appending} (h : Reports es k phase)
    (holds : phase.holdsLock = true) (inside : ∀ result, phase ≠ .leaving result) :
    Silent es k := by
  cases phase with
  | leaving result => exact absurd rfl (inside result)
  | waiting | queued | finished | closed => cases holds
  | _ => exact h

/-- **Every step keeps the reports honest.** -/
theorem honest_move (hh : Honest v es) (h : Move seed v w fs) : Honest w (es ++ fs) := by
  cases h with
  | start | found | missed | seedOpened | seeded | looked | readOn => exact hh.aside rfl nofun
  | lookedInVain | observed =>
    refine hh.aside rfl fun e he => ?_
    rw [List.mem_singleton.mp he]
    rfl
  | crash r =>
    rw [List.append_nil]
    refine ⟨fun {k c} hd => ?_, fun hk => ?_, hh.returned⟩
    · rw [crashed, List.getElem?_map] at hd
      obtain ⟨d, hd, heq⟩ := Option.map_eq_some_iff.mp hd
      have hreports := hh.calls hd
      split at heq
      · rw [← heq]
        exact hreports.close
      · rw [← heq]
        exact hreports
    · rw [crashed, List.length_map] at hk
      exact hh.new hk
  | call r args =>
    rw [List.append_nil]
    refine ⟨fun {k c} hd => ?_, fun hk => ?_, hh.returned⟩
    · rw [List.getElem?_append] at hd
      split at hd
      · exact hh.calls hd
      · rename_i hk
        have hphase : c.phase = .waiting := by
          rw [List.getElem?_singleton] at hd
          split at hd
          · cases hd
            rfl
          · cases hd
        rw [hphase]
        exact hh.new (Nat.le_of_not_lt hk)
    · rw [List.length_append] at hk
      exact hh.new (Nat.le_trans (Nat.le_add_right ..) hk)
  | queue here phase | acquire here phase | opened here phase | nothing here phase
  | read here phase | parsed here phase | drafted here phase | refused here phase
  | written _ here phase =>
    have hreports := hh.calls here
    rw [phase] at hreports
    exact hh.quiet here rfl hreports
  | @released k c result here leaving =>
    have hreports := hh.calls here
    rw [leaving] at hreports
    refine hh.quiet here rfl ?_
    cases result <;> exact hreports
  | raised here holds inside =>
    exact hh.quiet here rfl (silent_of_inside (hh.calls here) holds inside)
  | dropped here => exact hh.quiet here rfl (hh.calls here).close
  | cancelled here =>
    have hreports := hh.calls here
    exact hh.quiet here rfl hreports
  | @replaced k file c claim disk here writing =>
    have hsilent := hh.calls here
    rw [writing] at hsilent
    refine hh.advance here rfl (fun e he => by rw [List.mem_singleton.mp he]; rfl) ⟨?_, ?_⟩ ?_
    · exact List.mem_append_right _ List.mem_cons_self
    · intro hfailed
      rcases List.mem_append.mp hfailed with hfailed | hfailed
      · exact hsilent _ hfailed rfl
      · cases List.mem_singleton.mp hfailed
    · intro claim hreturned
      cases List.mem_singleton.mp hreturned
  | @ended k c result here finished =>
    have hreports := hh.calls here
    rw [finished] at hreports
    cases result with
    | none =>
      -- the append fails, and nothing has been heard of it before
      refine hh.advance here rfl (fun e he => by rw [List.mem_singleton.mp he]; rfl) ?_ ?_
      · intro _ claim hreplaced
        rcases List.mem_append.mp hreplaced with hreplaced | hreplaced
        · exact hreports _ hreplaced rfl
        · cases List.mem_singleton.mp hreplaced
      · intro claim hreturned
        cases List.mem_singleton.mp hreturned
    | some claim =>
      refine hh.advance here rfl (fun e he => by rw [List.mem_singleton.mp he]; rfl) ?_ ?_
      · intro hfailed
        rcases List.mem_append.mp hfailed with hfailed | hfailed
        · exact absurd hfailed hreports.2
        · cases List.mem_singleton.mp hfailed
      · intro claim hreturned
        cases List.mem_singleton.mp hreturned
        exact hreports.1

/-! ## What the reads see -/

/-- A read has opened a file that held the claims of some moment, and that nobody writes any
more. -/
structure Watches (v : Volume) (base claims : List Claim) (x : Reading) : Prop where
  lt : x.file < v.disk.files.length
  permanent : v.disk.dir .temporary ≠ some x.file
  unseeded : ¬ v.Seeds x.file
  got : x.got <+: v.disk.content x.file
  held : ∃ cs, readClaims (v.disk.content x.file) = some cs ∧ base <+: cs ∧ cs <+: claims

/-- Every read watches such a file, and what has been observed was in the file. -/
structure Observing (base claims : List Claim) (v : Volume) (es : List VolumeEvent) : Prop where
  readings : ∀ {j : Nat} {x : Reading}, v.readings[j]? = some (some x) → Watches v base claims x
  observed : ∀ {r : Option (List Claim)}, .observed r ∈ es →
    ∃ cs, r = some cs ∧ base <+: cs ∧ cs <+: claims

theorem Watches.move {x : Reading} {claims' : List Claim} (hx : Watches v base claims x)
    (ho : Orderly v) (hmisses : ¬ v.Misses) (h : Move seed v w fs) (hclaims : claims <+: claims') :
    Watches w base claims' x := by
  have hcontent := h.touches.content ho hmisses hx.lt hx.permanent hx.unseeded
  obtain ⟨cs, hread, hbase, hcs⟩ := hx.held
  refine ⟨Nat.lt_of_lt_of_le hx.lt h.touches.length_le, h.touches.temporary hx.lt hx.permanent,
    fun hseeds => ?_, by rw [hcontent]; exact hx.got,
    cs, by rw [hcontent]; exact hread, hbase, hcs.trans hclaims⟩
  rcases h.seeds hseeds with hseeds | ⟨hmissed, -⟩
  · exact hx.unseeded hseeds
  · exact hmisses hmissed

/-- A read that goes on, and all the other ones. -/
theorem Observing.keep {claims' : List Claim} (hw : Observing base claims v es)
    (hclaims : claims <+: claims')
    (hreadings : ∀ {j : Nat} {x : Reading}, w.readings[j]? = some (some x) →
      Watches w base claims' x)
    (hobserved : ∀ {r : Option (List Claim)}, .observed r ∈ fs →
      ∃ cs, r = some cs ∧ base <+: cs ∧ cs <+: claims) : Observing base claims' w (es ++ fs) := by
  refine ⟨hreadings, fun {r} hr => ?_⟩
  have hold : ∃ cs, r = some cs ∧ base <+: cs ∧ cs <+: claims := by
    rcases List.mem_append.mp hr with hr | hr
    · exact hw.observed hr
    · exact hobserved hr
  obtain ⟨cs, hcs, hbase, hle⟩ := hold
  exact ⟨cs, hcs, hbase, hle.trans hclaims⟩

/-- **Every step lets the reads see the file as it was at some moment.** -/
theorem observing_move (hw : Observing base claims v es) (ho : Orderly v) (hs : Settled claims v)
    (hbase : base <+: claims) (h : Move seed v w fs) :
    Observing base (claims ++ filed fs) w (es ++ fs) := by
  have hmove := h
  have hclaims : claims <+: claims ++ filed fs := List.prefix_append ..
  have still : ∀ {x : Reading}, Watches v base claims x → Watches w base (claims ++ filed fs) x :=
    fun hx => hx.move ho hs.unmissed hmove hclaims
  cases h with
  | crash r =>
    refine hw.keep hclaims (fun {j x} hx => ?_) nofun
    rw [crashed, List.getElem?_map] at hx
    obtain ⟨y, hy, heq⟩ := Option.map_eq_some_iff.mp hx
    rw [Option.filter_eq_some_iff] at heq
    rw [heq.1] at hy
    exact still (hw.readings hy)
  | @looked r file there =>
    refine hw.keep hclaims (fun {j x} hx => ?_) nofun
    rw [List.getElem?_append] at hx
    split at hx
    · exact still (hw.readings hx)
    · rw [List.getElem?_singleton] at hx
      split at hx
      · cases hx
        obtain ⟨i, hi, hread⟩ := hs.file
        rw [there] at hi
        cases hi
        refine still ⟨v.disk.dir_lt there, fun htemporary => ?_, hs.unseeded there,
          List.nil_prefix, claims, hread, hbase, List.prefix_rfl⟩
        cases v.disk.dir_inj there htemporary
      · cases hx
  | lookedInVain missing =>
    obtain ⟨i, hi, -⟩ := hs.file
    rw [hi] at missing
    cases missing
  | @readOn j x piece here more =>
    refine hw.keep hclaims (fun {i y} hy => ?_) nofun
    rcases get_set hy with ⟨-, hy⟩ | ⟨-, hy⟩
    · cases hy
      obtain ⟨hlt, hpermanent, hunseeded, ⟨t, ht⟩, hheld⟩ := hw.readings here
      refine still ⟨hlt, hpermanent, hunseeded, ?_, hheld⟩
      rw [← ht, List.drop_left] at more
      rw [← ht]
      exact (List.prefix_append_right_inj _).mpr more
    · exact still (hw.readings hy)
  | @observed j x here all =>
    obtain ⟨-, -, -, ⟨t, ht⟩, cs, hread, hheld⟩ := hw.readings here
    refine hw.keep hclaims (fun {i y} hy => ?_) fun hr => ?_
    · rcases get_set hy with ⟨-, hy⟩ | ⟨-, hy⟩
      · cases hy
      · exact still (hw.readings hy)
    · -- the whole file has been read
      rw [← ht, List.drop_left] at all
      rw [← ht, all, List.append_nil] at hread
      cases List.mem_singleton.mp hr
      exact ⟨cs, hread, hheld⟩
  | @ended k c result =>
    refine hw.keep hclaims (fun hx => still (hw.readings hx)) fun hr => ?_
    cases result <;> cases List.mem_singleton.mp hr
  | replaced =>
    refine hw.keep hclaims (fun hx => still (hw.readings hx)) fun hr => ?_
    cases List.mem_singleton.mp hr
  | _ => exact hw.keep hclaims (fun hx => still (hw.readings hx)) nofun

/-! ## The law -/

/-- A claims file with distinct ids, and replicas that are down or up with nothing in flight. -/
structure Ready (base : List Claim) (v : Volume) : Prop where
  file : ∃ i, v.disk.dir .target = some i ∧ readClaims (v.disk.content i) = some base
  distinct : (base.map Claim.claimId).Nodup
  replicas : ∀ x ∈ v.replicas, x.startup = .down ∨ x.startup = .up
  idle : v.lock = none ∧ v.appends = [] ∧ v.readings = []

/-- What holds of a claims file that held some claims, after some events. -/
structure FileKept (base : List Claim) (v : Volume) (es : List VolumeEvent) : Prop where
  /-- The file parses; it holds all that it held, unchanged, and all that has been filed. -/
  holds : v.claims? = some (base ++ filed es)
  distinct : ((base ++ filed es).map Claim.claimId).Nodup
  /-- What an append has returned is there. -/
  returned : ∀ {k claim}, .returned k claim ∈ es → claim ∈ filed es
  /-- An append that has failed has not changed the file. -/
  failed : ∀ {k}, .failed k ∈ es → ∀ claim, .replaced k claim ∉ es
  /-- A read finds the file as it was at some moment. -/
  observed : ∀ {r}, .observed r ∈ es → ∃ cs, r = some cs ∧ base <+: cs ∧ cs <+: base ++ filed es

/-- What every step keeps. -/
structure Kept (base : List Claim) (v : Volume) (es : List VolumeEvent) : Prop where
  orderly : Orderly v
  settled : Settled (base ++ filed es) v
  distinct : ((base ++ filed es).map Claim.claimId).Nodup
  honest : Honest v es
  observing : Observing base (base ++ filed es) v es

theorem kept_of_ready (h : Ready base v) : Kept base v [] := by
  obtain ⟨-, happends, hreadings⟩ := h.idle
  have startup : ∀ {r : Nat} {x : Replica}, v.replicas[r]? = some x →
      x.startup = .down ∨ x.startup = .up := fun hx => h.replicas _ (List.mem_of_getElem? hx)
  have hunseeded : ∀ file, ¬ v.Seeds file := by
    rintro file ⟨r, x, rest, hx, hseeding⟩
    rcases startup hx with hdown | hup
    · rw [hdown] at hseeding
      cases hseeding
    · rw [hup] at hseeding
      cases hseeding
  have hunmissed : ¬ v.Misses := by
    rintro ⟨r, x, hx, habsent⟩
    rcases startup hx with hdown | hup
    · rw [hdown] at habsent
      cases habsent
    · rw [hup] at habsent
      cases habsent
  have nobody : ∀ {k : Nat} {c : AppendCall}, v.appends[k]? ≠ some c := by
    rw [happends]
    nofun
  rw [show base = base ++ filed [] from (List.append_nil _).symm] at h
  refine ⟨⟨fun hc => absurd hc nobody, fun hc => absurd hc nobody,
    fun hseeds => absurd hseeds (hunseeded _)⟩,
    ⟨h.file, hunmissed, fun _ => hunseeded _, fun hc => absurd hc nobody⟩, h.distinct,
    ⟨fun hc => absurd hc nobody, fun _ => nofun, nofun⟩, ⟨fun hx => ?_, nofun⟩⟩
  rw [hreadings] at hx
  cases hx

/-- The id of a claim that is put into the file is new. -/
theorem distinct_move (hs : Settled claims v) (hd : (claims.map Claim.claimId).Nodup)
    (h : Move seed v w fs) : ((claims ++ filed fs).map Claim.claimId).Nodup := by
  have nothing : filed fs = [] → ((claims ++ filed fs).map Claim.claimId).Nodup := by
    intro hfiled
    rwa [hfiled, List.append_nil]
  cases h with
  | @replaced k file c claim disk here writing =>
    have hfollows := hs.calls here
    rw [writing] at hfollows
    rw [List.map_append, List.nodup_append]
    refine ⟨hd, List.nodup_singleton _, fun a ha b hb => ?_⟩
    rintro rfl
    rw [List.mem_singleton.mp hb] at ha
    exact hfollows.2 ha
  | @ended k c result =>
    refine nothing ?_
    cases result <;> rfl
  | _ => exact nothing rfl

theorem kept_step {a : VolumeAction} (hk : Kept base v es) (h : v.step seed a = some (w, fs)) :
    Kept base w (es ++ fs) := by
  have hmove := move_of_step h
  have hclaims : base ++ filed (es ++ fs) = base ++ filed es ++ filed fs := by
    rw [filed_append, List.append_assoc]
  refine ⟨orderly_move hk.orderly hmove, ?_, ?_, honest_move hk.honest hmove, ?_⟩
  · rw [hclaims]
    exact settled_move hk.settled hk.orderly hmove
  · rw [hclaims]
    exact distinct_move hk.settled hk.distinct hmove
  · rw [hclaims]
    exact observing_move hk.observing hk.orderly hk.settled (List.prefix_append ..) hmove

theorem Kept.fileKept (h : Kept base v es) : FileKept base v es := by
  obtain ⟨i, hi, hread⟩ := h.settled.file
  refine ⟨?_, h.distinct, fun hreturned => ?_, fun {k} hfailed => ?_, h.observing.observed⟩
  · rw [claims?, Disk.text?, hi]
    exact hread
  · exact List.mem_filterMap.mpr ⟨_, h.honest.returned hreturned, rfl⟩
  · -- an append that has failed is over, and over is over
    by_cases hk : k < v.appends.length
    · have hreports := h.honest.calls (List.getElem?_eq_getElem hk)
      have hover := hreports.close
      exact hover hfailed
    · exact absurd rfl (h.honest.new (Nat.le_of_not_lt hk) _ hfailed)

/-- A step that files nothing leaves the text of the file as it was. -/
theorem text_move (hs : Settled claims v) (ho : Orderly v) (h : Move seed v w fs)
    (hfiled : filed fs = []) : w.disk.text? .target = v.disk.text? .target := by
  have hmove := h
  have hdir : w.disk.dir .target = v.disk.dir .target := by
    cases h with
    | seedOpened here absent => exact absurd ⟨_, _, here, absent⟩ hs.unmissed
    | drafted => exact v.disk.dir_truncate_of_ne (by decide)
    | replaced => cases hfiled
    | _ => rfl
  obtain ⟨i, hi, -⟩ := hs.file
  rw [Disk.text?, Disk.text?, hdir, hi, Option.map_some, Option.map_some, hs.content ho hmove hi]

/-- **From a claims file with distinct ids, whatever the replicas do: the file parses, it keeps
every claim and every claim that is filed, the ids stay distinct, an id that has been returned
is present from then on, and as long as no append succeeds the file stays as it is.** -/
theorem file_kept {v₀ : Volume} {as bs : List VolumeAction} (hready : Ready base v₀)
    (h : Run (Computes (step seed)) v₀ as v es) (h' : Run (Computes (step seed)) v bs w fs) :
    FileKept base v es ∧ FileKept base w (es ++ fs) ∧
      (filed fs = [] → w.disk.text? .target = v.disk.text? .target) := by
  have hkept : Kept base v es :=
    h.invariant (I := Kept base) (kept_of_ready hready) kept_step
  have hlater : Kept base w (es ++ fs) ∧
      (filed fs = [] → w.disk.text? .target = v.disk.text? .target) := by
    refine h'.invariant (I := fun w fs => Kept base w (es ++ fs) ∧
      (filed fs = [] → w.disk.text? .target = v.disk.text? .target)) ⟨?_, fun _ => rfl⟩ ?_
    · rwa [List.append_nil]
    · intro t gs a u hs ⟨hk, htext⟩ hstep
      rw [← List.append_assoc]
      refine ⟨kept_step hk hstep, fun hfiled => ?_⟩
      rw [filed_append, List.append_eq_nil_iff] at hfiled
      rw [text_move hk.settled hk.orderly (move_of_step hstep) hfiled.2]
      exact htext hfiled.1
  exact ⟨hkept.fileKept, hlater.1.fileKept, hlater.2⟩

/-- A volume whose claims file holds some claims, and some replicas that are up. -/
def holding (claims : List Claim) (replicas : Nat) : Volume where
  disk :=
    { files := [writeClaims claims], dir := fun n => if n = .target then some 0 else none
      dir_lt := by
        intro n i h
        split at h <;> cases h
        exact Nat.zero_lt_one
      dir_inj := by
        intro n m i h h'
        split at h <;> split at h' <;> simp_all }
  replicas := List.replicate replicas { startup := .up }

theorem ready_holding (h : (base.map Claim.claimId).Nodup) (replicas : Nat) :
    Ready base (holding base replicas) := by
  refine ⟨⟨0, rfl, readClaims_writeClaims base⟩, h, fun x hx => ?_, rfl, rfl, rfl⟩
  rw [List.eq_of_mem_replicate hx]
  exact .inr rfl

/-- The steps of an append that nothing disturbs. -/
def undisturbed (k : Nat) : List VolumeAction :=
  [.proceed k 0, .proceed k 0, .proceed k 0, .proceed k 9999, .proceed k 0, .proceed k 0,
    .proceed k 9999, .proceed k 0, .proceed k 0, .proceed k 0]

/-- An append of one replica that fails after one of another has succeeded. -/
theorem failed_append_changes_nothing :
    ∃ v w es fs,
      Run (Computes (step "[]".toList)) (holding [] 2) (.call 0 burstPipe :: undisturbed 0) v es ∧
      Run (Computes (step "[]".toList)) v
        [.call 1 burstPipe, .proceed 1 0, .proceed 1 0, .proceed 1 0, .fault 1, .proceed 1 0,
          .proceed 1 0] w fs ∧
      (filed es).length = 1 ∧ .failed 1 ∈ fs ∧ FileKept [] v es ∧ FileKept [] w (es ++ fs) ∧
      w.disk.text? .target = v.disk.text? .target := by
  obtain ⟨r, hr, hp⟩ := (Option.any_eq_true _ _).mp (show
    (play (step "[]".toList) (holding [] 2) (.call 0 burstPipe :: undisturbed 0)).any (fun r =>
      (play (step "[]".toList) r.1
        [.call 1 burstPipe, .proceed 1 0, .proceed 1 0, .proceed 1 0, .fault 1, .proceed 1 0,
          .proceed 1 0]).any fun q =>
        (filed r.2).length = 1 ∧ .failed 1 ∈ q.2 ∧ filed q.2 = []) = true by decide +kernel)
  obtain ⟨q, hq, hp⟩ := (Option.any_eq_true _ _).mp hp
  obtain ⟨hone, hfailed, hnothing⟩ := of_decide_eq_true hp
  obtain ⟨hkept, hlater, htext⟩ :=
    file_kept (@ready_holding [] List.nodup_nil 2) (Run.of_play hr) (Run.of_play hq)
  exact ⟨r.1, q.1, r.2, q.2, .of_play hr, .of_play hq, hone, hfailed, hkept, hlater,
    htext hnothing⟩

end Volume
end OmniCare
