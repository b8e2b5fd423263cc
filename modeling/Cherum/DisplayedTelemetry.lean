import Cherum.ActionRuns
import Cherum.TelemetryPage

/-! The page and the server while any number of requests for the last telemetry
are under way. The server answers them one after the other, with samples whose
times do not decrease; the answers arrive in any order, each at most once, and
each is applied when it arrives. A failed request is an answer without data.
Beside the page the model notes which samples it has read and drawn. -/

namespace Cherum.DisplayedTelemetry
open ActionRuns TelemetryPage

/-- The page, with the samples that were its `telemetry.position`, and those
that were drawn, one after the other. -/
structure Watched where
  page : Page
  seen : List PositionRow
  drawn : List PositionRow
  deriving DecidableEq

structure System where
  issued : ℕ
  /-- The answers, in the order in which the server made them. -/
  produced : List (Option Answer)
  /-- The numbers of those that have arrived, in that order. -/
  arrived : List ℕ
  view : Watched
  deriving DecidableEq

def start : System := ⟨0, [], [], ⟨initial, [], []⟩⟩

inductive Action
  | issue
  | produce (response : Option Answer)
  | arrive (index : ℕ)

def sampleOf (response : Option Answer) : Option PositionRow := response.bind Answer.position

def System.sample (s : System) (index : ℕ) : Option PositionRow :=
  s.produced[index]?.bind sampleOf

section Step

variable (refuses : LatLng → Bool)

def Watched.update (w : Watched) (response : Option Answer) : Watched :=
  let seen := w.seen ++ (sampleOf response).toList
  let current := if response.isSome then seen.getLast? else none
  { page := updateTelemetry refuses w.page response
    seen := seen
    drawn := w.drawn ++ (current.filter fun row => !refuses row.position.latLng).toList }

def step (s : System) : Action → Option System
  | .issue => some { s with issued := s.issued + 1 }
  | .produce response =>
    if s.produced.length < s.issued ∧
        ∀ old ∈ s.produced, ∀ a ∈ sampleOf old, ∀ b ∈ sampleOf response, a.time ≤ b.time then
      some { s with produced := s.produced ++ [response] }
    else none
  | .arrive index =>
    match s.produced[index]? with
    | none => none
    | some response =>
      if index ∈ s.arrived then none
      else some { s with arrived := s.arrived ++ [index], view := s.view.update refuses response }

end Step

def InOrder (samples : List PositionRow) : Prop :=
  samples.Pairwise fun (a b : PositionRow) => a.time ≤ b.time

/-- The page shows the sample read last, the marker and the end of the
trajectory are the one drawn last, and none of them was ever replaced by an
earlier one. -/
structure Chronological (s : System) : Prop where
  position : s.view.page.telemetry.position = s.view.seen.getLast?.map PositionRow.position
  position_order : InOrder s.view.seen
  marker : s.view.page.marker =
    (s.view.drawn.getLast?.map fun row => row.position.latLng).getD (some 0, some 0)
  marker_order : InOrder s.view.drawn
  trajectory : s.view.page.trajectoryPoints =
    (lastN 1000 s.view.drawn).map fun row => row.position.latLng
  trajectory_order : InOrder (lastN 1000 s.view.drawn)

/-- No answer that was made after the arriving one, with a later sample, has
arrived before it. -/
def NotOvertaken (s : System) : Action → Prop
  | .arrive index => ∀ a ∈ s.sample index, ∀ other ∈ s.arrived, index < other →
      ∀ b ∈ s.sample other, b.time ≤ a.time
  | _ => True

/-- What the page holds, whatever the order of the answers. -/
structure Coherent (w : Watched) : Prop where
  position : w.page.telemetry.position = w.seen.getLast?.map PositionRow.position
  marker : w.page.marker =
    (w.drawn.getLast?.map fun row => row.position.latLng).getD (some 0, some 0)
  trajectory : w.page.trajectoryPoints = (lastN 1000 w.drawn).map fun row => row.position.latLng
  drawn_seen : ∀ row ∈ w.drawn, row ∈ w.seen

structure Inv (s : System) : Prop where
  coherent : Coherent s.view
  produced_order : s.produced.Pairwise fun old new =>
    ∀ a ∈ sampleOf old, ∀ b ∈ sampleOf new, a.time ≤ b.time
  arrived_valid : ∀ index ∈ s.arrived, index < s.produced.length
  seen : s.view.seen = s.arrived.filterMap s.sample

variable {refuses : LatLng → Bool}

theorem coherent_update {w : Watched} (h : Coherent w) (response : Option Answer) :
    Coherent (w.update refuses response) := by
  cases response with
  | none =>
    have hsame : w.update refuses none = { w with page := updateTelemetry refuses w.page none } := by
      simp [Watched.update, sampleOf]
    rw [hsame]
    exact ⟨h.position, h.marker, h.trajectory, h.drawn_seen⟩
  | some data =>
    have hposition : (updateData data w.page.telemetry).position =
        (w.seen ++ (sampleOf (some data)).toList).getLast?.map PositionRow.position := by
      cases hrow : data.position with
      | none => simp [updateData, sampleOf, hrow, h.position]
      | some row => simp [updateData, sampleOf, hrow]
    have hkept : ∀ row ∈ w.drawn, row ∈ w.seen ++ (sampleOf (some data)).toList :=
      fun row hrow => List.mem_append_left _ (h.drawn_seen row hrow)
    have hread : (w.update refuses (some data)).page.telemetry.position =
        (w.update refuses (some data)).seen.getLast?.map PositionRow.position := by
      refine Eq.trans ?_ hposition
      exact congrArg Telemetry.position (updateTelemetry_telemetry refuses w.page data)
    have hdrawn : (w.update refuses (some data)).drawn = w.drawn ++
        ((w.seen ++ (sampleOf (some data)).toList).getLast?.filter
          fun row => !refuses row.position.latLng).toList := rfl
    cases hcurrent : (w.seen ++ (sampleOf (some data)).toList).getLast?.filter
        fun row => !refuses row.position.latLng with
    | none =>
      have hrefused : ∀ position ∈ (updateData data w.page.telemetry).position,
          refuses position.latLng = true := by
        intro position hmem
        rw [hposition] at hmem
        obtain ⟨row, hrow, heq⟩ := Option.map_eq_some_iff.mp hmem
        have hnot := Option.filter_eq_none_iff.mp hcurrent row hrow
        rw [← heq]
        simpa using hnot
      obtain ⟨hmarker, hpoints⟩ := updateTelemetry_undrawn hrefused
      rw [hcurrent, Option.toList_none, List.append_nil] at hdrawn
      refine ⟨hread, ?_, ?_, ?_⟩ <;> rw [hdrawn]
      · exact hmarker.trans h.marker
      · exact hpoints.trans h.trajectory
      · exact hkept
    | some row =>
      obtain ⟨hlast, htaken⟩ := Option.filter_eq_some_iff.mp hcurrent
      rw [hlast] at hposition
      obtain ⟨hmarker, hpoints⟩ := updateTelemetry_drawn hposition (by simpa using htaken)
      rw [hcurrent, Option.toList_some] at hdrawn
      refine ⟨hread, ?_, ?_, ?_⟩ <;> rw [hdrawn]
      · rw [List.getLast?_concat]
        exact hmarker
      · refine hpoints.trans ?_
        rw [h.trajectory, map_lastN, map_lastN, List.map_append]
        exact pushPoint_lastN _ _
      · intro other hother
        cases List.mem_append.mp hother with
        | inl hother => exact hkept other hother
        | inr hother =>
          rw [List.mem_singleton.mp hother]
          exact List.mem_of_getLast? hlast

theorem step_produce {s t : System} {response : Option Answer}
    (h : step refuses s (.produce response) = some t) :
    (∀ old ∈ s.produced, ∀ a ∈ sampleOf old, ∀ b ∈ sampleOf response, a.time ≤ b.time) ∧
      t = { s with produced := s.produced ++ [response] } := by
  simp only [step] at h
  split at h
  · next hguard =>
    cases h
    exact ⟨hguard.2, rfl⟩
  · cases h

theorem step_arrive {s t : System} {index : ℕ} (h : step refuses s (.arrive index) = some t) :
    ∃ response, s.produced[index]? = some response ∧ index ∉ s.arrived ∧
      t = { s with
        arrived := s.arrived ++ [index]
        view := s.view.update refuses response } := by
  simp only [step] at h
  split at h
  · cases h
  · next response hresponse =>
    split at h
    · cases h
    · next hnew =>
      cases h
      exact ⟨response, hresponse, hnew, rfl⟩

theorem Inv.sample_order {s : System} (h : Inv s) {first second : ℕ} (hlt : first < second)
    {a b : PositionRow} (ha : s.sample first = some a) (hb : s.sample second = some b) :
    a.time ≤ b.time := by
  obtain ⟨old, hold, ha⟩ := Option.bind_eq_some_iff.mp ha
  obtain ⟨new, hnew, hb⟩ := Option.bind_eq_some_iff.mp hb
  obtain ⟨hfirst, hold⟩ := List.getElem?_eq_some_iff.mp hold
  obtain ⟨hsecond, hnew⟩ := List.getElem?_eq_some_iff.mp hnew
  have horder := List.pairwise_iff_getElem.mp h.produced_order first second hfirst hsecond hlt
  rw [hold, hnew] at horder
  exact horder a ha b hb

theorem inv_start : Inv start :=
  ⟨⟨rfl, rfl, rfl, fun _ h => absurd h List.not_mem_nil⟩, .nil,
    fun _ h => absurd h List.not_mem_nil, rfl⟩

theorem inv_step (s : System) (a : Action) (t : System) (hs : Inv s)
    (h : step refuses s a = some t) : Inv t := by
  cases a with
  | issue =>
    cases h
    exact ⟨hs.coherent, hs.produced_order, hs.arrived_valid, hs.seen⟩
  | produce response =>
    obtain ⟨hlater, ht⟩ := step_produce h
    rw [ht]
    refine ⟨hs.coherent, ?_, ?_, ?_⟩
    · refine List.pairwise_append.mpr ⟨hs.produced_order, List.pairwise_singleton _ _, ?_⟩
      intro old hold new hnew
      rw [List.mem_singleton.mp hnew]
      exact hlater old hold
    · intro index hindex
      rw [List.length_append]
      exact (hs.arrived_valid index hindex).trans_le (Nat.le_add_right _ _)
    · rw [hs.seen]
      refine List.filterMap_congr fun index hindex => ?_
      simp only [System.sample, List.getElem?_append_left (hs.arrived_valid index hindex)]
  | arrive index =>
    obtain ⟨response, hresponse, _, ht⟩ := step_arrive h
    rw [ht]
    refine ⟨coherent_update hs.coherent response, hs.produced_order, ?_, ?_⟩
    · intro other hother
      cases List.mem_append.mp hother with
      | inl hother => exact hs.arrived_valid other hother
      | inr hother =>
        rw [List.mem_singleton.mp hother]
        exact (List.getElem?_eq_some_iff.mp hresponse).1
    · have hsample : s.sample index = sampleOf response := by
        rw [System.sample, hresponse, Option.bind_some]
      have hseen : (s.view.update refuses response).seen =
          s.arrived.filterMap s.sample ++ (s.sample index).toList := by
        rw [← hs.seen, hsample]
        rfl
      have hone : [index].filterMap s.sample = (s.sample index).toList := by
        cases hrow : s.sample index <;> simp [hrow]
      rw [← hone, ← List.filterMap_append] at hseen
      exact hseen

theorem InOrder.le_last {samples : List PositionRow} (h : InOrder samples) {last : PositionRow}
    (hlast : samples.getLast? = some last) {row : PositionRow} (hrow : row ∈ samples) :
    row.time ≤ last.time := by
  obtain ⟨earlier, hsplit⟩ := List.getLast?_eq_some_iff.mp hlast
  rw [hsplit] at h hrow
  cases List.mem_append.mp hrow with
  | inl hrow => exact (List.pairwise_append.mp h).2.2 row hrow last List.mem_cons_self
  | inr hrow => rw [List.mem_singleton.mp hrow]

theorem drawn_order {w : Watched} (hw : Coherent w) (hdrawn : InOrder w.drawn)
    {response : Option Answer} (hseen : InOrder (w.update refuses response).seen) :
    InOrder (w.update refuses response).drawn := by
  refine List.pairwise_append.mpr ⟨hdrawn, ?_, fun old hold new hnew => ?_⟩
  · cases Option.filter _ _ with
    | none => exact .nil
    | some row => exact List.pairwise_singleton _ _
  · rw [Option.mem_toList] at hnew
    obtain ⟨hcurrent, _⟩ := Option.filter_eq_some_iff.mp hnew
    split at hcurrent
    · exact hseen.le_last hcurrent (List.mem_append_left _ (hw.drawn_seen old hold))
    · cases hcurrent

theorem chronological_start : Chronological start :=
  ⟨rfl, .nil, rfl, .nil, rfl, .nil⟩

theorem chronological_of {s : System} (hs : Inv s) (hseen : InOrder s.view.seen)
    (hdrawn : InOrder s.view.drawn) : Chronological s :=
  ⟨hs.coherent.position, hseen, hs.coherent.marker, hdrawn, hs.coherent.trajectory,
    hdrawn.sublist (lastN_sublist _ _)⟩

theorem chronological_step (s : System) (a : Action) (t : System) (hs : Inv s)
    (hordered : Chronological s) (h : step refuses s a = some t) :
    Chronological t ↔ NotOvertaken s a := by
  have ht : Inv t := inv_step s a t hs h
  cases a with
  | issue =>
    cases h
    have hkept := chronological_of ht hordered.position_order hordered.marker_order
    exact iff_of_true hkept trivial
  | produce response =>
    obtain ⟨_, heq⟩ := step_produce h
    rw [heq] at ht ⊢
    have hkept := chronological_of ht hordered.position_order hordered.marker_order
    exact iff_of_true hkept trivial
  | arrive index =>
    obtain ⟨response, hresponse, hnew, heq⟩ := step_arrive h
    have hsample : s.sample index = sampleOf response := by
      rw [System.sample, hresponse, Option.bind_some]
    have hseen : t.view.seen = s.view.seen ++ (s.sample index).toList := by
      rw [heq, hsample]
      rfl
    have hmem : ∀ b, b ∈ s.view.seen ↔ ∃ other ∈ s.arrived, s.sample other = some b := by
      intro b
      rw [hs.seen, List.mem_filterMap]
    constructor
    · intro hchronological a ha other hother _ b hb
      have horder := hchronological.position_order
      rw [hseen] at horder
      exact (List.pairwise_append.mp horder).2.2 b ((hmem b).mpr ⟨other, hother, hb⟩) a
        (Option.mem_toList.mpr ha)
    · intro hnot
      have horder : InOrder t.view.seen := by
        rw [hseen]
        refine List.pairwise_append.mpr ⟨hordered.position_order, ?_, fun b hb a ha => ?_⟩
        · cases s.sample index with
          | none => exact .nil
          | some row => exact List.pairwise_singleton _ _
        · obtain ⟨other, hother, hb⟩ := (hmem b).mp hb
          rw [Option.mem_toList] at ha
          rcases lt_trichotomy index other with hlater | hsame | hearlier
          · exact hnot a ha other hother hlater b hb
          · exact absurd (hsame ▸ hother) hnew
          · exact hs.sample_order hearlier hb ha
      have hview : t.view = s.view.update refuses response := by rw [heq]
      refine chronological_of ht horder ?_
      rw [hview] at horder ⊢
      exact drawn_order hs.coherent hordered.marker_order horder

/-- In every run, whatever requests are under way, the displayed telemetry never
goes back in time exactly when no answer arrives that was overtaken by one made
after it with a later sample. -/
theorem displayed_in_order_iff (refuses : LatLng → Bool) (acts : List Action) :
    EveryState (step refuses) Chronological start acts ↔
      EveryStep (step refuses) NotOvertaken start acts :=
  everyState_iff_everyStep inv_step chronological_step inv_start chronological_start acts

def positionAnswer (time : ℤ) : Option Answer :=
  some ⟨some ⟨time, some time, some 0, some 0⟩, none, none, none, none⟩

/-- Two requests are under way, and the answer to the first arrives last. -/
def overtaking : List Action :=
  [.issue, .issue, .produce (positionAnswer 1), .produce (positionAnswer 2), .arrive 1, .arrive 0]

/-- The page goes back to the first sample, and the trajectory with it. -/
theorem overtaken_answer_shown :
    (∃ s, run (step fun _ => false) start overtaking = some s ∧
      s.view.page.telemetry.position = some ⟨some 1, some 0, some 0⟩ ∧
      s.view.page.trajectoryPoints = [(some 2, some 0), (some 1, some 0)] ∧
      ¬ InOrder s.view.seen ∧ ¬ Chronological s) ∧
    ¬ ∀ acts, EveryState (step fun _ => false) Chronological start acts := by
  have hrun : ∃ s, run (step fun _ => false) start overtaking = some s ∧
      s.view.page.telemetry.position = some ⟨some 1, some 0, some 0⟩ ∧
      s.view.page.trajectoryPoints = [(some 2, some 0), (some 1, some 0)] ∧
      ¬ InOrder s.view.seen := by
    refine ⟨_, rfl, rfl, rfl, ?_⟩
    unfold InOrder
    decide
  obtain ⟨s, hreached, hposition, hpoints, horder⟩ := hrun
  have hnot : ¬ Chronological s := fun h => horder h.position_order
  exact ⟨⟨s, hreached, hposition, hpoints, horder, hnot⟩,
    fun h => hnot (everyState_last (h overtaking) hreached)⟩

end Cherum.DisplayedTelemetry
