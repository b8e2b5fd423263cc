import Cherum.ActionRuns
import Cherum.TelemetryStore

/-! Whole runs of the store in the hands of one caller: `store_*` calls and
flushes in any order, at any clock readings, with writes that return or raise.
What the calls stored is what was written followed by the buffer; when a write
is made is decided by the size of the buffer and the seconds since the last
one, of which the code counts those within a day only. -/

namespace Cherum.StoreRuns
open ActionRuns PythonJson TelemetryStore

inductive Operation
  | storeArmed (armed droneId : Json)
  | storeInAir (inAir droneId : Json)
  | storePosition (lat lon alt : PyFloat) (droneId : Json)
  | storeBattery (batteryId percent droneId : Json)
  | storeFlightMode (mode droneId : Json)
  | flush

def perform (texts : Texts) (s : Store) : Operation × Call → Store
  | (.storeArmed armed droneId, call) => storeArmed armed droneId call s
  | (.storeInAir inAir droneId, call) => storeInAir inAir droneId call s
  | (.storePosition lat lon alt droneId, call) => storePosition lat lon alt droneId call s
  | (.storeBattery batteryId percent droneId, call) =>
    storeBattery texts batteryId percent droneId call s
  | (.storeFlightMode mode droneId, call) => storeFlightMode mode droneId call s
  | (.flush, call) => flush call s

def performAll (texts : Texts) (s : Store) (history : List (Operation × Call)) : Store :=
  history.foldl (perform texts) s

/-- The point a call stores, if it is a `store_*` call. -/
def point? (texts : Texts) : Operation × Call → Option Point
  | (.storeArmed armed droneId, _) => some (armedPoint armed droneId)
  | (.storeInAir inAir droneId, _) => some (inAirPoint inAir droneId)
  | (.storePosition lat lon alt droneId, call) =>
    some (positionPoint lat lon alt droneId call.stamp)
  | (.storeBattery batteryId percent droneId, call) =>
    some (batteryPoint texts batteryId percent droneId call.stamp)
  | (.storeFlightMode mode droneId, call) => some (flightModePoint mode droneId call.stamp)
  | (.flush, _) => none

/-- The points the store calls of a history create, in call order. -/
def created (texts : Texts) (history : List (Operation × Call)) : List Point :=
  history.filterMap (point? texts)

def Due (call : Call) (s : Store) : Prop :=
  bufferSize ≤ s.buffer.length ∨ flushInterval ≤ seconds (call.checked - s.lastFlush)

instance (call : Call) (s : Store) : Decidable (Due call s) := inferInstanceAs (Decidable (_ ∨ _))

def grown (texts : Texts) (s : Store) (a : Operation × Call) : List Point :=
  s.buffer ++ (point? texts a).toList

/-- The call reaches `write_api.write`, with the grown buffer. -/
def Offers (texts : Texts) (s : Store) (a : Operation × Call) : Prop :=
  match point? texts a with
  | some point => Due a.2 { s with buffer := s.buffer ++ [point] }
  | none => s.buffer ≠ []

instance (texts : Texts) (s : Store) (a : Operation × Call) : Decidable (Offers texts s a) := by
  unfold Offers
  split <;> infer_instance

variable {texts : Texts}

theorem perform_store {s : Store} {a : Operation × Call} {point : Point}
    (h : point? texts a = some point) : perform texts s a = append point a.2 s := by
  obtain ⟨operation, call⟩ := a
  cases operation <;> cases h <;> rfl

theorem perform_flush {s : Store} {a : Operation × Call} (h : point? texts a = none) :
    perform texts s a = flush a.2 s := by
  obtain ⟨operation, call⟩ := a
  cases operation <;> cases h
  rfl

theorem offers_store {s : Store} {a : Operation × Call} {point : Point}
    (h : point? texts a = some point) :
    Offers texts s a ↔ Due a.2 { s with buffer := s.buffer ++ [point] } := by
  unfold Offers
  rw [h]

theorem offers_flush {s : Store} {a : Operation × Call} (h : point? texts a = none) :
    Offers texts s a ↔ s.buffer ≠ [] := by
  unfold Offers
  rw [h]

theorem checkFlush_eq (call : Call) (s : Store) :
    checkFlush call s = if Due call s then flush call s else s := rfl

theorem flush_offered {call : Call} {s : Store} (h : s.buffer ≠ []) :
    flush call s =
      match call.result with
      | .returned => { s with
          buffer := [], lastFlush := call.flushed, written := s.written ++ [s.buffer] }
      | .raised => s := by
  have hbuffer : s.buffer.isEmpty = false := List.isEmpty_eq_false_iff.mpr h
  rw [flush, hbuffer]
  rfl

theorem perform_kept {s : Store} {a : Operation × Call} (h : ¬ Offers texts s a) :
    perform texts s a = { s with buffer := grown texts s a } := by
  cases hpoint : point? texts a with
  | some point =>
    rw [offers_store hpoint] at h
    rw [perform_store hpoint, grown, hpoint, append, checkFlush_eq, if_neg h]
    rfl
  | none =>
    rw [offers_flush hpoint, not_not] at h
    rw [perform_flush hpoint, grown, hpoint, flush, h]
    simp only [List.isEmpty_nil, if_true, Option.toList_none, List.append_nil]
    rw [← h]

theorem perform_offered {s : Store} {a : Operation × Call} (h : Offers texts s a) :
    grown texts s a ≠ [] ∧ perform texts s a =
      match a.2.result with
      | .returned => { s with
          buffer := [], lastFlush := a.2.flushed, written := s.written ++ [grown texts s a] }
      | .raised => { s with buffer := grown texts s a } := by
  cases hpoint : point? texts a with
  | some point =>
    rw [offers_store hpoint] at h
    have hgrown : grown texts s a = s.buffer ++ [point] := by rw [grown, hpoint, Option.toList_some]
    have hne : s.buffer ++ [point] ≠ [] := by simp
    rw [perform_store hpoint, hgrown, append, checkFlush_eq, if_pos h, flush_offered hne]
    exact ⟨hne, rfl⟩
  | none =>
    rw [offers_flush hpoint] at h
    have hgrown : grown texts s a = s.buffer := by
      rw [grown, hpoint, Option.toList_none, List.append_nil]
    rw [perform_flush hpoint, hgrown, flush_offered h]
    exact ⟨h, rfl⟩

def WriteReturns (texts : Texts) (s : Store) (a : Operation × Call) : Prop :=
  Offers texts s a → a.2.result = .returned

theorem perform_returned {s : Store} {a : Operation × Call} (h : Offers texts s a)
    (hreturned : a.2.result = .returned) :
    perform texts s a = { s with
      buffer := [], lastFlush := a.2.flushed, written := s.written ++ [grown texts s a] } := by
  rw [(perform_offered h).2, hreturned]

theorem perform_raised {s : Store} {a : Operation × Call} (h : Offers texts s a)
    (hraised : a.2.result = .raised) :
    perform texts s a = { s with buffer := grown texts s a } := by
  rw [(perform_offered h).2, hraised]

/-- The ways a call can go: the buffer grows, or it is written as a whole. -/
theorem perform_cases (texts : Texts) (s : Store) (a : Operation × Call) :
    perform texts s a = { s with buffer := grown texts s a } ∧
      (Offers texts s a → a.2.result = .raised) ∨
    perform texts s a = { s with
      buffer := [], lastFlush := a.2.flushed, written := s.written ++ [grown texts s a] } ∧
      Offers texts s a ∧ a.2.result = .returned ∧ grown texts s a ≠ [] := by
  by_cases h : Offers texts s a
  · cases hresult : a.2.result with
    | returned => exact .inr ⟨perform_returned h hresult, h, rfl, (perform_offered h).1⟩
    | raised => exact .inl ⟨perform_raised h hresult, fun _ => rfl⟩
  · exact .inl ⟨perform_kept h, fun hoffers => absurd hoffers h⟩

theorem perform_points (s : Store) (a : Operation × Call) :
    (perform texts s a).points = s.points ++ (point? texts a).toList := by
  rcases perform_cases texts s a with ⟨h, _⟩ | ⟨h, _⟩
  · rw [h, Store.points, Store.points, grown, List.append_assoc]
  · simp only [h, Store.points, grown, List.flatten_append, List.flatten_singleton,
      List.append_nil, List.append_assoc]

theorem performAll_points (s : Store) (history : List (Operation × Call)) :
    (performAll texts s history).points = s.points ++ created texts history := by
  induction history generalizing s with
  | nil => exact (List.append_nil _).symm
  | cons a rest ih =>
    have hrest := ih (perform texts s a)
    rw [perform_points, List.append_assoc] at hrest
    have hcreated : created texts (a :: rest) = (point? texts a).toList ++ created texts rest := by
      simp only [created, List.filterMap_cons]
      cases point? texts a <;> rfl
    rw [hcreated]
    exact hrest

theorem batch_ne_nil (now : ℤ) (history : List (Operation × Call)) :
    ∀ batch ∈ (performAll texts (new now) history).written, batch ≠ [] := by
  have hany : Throughout (perform texts) (fun _ _ => True) (new now) history :=
    fun _ _ _ _ => trivial
  apply foldl_invariant (I := fun s : Store => ∀ batch ∈ s.written, batch ≠ []) _ _ hany
  · intro s a _ hs
    rcases perform_cases texts s a with ⟨h, _⟩ | ⟨h, _, _, hne⟩
    · rw [h]
      exact hs
    · rw [h]
      intro batch hbatch
      cases List.mem_append.mp hbatch with
      | inl hbatch => exact hs batch hbatch
      | inr hbatch =>
        rw [List.mem_singleton.mp hbatch]
        exact hne
  · exact fun batch hbatch => absurd hbatch List.not_mem_nil

theorem length_lt_of_kept {s : Store} {a : Operation × Call} (hs : s.buffer.length < bufferSize)
    (h : ¬ Offers texts s a) : (grown texts s a).length < bufferSize := by
  cases hpoint : point? texts a with
  | some point =>
    rw [offers_store hpoint] at h
    rw [grown, hpoint, Option.toList_some]
    exact not_le.mp fun hfull => h (.inl hfull)
  | none =>
    rw [grown, hpoint, Option.toList_none, List.append_nil]
    exact hs

theorem buffer_lt (now : ℤ) (history : List (Operation × Call))
    (hwrites : Throughout (perform texts) (WriteReturns texts) (new now) history) :
    (performAll texts (new now) history).buffer.length < bufferSize := by
  apply foldl_invariant (I := fun s : Store => s.buffer.length < bufferSize) _ _ hwrites
  · intro s a hreturns hs
    by_cases h : Offers texts s a
    · rw [perform_returned h (hreturns h)]
      exact Nat.zero_lt_succ _
    · rw [perform_kept h]
      exact length_lt_of_kept hs h
  · exact Nat.zero_lt_succ _

/-- After every history the points stored are those of the returned writes and
then those of the buffer; no write is empty; the time of the last flush is the
time of a write that returned; and unless a write raised, the buffer is short. -/
theorem buffered_writing (texts : Texts) (now : ℤ) (history : List (Operation × Call)) :
    (performAll texts (new now) history).written.flatten ++
        (performAll texts (new now) history).buffer = created texts history ∧
    (∀ batch ∈ (performAll texts (new now) history).written, batch ≠ []) ∧
    (∀ a, (performAll texts (new now) (history ++ [a])).lastFlush ≠
        (performAll texts (new now) history).lastFlush →
      Offers texts (performAll texts (new now) history) a ∧ a.2.result = .returned) ∧
    (Throughout (perform texts) (WriteReturns texts) (new now) history →
      (performAll texts (new now) history).buffer.length < 100) := by
  refine ⟨performAll_points (new now) history, batch_ne_nil now history, ?_, buffer_lt now history⟩
  intro a hchanged
  rw [performAll, List.foldl_append] at hchanged
  rcases perform_cases texts (performAll texts (new now) history) a with ⟨h, _⟩ | ⟨_, hoffers⟩
  · exact absurd (congrArg Store.lastFlush h) hchanged
  · exact ⟨hoffers.1, hoffers.2.1⟩

def readings (a : Operation × Call) : List ℤ := [a.2.stamp, a.2.checked, a.2.flushed]

def Clocked (now : ℤ) (history : List (Operation × Call)) : Prop :=
  (now :: history.flatMap readings).Pairwise (· ≤ ·)

def elapsed (s : Store) (a : Operation × Call) : ℤ := a.2.checked - s.lastFlush

/-- A store call writes the buffer with its point and empties it when it holds
100 points or 5 seconds have passed since the last flush; otherwise it only
adds the point. -/
def FollowsPolicy (texts : Texts) (s : Store) (a : Operation × Call) : Prop :=
  ∀ point, point? texts a = some point →
    if 100 ≤ (s.buffer ++ [point]).length ∨ 5 * 1000000 ≤ elapsed s a then
      (perform texts s a).written = s.written ++ [s.buffer ++ [point]] ∧
        (perform texts s a).buffer = []
    else
      (perform texts s a).written = s.written ∧ (perform texts s a).buffer = s.buffer ++ [point]

/-- The pause is not one of whole days and less than 5 seconds, or the buffer is
full: a store call that does not overlook how long it has been. -/
def PauseSeen (texts : Texts) (s : Store) (a : Operation × Call) : Prop :=
  ∀ point, point? texts a = some point →
    elapsed s a < 86400 * 1000000 ∨ 5 * 1000000 ≤ elapsed s a % (86400 * 1000000) ∨
      100 ≤ (s.buffer ++ [point]).length

theorem lastFlush_mem (s : Store) (history : List (Operation × Call)) :
    (performAll texts s history).lastFlush ∈ s.lastFlush :: history.flatMap readings := by
  induction history generalizing s with
  | nil => exact List.mem_cons_self
  | cons a rest ih =>
    have hrest := ih (perform texts s a)
    have hfirst : (perform texts s a).lastFlush ∈ s.lastFlush :: readings a := by
      rcases perform_cases texts s a with ⟨h, _⟩ | ⟨h, _⟩
      · rw [h]
        exact List.mem_cons_self
      · rw [h]
        simp [readings]
    rw [List.flatMap_cons, ← List.cons_append]
    cases List.mem_cons.mp hrest with
    | inl heq =>
      refine List.mem_append_left _ ?_
      rw [performAll, List.foldl_cons]
      rw [performAll] at heq
      rw [heq]
      exact hfirst
    | inr hmem => exact List.mem_append_right _ hmem

theorem lastFlush_le {now : ℤ} {earlier later : List (Operation × Call)} {a : Operation × Call}
    (hclock : Clocked now (earlier ++ a :: later)) :
    (performAll texts (new now) earlier).lastFlush ≤ a.2.checked := by
  have hmem : (performAll texts (new now) earlier).lastFlush ∈ now :: earlier.flatMap readings :=
    lastFlush_mem (new now) earlier
  unfold Clocked at hclock
  rw [List.flatMap_append, ← List.cons_append] at hclock
  refine (List.pairwise_append.mp hclock).2.2 _ hmem a.2.checked ?_
  simp [readings]

theorem due_iff {call : Call} {s : Store} :
    Due call s ↔ 100 ≤ s.buffer.length ∨
      5 * 1000000 ≤ (call.checked - s.lastFlush) % (86400 * 1000000) := by
  unfold Due bufferSize flushInterval seconds
  omega

theorem followsPolicy_iff {s : Store} {a : Operation × Call} (hclock : s.lastFlush ≤ a.2.checked)
    (hwrites : WriteReturns texts s a) : FollowsPolicy texts s a ↔ PauseSeen texts s a := by
  refine forall₂_congr fun point hpoint => ?_
  have hgrown : grown texts s a = s.buffer ++ [point] := by rw [grown, hpoint, Option.toList_some]
  have hoffers := (offers_store (s := s) hpoint).trans due_iff
  change Offers texts s a ↔ 100 ≤ (s.buffer ++ [point]).length ∨
    5 * 1000000 ≤ elapsed s a % (86400 * 1000000) at hoffers
  have hpositive : 0 ≤ elapsed s a := sub_nonneg.mpr hclock
  by_cases h : Offers texts s a
  · have hthreshold := hoffers.mp h
    have hstated : 100 ≤ (s.buffer ++ [point]).length ∨ 5 * 1000000 ≤ elapsed s a := by omega
    rw [if_pos hstated, perform_returned h (hwrites h), hgrown]
    refine iff_of_true ⟨rfl, rfl⟩ ?_
    omega
  · have hthreshold := mt hoffers.mpr h
    rw [perform_kept h, hgrown]
    by_cases hstated : 100 ≤ (s.buffer ++ [point]).length ∨ 5 * 1000000 ≤ elapsed s a
    · rw [if_pos hstated]
      refine iff_of_false (fun hwritten => ?_) (by omega)
      exact List.append_ne_nil_of_right_ne_nil _ (List.cons_ne_nil _ _) hwritten.2
    · rw [if_neg hstated]
      exact iff_of_true ⟨rfl, rfl⟩ (by omega)

/-- Along a run with a clock that does not go backwards and writes that return,
every store call follows the policy exactly when none of them comes whole days
and less than 5 seconds after the last flush with room left in the buffer. -/
theorem flush_policy_iff (texts : Texts) (now : ℤ) (history : List (Operation × Call))
    (hclock : Clocked now history)
    (hwrites : Throughout (perform texts) (WriteReturns texts) (new now) history) :
    Throughout (perform texts) (FollowsPolicy texts) (new now) history ↔
      Throughout (perform texts) (PauseSeen texts) (new now) history := by
  have hstep : ∀ earlier a later, history = earlier ++ a :: later →
      (FollowsPolicy texts (performAll texts (new now) earlier) a ↔
        PauseSeen texts (performAll texts (new now) earlier) a) := by
    intro earlier a later hsplit
    rw [hsplit] at hclock
    exact followsPolicy_iff (lastFlush_le hclock) (hwrites earlier a later hsplit)
  constructor
  · exact fun h earlier a later hsplit => (hstep earlier a later hsplit).mp (h _ _ _ hsplit)
  · exact fun h earlier a later hsplit => (hstep earlier a later hsplit).mpr (h _ _ _ hsplit)

def armedAt (time : ℤ) : Operation × Call :=
  (.storeArmed (.bool true) (.str "default"), ⟨time, time, time, .returned⟩)

theorem flush_policy_after_six_seconds :
    Throughout (perform noTexts) (FollowsPolicy noTexts) (new 0) [armedAt 6000000] := by
  have hclock : Clocked 0 [armedAt 6000000] := by simp [Clocked, readings, armedAt]
  have hwrites : Throughout (perform noTexts) (WriteReturns noTexts) (new 0) [armedAt 6000000] :=
    throughout_cons.mpr ⟨fun _ => rfl, throughout_nil⟩
  have hseen : Throughout (perform noTexts) (PauseSeen noTexts) (new 0) [armedAt 6000000] :=
    throughout_cons.mpr ⟨fun _ _ => .inl (by decide), throughout_nil⟩
  exact (flush_policy_iff noTexts 0 _ hclock hwrites).mpr hseen

/-- A day and two seconds after the last flush a point is stored, and the store
takes it for two seconds: nothing is written. -/
theorem day_old_buffer_kept :
    Clocked 0 [armedAt 86402000000] ∧
    Throughout (perform noTexts) (WriteReturns noTexts) (new 0) [armedAt 86402000000] ∧
    (perform noTexts (new 0) (armedAt 86402000000)).written = [] ∧
    ¬ Throughout (perform noTexts) (FollowsPolicy noTexts) (new 0) [armedAt 86402000000] := by
  refine ⟨by simp [Clocked, readings, armedAt], ?_, rfl, fun h => ?_⟩
  · exact throughout_cons.mpr ⟨fun _ => rfl, throughout_nil⟩
  · have hfirst := (throughout_cons.mp h).1 _ rfl
    rw [if_pos (.inr (by decide))] at hfirst
    exact List.append_ne_nil_of_right_ne_nil _ (List.cons_ne_nil _ _) hfirst.1.symm

end Cherum.StoreRuns
