import Cherum.StoreRuns
import Cherum.TelemetryRoutes

/-! Authorised posts to `/telemetry` with any JSON body, one after the other,
each with the flush of its teardown, while the database takes whatever reaches
it. The client serialises all points of a write first and raises, sending none,
if a field value is an object or an array. The route checks no value and the
flush keeps the whole buffer when the write raises, so from the first such
point on everything stays in the buffer. -/

namespace Cherum.BlockedBuffer
open ActionRuns HttpMessages PythonJson TelemetryRoutes TelemetryStore
open StoreRuns (Due checkFlush_eq flush_offered)

def serialisable : Json → Bool
  | .arr _ => false
  | .obj _ => false
  | _ => true

def scalar : Json → Bool
  | .bool _ => true
  | .int _ => true
  | .float _ => true
  | .str _ => true
  | _ => false

def serialises (point : Point) : Bool := point.fields.all fun field => serialisable field.2

def ordinary (point : Point) : Bool := point.fields.all fun field => scalar field.2

def writeResult (points : List Point) : WriteResult :=
  if points.all serialises then .returned else .raised

/-- The call with the result that the write of these points has. -/
def settled (points : List Point) (call : Call) : Call := { call with result := writeResult points }

structure Post where
  body : Json
  call : Call
  closing : Call

/-- The store that a handler leaves if its write, should it make one, raises. -/
def offering (texts : Texts) (s : Store) (p : Post) : Store :=
  (postTelemetry texts true (.json p.body) { p.call with result := .raised } s).2

def handle (texts : Texts) (s : Store) (p : Post) : Store :=
  (postTelemetry texts true (.json p.body) (settled (offering texts s p).buffer p.call) s).2

def serve (texts : Texts) (s : Store) (p : Post) : Store :=
  close (settled (handle texts s p).buffer p.closing) (handle texts s p)

def posted (texts : Texts) (p : Post) : List Point :=
  (postTelemetry texts true (.json p.body) p.call (new 0)).2.points

def Flushes (texts : Texts) (s : Store) (p : Post) : Prop :=
  posted texts p ≠ [] ∧ Due p.call (offering texts s p)

/-- No flush of the request leaves an ordinary point behind, and the buffer is
short after it. -/
structure Unblocked (texts : Texts) (s : Store) (p : Post) : Prop where
  handlerFlush : Flushes texts s p → ∀ point ∈ (handle texts s p).buffer, ¬ ordinary point
  teardownFlush : ∀ point ∈ (serve texts s p).buffer, ¬ ordinary point
  short : (serve texts s p).buffer.length < 100

/-- From the first point that does not serialise on, there are fewer than 100
and no ordinary one. -/
def Harmless (points : List Point) : Prop :=
  (∀ point ∈ points.dropWhile serialises, ¬ ordinary point) ∧
    (points.dropWhile serialises).length < 100

variable {texts : Texts}

theorem flush_buffer (call : Call) (s : Store) :
    (flush (settled s.buffer call) s).buffer =
      if s.buffer.all serialises then [] else s.buffer := by
  by_cases hbuffer : s.buffer = []
  · simp [flush, hbuffer]
  · rw [flush_offered hbuffer, settled, writeResult]
    cases s.buffer.all serialises <;> rfl

theorem handle_cases (texts : Texts) (s : Store) (p : Post) :
    posted texts p = [] ∧ offering texts s p = s ∧ handle texts s p = s ∨
    ∃ point, posted texts p = [point] ∧
      offering texts s p = { s with buffer := s.buffer ++ [point] } ∧
      handle texts s p =
        checkFlush (settled (s.buffer ++ [point]) p.call)
          { s with buffer := s.buffer ++ [point] } := by
  unfold handle
  cases hcall : storeCall texts true (.json p.body) with
  | none =>
    have hposted : posted texts p = [] := by
      rw [posted, postTelemetry_store, hcall]
      rfl
    have hoffering : offering texts s p = s := by rw [offering, postTelemetry_store, hcall]
    refine .inl ⟨hposted, hoffering, ?_⟩
    rw [postTelemetry_store, hcall]
  | some method =>
    obtain ⟨point, hmethod⟩ := storeCall_append hcall
    have hposted : posted texts p = [point p.call.stamp] := by
      rw [posted, postTelemetry_store, hcall, hmethod]
      simp only [append_points]
      rfl
    have hoffering : offering texts s p = { s with buffer := s.buffer ++ [point p.call.stamp] } := by
      rw [offering, postTelemetry_store, hcall, hmethod]
      simp only [append, checkFlush, flush]
      split
      · split <;> rfl
      · rfl
    refine .inr ⟨point p.call.stamp, hposted, hoffering, ?_⟩
    rw [postTelemetry_store, hcall, hmethod, hoffering]
    rfl

theorem handle_buffer (texts : Texts) (s : Store) (p : Post) :
    (handle texts s p).buffer = s.buffer ++ posted texts p ∧
      (Flushes texts s p → (s.buffer ++ posted texts p).all serialises = false) ∨
    (handle texts s p).buffer = [] ∧ (s.buffer ++ posted texts p).all serialises = true := by
  rcases handle_cases texts s p with ⟨hposted, _, hhandle⟩ | ⟨point, hposted, hoffering, hhandle⟩
  · refine .inl ⟨by rw [hhandle, hposted, List.append_nil], fun hflushes => ?_⟩
    exact absurd hposted hflushes.1
  · rw [hhandle, hposted, checkFlush_eq]
    by_cases hdue : Due (settled (s.buffer ++ [point]) p.call)
        { s with buffer := s.buffer ++ [point] }
    · rw [if_pos hdue]
      have hflush := flush_buffer p.call { s with buffer := s.buffer ++ [point] }
      simp only at hflush
      cases hall : (s.buffer ++ [point]).all serialises with
      | true =>
        rw [hall, if_pos rfl] at hflush
        exact .inr ⟨hflush, rfl⟩
      | false =>
        rw [hall, if_neg Bool.false_ne_true] at hflush
        exact .inl ⟨hflush, fun _ => rfl⟩
    · rw [if_neg hdue]
      refine .inl ⟨rfl, fun hflushes => ?_⟩
      have hdue' := hflushes.2
      rw [hoffering] at hdue'
      exact absurd hdue' hdue

theorem serve_buffer (texts : Texts) (s : Store) (p : Post) :
    (serve texts s p).buffer =
      if (s.buffer ++ posted texts p).all serialises then [] else s.buffer ++ posted texts p := by
  have hclose : (serve texts s p).buffer =
      if (handle texts s p).buffer.all serialises then [] else (handle texts s p).buffer :=
    flush_buffer p.closing (handle texts s p)
  rw [hclose]
  rcases handle_buffer texts s p with ⟨hbuffer, _⟩ | ⟨hbuffer, hall⟩
  · rw [hbuffer]
  · rw [hbuffer, hall]
    rfl

/-- The request is unblocked exactly when what it leaves is harmless: the flush
of the handler leaves nothing that the teardown's does not leave. -/
theorem unblocked_iff (s : Store) (p : Post) :
    Unblocked texts s p ↔
      (∀ point ∈ (serve texts s p).buffer, ¬ ordinary point) ∧
        (serve texts s p).buffer.length < 100 := by
  refine ⟨fun h => ⟨h.teardownFlush, h.short⟩, fun h => ⟨fun hflushes => ?_, h.1, h.2⟩⟩
  have hleft := h.1
  rw [serve_buffer] at hleft
  rcases handle_buffer texts s p with ⟨hbuffer, hkept⟩ | ⟨hbuffer, _⟩
  · rw [hkept hflushes, if_neg Bool.false_ne_true] at hleft
    rw [hbuffer]
    exact hleft
  · rw [hbuffer]
    exact fun point hpoint => absurd hpoint List.not_mem_nil

theorem dropWhile_snoc {points added : List Point}
    (hadded : added = [] ∨ ∃ point, added = [point]) :
    (points ++ added).dropWhile serialises =
      if (points.dropWhile serialises ++ added).all serialises then []
      else points.dropWhile serialises ++ added := by
  rw [List.dropWhile_append]
  cases hkept : points.dropWhile serialises with
  | nil =>
    rcases hadded with hadded | ⟨point, hadded⟩
    · simp [hadded]
    · cases hpoint : serialises point <;> simp [hadded, hpoint]
  | cons bad rest =>
    have hbad : serialises bad = false := by
      have hne : points.dropWhile serialises ≠ [] := by simp [hkept]
      have hhead := List.head_dropWhile_not serialises hne
      simpa [hkept] using hhead
    simp [hbad]

theorem buffer_between (texts : Texts) (now : ℤ) (posts : List Post) :
    (posts.foldl (serve texts) (new now)).buffer =
      (posts.flatMap (posted texts)).dropWhile serialises := by
  induction posts using List.reverseRecOn with
  | nil => rfl
  | append_singleton posts p ih =>
    have hposted : posted texts p = [] ∨ ∃ point, posted texts p = [point] := by
      rcases handle_cases texts (new now) p with ⟨hposted, _⟩ | ⟨point, hposted, _⟩
      · exact .inl hposted
      · exact .inr ⟨point, hposted⟩
    rw [List.foldl_append, List.foldl_cons, List.foldl_nil, serve_buffer, ih, List.flatMap_append,
      List.flatMap_singleton, dropWhile_snoc hposted]

theorem harmless_nil : Harmless [] :=
  ⟨fun _ hpoint => absurd hpoint List.not_mem_nil, Nat.zero_lt_succ _⟩

theorem Harmless.of_append {first second : List Point} (h : Harmless (first ++ second)) :
    Harmless first := by
  unfold Harmless at h
  rw [List.dropWhile_append] at h
  by_cases hempty : (first.dropWhile serialises).isEmpty = true
  · unfold Harmless
    rw [List.isEmpty_iff.mp hempty]
    exact ⟨fun _ hpoint => absurd hpoint List.not_mem_nil, by decide⟩
  · rw [if_neg hempty, List.length_append] at h
    exact ⟨fun point hpoint => h.1 point (List.mem_append_left _ hpoint), by omega⟩

theorem unblocked_at_iff (now : ℤ) (earlier : List Post) (p : Post) :
    Unblocked texts (earlier.foldl (serve texts) (new now)) p ↔
      Harmless ((earlier ++ [p]).flatMap (posted texts)) := by
  have hbuffer := buffer_between texts now (earlier ++ [p])
  rw [List.foldl_append, List.foldl_cons, List.foldl_nil] at hbuffer
  rw [unblocked_iff, hbuffer]
  rfl

/-- Along every sequence of posts, no measurement is blocked exactly when what
follows the first value that cannot be serialised, that one included, is fewer
than 100 points and no ordinary one. -/
theorem unblocked_throughout_iff (texts : Texts) (now : ℤ) (posts : List Post) :
    Throughout (serve texts) (Unblocked texts) (new now) posts ↔
      Harmless (posts.flatMap (posted texts)) := by
  constructor
  · intro h
    cases List.eq_nil_or_concat posts with
    | inl hnil =>
      rw [hnil]
      exact harmless_nil
    | inr hlast =>
      obtain ⟨earlier, p, hposts⟩ := hlast
      rw [List.concat_eq_append] at hposts
      rw [hposts]
      exact (unblocked_at_iff now earlier p).mp (h earlier p [] hposts)
  · intro h earlier p later hsplit
    refine (unblocked_at_iff now earlier p).mpr ?_
    have hall : posts.flatMap (posted texts) =
        (earlier ++ [p]).flatMap (posted texts) ++ later.flatMap (posted texts) := by
      rw [hsplit, ← List.flatMap_append, List.append_assoc, List.singleton_append]
    rw [hall] at h
    exact h.of_append

def armedPost (armed : Json) : Post :=
  ⟨.obj [("type", .str "armed"), ("armed", armed)], ⟨0, 0, 0, .returned⟩, ⟨0, 0, 0, .returned⟩⟩

/-- An empty object as `armed`, and then an ordinary message: both are answered
as received, and from then on neither leaves the buffer. -/
theorem armed_blocked :
    (∀ armed s, (postTelemetry noTexts true (.json (armedPost armed).body)
      (armedPost armed).call s).1 = received) ∧
    ([armedPost (.obj []), armedPost (.bool true)].foldl (serve noTexts) (new 0)).buffer =
      [armedPoint (.obj []) (.str "default"), armedPoint (.bool true) (.str "default")] ∧
    ¬ Throughout (serve noTexts) (Unblocked noTexts) (new 0)
      [armedPost (.obj []), armedPost (.bool true)] := by
  have hposted : ∀ armed, posted noTexts (armedPost armed) = [armedPoint armed (.str "default")] :=
    fun _ => rfl
  refine ⟨fun _ _ => rfl, ?_, fun h => ?_⟩
  · rw [buffer_between]
    simp [hposted, serialises, serialisable, armedPoint]
  · have hblocked := (unblocked_at_iff 0 [armedPost (.obj [])] _).mp (h _ _ [] rfl)
    have hordinary := hblocked.1 (armedPoint (.bool true) (.str "default")) (by
      simp [hposted, serialises, serialisable, armedPoint])
    exact hordinary rfl

end Cherum.BlockedBuffer
