import Cherum.TelemetryRoutes

/-! Which authorised posts to `/telemetry` are acknowledged, and which are
stored. The branches for the five types end the handler's `if` chain without an
`else`, so a body of another type runs past it and is answered as received. -/

namespace Cherum.AcknowledgedTelemetry
open HttpMessages PythonFloat PythonJson TelemetryRoutes TelemetryStore

def types : List String := ["position", "battery", "flight_mode", "armed", "in_air"]

/-- If the body is an object with a type, it is one of the five. -/
def Recognised (body : Json) : Prop :=
  ∀ type, field? "type" body = some type → ∃ name ∈ types, type = .str name

/-- The answer `received` goes with exactly one new point, made from the body;
any other answer leaves the store as it was. -/
structure StoredAsAcknowledged (texts : Texts) (body : Json) (call : Call) (s : Store) : Prop where
  received_iff : (postTelemetry texts true (.json body) call s).1 = received ↔
    ∃ point, Describes texts body call.stamp point ∧
      (postTelemetry texts true (.json body) call s).2.points = s.points ++ [point]
  refused : (postTelemetry texts true (.json body) call s).1 ≠ received →
    (postTelemetry texts true (.json body) call s).2 = s

theorem status_ne_received {r : Response} (h : r.status ≠ 200) : r ≠ received :=
  fun heq => h (congrArg Response.status heq)

theorem points_ne_snoc {points : List Point} {point : Point} : points ≠ points ++ [point] := by
  intro heq
  have hlength := congrArg List.length heq
  simp at hlength

theorem post_cases (texts : Texts) (body : Json) (call : Call) (s : Store) :
    (∃ answer, answer ≠ received ∧ postTelemetry texts true (.json body) call s = (answer, s)) ∨
    (∃ point, Describes texts body call.stamp point ∧
      postTelemetry texts true (.json body) call s = (received, append point call s)) ∨
    dispatch texts body = .ok none := by
  simp only [postTelemetry, if_true]
  cases lacksType body with
  | error e => exact .inl ⟨internalServerError, status_ne_received (by decide), rfl⟩
  | ok lacks =>
    cases lacks with
    | true => exact .inl ⟨invalidData, status_ne_received (by decide), rfl⟩
    | false =>
      cases hdispatch : dispatch texts body with
      | error e => exact .inl ⟨failedToStore, status_ne_received (by decide), rfl⟩
      | ok method =>
        cases method with
        | none => exact .inr (.inr rfl)
        | some method =>
          obtain ⟨point, hdescribes, hmethod⟩ := dispatch_describes hdispatch
          refine .inr (.inl ⟨point call.stamp, hdescribes call.stamp, ?_⟩)
          rw [hmethod]

theorem dispatch_eq_none {texts : Texts} {body : Json} :
    dispatch texts body = .ok none ↔ ¬ Recognised body := by
  constructor
  · intro h hrecognised
    obtain ⟨droneId, _, h⟩ := bind_eq_ok.mp h
    obtain ⟨type, htype, h⟩ := bind_eq_ok.mp h
    obtain ⟨name, hname, heq⟩ := hrecognised type (getItem_eq_ok.mp htype)
    rw [heq] at h
    simp only [types, List.mem_cons, List.not_mem_nil, or_false] at hname
    rcases hname with hname | hname | hname | hname | hname <;> rw [hname] at h <;>
      simp [Json.isStr, bind_eq_ok, pure, Except.pure] at h
  · intro h
    simp only [Recognised, not_forall] at h
    obtain ⟨type, htype, hunknown⟩ := h
    have hne : ∀ name ∈ types, type.isStr name = false := by
      intro name hname
      refine Bool.eq_false_iff.mpr fun hstr => ?_
      exact hunknown ⟨name, hname, isStr_eq_true.mp hstr⟩
    simp only [types, List.forall_mem_cons] at hne
    obtain ⟨hposition, hbattery, hflightMode, harmed, hinAir, _⟩ := hne
    cases body with
    | obj fields =>
      have hitem : (Json.obj fields).getItem "type" = .ok type := getItem_eq_ok.mpr htype
      simp only [dispatch, Json.get, hitem, ok_bind, hposition, hbattery, hflightMode, harmed,
        hinAir, if_false, Bool.false_eq_true]
      rfl
    | _ => cases htype

theorem post_unrecognised {texts : Texts} {body : Json} (h : ¬ Recognised body) (call : Call)
    (s : Store) : postTelemetry texts true (.json body) call s = (received, s) := by
  have hdispatch : dispatch texts body = .ok none := dispatch_eq_none.mpr h
  simp only [Recognised, not_forall] at h
  obtain ⟨type, htype, _⟩ := h
  cases body with
  | obj fields =>
    have hlookup : fields.lookup "type" = some type := htype
    have hsome : (fields.lookup "type").isSome = true := by
      rw [hlookup]
      rfl
    have hlacks : lacksType (.obj fields) = .ok false := by
      cases fields with
      | nil => cases htype
      | cons first rest =>
        change Except.ok (!((first :: rest).lookup "type").isSome) = Except.ok false
        rw [hsome]
        rfl
    simp only [postTelemetry, if_true, hlacks, hdispatch]
  | _ => cases htype

/-- Posts are stored as acknowledged exactly when a type, where an object has
one, is one of the five. -/
theorem stored_as_acknowledged_iff (texts : Texts) (body : Json) (call : Call) (s : Store) :
    StoredAsAcknowledged texts body call s ↔ Recognised body := by
  constructor
  · intro h
    by_contra hunknown
    have hpost : postTelemetry texts true (.json body) call s = (received, s) :=
      post_unrecognised hunknown call s
    obtain ⟨point, _, hpoints⟩ := h.received_iff.mp (by rw [hpost])
    rw [hpost] at hpoints
    exact points_ne_snoc hpoints
  · intro hrecognised
    rcases post_cases texts body call s with ⟨answer, hanswer, hpost⟩ | ⟨point, hpoint, hpost⟩ | hnone
    · refine ⟨⟨fun hreceived => ?_, fun hstored => ?_⟩, fun _ => by rw [hpost]⟩
      · rw [hpost] at hreceived
        exact absurd hreceived hanswer
      · obtain ⟨point, _, hpoints⟩ := hstored
        rw [hpost] at hpoints
        exact (points_ne_snoc hpoints).elim
    · refine ⟨⟨fun _ => ⟨point, hpoint, ?_⟩, fun _ => by rw [hpost]⟩, fun hrefused => ?_⟩
      · rw [hpost]
        exact append_points point call s
      · rw [hpost] at hrefused
        exact absurd rfl hrefused
    · exact absurd hrecognised (dispatch_eq_none.mp hnone)

/-- A message of a type the handler does not know is acknowledged and lost. -/
theorem gps_lost :
    (∀ call s, postTelemetry noTexts true
      (.json (.obj [("type", .str "gps"), ("data", .obj [("fix", .int 3)])])) call s =
        (received, s)) ∧
    ¬ ∀ texts body call s, StoredAsAcknowledged texts body call s := by
  have hunknown : ¬ Recognised (.obj [("type", .str "gps"), ("data", .obj [("fix", .int 3)])]) := by
    intro h
    obtain ⟨name, hname, heq⟩ := h (.str "gps") rfl
    rw [← Json.str.inj heq] at hname
    revert hname
    decide
  refine ⟨fun call s => post_unrecognised hunknown call s, fun h => ?_⟩
  obtain ⟨point, _, hpoints⟩ := (h noTexts _ ⟨0, 0, 0, .returned⟩ (new 0)).received_iff.mp
    (congrArg Prod.fst (post_unrecognised hunknown _ _))
  rw [post_unrecognised hunknown] at hpoints
  exact points_ne_snoc hpoints

end Cherum.AcknowledgedTelemetry
