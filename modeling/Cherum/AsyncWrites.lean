import Cherum.ActionRuns
import Cherum.TelemetryStore

/-! The store together with the database behind the asynchronous write API: a
write that returns is only a request handed to a thread pool, and the database
accepts or refuses it later, in any order. Nothing takes the points of a refused
request back, so a point leaves the buffer safely exactly when no request is
refused. -/

namespace Cherum.AsyncWrites
open ActionRuns
open TelemetryStore hiding flush append

inductive Outcome
  | unknown
  | accepted
  | refused
  deriving DecidableEq, Repr

structure Request where
  points : List Point
  outcome : Outcome

structure Config where
  store : Store
  requests : List Request
  /-- Every point a `store_*` call ever stored. -/
  stored : List Point

inductive Action
  | store (point : Point) (call : Call)
  | flush (call : Call)
  | resolve (i : ℕ) (accepted : Bool)

def initial (now : ℤ) : Config := ⟨TelemetryStore.new now, [], []⟩

def handedOver (before after : Store) : List Request :=
  (after.written.drop before.written.length).map fun batch => ⟨batch, .unknown⟩

def resolved (accepted : Bool) (request : Request) : Request :=
  { request with outcome := if accepted then .accepted else .refused }

def step (c : Config) : Action → Option Config
  | .store point call =>
    some { c with
      store := TelemetryStore.append point call c.store
      requests := c.requests ++ handedOver c.store (TelemetryStore.append point call c.store)
      stored := c.stored ++ [point] }
  | .flush call =>
    some { c with
      store := TelemetryStore.flush call c.store
      requests := c.requests ++ handedOver c.store (TelemetryStore.flush call c.store) }
  | .resolve i accepted =>
    match c.requests[i]? with
    | some request =>
      if request.outcome = .unknown then
        some { c with requests := c.requests.set i (resolved accepted request) }
      else none
    | none => none

def inRequests (outcome : Outcome) (requests : List Request) : Multiset Point :=
  ((requests.filter (·.outcome = outcome)).flatMap Request.points : List Point)

/-- Each point ever stored is in the buffer, in a request whose outcome is not
known yet, or accepted by the database. -/
def Kept (c : Config) : Prop :=
  (c.stored : Multiset Point) ≤
    c.store.buffer + inRequests .unknown c.requests + inRequests .accepted c.requests

/-- Where the points are, refused requests included. -/
structure Conserved (c : Config) : Prop where
  nonempty : ∀ r ∈ c.requests, r.points ≠ []
  total : (c.stored : Multiset Point) =
    c.store.buffer + inRequests .unknown c.requests + inRequests .accepted c.requests +
      inRequests .refused c.requests

def Accepts (_ : Config) : Action → Prop
  | .resolve _ accepted => accepted = true
  | _ => True

theorem inRequests_append (outcome : Outcome) (first second : List Request) :
    inRequests outcome (first ++ second) = inRequests outcome first + inRequests outcome second := by
  simp [inRequests]

theorem inRequests_single (outcome : Outcome) (r : Request) :
    inRequests outcome [r] = if r.outcome = outcome then (r.points : Multiset Point) else 0 := by
  by_cases h : r.outcome = outcome <;> simp [inRequests, h]

theorem handedOver_same {before after : Store} (h : after.written = before.written) :
    handedOver before after = [] := by
  simp [handedOver, h]

theorem handedOver_batch {before after : Store} {batch : List Point}
    (h : after.written = before.written ++ [batch]) :
    handedOver before after = [⟨batch, .unknown⟩] := by
  simp [handedOver, h]

variable {c d : Config} {now : ℤ}

theorem conserved_initial (now : ℤ) : Conserved (initial now) :=
  ⟨fun _ hr => absurd hr List.not_mem_nil, rfl⟩

theorem conserved_handOver (added : List Point) (after : Store) (hc : Conserved c)
    (h : after.written = c.store.written ∧ after.buffer = c.store.buffer ++ added ∨
      after.written = c.store.written ++ [c.store.buffer ++ added] ∧ after.buffer = [] ∧
        c.store.buffer ++ added ≠ []) :
    Conserved ⟨after, c.requests ++ handedOver c.store after, c.stored ++ added⟩ := by
  have htotal := hc.total
  rcases h with ⟨hwritten, hbuffer⟩ | ⟨hwritten, hbuffer, hne⟩
  · rw [handedOver_same hwritten, List.append_nil]
    refine ⟨hc.nonempty, ?_⟩
    simp only [← Multiset.coe_add, htotal, hbuffer]
    abel
  · rw [handedOver_batch hwritten]
    refine ⟨fun r hr => ?_, ?_⟩
    · cases List.mem_append.mp hr with
      | inl hr => exact hc.nonempty r hr
      | inr hr =>
        rw [List.mem_singleton.mp hr]
        exact hne
    · simp only [← Multiset.coe_add, htotal, hbuffer, inRequests_append, inRequests_single,
        if_true, reduceCtorEq, if_false, Multiset.coe_nil]
      abel

theorem conserved_step (c : Config) (a : Action) (d : Config) (hc : Conserved c)
    (h : step c a = some d) : Conserved d := by
  cases a with
  | store point call =>
    cases h
    refine conserved_handOver [point] _ hc ?_
    cases append_cases point call c.store with
    | inl heq => exact .inl ⟨by rw [heq], by rw [heq]⟩
    | inr heq => exact .inr ⟨by rw [heq], by rw [heq], by simp⟩
  | flush call =>
    cases h
    have hnone := conserved_handOver [] (TelemetryStore.flush call c.store) hc
    simp only [List.append_nil] at hnone
    refine hnone ?_
    cases flush_cases call c.store with
    | inl heq => exact .inl ⟨by rw [heq], by rw [heq]⟩
    | inr heq => exact .inr ⟨by rw [heq.2], by rw [heq.2], heq.1⟩
  | resolve i accepted =>
    simp only [step] at h
    split at h
    · next request hi =>
      split at h
      · next hunknown =>
        cases h
        obtain ⟨hlt, hget⟩ := List.getElem?_eq_some_iff.mp hi
        have hsplit : ∃ first rest, c.requests = first ++ c.requests[i] :: rest ∧
            first.length = i ∧ c.requests.set i (resolved accepted request) =
              first ++ resolved accepted request :: rest := List.exists_of_set hlt
        obtain ⟨first, rest, hsplit, _, hset⟩ := hsplit
        rw [hget] at hsplit
        have hnonempty := hc.nonempty
        have htotal := hc.total
        rw [hsplit] at hnonempty htotal
        rw [hset]
        refine ⟨fun q hq => ?_, ?_⟩
        · cases List.mem_append.mp hq with
          | inl hq => exact hnonempty q (List.mem_append_left _ hq)
          | inr hq =>
            cases List.mem_cons.mp hq with
            | inl hq =>
              rw [hq]
              exact hnonempty request (List.mem_append_right _ List.mem_cons_self)
            | inr hq =>
              exact hnonempty q (List.mem_append_right _ (List.mem_cons_of_mem _ hq))
        · rw [← List.singleton_append] at htotal
          simp only [inRequests_append, inRequests_single, hunknown, if_true, reduceCtorEq,
            if_false] at htotal
          rw [htotal, ← List.singleton_append]
          simp only [inRequests_append, inRequests_single, resolved]
          cases accepted <;> simp <;> abel
      · cases h
    · cases h

theorem kept_iff (hc : Conserved c) : Kept c ↔ ∀ r ∈ c.requests, r.outcome ≠ .refused := by
  unfold Kept
  rw [hc.total, add_le_iff_nonpos_right, Multiset.le_zero]
  simp only [inRequests, Multiset.coe_eq_zero, List.flatMap_eq_nil_iff, List.mem_filter,
    decide_eq_true_eq, and_imp]
  exact ⟨fun h r hr houtcome => hc.nonempty r hr (h r hr houtcome),
    fun h r hr houtcome => absurd houtcome (h r hr)⟩

theorem kept_step (c : Config) (a : Action) (d : Config) (hc : Conserved c) (hkept : Kept c)
    (h : step c a = some d) : Kept d ↔ Accepts c a := by
  have hd := conserved_step c a d hc h
  rw [kept_iff hd]
  have hkept := (kept_iff hc).mp hkept
  have hhanded : ∀ before after : Store, ∀ r ∈ handedOver before after, r.outcome ≠ .refused := by
    intro before after r hr
    obtain ⟨batch, _, hbatch⟩ := List.mem_map.mp hr
    simp [← hbatch]
  have hgrown : ∀ after : Store, ∀ r ∈ c.requests ++ handedOver c.store after,
      r.outcome ≠ .refused := by
    intro after r hr
    cases List.mem_append.mp hr with
    | inl hr => exact hkept r hr
    | inr hr => exact hhanded _ _ r hr
  cases a with
  | store point call =>
    cases h
    exact iff_of_true (hgrown _) trivial
  | flush call =>
    cases h
    exact iff_of_true (hgrown _) trivial
  | resolve i accepted =>
    simp only [step] at h
    split at h
    · next request hi =>
      split at h
      · cases h
        obtain ⟨hlt, _⟩ := List.getElem?_eq_some_iff.mp hi
        cases accepted with
        | true =>
          refine iff_of_true (fun r hr => ?_) rfl
          cases List.mem_or_eq_of_mem_set hr with
          | inl hr => exact hkept r hr
          | inr hr => simp [hr, resolved]
        | false =>
          refine iff_of_false (fun hall => ?_) Bool.false_ne_true
          exact hall _ (List.mem_set hlt _) rfl
      · cases h
    · cases h

/-- Along every run, all stored points are kept in every state exactly when the
database refuses no request. -/
theorem points_kept_iff (now : ℤ) (acts : List Action) :
    EveryState step Kept (initial now) acts ↔ EveryStep step Accepts (initial now) acts := by
  have hinitial : Kept (initial now) := (kept_iff (conserved_initial now)).mpr (by simp [initial])
  exact everyState_iff_everyStep conserved_step kept_step (conserved_initial now) hinitial acts

/-- One armed message is stored six seconds after the last flush, and the
database refuses the request: the point is gone from the buffer for good. -/
theorem point_lost_when_refused :
    ∃ c, run step (initial 0) [.store (armedPoint (.bool true) (.str "default"))
        ⟨6000000, 6000000, 6000000, .returned⟩, .resolve 0 false] = some c ∧
      c.stored = [armedPoint (.bool true) (.str "default")] ∧ c.store.buffer = [] ∧
      c.requests = [⟨[armedPoint (.bool true) (.str "default")], .refused⟩] ∧ ¬ Kept c := by
  refine ⟨_, rfl, rfl, rfl, rfl, fun hkept => ?_⟩
  have hcard := Multiset.card_le_card hkept
  exact absurd hcard (by decide)

end Cherum.AsyncWrites
